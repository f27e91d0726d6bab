import Mathlib.Data.Set.Basic

/-! What the key of a cached result leaves out. -/

namespace HlHelper.Library

variable {ι κ ο ν : Type*}

/-- Inputs with one key that agree on the covered views have one result. -/
def KeySound (key : ι → κ) (result : ι → ο) (agree : ν → ι → ι → Prop) (covered : Set ν) : Prop :=
  ∀ a b, key a = key b → (∀ view ∈ covered, agree view a b) → result a = result b

/-- Two inputs that one view alone tells apart, and the key does not. -/
structure Overlooked (key : ι → κ) (result : ι → ο) (agree : ν → ι → ι → Prop) (view : ν)
    (a b : ι) : Prop where
  sameKey : key a = key b
  others : ∀ other, other ≠ view → agree other a b
  differ : result a ≠ result b

variable {key : ι → κ} {result : ι → ο} {agree : ν → ι → ι → Prop}

theorem KeySound.mono {covered more : Set ν} (sound : KeySound key result agree covered)
    (inside : covered ⊆ more) : KeySound key result agree more :=
  fun a b same agreed => sound a b same fun view member => agreed view (inside member)

theorem KeySound.covers {covered : Set ν} (sound : KeySound key result agree covered) {view : ν}
    {a b : ι} (overlooked : Overlooked key result agree view a b) : view ∈ covered := by
  by_contra absent
  apply overlooked.differ
  apply sound a b overlooked.sameKey
  intro other member
  apply overlooked.others other
  intro same
  exact absent (same ▸ member)

theorem keySound_iff {covered : Set ν} (enough : KeySound key result agree Set.univ)
    (overlooked : ∀ view, ∃ a b, Overlooked key result agree view a b) :
    KeySound key result agree covered ↔ ∀ view, view ∈ covered := by
  constructor
  case mp =>
      intro sound view
      obtain ⟨a, b, missed⟩ := overlooked view
      exact sound.covers missed
  case mpr =>
      intro all
      exact enough.mono fun view _ => all view

end HlHelper.Library
