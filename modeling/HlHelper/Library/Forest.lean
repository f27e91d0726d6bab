import Mathlib.Logic.Function.Basic

/-! Parents: the ways up, the ways that end, and what becomes of both when one parent is set. -/

namespace HlHelper.Library

variable {α : Type*} {parent : α → Option α} {a b c g p : α}

inductive Rooted (parent : α → Option α) : α → Prop where
  | root {a : α} : parent a = none → Rooted parent a
  | child {a b : α} : parent a = some b → Rooted parent b → Rooted parent a

/-- What is met on the way up, the beginning itself first. -/
inductive Up (parent : α → Option α) (a : α) : α → Prop where
  | self : Up parent a a
  | next {b c : α} : Up parent a b → parent b = some c → Up parent a c

namespace Up

theorem trans (first : Up parent a b) (second : Up parent b c) : Up parent a c := by
  induction second with
  | self => exact first
  | next _ step ih => exact .next ih step

theorem of_parent (step : parent a = some b) (rest : Up parent b c) : Up parent a c :=
  (Up.next .self step).trans rest

theorem cases_head (way : Up parent a c) : a = c ∨ ∃ b, parent a = some b ∧ Up parent b c := by
  induction way with
  | self => exact .inl rfl
  | @next middle last way step ih =>
    rcases ih with rfl | ⟨second, first, rest⟩
    · exact .inr ⟨last, step, .self⟩
    · exact .inr ⟨second, first, .next rest step⟩

theorem closed {among : α → Prop} (way : Up parent a b) (start : among a)
    (next : ∀ x y, among x → parent x = some y → among y) : among b := by
  induction way with
  | self => exact start
  | next _ step ih => exact next _ _ ih step

end Up

namespace Rooted

theorem not_above_self (rooted : Rooted parent a) (step : parent a = some b) :
    ¬ Up parent b a := by
  induction rooted generalizing b with
  | root ends => exact absurd (step.symm.trans ends) nofun
  | @child a above first _ ih =>
    obtain rfl := Option.some.inj (first.symm.trans step)
    intro way
    rcases way.cases_head with rfl | ⟨second, next, rest⟩
    · exact ih first .self
    · exact ih next (.next rest first)

theorem root_above (rooted : Rooted parent a) : ∃ r, Up parent a r ∧ parent r = none := by
  induction rooted with
  | root ends => exact ⟨_, .self, ends⟩
  | child step _ ih =>
    obtain ⟨r, way, ends⟩ := ih
    exact ⟨r, .of_parent step way, ends⟩

end Rooted

section Update

variable [DecidableEq α]

theorem rooted_clear (rooted : Rooted parent a) :
    Rooted (Function.update parent g none) a := by
  induction rooted with
  | @root a ends =>
    refine .root ?_
    by_cases same : a = g
    · rw [same, Function.update_self]
    · rw [Function.update_of_ne same, ends]
  | @child a b step _ ih =>
    by_cases same : a = g
    · exact .root (by rw [same, Function.update_self])
    · exact .child (by rw [Function.update_of_ne same, step]) ih

theorem rooted_above (rooted : Rooted parent a) (way : Up parent p a) (outside : ¬ Up parent p g) :
    Rooted (Function.update parent g (some p)) a := by
  have apart : a ≠ g := fun same => outside (same ▸ way)
  induction rooted with
  | root ends => exact .root (by rw [Function.update_of_ne apart, ends])
  | @child a b step _ ih =>
    have higher : Up parent p b := way.next step
    refine .child (by rw [Function.update_of_ne apart, step]) (ih higher ?_)
    exact fun same => outside (same ▸ higher)

theorem rooted_update (all : ∀ a, Rooted parent a) (outside : ¬ Up parent p g) (a : α) :
    Rooted (Function.update parent g (some p)) a := by
  have moved : Rooted (Function.update parent g (some p)) g :=
    .child (Function.update_self ..) (rooted_above (all p) .self outside)
  induction all a with
  | @root a ends =>
    by_cases same : a = g
    · exact same ▸ moved
    · exact .root (by rw [Function.update_of_ne same, ends])
  | @child a b step _ ih =>
    by_cases same : a = g
    · exact same ▸ moved
    · exact .child (by rw [Function.update_of_ne same, step]) ih

theorem up_update (way : Up parent p g) : Up (Function.update parent g (some p)) p g := by
  have either : ∀ a, Up parent p a → Up (Function.update parent g (some p)) p g ∨
      Up (Function.update parent g (some p)) p a := by
    intro a way
    induction way with
    | self => exact .inr .self
    | @next b c _ step ih =>
      rcases ih with found | higher
      · exact .inl found
      · by_cases same : b = g
        · exact .inl (same ▸ higher)
        · exact .inr (higher.next (by rw [Function.update_of_ne same, step]))
  exact (either g way).elim id id

theorem all_rooted_update_iff (all : ∀ a, Rooted parent a) :
    (∀ a, Rooted (Function.update parent g (some p)) a) ↔ ¬ Up parent p g := by
  constructor
  · intro rooted way
    exact (rooted g).not_above_self (Function.update_self ..) (up_update way)
  · exact fun outside => rooted_update all outside

end Update

end HlHelper.Library
