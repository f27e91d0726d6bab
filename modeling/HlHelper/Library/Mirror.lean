import Mathlib.Data.Set.Insert

/-! A copy of what a table holds under each key, up to date outside a set of stale keys. -/

namespace HlHelper.Library

variable {κ α β : Type*}

def Mirrors (view : α → Option β) (source : κ → Option α) (copy : κ → Option β)
    (stale : Set κ) : Prop :=
  ∀ key, key ∉ stale → copy key = (source key).bind view

namespace Mirrors

variable {view : α → Option β} {source changed : κ → Option α} {copy renewed : κ → Option β}
  {stale : Set κ}

theorem change (mirrors : Mirrors view source copy stale) (key : κ)
    (elsewhere : ∀ other, other ≠ key → changed other = source other) :
    Mirrors view changed copy (insert key stale) := by
  intro other fresh
  obtain ⟨apart, before⟩ := not_or.mp fresh
  rw [elsewhere other apart]
  exact mirrors other before

theorem hidden (mirrors : Mirrors view source copy stale)
    (same : ∀ key, (changed key).bind view = (source key).bind view) :
    Mirrors view changed copy stale :=
  fun key fresh => (mirrors key fresh).trans (same key).symm

theorem refresh (mirrors : Mirrors view source copy stale) (key : κ)
    (here : renewed key = (source key).bind view)
    (elsewhere : ∀ other, other ≠ key → renewed other = copy other) :
    Mirrors view source renewed (stale \ {key}) := by
  intro other fresh
  by_cases same : other = key
  · exact same ▸ here
  · rw [elsewhere other same]
    exact mirrors other fun member => fresh ⟨member, same⟩

end Mirrors

end HlHelper.Library
