import Mathlib.Algebra.GroupWithZero.Nat
import Mathlib.Data.List.Basic

/-! Lists of slots that are updated in place and grow at the end: what becomes of each. -/

namespace HlHelper.Library

variable {α : Type*} {R : α → α → Prop} {before after slots : List α}

def Onward (R : α → α → Prop) (before after : List α) : Prop :=
  ∀ (i : Nat) old, before[i]? = some old → ∃ new, after[i]? = some new ∧ R old new

namespace Onward

theorem refl (same : ∀ slot, R slot slot) (slots : List α) : Onward R slots slots :=
  fun _ slot there => ⟨slot, there, same slot⟩

theorem trans (chain : ∀ {old middle new}, R old middle → R middle new → R old new)
    {middle : List α} (first : Onward R before middle) (second : Onward R middle after) :
    Onward R before after := by
  intro i old there
  obtain ⟨between, here, started⟩ := first i old there
  obtain ⟨new, last, ended⟩ := second i between here
  exact ⟨new, last, chain started ended⟩

theorem append (same : ∀ slot, R slot slot) (slots more : List α) :
    Onward R slots (slots ++ more) := by
  intro i old there
  have known := (List.getElem?_eq_some_iff.mp there).1
  exact ⟨old, by rwa [List.getElem?_append_left known], same old⟩

theorem set (same : ∀ slot, R slot slot) {place : Nat} {old new : α}
    (turn : slots[place]? = some old) (related : R old new) :
    Onward R slots (slots.set place new) := by
  intro i slot there
  by_cases here : place = i
  · subst here
    obtain rfl := Option.some.inj (there.symm.trans turn)
    have inside := (List.getElem?_eq_some_iff.mp there).1
    exact ⟨new, List.getElem?_set_self inside, related⟩
  · exact ⟨slot, by rwa [List.getElem?_set_ne here], same slot⟩

theorem mem (onward : Onward R before after) {old : α} (member : old ∈ before) :
    ∃ new ∈ after, R old new := by
  obtain ⟨i, there⟩ := List.mem_iff_getElem?.mp member
  obtain ⟨new, here, related⟩ := onward i old there
  exact ⟨new, List.mem_of_getElem? here, related⟩

theorem back (onward : Onward R before after) {i : Nat} {new : α} (there : after[i]? = some new) :
    (∃ old, before[i]? = some old ∧ R old new) ∨ before.length ≤ i := by
  by_cases known : i < before.length
  · have here := List.getElem?_eq_getElem known
    obtain ⟨later, last, related⟩ := onward i _ here
    obtain rfl := Option.some.inj (last.symm.trans there)
    exact .inl ⟨_, here, related⟩
  · exact .inr (Nat.le_of_not_lt known)

end Onward

theorem getElem?_concat_of_le {i : Nat} {new slot : α}
    (there : (slots ++ [new])[i]? = some slot) (beyond : slots.length ≤ i) :
    i = slots.length ∧ slot = new := by
  rw [List.getElem?_append_right beyond, List.getElem?_singleton] at there
  split at there
  · next first => exact ⟨by omega, (Option.some.inj there).symm⟩
  · cases there

theorem getElem?_set_cases {i place : Nat} {new slot : α}
    (there : (slots.set place new)[i]? = some slot) :
    slots[i]? = some slot ∧ i ≠ place ∨ i = place ∧ slot = new := by
  by_cases same : place = i
  · subst same
    have inside : place < slots.length := by
      have := (List.getElem?_eq_some_iff.mp there).1
      rwa [List.length_set] at this
    rw [List.getElem?_set_self inside] at there
    exact .inr ⟨rfl, (Option.some.inj there).symm⟩
  · rw [List.getElem?_set_ne same] at there
    exact .inl ⟨there, Ne.symm same⟩

theorem sum_set_lt {weight : α → Nat} {place : Nat} {old new : α}
    (turn : slots[place]? = some old) (less : weight new < weight old) :
    ((slots.set place new).map weight).sum < (slots.map weight).sum := by
  induction slots generalizing place with
  | nil => cases turn
  | cons first rest ih =>
    cases place with
    | zero =>
      cases turn
      simp only [List.set_cons_zero, List.map_cons, List.sum_cons]
      exact Nat.add_lt_add_right less _
    | succ place =>
      simp only [List.set_cons_succ, List.map_cons, List.sum_cons]
      exact Nat.add_lt_add_left (ih turn) _

def Exclusive (idle : α → Prop) (slots : List α) : Prop :=
  ∀ (i j : Nat) first second, i ≠ j → slots[i]? = some first → slots[j]? = some second →
    idle first ∨ idle second

namespace Exclusive

variable {idle : α → Prop} {place : Nat} {old new : α}

theorem set (exclusive : Exclusive idle slots) (turn : slots[place]? = some old)
    (busy : idle new ∨ (idle old → idle new) ∨
      ∀ (j : Nat) other, j ≠ place → slots[j]? = some other → idle other) :
    Exclusive idle (slots.set place new) := by
  have against : ∀ (j : Nat) other, j ≠ place → slots[j]? = some other →
      idle new ∨ idle other := by
    intro j other apart there
    rcases busy with rests | kept | alone
    · exact .inl rests
    · exact (exclusive place j old other (Ne.symm apart) turn there).imp_left kept
    · exact .inr (alone j other apart there)
  have inside := (List.getElem?_eq_some_iff.mp turn).1
  intro i j first second different left right
  by_cases here : place = i
  · subst here
    rw [List.getElem?_set_self inside] at left
    cases left
    rw [List.getElem?_set_ne different] at right
    exact against j second (Ne.symm different) right
  · rw [List.getElem?_set_ne here] at left
    by_cases there : place = j
    · subst there
      rw [List.getElem?_set_self inside] at right
      cases right
      exact (against i first different left).symm
    · rw [List.getElem?_set_ne there] at right
      exact exclusive i j first second different left right

theorem concat (exclusive : Exclusive idle slots) (rests : idle new) :
    Exclusive idle (slots ++ [new]) := by
  have last : ∀ (i : Nat) slot, (slots ++ [new])[i]? = some slot →
      slots[i]? = some slot ∨ slot = new := by
    intro i slot there
    by_cases inside : i < slots.length
    · rw [List.getElem?_append_left inside] at there
      exact .inl there
    · rw [List.getElem?_append_right (Nat.le_of_not_lt inside)] at there
      exact .inr (List.mem_singleton.mp (List.mem_of_getElem? there))
  intro i j first second different left right
  rcases last i first left with before | rfl
  · rcases last j second right with beforeToo | rfl
    · exact exclusive i j first second different before beforeToo
    · exact .inr rests
  · exact .inl rests

end Exclusive

end HlHelper.Library
