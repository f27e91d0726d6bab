import HlHelper.Library.Rows

/-! Key–value buckets in key order: each key once, cursors see the entries from
the smallest key to the largest. -/

namespace HlHelper.Library

structure Bucket (κ ν : Type*) [LT κ] where
  entries : List (κ × ν)
  sorted : entries.Pairwise (fun first second => first.1 < second.1)

namespace Bucket

variable {κ ν : Type*} [LT κ]

@[ext] theorem ext {b c : Bucket κ ν} (same : b.entries = c.entries) : b = c := by
  cases b
  cases c
  cases same
  rfl

instance [DecidableEq κ] [DecidableEq ν] : DecidableEq (Bucket κ ν) := fun b c =>
  decidable_of_iff (b.entries = c.entries) ⟨ext, fun same => same ▸ rfl⟩

def empty : Bucket κ ν := ⟨[], List.Pairwise.nil⟩

instance : Inhabited (Bucket κ ν) := ⟨empty⟩

/-- `Cursor.First`. -/
def first? (b : Bucket κ ν) : Option (κ × ν) := b.entries.head?

/-- `Cursor.Last`. -/
def last? (b : Bucket κ ν) : Option (κ × ν) := b.entries.getLast?

section Order

variable [LE κ] [Std.LawfulOrderLT κ]

theorem unique (b : Bucket κ ν) : (b.entries.map Prod.fst).Nodup := by
  apply List.pairwise_map.mpr
  exact b.sorted.imp (fun less => Std.ne_of_lt less)

end Order

section Put

variable [LE κ] [Std.IsLinearOrder κ] [Std.LawfulOrderLT κ] [DecidableLT κ]

def put (b : Bucket κ ν) (key : κ) (value : ν) : Bucket κ ν where
  entries := b.entries.filter (fun entry => entry.1 < key) ++
    (key, value) :: b.entries.filter (fun entry => key < entry.1)
  sorted := by
    rw [List.pairwise_append, List.pairwise_cons]
    refine ⟨b.sorted.filter _, ⟨?_, b.sorted.filter _⟩, ?_⟩
    · intro entry member
      simpa using (List.mem_filter.mp member).2
    · intro entry before other after
      have less : entry.1 < key := by simpa using (List.mem_filter.mp before).2
      rcases List.mem_cons.mp after with rfl | after
      · exact less
      · have more : key < other.1 := by simpa using (List.mem_filter.mp after).2
        exact Std.lt_trans less more

theorem mem_entries_put {b : Bucket κ ν} {key : κ} {value : ν} {entry : κ × ν} :
    entry ∈ (b.put key value).entries ↔
      entry = (key, value) ∨ (entry ∈ b.entries ∧ entry.1 ≠ key) := by
  have apart : entry.1 ≠ key ↔ entry.1 < key ∨ key < entry.1 := by
    constructor
    · intro different
      rcases Std.lt_trichotomy entry.1 key with less | same | more
      · exact .inl less
      · exact absurd same different
      · exact .inr more
    · intro sides
      rcases sides with less | more
      · exact Std.ne_of_lt less
      · exact (Std.ne_of_lt more).symm
  rw [apart]
  simp only [put, List.mem_append, List.mem_cons, List.mem_filter, decide_eq_true_eq]
  tauto

theorem entries_put_last {b : Bucket κ ν} {key : κ} {value : ν}
    (largest : ∀ entry ∈ b.entries, entry.1 < key) :
    (b.put key value).entries = b.entries ++ [(key, value)] := by
  have before : b.entries.filter (fun entry => entry.1 < key) = b.entries := by
    rw [List.filter_eq_self]
    intro entry member
    simpa using largest entry member
  have after : b.entries.filter (fun entry => key < entry.1) = [] := by
    rw [List.filter_eq_nil_iff]
    intro entry member
    simpa using Std.not_lt.mpr (Std.le_of_lt (largest entry member))
  simp only [put, before, after]

end Put

variable [DecidableEq κ]

def get? (b : Bucket κ ν) (key : κ) : Option ν := (findKey Prod.fst b.entries key).map Prod.snd

def delete (b : Bucket κ ν) (key : κ) : Bucket κ ν :=
  ⟨b.entries.filter (fun entry => entry.1 ≠ key), b.sorted.filter _⟩

@[simp] theorem entries_delete (b : Bucket κ ν) (key : κ) :
    (b.delete key).entries = b.entries.filter (fun entry => entry.1 ≠ key) := rfl

theorem get?_eq_none_iff {b : Bucket κ ν} {key : κ} :
    b.get? key = none ↔ ∀ entry ∈ b.entries, entry.1 ≠ key := by
  rw [get?, Option.map_eq_none_iff, findKey_none, List.mem_map]
  push Not
  rfl

section Read

variable [LE κ] [Std.LawfulOrderLT κ]

theorem get?_eq_some_iff {b : Bucket κ ν} {key : κ} {value : ν} :
    b.get? key = some value ↔ (key, value) ∈ b.entries := by
  constructor
  · intro found
    obtain ⟨entry, inside, rfl⟩ := Option.map_eq_some_iff.mp found
    obtain ⟨member, rfl⟩ := findKey_some inside
    exact member
  · intro member
    have found : findKey Prod.fst b.entries key = some (key, value) :=
      (findKey_eq_some_iff b.unique).mpr ⟨member, rfl⟩
    rw [get?, found, Option.map_some]

theorem get?_delete (b : Bucket κ ν) (key other : κ) :
    (b.delete key).get? other = if other = key then none else b.get? other := by
  split
  · next same =>
    subst same
    apply get?_eq_none_iff.mpr
    simp
  · next different =>
    apply Option.ext
    intro value
    rw [get?_eq_some_iff, get?_eq_some_iff]
    simp [different]

theorem entries_delete_head {b : Bucket κ ν} {key : κ} {value : ν} {rest : List (κ × ν)}
    (shape : b.entries = (key, value) :: rest) : (b.delete key).entries = rest := by
  have sorted := b.sorted
  rw [shape, List.pairwise_cons] at sorted
  rw [entries_delete, shape, List.filter_cons_of_neg (by simp), List.filter_eq_self]
  intro entry member
  have greater := sorted.1 entry member
  simpa using (Std.ne_of_lt greater).symm

theorem get?_put [Std.IsLinearOrder κ] [DecidableLT κ] (b : Bucket κ ν) (key : κ) (value : ν)
    (other : κ) :
    (b.put key value).get? other = if other = key then some value else b.get? other := by
  split
  · next same =>
    subst same
    exact get?_eq_some_iff.mpr (mem_entries_put.mpr (.inl rfl))
  · next different =>
    apply Option.ext
    intro found
    rw [get?_eq_some_iff, get?_eq_some_iff, mem_entries_put]
    simp [different]

end Read

end Bucket

end HlHelper.Library
