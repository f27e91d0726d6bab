import Mathlib.Data.List.Sort

/-! Waiting lines: entries with different keys, the least key in front. -/

namespace HlHelper.Library

structure WaitingLine (α : Type*) (key : α → Nat) where
  entries : List α
  increasing : entries.Pairwise (fun first second => key first < key second)

namespace WaitingLine

variable {α : Type*} {key : α → Nat}

instance : Membership α (WaitingLine α key) := ⟨fun line entry => entry ∈ line.entries⟩

@[simp] theorem mem_entries {line : WaitingLine α key} {entry : α} :
    entry ∈ line.entries ↔ entry ∈ line := Iff.rfl

def empty : WaitingLine α key := ⟨[], List.Pairwise.nil⟩

@[simp] theorem not_mem_empty (entry : α) : entry ∉ (empty : WaitingLine α key) :=
  List.not_mem_nil

theorem nodup (line : WaitingLine α key) : line.entries.Nodup := by
  refine line.increasing.imp ?_
  rintro first second less rfl
  exact Nat.lt_irrefl _ less

theorem ext_mem {first second : WaitingLine α key}
    (same : ∀ entry, entry ∈ first ↔ entry ∈ second) : first = second := by
  have perm : first.entries.Perm second.entries :=
    (List.perm_ext_iff_of_nodup first.nodup second.nodup).mpr same
  have equal : first.entries = second.entries :=
    perm.eq_of_pairwise (fun a b _ _ less greater => absurd less (Nat.lt_asymm greater))
      first.increasing second.increasing
  cases first
  cases second
  cases equal
  rfl

def head? (line : WaitingLine α key) : Option α := line.entries.head?

def tail (line : WaitingLine α key) : WaitingLine α key :=
  ⟨line.entries.tail, line.increasing.sublist (List.tail_sublist _)⟩

def keep (kept : α → Bool) (line : WaitingLine α key) : WaitingLine α key :=
  ⟨line.entries.filter kept, line.increasing.sublist List.filter_sublist⟩

theorem increasing_orderedInsert {entries : List α} {entry : α}
    (increasing : entries.Pairwise (fun first second => key first < key second))
    (fresh : ∀ other ∈ entries, key other ≠ key entry) :
    (entries.orderedInsert (fun a b => key a ≤ key b) entry).Pairwise
      (fun first second => key first < key second) := by
  induction entries with
  | nil => exact List.pairwise_singleton _ _
  | cons first rest ih =>
    obtain ⟨least, ordered⟩ := List.pairwise_cons.mp increasing
    obtain ⟨apart, others⟩ := List.forall_mem_cons.mp fresh
    rw [List.orderedInsert_cons]
    split
    · next front =>
      refine List.pairwise_cons.mpr ⟨fun other member => ?_, increasing⟩
      rcases List.mem_cons.mp member with rfl | later
      · omega
      · have := least other later
        omega
    · next behind =>
      refine List.pairwise_cons.mpr ⟨fun other member => ?_, ih ordered others⟩
      rcases (List.mem_orderedInsert _).mp member with rfl | later
      · omega
      · exact least other later

theorem orderedInsert_last {entries : List α} {entry : α}
    (last : ∀ other ∈ entries, key other < key entry) :
    entries.orderedInsert (fun a b => key a ≤ key b) entry = entries ++ [entry] := by
  induction entries with
  | nil => rfl
  | cons first rest ih =>
    obtain ⟨below, others⟩ := List.forall_mem_cons.mp last
    rw [List.orderedInsert_cons, if_neg (Nat.not_le.mpr below), ih others, List.cons_append]

/-- An entry joins at the place of its key, unless the key is taken. -/
def join (line : WaitingLine α key) (entry : α) : WaitingLine α key :=
  if fresh : ∀ other ∈ line.entries, key other ≠ key entry then
    ⟨line.entries.orderedInsert (fun a b => key a ≤ key b) entry,
      increasing_orderedInsert line.increasing fresh⟩
  else line

variable {line : WaitingLine α key} {entry other : α}

theorem mem_keep {kept : α → Bool} :
    entry ∈ line.keep kept ↔ entry ∈ line ∧ kept entry = true :=
  List.mem_filter

theorem mem_join (fresh : ∀ other ∈ line, key other ≠ key entry) :
    other ∈ line.join entry ↔ other = entry ∨ other ∈ line := by
  have entries : ∀ other ∈ line.entries, key other ≠ key entry := fresh
  rw [join, dif_pos entries]
  exact List.mem_orderedInsert _

/-- The entries of a list with different keys, in line. -/
def ofList (entries : List α) : WaitingLine α key := entries.foldl WaitingLine.join empty

theorem mem_foldl_join {entries : List α} {line : WaitingLine α key}
    (apart : (entries.map key).Nodup)
    (fresh : ∀ entry ∈ entries, ∀ other ∈ line, key other ≠ key entry) :
    other ∈ entries.foldl WaitingLine.join line ↔ other ∈ entries ∨ other ∈ line := by
  induction entries generalizing line with
  | nil => simp
  | cons first rest ih =>
    obtain ⟨absent, apart⟩ := List.nodup_cons.mp apart
    obtain ⟨front, fresh⟩ := List.forall_mem_cons.mp fresh
    rw [List.foldl_cons, ih apart, mem_join front, List.mem_cons]
    · tauto
    · intro entry member waiting inside
      rcases (mem_join front).mp inside with rfl | before
      · exact fun same => absent (List.mem_map.mpr ⟨entry, member, same.symm⟩)
      · exact fresh entry member waiting before

theorem mem_ofList {entries : List α} (apart : (entries.map key).Nodup) :
    other ∈ (ofList entries : WaitingLine α key) ↔ other ∈ entries := by
  rw [ofList, mem_foldl_join apart (fun _ _ _ member => absurd member (not_mem_empty _))]
  simp

theorem join_last (last : ∀ other ∈ line, key other < key entry) :
    (line.join entry).entries = line.entries ++ [entry] := by
  have fresh : ∀ other ∈ line.entries, key other ≠ key entry :=
    fun other member => Nat.ne_of_lt (last other member)
  rw [join, dif_pos fresh]
  exact orderedInsert_last last

theorem head?_eq_some :
    line.head? = some entry ↔ entry ∈ line ∧ ∀ other ∈ line, key entry ≤ key other := by
  obtain ⟨entries, increasing⟩ := line
  cases entries with
  | nil => simp [head?, ← mem_entries]
  | cons first rest =>
    have least := (List.pairwise_cons.mp increasing).1
    simp only [head?, List.head?_cons, Option.some.injEq]
    constructor
    · rintro rfl
      refine ⟨List.mem_cons_self, fun other member => ?_⟩
      rcases List.mem_cons.mp member with rfl | later
      · exact Nat.le_refl _
      · exact Nat.le_of_lt (least other later)
    · rintro ⟨member, lowest⟩
      rcases List.mem_cons.mp member with rfl | later
      · rfl
      · exact absurd (least entry later) (Nat.not_lt.mpr (lowest first List.mem_cons_self))

theorem head?_eq_none : line.head? = none ↔ ∀ entry, entry ∉ line := by
  rw [head?, List.head?_eq_none_iff, List.eq_nil_iff_forall_not_mem]
  rfl

theorem mem_tail : entry ∈ line.tail ↔ entry ∈ line ∧ line.head? ≠ some entry := by
  have once := line.nodup
  obtain ⟨entries, increasing⟩ := line
  cases entries with
  | nil => simp [tail, head?, ← mem_entries]
  | cons first rest =>
    have absent := (List.nodup_cons.mp once).1
    simp only [tail, head?, ← mem_entries, List.tail_cons, List.head?_cons, List.mem_cons,
      Option.some.injEq, ne_eq]
    constructor
    · intro later
      exact ⟨.inr later, fun same => absent (same ▸ later)⟩
    · rintro ⟨rfl | later, different⟩
      · exact absurd rfl different
      · exact later

end WaitingLine

end HlHelper.Library
