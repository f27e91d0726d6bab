import Mathlib.Data.List.Nodup

/-! Tables as lists of rows with a unique key: reading by key, and updating rows
in place. -/

namespace HlHelper.Library

variable {α β : Type*} {key : α → β} {rows : List α}

theorem key_injective (unique : (rows.map key).Nodup) {first second : α} (left : first ∈ rows)
    (right : second ∈ rows) (same : key first = key second) : first = second :=
  List.inj_on_of_nodup_map unique left right same

theorem unique_map {update : α → α} (unique : (rows.map key).Nodup)
    (kept : ∀ row, key (update row) = key row) : ((rows.map update).map key).Nodup := by
  have same : (rows.map update).map key = rows.map key := by
    rw [List.map_map]
    exact List.map_congr_left (fun row _ => kept row)
  rwa [same]

theorem unique_append {more : Option α} (unique : (rows.map key).Nodup)
    (fresh : ∀ row ∈ more, key row ∉ rows.map key) :
    ((rows ++ more.toList).map key).Nodup := by
  cases more with
  | none => simpa using unique
  | some row =>
    rw [Option.toList_some, List.map_append, List.map_singleton, List.nodup_append]
    refine ⟨unique, List.nodup_singleton _, fun first old second new same => ?_⟩
    rw [List.mem_singleton] at new
    exact fresh row rfl (new ▸ same ▸ old)

section Order

def putLast (kind : α → Bool) (rows : List α) : List α :=
  rows.filter (fun row => !kind row) ++ rows.filter kind

theorem putLast_perm (kind : α → Bool) (rows : List α) : (putLast kind rows).Perm rows :=
  List.perm_append_comm.trans (List.filter_append_perm kind rows)

theorem putLast_eq_concat [DecidableEq α] {last : α} (member : last ∈ rows) :
    ∃ front, putLast (fun row => row = last) rows = front ++ [last] := by
  obtain ⟨count, present⟩ : ∃ count, rows.count last = count + 1 :=
    Nat.exists_eq_succ_of_ne_zero (Nat.ne_of_gt (List.count_pos_iff.mpr member))
  refine ⟨rows.filter (fun row => !decide (row = last)) ++ List.replicate count last, ?_⟩
  rw [putLast, List.filter_eq, present, List.replicate_succ', List.append_assoc]

theorem eraseDups_of_all_eq {β : Type*} [DecidableEq β] {values : List β} {only : β}
    (some_ : values ≠ []) (all : ∀ value ∈ values, value = only) : values.eraseDups = [only] := by
  cases values with
  | nil => exact absurd rfl some_
  | cons first rest =>
    obtain rfl := all first List.mem_cons_self
    have others : rest.filter (fun value => !value == first) = [] := by
      refine List.filter_eq_nil_iff.mpr fun value member => ?_
      simp [all value (List.mem_cons_of_mem _ member)]
    rw [List.eraseDups_cons, others, List.eraseDups_nil]

theorem eraseDups_putLast {β : Type*} [DecidableEq β] {group : α → β} {last : α}
    (member : last ∈ rows) :
    ∃ front, ((putLast (fun row => group row = group last) rows).map group).eraseDups =
      front ++ [group last] := by
  rw [putLast, List.map_append, List.eraseDups_append]
  refine ⟨_, congrArg _ (eraseDups_of_all_eq ?_ ?_)⟩
  · apply List.ne_nil_of_mem
    rw [List.removeAll, List.mem_filter]
    refine ⟨List.mem_map_of_mem (List.mem_filter.mpr ⟨member, by simp⟩), ?_⟩
    simp
  · intro value inside
    obtain ⟨row, kept, rfl⟩ := List.mem_map.mp (List.mem_filter.mp inside).1
    simpa using (List.mem_filter.mp kept).2

end Order

section Find

variable [DecidableEq β]

def findKey (key : α → β) (rows : List α) (wanted : β) : Option α :=
  rows.find? (fun row => key row = wanted)

theorem findKey_some {wanted : β} {row : α} (found : findKey key rows wanted = some row) :
    row ∈ rows ∧ key row = wanted :=
  ⟨List.mem_of_find?_eq_some found, by simpa using List.find?_some found⟩

theorem findKey_none {wanted : β} :
    findKey key rows wanted = none ↔ wanted ∉ rows.map key := by
  simp [findKey, List.find?_eq_none]

theorem findKey_eq_some_iff (unique : (rows.map key).Nodup) {wanted : β} {row : α} :
    findKey key rows wanted = some row ↔ row ∈ rows ∧ key row = wanted := by
  constructor
  · exact findKey_some
  · rintro ⟨member, rfl⟩
    cases found : findKey key rows (key row) with
    | none => exact absurd (List.mem_map.mpr ⟨row, member, rfl⟩) (findKey_none.mp found)
    | some other =>
      obtain ⟨inside, same⟩ := findKey_some found
      rw [List.inj_on_of_nodup_map unique inside member same]

theorem findKey_append {more : List α} {wanted : β} :
    findKey key (rows ++ more) wanted = (findKey key rows wanted).or (findKey key more wanted) := by
  simp [findKey, List.find?_append]

theorem findKey_map {update : α → α} (kept : ∀ row, key (update row) = key row) {wanted : β} :
    findKey key (rows.map update) wanted = (findKey key rows wanted).map update := by
  rw [findKey, List.find?_map, findKey]
  congr 2
  funext row
  simp [kept]

theorem findKey_filter (unique : (rows.map key).Nodup) {kept : α → Bool} {wanted : β} :
    findKey key (rows.filter kept) wanted = (findKey key rows wanted).filter kept := by
  have fewer : ((rows.filter kept).map key).Nodup :=
    unique.sublist (List.filter_sublist.map key)
  apply Option.ext
  intro row
  rw [findKey_eq_some_iff fewer, Option.filter_eq_some_iff, findKey_eq_some_iff unique,
    List.mem_filter]
  exact and_right_comm

theorem filter_key_eq_singleton (unique : (rows.map key).Nodup) {row : α} (member : row ∈ rows) :
    rows.filter (fun other => key other = key row) = [row] := by
  induction rows with
  | nil => simp at member
  | cons first rest ih =>
    rw [List.map_cons, List.nodup_cons] at unique
    rcases List.mem_cons.mp member with rfl | later
    · have others : rest.filter (fun other => key other = key row) = [] := by
        refine List.filter_eq_nil_iff.mpr (fun other inside => ?_)
        simp only [decide_eq_true_eq]
        intro same
        exact unique.1 (List.mem_map.mpr ⟨other, inside, same⟩)
      simp [others]
    · have different : key first ≠ key row := by
        intro same
        exact unique.1 (List.mem_map.mpr ⟨row, later, same.symm⟩)
      rw [List.filter_cons_of_neg (by simpa using different)]
      exact ih unique.2 later

end Find

end HlHelper.Library
