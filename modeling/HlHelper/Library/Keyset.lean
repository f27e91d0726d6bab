import Mathlib.Data.List.Sort
import Mathlib.Order.Defs.Unbundled

/-! Pages of rows in a strict order, each from behind the last row of the one before, while rows
come and go. -/

namespace HlHelper.Library.Keyset

variable {α : Type*} (lt : α → α → Prop) [DecidableRel lt]

def ordered (rows : List α) : List α := rows.insertionSort fun a b => ¬ lt b a

def behind (cursor : Option α) (rows : List α) : List α :=
  match cursor with
  | none => rows
  | some last => rows.filter (lt last ·)

/-- The first rows, with the last of them where there are more. -/
def page (limit : Nat) (rows : List α) : List α × Option α :=
  if limit < rows.length then (rows.take limit, (rows.take limit).getLast?) else (rows, none)

section Order

variable [IsStrictTotalOrder α lt] {rows front back : List α} {last : α}

omit [DecidableRel lt] in
theorem lt_of_ne_of_not_lt {a b : α} (other : a ≠ b) (before : ¬ lt b a) : lt a b := by
  rcases trichotomous_of lt a b with less | same | more
  · exact less
  · exact absurd same other
  · exact absurd more before

theorem pairwise_ordered (distinct : rows.Nodup) : (ordered lt rows).Pairwise lt := by
  have total : Std.Total fun a b => ¬ lt b a := by
    constructor
    intro a b
    by_cases less : lt b a
    · exact .inr (asymm_of lt less)
    · exact .inl less
  have trans : IsTrans α fun a b => ¬ lt b a := by
    constructor
    intro a b c first second less
    by_cases same : b = c
    · exact first (same ▸ less)
    · exact first (trans_of lt (lt_of_ne_of_not_lt lt same second) less)
  have sorted := List.pairwise_insertionSort (fun a b => ¬ lt b a) rows
  have apart : (ordered lt rows).Pairwise (· ≠ ·) :=
    (List.perm_insertionSort _ rows).nodup_iff.mpr distinct
  apply (sorted.and apart).imp
  exact fun ⟨before, other⟩ => lt_of_ne_of_not_lt lt other before

omit [DecidableRel lt] in
theorem nodup_of_sorted (sorted : rows.Pairwise lt) : rows.Nodup := by
  apply sorted.imp
  intro a b less same
  subst same
  exact irrefl_of lt a less

theorem ordered_eq (sorted : rows.Pairwise lt) {others : List α} (perm : others.Perm rows) :
    ordered lt others = rows := by
  have distinct := perm.nodup_iff.mpr (nodup_of_sorted lt sorted)
  apply List.Perm.eq_of_pairwise _ (pairwise_ordered lt distinct) sorted
  · exact (List.perm_insertionSort _ others).trans perm
  · exact fun a b _ _ less more => absurd more (asymm_of lt less)

end Order

/-- What a reader has seen, page by page, each of a table as it is then; and whether there was a
last page. -/
structure Walk (α : Type*) where
  seen : List α
  finished : Bool

def next (limit : Nat) (walk : Walk α) (rows : List α) : Option (Walk α) :=
  if walk.finished then none
  else
    let (items, last) := page limit (ordered lt (behind lt walk.seen.getLast? rows))
    some ⟨walk.seen ++ items, last.isNone⟩

section Walk

variable {limit : Nat} {rows : List α} {walk after : Walk α}

/-- A walk that has seen rows in order, and of some rows all those up to its last one. -/
structure Fair (kept : α → Prop) (walk : Walk α) : Prop where
  sorted : walk.seen.Pairwise lt
  whole : walk.finished = true → ∀ row, kept row → row ∈ walk.seen
  upTo : ∀ last ∈ walk.seen.getLast?, ∀ row, kept row → ¬ lt last row → row ∈ walk.seen

theorem page_cases (positive : 0 < limit) (found : List α) :
    found.length ≤ limit ∧ page limit found = (found, none) ∨
      limit < found.length ∧ ∃ front last, found.take limit = front ++ [last] ∧
        page limit found = (found.take limit, some last) := by
  unfold page
  by_cases more : limit < found.length
  case pos =>
    rw [if_pos more]
    have some_ : found.take limit ≠ [] := by
      intro nothing
      have length := congrArg List.length nothing
      rw [List.length_take, List.length_nil] at length
      omega
    obtain ⟨last, final⟩ := Option.isSome_iff_exists.mp (List.getLast?_isSome.mpr some_)
    obtain ⟨front, split⟩ := List.getLast?_eq_some_iff.mp final
    exact .inr ⟨more, front, last, split, by rw [final]⟩
  case neg =>
    rw [if_neg more]
    exact .inl ⟨not_lt.mp more, rfl⟩

theorem page_spec (positive : 0 < limit) (found : List α) :
    ∃ more, found = (page limit found).1 ++ more ∧
      ((page limit found).2 = none ∧ more = [] ∨
        (page limit found).2.isSome ∧ (page limit found).1.getLast? = (page limit found).2) := by
  rcases page_cases positive found with ⟨_, single⟩ | ⟨_, front, last, split, several⟩
  · rw [single]
    exact ⟨[], (List.append_nil found).symm, .inl ⟨rfl, rfl⟩⟩
  · rw [several]
    refine ⟨found.drop limit, (List.take_append_drop limit found).symm, .inr ⟨rfl, ?_⟩⟩
    rw [split, List.getLast?_concat]

omit [DecidableRel lt] in
theorem eq_or_lt_last (sorted : rows.Pairwise lt) {last row : α} (final : last ∈ rows.getLast?)
    (member : row ∈ rows) : row = last ∨ lt row last := by
  obtain ⟨front, rfl⟩ := List.getLast?_eq_some_iff.mp final
  rcases List.mem_append.mp member with before | here
  · exact .inr
      ((List.pairwise_append.mp sorted).2.2 row before last (List.mem_singleton_self last))
  · exact .inl (List.mem_singleton.mp here)

theorem lt_of_mem_behind {cursor : Option α} {last row : α} (own : last ∈ cursor)
    (member : row ∈ behind lt cursor rows) : lt last row := by
  obtain rfl := own
  exact of_decide_eq_true (List.mem_filter.mp member).2

theorem mem_behind_or_seen {kept : α → Prop} (fair : Fair lt kept walk) {row : α}
    (own : kept row) (there : row ∈ rows) :
    row ∈ walk.seen ∨ row ∈ behind lt walk.seen.getLast? rows := by
  cases final : walk.seen.getLast? with
  | none => exact .inr there
  | some last =>
    by_cases further : lt last row
    · exact .inr (List.mem_filter.mpr ⟨there, decide_eq_true further⟩)
    · exact .inl (fair.upTo last final row own further)

theorem lt_behind_seen [IsTrans α lt] (sorted : walk.seen.Pairwise lt) {row other : α}
    (seen : row ∈ walk.seen) (further : other ∈ behind lt walk.seen.getLast? rows) :
    lt row other := by
  cases final : walk.seen.getLast? with
  | none =>
    rw [List.getLast?_eq_none_iff.mp final] at seen
    exact absurd seen List.not_mem_nil
  | some last =>
    have beyond := lt_of_mem_behind lt final further
    rcases eq_or_lt_last lt sorted final seen with same | less
    · exact same ▸ beyond
    · exact trans_of lt less beyond

theorem fair_next [IsStrictTotalOrder α lt] {kept : α → Prop} (positive : 0 < limit)
    (fair : Fair lt kept walk) (there : ∀ row, kept row → row ∈ rows) (distinct : rows.Nodup)
    (stepped : next lt limit walk rows = some after) : Fair lt kept after := by
  unfold next at stepped
  split at stepped
  · cases stepped
  · have found_behind (row : α) : row ∈ ordered lt (behind lt walk.seen.getLast? rows) ↔
        row ∈ behind lt walk.seen.getLast? rows := List.mem_insertionSort _
    have apart : (behind lt walk.seen.getLast? rows).Nodup := by
      unfold behind
      split
      · exact distinct
      · exact distinct.filter _
    have sorted := pairwise_ordered lt apart
    obtain ⟨more, split, ends⟩ := page_spec positive
      (ordered lt (behind lt walk.seen.getLast? rows))
    generalize page limit (ordered lt (behind lt walk.seen.getLast? rows)) = result
      at stepped split ends
    obtain ⟨items, last⟩ := result
    cases stepped
    rw [split] at sorted found_behind
    obtain ⟨inside, _, between⟩ := List.pairwise_append.mp sorted
    have visited (row : α) (own : kept row) : row ∈ walk.seen ∨ row ∈ items ∨ row ∈ more := by
      rcases mem_behind_or_seen lt fair own (there row own) with seen | further
      · exact .inl seen
      · exact .inr (List.mem_append.mp ((found_behind row).mpr further))
    constructor
    case sorted =>
      apply List.pairwise_append.mpr
      refine ⟨fair.sorted, inside, ?_⟩
      intro row seen next_row member
      exact lt_behind_seen lt fair.sorted seen
        ((found_behind next_row).mp (List.mem_append_left _ member))
    case whole =>
      intro ended row own
      have none_ := Option.isNone_iff_eq_none.mp ended
      have all : more = [] := by
        rcases ends with ⟨_, all⟩ | ⟨some_, _⟩
        · exact all
        · rw [none_] at some_
          exact absurd some_ (by simp)
      rcases visited row own with seen | item | beyond
      · exact List.mem_append_left _ seen
      · exact List.mem_append_right _ item
      · rw [all] at beyond
        exact absurd beyond List.not_mem_nil
    case upTo =>
      intro end_ final row own before
      rcases visited row own with seen | item | beyond
      · exact List.mem_append_left _ seen
      · exact List.mem_append_right _ item
      · rcases ends with ⟨_, all⟩ | ⟨some_, own_last⟩
        · rw [all] at beyond
          exact absurd beyond List.not_mem_nil
        · obtain ⟨found_last, last_eq⟩ := Option.isSome_iff_exists.mp some_
          have same : (walk.seen ++ items).getLast? = some found_last := by
            rw [List.getLast?_append, own_last, last_eq]
            rfl
          obtain rfl := Option.some.inj (same.symm.trans final)
          have item := List.mem_of_getLast? (own_last.trans last_eq)
          exact absurd (between found_last item row beyond) before

end Walk

end HlHelper.Library.Keyset
