import HlHelper.Audit.Chain
import HlHelper.Pagination.Cursor
import Mathlib.Data.Prod.Lex

/-! Pages visit every row once, where the cursor of each last row takes the rows behind it: where
its sort value comes back as itself and no `NULL` comes behind it. Rows that come and go between two
pages make no other row be passed over or shown again. -/

namespace HlHelper.Pagination

open HlHelper.Library

variable {V I : Type} [LinearOrder V] [LinearOrder I]

section Order

variable {T : Type} [LinearOrder T] {a b c : T} {descending : Bool}

theorem precedes_irrefl (descending : Bool) (a : T) : ¬ precedes descending a a := by
  unfold precedes
  split <;> exact lt_irrefl a

theorem precedes_trans (first : precedes descending a b) (second : precedes descending b c) :
    precedes descending a c := by
  unfold precedes at first second ⊢
  split at first
  · next down =>
    rw [if_pos down] at second ⊢
    exact second.trans first
  · next up =>
    rw [if_neg up] at second ⊢
    exact first.trans second

theorem precedes_total (descending : Bool) (a b : T) :
    precedes descending a b ∨ a = b ∨ precedes descending b a := by
  unfold precedes
  split
  · exact (lt_trichotomy b a).imp_right (Or.imp_left Eq.symm)
  · exact lt_trichotomy a b

variable {U : Type} [LinearOrder U] {x y z : U}

theorem lex_trans (first : precedes descending a b ∨ a = b ∧ precedes descending x y)
    (second : precedes descending b c ∨ b = c ∧ precedes descending y z) :
    precedes descending a c ∨ a = c ∧ precedes descending x z := by
  rcases first with less | ⟨rfl, less⟩
  · rcases second with more | ⟨rfl, _⟩
    · exact .inl (precedes_trans less more)
    · exact .inl less
  · exact second.imp_right fun ⟨same, more⟩ => ⟨same, precedes_trans less more⟩

theorem lex_total (descending : Bool) (a b : T) (x y : U) :
    (precedes descending a b ∨ a = b ∧ precedes descending x y) ∨ (a = b ∧ x = y) ∨
      (precedes descending b a ∨ b = a ∧ precedes descending y x) := by
  rcases precedes_total descending a b with less | rfl | more
  · exact .inl (.inl less)
  · rcases precedes_total descending x y with less | same | more
    · exact .inl (.inr ⟨rfl, less⟩)
    · exact .inr (.inl ⟨rfl, same⟩)
    · exact .inr (.inr (.inr ⟨rfl, more⟩))
  · exact .inr (.inr (.inl more))

end Order

section Unchanged

variable {column : Column V} {direction : Direction} {row last a b c : Row V I}

theorem before_irrefl (row : Row V I) : ¬ row.before direction row := by
  unfold Row.before
  cases row.sortValue with
  | none => exact precedes_irrefl _ _
  | some v => simp [precedes_irrefl]

theorem before_trans (first : a.before direction b) (second : b.before direction c) :
    a.before direction c := by
  obtain ⟨a, a_id⟩ := a
  obtain ⟨b, b_id⟩ := b
  obtain ⟨c, c_id⟩ := c
  cases b with
  | none =>
    cases a with
    | none =>
      cases c with
      | none => exact precedes_trans first second
      | some x => exact second
    | some v =>
      cases c with
      | none => exact first
      | some x => exact absurd (first.symm.trans second) nofun
  | some w =>
    cases a with
    | none =>
      cases c with
      | none => exact absurd (second.symm.trans first) nofun
      | some x => exact first
    | some v =>
      cases c with
      | none => exact second
      | some x => exact lex_trans first second

theorem before_total (a b : Row V I) :
    a.before direction b ∨ a = b ∨ b.before direction a := by
  obtain ⟨a, a_id⟩ := a
  obtain ⟨b, b_id⟩ := b
  unfold Row.before
  cases a with
  | none =>
    cases b with
    | none => simpa using precedes_total direction.descending a_id b_id
    | some w => cases own : direction.nullsFirst <;> simp
  | some v =>
    cases b with
    | none => cases own : direction.nullsFirst <;> simp
    | some w => simpa using lex_total direction.descending v w a_id b_id

instance (direction : Direction) : IsStrictTotalOrder (Row V I) (Row.before direction) where
  trichotomous a b first second := (before_total a b).resolve_left first |>.resolve_right second
  irrefl := before_irrefl
  trans _ _ _ := before_trans

/-- The rows that a statement with the cursor of a row takes. -/
def Column.Takes (column : Column V) (direction : Direction) (last row : Row V I) : Prop :=
  ∃ compared ∈ column.compared (column.cursor last).sortValue, row.behind direction compared last.id

instance (column : Column V) (direction : Direction) (last row : Row V I) :
    Decidable (column.Takes direction last row) :=
  inferInstanceAs (Decidable (∃ _ ∈ _, _))

theorem applyCursor_cursor (last : Row V I) (table : List (Row V I)) (limit : Nat) :
    applyCursor column direction table (some (column.cursor last)) limit =
      (column.compared (column.cursor last).sortValue).map fun _ =>
        (Keyset.ordered (Row.before direction)
          (table.filter (column.Takes direction last ·))).take (limit + 1) := by
  unfold applyCursor
  dsimp only
  cases answer : column.compared (column.cursor last).sortValue with
  | none => rfl
  | some compared =>
    have taken (row : Row V I) :
        column.Takes direction last row ↔ row.behind direction compared last.id := by
      simp [Column.Takes, answer]
    simp only [Option.map_some, taken]
    rfl

/-- The sort value of a row comes back as itself. -/
def Column.Returns (column : Column V) (row : Row V I) : Prop :=
  ∃ v ∈ row.sortValue, column.compared (column.json v) = some (compare · v)

theorem takes_iff (returns : column.Returns last) :
    column.Takes direction last row ↔ row.sortValue ≠ none ∧ last.before direction row := by
  obtain ⟨v, own, same⟩ := returns
  have answer : column.compared (column.cursor last).sortValue = some (compare · v) := by
    unfold Column.cursor
    rw [Option.mem_def.mp own]
    exact same
  obtain ⟨value, id⟩ := row
  obtain ⟨last_value, last_id⟩ := last
  obtain rfl : last_value = some v := own
  unfold Column.Takes Row.behind Row.before precedes
  rw [answer]
  cases value with
  | none => simp
  | some w =>
    cases direction.descending
    · simp [compare_gt_iff_gt, @eq_comm _ v w]
    · simp [compare_lt_iff_lt, @eq_comm _ v w]

omit [LinearOrder V] [LinearOrder I] in
theorem buildPage_take (found : List (Row V I)) (limit : Nat) :
    buildPage column (found.take (limit + 1)) limit =
      ⟨(Keyset.page limit found).1, (Keyset.page limit found).2.map column.cursor⟩ := by
  unfold buildPage Keyset.page
  by_cases more : limit < found.length
  · have longer : limit < (found.take (limit + 1)).length := by
      rw [List.length_take]
      omega
    rw [if_pos longer, if_pos more, List.take_take, Nat.min_eq_left (Nat.le_succ limit)]
  · have whole : found.take (limit + 1) = found := List.take_of_length_le (by omega)
    rw [whole, if_neg more, if_neg more]
    rfl

section Static

variable {limit fuel : Nat} {table front back : List (Row V I)}

/-- The end of a page with a next one. -/
def PageEnd (limit : Nat) (rows front : List (Row V I)) (last : Row V I) (back : List (Row V I)) :
    Prop :=
  rows = front ++ last :: back ∧ limit ∣ front.length + 1 ∧ back ≠ []

/-- A statement with the cursor of a row takes no row up to it, and of those behind it the next
page, with some row beyond that page if there is one. -/
structure Resumes (column : Column V) (direction : Direction) (limit : Nat)
    (front : List (Row V I)) (last : Row V I) (back : List (Row V I)) : Prop where
  none_again : ∀ row ∈ front ++ [last], ¬ column.Takes direction last row
  next : ∀ row ∈ back.take limit, column.Takes direction last row
  beyond : limit < back.length → ∃ row ∈ back.drop limit, column.Takes direction last row

def followFrom (column : Column V) (direction : Direction) (limit : Nat)
    (table : List (Row V I)) (fuel : Nat) (found : List (Row V I)) :
    Option (List (List (Row V I))) :=
  match (Keyset.page limit found).2 with
  | none => some [(Keyset.page limit found).1]
  | some last =>
    (follow column direction limit table fuel (some (column.cursor last))).map
      ((Keyset.page limit found).1 :: ·)

theorem follow_of_found {cursor : Option (Cursor I)} {found : List (Row V I)}
    (applied : applyCursor column direction table cursor limit = some (found.take (limit + 1))) :
    follow column direction limit table (fuel + 1) cursor =
      followFrom column direction limit table fuel found := by
  unfold follow request followFrom
  rw [applied, Option.map_some, buildPage_take]
  cases (Keyset.page limit found).2 <;> rfl

theorem follow_cursor : follow column direction limit table (fuel + 1) (some (column.cursor last)) =
    (column.compared (column.cursor last).sortValue).bind fun _ =>
      followFrom column direction limit table fuel (Keyset.ordered (Row.before direction)
        (table.filter (column.Takes direction last ·))) := by
  cases answer : column.compared (column.cursor last).sortValue with
  | none =>
    unfold follow request
    rw [applyCursor_cursor, answer]
    rfl
  | some compared =>
    apply follow_of_found
    rw [applyCursor_cursor, answer, Option.map_some]

theorem ordered_filter (distinct : table.Nodup) (taken : Row V I → Bool) :
    Keyset.ordered (Row.before direction) (table.filter taken) =
      (Keyset.ordered (Row.before direction) table).filter taken := by
  have sorted := Keyset.pairwise_ordered (Row.before direction) distinct
  have perm := List.perm_insertionSort (fun a b => ¬ Row.before direction b a) table
  exact Keyset.ordered_eq _ (sorted.filter taken) (perm.filter taken).symm

omit [LinearOrder V] [LinearOrder I] in
theorem filter_next {taken : Row V I → Bool} (next : ∀ row ∈ back.take limit, taken row) :
    back.filter taken = back.take limit ++ (back.drop limit).filter taken := by
  calc
    back.filter taken = (back.take limit ++ back.drop limit).filter taken := by
      rw [List.take_append_drop]
    _ = back.take limit ++ (back.drop limit).filter taken := by
      rw [List.filter_append, List.filter_eq_self.mpr next]

namespace Resumes

/-- The page behind the cursor is the next one. -/
theorem followFrom_eq (resumes : Resumes column direction limit front last back) :
    followFrom column direction limit table fuel
      ((front ++ last :: back).filter (column.Takes direction last ·)) =
        followFrom column direction limit table fuel back := by
  have none_again : (front ++ [last]).filter (column.Takes direction last ·) = [] :=
    List.filter_eq_nil_iff.mpr fun row member => by simpa using resumes.none_again row member
  have found : (front ++ last :: back).filter (column.Takes direction last ·) =
      back.take limit ++ (back.drop limit).filter (column.Takes direction last ·) := by
    rw [List.append_cons, List.filter_append, none_again, List.nil_append,
      filter_next fun row member => decide_eq_true (resumes.next row member)]
  have same : Keyset.page limit (back.take limit ++
      (back.drop limit).filter (column.Takes direction last ·)) = Keyset.page limit back := by
    unfold Keyset.page
    by_cases more : limit < back.length
    case neg =>
      rw [List.take_of_length_le (not_lt.mp more), List.drop_of_length_le (not_lt.mp more),
        List.filter_nil, List.append_nil, if_neg more, if_neg more]
    case pos =>
      obtain ⟨row, member, taken⟩ := resumes.beyond more
      have some_ : 0 < ((back.drop limit).filter (column.Takes direction last ·)).length :=
        List.length_pos_of_mem (List.mem_filter.mpr ⟨member, decide_eq_true taken⟩)
      have length : (back.take limit).length = limit := List.length_take_of_le more.le
      have longer : limit < (back.take limit ++
          (back.drop limit).filter (column.Takes direction last ·)).length := by
        rw [List.length_append, length]
        omega
      rw [if_pos longer, if_pos more, List.take_append_of_le_length length.ge, List.take_take,
        Nat.min_self]
  unfold followFrom
  rw [found, same]

/-- Only so are the pages from a cursor on the rows behind it. -/
theorem of_followFrom {pages : List (List (Row V I))} (positive : 0 < limit)
    (distinct : (front ++ last :: back).Nodup)
    (followed : followFrom column direction limit table fuel
      ((front ++ last :: back).filter (column.Takes direction last ·)) = some pages)
    (visited : pages.flatten = back) : Resumes column direction limit front last back := by
  rw [List.append_cons] at followed distinct
  generalize taken_eq : (fun row => decide (column.Takes direction last row)) = taken at followed
  have takes (row : Row V I) : column.Takes direction last row ↔ taken row := by
    rw [← taken_eq]
    exact decide_eq_true_iff.symm
  obtain ⟨_, _, apart⟩ := List.nodup_append.mp distinct
  have mem_found (row : Row V I) :
      row ∈ (front ++ [last] ++ back).filter taken ↔
        row ∈ front ++ [last] ++ back ∧ taken row := List.mem_filter
  unfold followFrom at followed
  rcases Keyset.page_cases positive ((front ++ [last] ++ back).filter taken) with
    ⟨few, single⟩ | ⟨more, page, final, _, several⟩
  case inl =>
    rw [single] at followed
    cases followed
    have whole : (front ++ [last] ++ back).filter taken = back := by simpa using visited
    refine ⟨?_, ?_, ?_⟩
    · intro row member again
      have twice := (mem_found row).mpr ⟨List.mem_append_left _ member, (takes row).mp again⟩
      rw [whole] at twice
      exact apart row member row twice rfl
    · intro row member
      have own := List.mem_of_mem_take member
      rw [← whole] at own
      exact (takes row).mpr ((mem_found row).mp own).2
    · intro more
      rw [whole] at few
      exact absurd more few.not_gt
  case inr =>
    rw [several] at followed
    obtain ⟨others, _, rfl⟩ := Option.map_eq_some_iff.mp followed
    rw [List.flatten_cons] at visited
    have none_again : (front ++ [last]).filter taken = [] := by
      apply List.eq_nil_iff_forall_not_mem.mpr
      intro row member
      obtain ⟨first, later, own⟩ := List.exists_cons_of_ne_nil (List.ne_nil_of_mem member)
      obtain ⟨less, rfl⟩ := Nat.exists_eq_succ_of_ne_zero positive.ne'
      rw [List.filter_append, own, List.cons_append, List.take_succ_cons] at visited
      have here : first ∈ front ++ [last] :=
        List.mem_of_mem_filter (own ▸ List.mem_cons_self : first ∈ (front ++ [last]).filter taken)
      exact apart first here first (visited ▸ List.mem_cons_self) rfl
    rw [List.filter_append, none_again, List.nil_append] at visited more
    have next : back.take limit = (back.filter taken).take limit := by
      conv_lhs => rw [← visited]
      rw [List.take_append_of_le_length (List.length_take_of_le more.le).ge, List.take_take,
        Nat.min_self]
    have next_taken (row : Row V I) (member : row ∈ back.take limit) : taken row := by
      rw [next] at member
      exact List.of_mem_filter (List.mem_of_mem_take member)
    refine ⟨?_, fun row member => (takes row).mpr (next_taken row member), ?_⟩
    · intro row member again
      have there := List.mem_filter.mpr ⟨member, (takes row).mp again⟩
      rw [none_again] at there
      exact absurd there List.not_mem_nil
    · intro _
      rw [filter_next next_taken, List.length_append, List.length_take] at more
      obtain ⟨row, member⟩ : ∃ row, row ∈ (back.drop limit).filter taken :=
        List.exists_mem_of_length_pos (by omega)
      obtain ⟨there, own⟩ := List.mem_filter.mp member
      exact ⟨row, there, (takes row).mpr own⟩

theorem of_returns (returns : column.Returns last)
    (sorted : (front ++ last :: back).Pairwise (Row.before direction))
    (valued : ∀ row ∈ back, row.sortValue ≠ none) :
    Resumes column direction limit front last back := by
  obtain ⟨_, rest, between⟩ := List.pairwise_append.mp sorted
  obtain ⟨behind, _⟩ := List.pairwise_cons.mp rest
  have taken (row : Row V I) (member : row ∈ back) : column.Takes direction last row :=
    (takes_iff returns).mpr ⟨valued row member, behind row member⟩
  refine ⟨?_, fun row member => taken row (List.mem_of_mem_take member), ?_⟩
  · intro row member again
    have after := ((takes_iff returns).mp again).2
    rcases List.mem_append.mp member with front | own
    · exact asymm_of _ after (between row front last List.mem_cons_self)
    · exact before_irrefl last (List.mem_singleton.mp own ▸ after)
  · intro more
    have some_ : 0 < (back.drop limit).length := by
      rw [List.length_drop]
      omega
    obtain ⟨row, member⟩ := List.exists_mem_of_length_pos some_
    exact ⟨row, member, taken row (List.mem_of_mem_drop member)⟩

end Resumes

/-- The pages from a cursor on are the rows behind it exactly if the next page is the next one, and
the pages from there on are the rows from there on. -/
theorem follow_cursor_iff (positive : 0 < limit) (distinct : table.Nodup) (some_ : back ≠ [])
    (split : Keyset.ordered (Row.before direction) table = front ++ last :: back) :
    (∃ fuel pages, follow column direction limit table fuel (some (column.cursor last)) =
        some pages ∧ pages.flatten = back) ↔
      Resumes column direction limit front last back ∧
        ∃ fuel pages, followFrom column direction limit table fuel back = some pages ∧
          pages.flatten = back := by
  have apart : (front ++ last :: back).Nodup :=
    split ▸ (List.perm_insertionSort _ table).nodup_iff.mpr distinct
  have found : Keyset.ordered (Row.before direction)
      (table.filter (column.Takes direction last ·)) =
        (front ++ last :: back).filter (column.Takes direction last ·) := by
    rw [ordered_filter distinct, split]
  constructor
  · intro ⟨fuel, pages, followed, visited⟩
    cases fuel with
    | zero => cases followed
    | succ fuel =>
      rw [follow_cursor, found] at followed
      obtain ⟨_, _, followed⟩ := Option.bind_eq_some_iff.mp followed
      have resumes := Resumes.of_followFrom positive apart followed visited
      rw [resumes.followFrom_eq] at followed
      exact ⟨resumes, fuel, pages, followed, visited⟩
  · intro ⟨resumes, fuel, pages, followed, visited⟩
    obtain ⟨row, rows, rfl⟩ := List.exists_cons_of_ne_nil some_
    obtain ⟨less, rfl⟩ := Nat.exists_eq_succ_of_ne_zero positive.ne'
    obtain ⟨compared, answer, _⟩ := resumes.next row List.mem_cons_self
    refine ⟨fuel + 1, pages, ?_, visited⟩
    rw [follow_cursor, Option.mem_def.mp answer, Option.bind_some, found, resumes.followFrom_eq]
    exact followed

omit [LinearOrder V] [LinearOrder I] in
/-- The pages from a page on: its own end, and the ends of the later ones. -/
theorem forall_pageEnd_iff {rows page : List (Row V I)} (positive : 0 < limit)
    (whole : limit ∣ front.length) (split : rows = front ++ page ++ last :: back)
    (size : (page ++ [last]).length = limit) (some_ : back ≠ [])
    (P : List (Row V I) → Row V I → List (Row V I) → Prop) :
    (∀ before end_ after, front.length ≤ before.length → PageEnd limit rows before end_ after →
        P before end_ after) ↔
      P (front ++ page) last back ∧ ∀ before end_ after,
        (front ++ page ++ [last]).length ≤ before.length → PageEnd limit rows before end_ after →
          P before end_ after := by
  have length : (front ++ page ++ [last]).length = front.length + limit := by
    rw [List.append_assoc, List.length_append, size]
  have here : PageEnd limit rows (front ++ page) last back := by
    refine ⟨split, ?_, some_⟩
    have sum : (front ++ page).length + 1 = front.length + limit := by
      rw [← length]
      simp [Nat.add_assoc]
    rw [sum]
    exact Nat.dvd_add whole (Nat.dvd_refl limit)
  constructor
  · intro all
    refine ⟨all _ _ _ (by rw [List.length_append]; omega) here, ?_⟩
    intro before end_ after further ending
    exact all before end_ after (by omega) ending
  · intro ⟨own, later⟩ before end_ after further ending
    by_cases beyond : front.length + limit ≤ before.length
    · exact later before end_ after (by omega) ending
    · have step : limit ∣ before.length + 1 - front.length := Nat.dvd_sub ending.2.1 whole
      have least := Nat.le_of_dvd (by omega) step
      have same : (front ++ page).length = before.length := by
        rw [List.length_append, List.length_singleton] at length
        omega
      obtain ⟨rfl, rest⟩ := List.append_inj (split.symm.trans ending.1) same
      cases rest
      exact own

theorem followFrom_iff (positive : 0 < limit) (distinct : table.Nodup) {rest : List (Row V I)}
    (whole : limit ∣ front.length)
    (split : Keyset.ordered (Row.before direction) table = front ++ rest) :
    (∃ fuel pages, followFrom column direction limit table fuel rest = some pages ∧
        pages.flatten = rest) ↔
      ∀ before end_ after, front.length ≤ before.length →
        PageEnd limit (Keyset.ordered (Row.before direction) table) before end_ after →
          Resumes column direction limit before end_ after := by
  generalize size : rest.length = n
  induction n using Nat.strong_induction_on generalizing front rest with
  | _ n ih =>
    rcases Keyset.page_cases positive rest with
      ⟨few, single⟩ | ⟨more, page, last, front_eq, several⟩
    case inl =>
      constructor
      · intro _ before end_ after further ⟨own, multiple, some_⟩
        have step : limit ∣ before.length + 1 - front.length := Nat.dvd_sub multiple whole
        have least := Nat.le_of_dvd (by omega) step
        have length := congrArg List.length (split.symm.trans own)
        have rest_ := List.length_pos_of_ne_nil some_
        simp only [List.length_append, List.length_cons] at length
        omega
      · intro _
        refine ⟨0, [rest], ?_, by simp⟩
        unfold followFrom
        rw [single]
    case inr =>
      have later : Keyset.ordered (Row.before direction) table =
          (front ++ page) ++ last :: rest.drop limit := by
        calc
          _ = front ++ (rest.take limit ++ rest.drop limit) := by
            rw [split, List.take_append_drop]
          _ = _ := by rw [front_eq]; simp
      have page_size : (page ++ [last]).length = limit := by
        rw [← front_eq, List.length_take_of_le more.le]
      have some_ : rest.drop limit ≠ [] := by
        simpa using more
      have next_whole : limit ∣ (front ++ page ++ [last]).length := by
        rw [List.append_assoc, List.length_append, page_size]
        exact Nat.dvd_add whole (Nat.dvd_refl limit)
      have smaller : (rest.drop limit).length < n := by
        rw [List.length_drop]
        omega
      have forward : Keyset.ordered (Row.before direction) table =
          (front ++ page ++ [last]) ++ rest.drop limit := by
        rw [later, List.append_cons]
      rw [forall_pageEnd_iff positive whole later page_size some_,
        ← ih _ smaller next_whole forward rfl, ← follow_cursor_iff positive distinct some_ later]
      constructor
      · intro ⟨fuel, pages, followed, visited⟩
        unfold followFrom at followed
        rw [several] at followed
        obtain ⟨others, further, rfl⟩ := Option.map_eq_some_iff.mp followed
        refine ⟨fuel, others, further, ?_⟩
        apply List.append_cancel_left
        calc
          rest.take limit ++ others.flatten = rest := visited
          _ = rest.take limit ++ rest.drop limit := (List.take_append_drop limit rest).symm
      · intro ⟨fuel, others, further, visited⟩
        refine ⟨fuel, rest.take limit :: others, ?_, ?_⟩
        · unfold followFrom
          rw [several]
          dsimp only
          rw [further]
          rfl
        · rw [List.flatten_cons, visited, List.take_append_drop]

/-- Every row is visited exactly where each page with a next one is resumed. -/
theorem follow_iff (positive : 0 < limit) (distinct : table.Nodup) :
    (∃ fuel pages, follow column direction limit table fuel none = some pages ∧
        pages.flatten = Keyset.ordered (Row.before direction) table) ↔
      ∀ front last back,
        PageEnd limit (Keyset.ordered (Row.before direction) table) front last back →
          Resumes column direction limit front last back := by
  have first (fuel : Nat) : follow column direction limit table (fuel + 1) none =
      followFrom column direction limit table fuel (Keyset.ordered (Row.before direction) table) :=
    follow_of_found rfl
  have same : (∃ fuel pages, follow column direction limit table fuel none = some pages ∧
      pages.flatten = Keyset.ordered (Row.before direction) table) ↔
      ∃ fuel pages, followFrom column direction limit table fuel
        (Keyset.ordered (Row.before direction) table) = some pages ∧
          pages.flatten = Keyset.ordered (Row.before direction) table := by
    constructor
    · intro ⟨fuel, pages, followed, visited⟩
      cases fuel with
      | zero => cases followed
      | succ fuel => exact ⟨fuel, pages, (first fuel).symm.trans followed, visited⟩
    · intro ⟨fuel, pages, followed, visited⟩
      exact ⟨fuel + 1, pages, (first fuel).trans followed, visited⟩
  have none_ : limit ∣ ([] : List (Row V I)).length := Nat.dvd_zero limit
  rw [same, followFrom_iff positive distinct none_ (List.nil_append _).symm]
  simp

end Static

end Unchanged

variable {column : Column V} {direction : Direction} {limit : Nat}

namespace Reading

variable {reading after : Reading V I} {table : List (Row V I)} {tables : List (List (Row V I))}

def walk (reading : Reading V I) : Keyset.Walk (Row V I) := ⟨reading.seen, reading.finished⟩

/-- The next page begins at the cursor of the last row that was seen. -/
def At (column : Column V) (reading : Reading V I) : Prop :=
  reading.finished = false → reading.cursor = reading.seen.getLast?.map column.cursor

/-- The cursor of the last row that was seen is taken, and takes only rows behind that row, with all
those of a kind. -/
def Careful (column : Column V) (direction : Direction) (kept : Row V I → Prop)
    (reading : Reading V I) (table : List (Row V I)) : Prop :=
  ∀ last ∈ reading.seen.getLast?, (column.compared (column.cursor last).sortValue).isSome ∧
    (∀ row ∈ table, column.Takes direction last row → last.before direction row) ∧
      ∀ row, kept row → last.before direction row → column.Takes direction last row

def shown (column : Column V) (direction : Direction) (reading : Reading V I)
    (table : List (Row V I)) : List (Row V I) :=
  table.filter fun row => ∀ last ∈ reading.seen.getLast?,
    column.Takes direction last row ∨ ¬ last.before direction row

variable {kept : Row V I → Prop}

theorem applyCursor_at (at_ : reading.At column) (going : reading.finished = false)
    (careful : reading.Careful column direction kept table) :
    applyCursor column direction table reading.cursor limit =
      some ((Keyset.ordered (Row.before direction) (Keyset.behind (Row.before direction)
        reading.seen.getLast? (reading.shown column direction table))).take (limit + 1)) := by
  rw [at_ going]
  unfold shown
  cases final : reading.seen.getLast? with
  | none =>
    have whole : (table.filter fun row => ∀ last ∈ (none : Option (Row V I)),
        column.Takes direction last row ∨ ¬ last.before direction row) = table := by
      simp
    rw [whole]
    rfl
  | some last =>
    obtain ⟨accepted, only, _⟩ := careful last final
    obtain ⟨compared, answer⟩ := Option.isSome_iff_exists.mp accepted
    have same : (table.filter fun row => ∀ other ∈ some last,
        column.Takes direction other row ∨ ¬ other.before direction row).filter
          (last.before direction ·) = table.filter (column.Takes direction last ·) := by
      rw [List.filter_filter]
      apply List.filter_congr
      intro row member
      have behind := only row member
      by_cases less : last.before direction row
      · simp [less]
      · simp [less, mt behind less]
    rw [Option.map_some, applyCursor_cursor, answer, Option.map_some, ← same]
    rfl

theorem step_eq (at_ : reading.At column)
    (careful : reading.Careful column direction kept table) :
    (reading.step column direction limit table).map walk =
      Keyset.next (Row.before direction) limit reading.walk
        (reading.shown column direction table) := by
  cases going : reading.finished with
  | true => simp [step, Keyset.next, walk, going]
  | false =>
    unfold step Keyset.next request
    rw [applyCursor_at at_ going careful, Option.map_some, buildPage_take]
    simp [walk, going]

theorem at_step (positive : 0 < limit) (at_ : reading.At column)
    (careful : reading.Careful column direction kept table)
    (stepped : reading.step column direction limit table = some after) : after.At column := by
  intro going
  unfold step at stepped
  split at stepped
  · cases stepped
  · next open_ =>
    unfold request at stepped
    rw [applyCursor_at at_ (Bool.not_eq_true _ ▸ open_) careful, Option.map_some,
      buildPage_take] at stepped
    cases stepped
    obtain ⟨more, _, ends⟩ := Keyset.page_spec positive (Keyset.ordered (Row.before direction)
      (Keyset.behind (Row.before direction) reading.seen.getLast?
        (reading.shown column direction table)))
    rcases ends with ⟨none_, _⟩ | ⟨some_, final⟩
    · rw [none_] at going
      cases going
    · obtain ⟨last, own⟩ := Option.isSome_iff_exists.mp some_
      rw [own] at final
      simp [own, List.getLast?_append, final]

theorem step_isSome (at_ : reading.At column) (going : reading.finished = false)
    (careful : reading.Careful column direction kept table) :
    (reading.step column direction limit table).isSome := by
  unfold step request
  rw [applyCursor_at at_ going careful]
  simp [going]

theorem fair_step (positive : 0 < limit) (at_ : reading.At column)
    (careful : reading.Careful column direction kept table)
    (fair : Keyset.Fair (Row.before direction) kept reading.walk)
    (there : ∀ row, kept row → row ∈ table) (distinct : table.Nodup)
    (stepped : reading.step column direction limit table = some after) :
    Keyset.Fair (Row.before direction) kept after.walk := by
  have next : Keyset.next (Row.before direction) limit reading.walk
      (reading.shown column direction table) = some after.walk := by
    rw [← step_eq at_ careful, stepped, Option.map_some]
  apply Keyset.fair_next _ positive fair _ (distinct.filter _) next
  intro row own
  apply List.mem_filter.mpr
  refine ⟨there row own, decide_eq_true fun last final => ?_⟩
  by_cases less : last.before direction row
  · exact .inl ((careful last final).2.2 row own less)
  · exact .inr less

theorem fair_run (positive : 0 < limit) (at_ : reading.At column)
    (met : Meets (Reading.step column direction limit)
      (Reading.Careful column direction kept) reading tables)
    (fair : Keyset.Fair (Row.before direction) kept reading.walk)
    (there : ∀ table ∈ tables, ∀ row, kept row → row ∈ table)
    (distinct : ∀ table ∈ tables, table.Nodup)
    (reached : run (Reading.step column direction limit) reading tables = some after) :
    after.At column ∧ Keyset.Fair (Row.before direction) kept after.walk := by
  induction tables generalizing reading with
  | nil =>
    cases reached
    exact ⟨at_, fair⟩
  | cons table tables ih =>
    obtain ⟨middle, stepped, rest⟩ := run_cons_eq_some.mp reached
    obtain ⟨here, there⟩ := List.forall_mem_cons.mp there
    obtain ⟨one, distinct⟩ := List.forall_mem_cons.mp distinct
    have next_at := at_step positive at_ met.1 stepped
    have next_fair := fair_step positive at_ met.1 fair here one stepped
    exact ih next_at (met.2 middle stepped) next_fair there distinct rest

end Reading

/-- Every row is visited once, and no page fails: of a table as it is exactly if each page with a
next one is resumed; of tables that change, every row that is in all of them, if at each page the
cursor takes only rows behind the last one, with all such rows. -/
theorem every_row_once_iff (column : Column V) (direction : Direction) (positive : 0 < limit) :
    (∀ table : List (Row V I), (table.map Row.id).Nodup →
      ((∃ fuel pages, follow column direction limit table fuel none = some pages ∧
          pages.flatten = Keyset.ordered (Row.before direction) table) ↔
        ∀ front last back,
          PageEnd limit (Keyset.ordered (Row.before direction) table) front last back →
            Resumes column direction limit front last back)) ∧
      ∀ tables : List (List (Row V I)), (∀ table ∈ tables, (table.map Row.id).Nodup) →
        Meets (Reading.step column direction limit)
          (Reading.Careful column direction fun row => ∀ table ∈ tables, row ∈ table)
          Reading.start tables →
        (∀ before table rest reading, tables = before ++ table :: rest →
          run (Reading.step column direction limit) Reading.start before = some reading →
            reading.finished = false → (reading.step column direction limit table).isSome) ∧
        ∀ reading, run (Reading.step column direction limit) Reading.start tables = some reading →
          reading.seen.Pairwise (Row.before direction) ∧
            ∀ row, (∀ table ∈ tables, row ∈ table) →
              (reading.finished = true ∨
                ∃ last ∈ reading.seen.getLast?, ¬ last.before direction row) →
              row ∈ reading.seen := by
  constructor
  case left =>
    intro table distinct
    exact follow_iff positive (List.Nodup.of_map Row.id distinct)
  case right =>
    intro tables distinct met
    have distinct (table : List (Row V I)) (member : table ∈ tables) : table.Nodup :=
      List.Nodup.of_map Row.id (distinct table member)
    have there (table : List (Row V I)) (member : table ∈ tables) (row : Row V I)
        (all : ∀ table ∈ tables, row ∈ table) : row ∈ table := all table member
    have at_start : (Reading.start : Reading V I).At column := fun _ => rfl
    have fair_start : Keyset.Fair (Row.before direction)
        (fun row => ∀ table ∈ tables, row ∈ table) (Reading.start : Reading V I).walk :=
      ⟨List.Pairwise.nil, nofun, nofun⟩
    constructor
    case left =>
      intro before table rest reading split reached going
      subst split
      obtain ⟨first, careful, _⟩ := meets_append reached met
      obtain ⟨at_, _⟩ := Reading.fair_run positive at_start first fair_start
        (fun table member => there table (List.mem_append_left _ member))
        (fun table member => distinct table (List.mem_append_left _ member)) reached
      exact Reading.step_isSome at_ going careful
    case right =>
      intro reading reached
      obtain ⟨_, fair⟩ :=
        Reading.fair_run positive at_start met fair_start there distinct reached
      refine ⟨fair.sorted, ?_⟩
      intro row all passed
      rcases passed with ended | ⟨last, final, before⟩
      · exact fair.whole ended row all
      · exact fair.upTo last final row all before

def integers : Column ℤ where
  json := .int
  compared
    | .int n => some (compare · n)
    | _ => none
  compared_null := rfl

omit [LinearOrder I] in
theorem integers_returns {row : Row ℤ I} (valued : row.sortValue ≠ none) :
    integers.Returns row := by
  obtain ⟨v, own⟩ := Option.ne_none_iff_exists'.mp valued
  exact ⟨v, own, rfl⟩

def tied : List (Row ℤ ℕ) := [⟨some 5, 1⟩, ⟨some 7, 2⟩, ⟨some 5, 3⟩, ⟨some 6, 4⟩, ⟨some 5, 5⟩]

theorem tied_visited :
    ∃ fuel pages, follow integers ⟨true, false⟩ 2 tied fuel none = some pages ∧
      pages.flatten = [⟨some 7, 2⟩, ⟨some 6, 4⟩, ⟨some 5, 5⟩, ⟨some 5, 3⟩, ⟨some 5, 1⟩] := by
  have valued : ∀ row ∈ Keyset.ordered (Row.before ⟨true, false⟩) tied, row.sortValue ≠ none := by
    decide +kernel
  have sorted := Keyset.pairwise_ordered (Row.before ⟨true, false⟩) (show tied.Nodup by decide)
  have resumed : ∀ front last back,
      PageEnd 2 (Keyset.ordered (Row.before ⟨true, false⟩) tied) front last back →
        Resumes integers ⟨true, false⟩ 2 front last back := by
    intro front last back ⟨split, _⟩
    rw [split] at valued sorted
    obtain ⟨_, own, behind⟩ := List.forall_mem_append.mp valued |>.imp_right List.forall_mem_cons.mp
    exact .of_returns (integers_returns own) sorted behind
  have visited := ((every_row_once_iff integers ⟨true, false⟩ (show 0 < 2 by decide)).1 tied
    (by decide)).mpr resumed
  have order : Keyset.ordered (Row.before ⟨true, false⟩) tied =
      [⟨some 7, 2⟩, ⟨some 6, 4⟩, ⟨some 5, 5⟩, ⟨some 5, 3⟩, ⟨some 5, 1⟩] := by decide +kernel
  rwa [order] at visited

/-- Datetimes of one month, as a day and a second of its noon, of a database that compares them with
a text, if it does not refuse that. -/
def datetimes (compared : String → Option (ℕ ×ₗ ℕ → Ordering)) : Column (ℕ ×ₗ ℕ) where
  json time :=
    let (day, second) := ofLex time
    .str ("2026-05-" ++ Audit.padded 2 day ++ "T12:00:" ++ Audit.padded 2 second)
  compared
    | .str text => compared text
    | _ => none
  compared_null := rfl

/-- asyncpg has no operator between a timestamp and a text. -/
def asyncpg : Column (ℕ ×ₗ ℕ) := datetimes fun _ => none

/-- SQLite holds the text that SQLAlchemy writes, and compares texts. -/
def sqlite : Column (ℕ ×ₗ ℕ) := datetimes fun text => some fun time =>
  let (day, second) := ofLex time
  compare ("2026-05-" ++ Audit.padded 2 day ++ " 12:00:" ++ Audit.padded 2 second ++ ".000000") text

/-- Of the datetimes in SQLite those on different days are paged, from the oldest on. -/
example : follow sqlite ⟨false, false⟩ 1
    [⟨some (toLex (3, 0)), 1⟩, ⟨some (toLex (2, 0)), 2⟩] 2 none =
      some [[⟨some (toLex (2, 0)), 2⟩], [⟨some (toLex (3, 0)), 1⟩]] := by decide +kernel

/-- A second page of datetimes fails, or shows the first one again, and one that begins behind a
value ends before a `NULL`. -/
theorem rows_unreached :
    (∀ column ∈ [asyncpg, sqlite], ¬ ∃ fuel pages, follow column ⟨true, false⟩ 1
        [⟨some (toLex (2, 1)), 1⟩, ⟨some (toLex (2, 2)), 2⟩] fuel none = some pages ∧
          pages.flatten = [⟨some (toLex (2, 2)), 2⟩, ⟨some (toLex (2, 1)), 1⟩]) ∧
      ¬ ∃ fuel pages, follow integers ⟨false, false⟩ 1 [⟨some 1, 1⟩, ⟨none, 2⟩] fuel none =
        some pages ∧ pages.flatten = [⟨some 1, 1⟩, ⟨none, 2⟩] := by
  constructor
  case left =>
    intro column member visited
    have order : Keyset.ordered (Row.before ⟨true, false⟩)
        [(⟨some (toLex (2, 1)), 1⟩ : Row (ℕ ×ₗ ℕ) ℕ), ⟨some (toLex (2, 2)), 2⟩] =
          [⟨some (toLex (2, 2)), 2⟩, ⟨some (toLex (2, 1)), 1⟩] := by
      decide +kernel
    rw [← order] at visited
    have resumes := (follow_iff (by decide) (by decide)).mp visited [] _ _
      ⟨order, Nat.dvd_refl 1, List.cons_ne_nil _ _⟩
    rcases List.mem_cons.mp member with rfl | member
    · have taken := resumes.next _ List.mem_cons_self
      revert taken
      decide +kernel
    · obtain rfl := List.mem_singleton.mp member
      have again := resumes.none_again _ List.mem_cons_self
      revert again
      decide +kernel
  case right =>
    intro visited
    have order : Keyset.ordered (Row.before ⟨false, false⟩)
        [(⟨some 1, 1⟩ : Row ℤ ℕ), ⟨none, 2⟩] = [⟨some 1, 1⟩, ⟨none, 2⟩] := by
      decide +kernel
    rw [← order] at visited
    have resumes := (follow_iff (by decide) (by decide)).mp visited [] _ _
      ⟨order, Nat.dvd_refl 1, List.cons_ne_nil _ _⟩
    have taken := resumes.next _ List.mem_cons_self
    revert taken
    decide +kernel

end HlHelper.Pagination
