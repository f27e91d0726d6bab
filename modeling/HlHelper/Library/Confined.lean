import Mathlib.Data.List.Basic

/-! Changes of a table that are confined to some of its rows: the other rows are the
same, in the same order. -/

namespace HlHelper.Library

variable {α : Type*} {owns other : α → Bool} {rows before after last more : List α}

/-- Only rows that `owns` accepts differ. -/
def Confined (owns : α → Bool) (before after : List α) : Prop :=
  before.filter (fun row => !owns row) = after.filter (fun row => !owns row)

namespace Confined

theorem refl (owns : α → Bool) (rows : List α) : Confined owns rows rows := rfl

theorem trans (first : Confined owns before after) (second : Confined owns after last) :
    Confined owns before last := Eq.trans first second

theorem append (owned : ∀ row ∈ more, owns row = true) : Confined owns rows (rows ++ more) := by
  have gone : more.filter (fun row => !owns row) = [] := by
    apply List.filter_eq_nil_iff.mpr
    intro row member
    simp [owned row member]
  rw [Confined, List.filter_append, gone, List.append_nil]

theorem map {update : α → α} (kept : ∀ row ∈ rows, owns row = false → update row = row)
    (owned : ∀ row ∈ rows, owns row = true → owns (update row) = true) :
    Confined owns rows (rows.map update) := by
  unfold Confined
  induction rows with
  | nil => rfl
  | cons row rest ih =>
    have tail := ih (fun other member => kept other (List.mem_cons_of_mem _ member))
      (fun other member => owned other (List.mem_cons_of_mem _ member))
    cases mine : owns row with
    | true =>
      have stays := owned row List.mem_cons_self mine
      simp only [List.map_cons, List.filter_cons, mine, stays, Bool.not_true,
        Bool.false_eq_true, if_false, tail]
    | false =>
      have same := kept row List.mem_cons_self mine
      simp only [List.map_cons, List.filter_cons, same, mine, Bool.not_false, if_true, tail]

theorem filter {keep : α → Bool} (owned : ∀ row ∈ rows, keep row = false → owns row = true) :
    Confined owns rows (rows.filter keep) := by
  rw [Confined, List.filter_filter]
  apply List.filter_congr
  intro row member
  cases kept : keep row with
  | true => simp
  | false => simp [owned row member kept]

theorem agree (confined : Confined owns before after)
    (apart : ∀ row, other row = true → owns row = false) :
    before.filter other = after.filter other := by
  have split : ∀ rows : List α,
      rows.filter other = (rows.filter (fun row => !owns row)).filter other := by
    intro rows
    rw [List.filter_filter]
    apply List.filter_congr
    intro row _
    cases wanted : other row with
    | true => simp [apart row wanted]
    | false => simp
  rw [split before, split after, confined]

theorem foldl {β : Type*} {change : List α → β → List α} (items : List β)
    (each : ∀ rows item, item ∈ items → Confined owns rows (change rows item)) :
    Confined owns rows (items.foldl change rows) := by
  induction items generalizing rows with
  | nil => exact refl owns rows
  | cons item rest ih =>
    have first := each rows item List.mem_cons_self
    apply first.trans
    exact ih fun rows other member => each rows other (List.mem_cons_of_mem _ member)

end Confined

end HlHelper.Library
