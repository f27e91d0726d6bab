import Mathlib.Data.List.Lex
import Mathlib.Data.Prod.Lex
import Mathlib.Order.Compare

/-! Lists compared entry by entry, as they are and as if one entry went on for ever behind them. -/

namespace HlHelper.Library

variable {α β γ : Type*} [LinearOrder α] [LinearOrder β] [LinearOrder γ]

/-- The comparison of a linear order, whatever other one a type has. -/
def order (p q : γ) : Ordering := cmp p q

theorem order_eq_lt_iff {p q : γ} : order p q = .lt ↔ p < q := cmp_eq_lt_iff p q

theorem order_eq_gt_iff {p q : γ} : order p q = .gt ↔ q < p := cmp_eq_gt_iff p q

theorem order_self (p : γ) : order p p = .eq := cmp_self_eq_eq p

theorem order_eq_then {p q : γ} {a c : α} {b d : β} (less : p < q ↔ a < c ∨ a = c ∧ b < d)
    (more : q < p ↔ c < a ∨ c = a ∧ d < b) : order p q = (order a c).then (order b d) := by
  rcases lt_trichotomy a c with first | rfl | first
  · rw [order_eq_lt_iff.mpr first]
    exact order_eq_lt_iff.mpr (less.mpr (.inl first))
  · rw [order_self]
    rcases lt_trichotomy b d with second | rfl | second
    · rw [order_eq_lt_iff.mpr second]
      exact order_eq_lt_iff.mpr (less.mpr (.inr ⟨rfl, second⟩))
    · rw [order_self]
      have notLess : ¬ p < q := by simp [less]
      have notMore : ¬ q < p := by simp [more]
      exact (cmp_eq_eq_iff p q).mpr (le_antisymm (not_lt.mp notMore) (not_lt.mp notLess))
    · rw [order_eq_gt_iff.mpr second]
      exact order_eq_gt_iff.mpr (more.mpr (.inr ⟨rfl, second⟩))
  · rw [order_eq_gt_iff.mpr first]
    exact order_eq_gt_iff.mpr (more.mpr (.inl first))

theorem order_toLex (a c : α) (b d : β) :
    order (toLex (a, b)) (toLex (c, d)) = (order a c).then (order b d) :=
  order_eq_then Prod.Lex.toLex_lt_toLex Prod.Lex.toLex_lt_toLex

theorem order_cons_cons (x y : α) (xs ys : List α) :
    order (x :: xs) (y :: ys) = (order x y).then (order xs ys) :=
  order_eq_then List.cons_lt_cons_iff List.cons_lt_cons_iff

theorem order_nil_cons (y : α) (ys : List α) : order [] (y :: ys) = .lt :=
  order_eq_lt_iff.mpr (List.nil_lt_cons y ys)

theorem order_cons_nil (x : α) (xs : List α) : order (x :: xs) [] = .gt :=
  order_eq_gt_iff.mpr (List.nil_lt_cons x xs)

theorem order_cons_self (x : α) (xs ys : List α) : order (x :: xs) (x :: ys) = order xs ys := by
  rw [order_cons_cons, order_self]
  rfl

/-- The comparison as if `pad` went on for ever behind each list. -/
def padded (pad : α) : List α → List α → Ordering
  | [], ys => ys.foldr (fun y rest => (order pad y).then rest) .eq
  | x :: xs, [] => (order x pad).then (padded pad xs [])
  | x :: xs, y :: ys => (order x y).then (padded pad xs ys)

variable {pad : α}

theorem padded_nil_cons (y : α) (ys : List α) :
    padded pad [] (y :: ys) = (order pad y).then (padded pad [] ys) := rfl

theorem padded_cons_nil (x : α) (xs : List α) :
    padded pad (x :: xs) [] = (order x pad).then (padded pad xs []) := rfl

theorem padded_cons_cons (x y : α) (xs ys : List α) :
    padded pad (x :: xs) (y :: ys) = (order x y).then (padded pad xs ys) := rfl

theorem padded_cons_self (x : α) (xs ys : List α) :
    padded pad (x :: xs) (x :: ys) = padded pad xs ys := by
  rw [padded_cons_cons, order_self]
  rfl

end HlHelper.Library
