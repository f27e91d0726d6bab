import Mathlib.Algebra.Order.Group.Nat
import Mathlib.Data.List.Basic

/-! A list worked through in batches, each of one size but the last. -/

namespace HlHelper.Library

variable {α β : Type*}

/-- `items[start : start + size] for start in range(0, len(items), size)`. -/
def batches (size : Nat) (items : List α) : List (List α) :=
  (List.range ((items.length + size - 1) / size)).map fun i => (items.drop (i * size)).take size

theorem flatten_slices (size : Nat) (items : List α) (count : Nat) :
    ((List.range count).map fun i => (items.drop (i * size)).take size).flatten =
      items.take (count * size) := by
  induction count with
  | zero => simp
  | succ count ih =>
    calc
      _ = ((List.range count).map fun i => (items.drop (i * size)).take size).flatten ++
            (items.drop (count * size)).take size := by simp [List.range_succ]
      _ = items.take (count * size) ++ (items.drop (count * size)).take size := by rw [ih]
      _ = items.take (count * size + size) := List.take_add.symm
      _ = _ := by rw [Nat.succ_mul]

theorem flatten_batches {size : Nat} (positive : 0 < size) (items : List α) :
    (batches size items).flatten = items := by
  rw [batches, flatten_slices, List.take_of_length_le]
  have whole := Nat.div_add_mod (items.length + size - 1) size
  have rest := Nat.mod_lt (items.length + size - 1) positive
  rw [Nat.mul_comm] at whole
  omega

theorem batches_nil (size : Nat) : batches size ([] : List α) = [] := by
  have none : (0 + size - 1) / size = 0 := by
    cases size with
    | zero => rfl
    | succ size => exact Nat.div_eq_of_lt (by omega)
  rw [batches, List.length_nil, none]
  rfl

end HlHelper.Library
