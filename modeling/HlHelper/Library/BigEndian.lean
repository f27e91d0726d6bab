import Mathlib.Data.List.Basic
import Mathlib.Algebra.Group.Nat.Defs
import Mathlib.Tactic.Ring

/-! Big-endian numbers of a fixed width: reading undoes writing in both
directions, and the order of the bytes is the order of the numbers. -/

namespace HlHelper.Library.BigEndian

def put : Nat → Nat → List UInt8
  | 0, _ => []
  | width + 1, n => UInt8.ofNat (n / 256 ^ width) :: put width n

def get : List UInt8 → Nat
  | [] => 0
  | byte :: rest => byte.toNat * 256 ^ rest.length + get rest

@[simp] theorem length_put (width n : Nat) : (put width n).length = width := by
  induction width with
  | zero => rfl
  | succ width ih => simp [put, ih]

theorem get_lt (bytes : List UInt8) : get bytes < 256 ^ bytes.length := by
  induction bytes with
  | nil => simp [get]
  | cons byte rest ih =>
    have small : byte.toNat + 1 ≤ 256 := byte.toNat_lt
    calc get (byte :: rest) < byte.toNat * 256 ^ rest.length + 256 ^ rest.length :=
          Nat.add_lt_add_left ih _
      _ = (byte.toNat + 1) * 256 ^ rest.length := by ring
      _ ≤ 256 * 256 ^ rest.length := Nat.mul_le_mul_right _ small
      _ = 256 ^ (byte :: rest).length := by rw [List.length_cons, Nat.pow_succ, Nat.mul_comm]

theorem get_put (width n : Nat) : get (put width n) = n % 256 ^ width := by
  induction width with
  | zero => simp [put, get, Nat.mod_one]
  | succ width ih =>
    have byte : (UInt8.ofNat (n / 256 ^ width)).toNat = n / 256 ^ width % 256 :=
      UInt8.toNat_ofNat'
    rw [put, get, length_put, byte, ih, Nat.pow_succ, Nat.mod_mul]
    ring

theorem get_put_of_lt {width n : Nat} (fits : n < 256 ^ width) : get (put width n) = n := by
  rw [get_put, Nat.mod_eq_of_lt fits]

theorem head_le {byte other : UInt8} {rest others : List UInt8}
    (width : rest.length = others.length)
    (le : get (byte :: rest) ≤ get (other :: others)) : byte.toNat ≤ other.toNat := by
  by_contra more
  have step := Nat.mul_le_mul_right (256 ^ others.length) (Nat.lt_of_not_le more)
  have low := get_lt others
  have expand : other.toNat.succ * 256 ^ others.length =
      other.toNat * 256 ^ others.length + 256 ^ others.length := Nat.succ_mul _ _
  simp only [get, width] at le
  omega

theorem get_injective {first second : List UInt8} (width : first.length = second.length)
    (same : get first = get second) : first = second := by
  induction first generalizing second with
  | nil => exact (List.length_eq_zero_iff.mp width.symm).symm
  | cons byte rest ih =>
    cases second with
    | nil => simp at width
    | cons other others =>
      have tail : rest.length = others.length := by simpa using width
      have digits : byte.toNat = other.toNat :=
        Nat.le_antisymm (head_le tail same.le) (head_le tail.symm same.ge)
      simp only [get, tail, digits] at same
      rw [UInt8.toNat_inj.mp digits, ih tail (by omega)]

theorem lt_of_get_lt {first second : List UInt8} (width : first.length = second.length)
    (less : get first < get second) : first < second := by
  induction first generalizing second with
  | nil =>
    have empty := List.length_eq_zero_iff.mp width.symm
    simp [empty] at less
  | cons byte rest ih =>
    cases second with
    | nil => simp at width
    | cons other others =>
      have tail : rest.length = others.length := by simpa using width
      rw [List.cons_lt_cons_iff]
      rcases Nat.lt_or_eq_of_le (head_le tail less.le) with smaller | digits
      · exact .inl smaller
      · simp only [get, tail, digits] at less
        exact .inr ⟨UInt8.toNat_inj.mp digits, ih tail (by omega)⟩

theorem put_get (bytes : List UInt8) : put bytes.length (get bytes) = bytes := by
  apply get_injective (length_put _ _)
  exact get_put_of_lt (get_lt bytes)

theorem put_lt_put {width first second : Nat} (bound : second < 256 ^ width)
    (less : first < second) : put width first < put width second := by
  apply lt_of_get_lt (by simp)
  rwa [get_put_of_lt bound, get_put_of_lt (less.trans bound)]

end HlHelper.Library.BigEndian
