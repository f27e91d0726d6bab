import HlHelper.Library.Padded
import Mathlib.Data.Char
import Mathlib.Data.List.DropRight
import Mathlib.Data.List.TakeWhile

/-! The order of `dpkg` on versions. A text that differs first in what most versions differ in is
told from another by that. -/

namespace HlHelper.Advisory

open Library

def number (digits : List Char) : Nat := Nat.ofDigitChars 10 digits 0

namespace Dpkg

/-- Letters come before all other characters that are not digits, and a tilde even before the
end. -/
def weight (c : Char) : Int :=
  if c.isAlpha then c.toNat
  else if c = '~' then -1
  else c.toNat + 256

/-- What is compared from left to right: a character by its weight, and digits as a number. -/
def tokens : Option Nat → List Char → List (Int ×ₗ Nat)
  | pending, [] => (pending.map fun n => toLex (0, n)).toList
  | pending, c :: rest =>
    if c.isDigit then tokens (some (10 * pending.getD 0 + (c.toNat - '0'.toNat))) rest
    else (pending.map fun n => toLex (0, n)).toList ++ toLex (weight c, 0) :: tokens none rest

/-- `verrevcmp`; past the end all is zero. -/
def verrevcmp (a b : List Char) : Ordering :=
  padded (toLex (0, 0)) (tokens none a) (tokens none b)

structure Version where
  epoch : Nat
  upstream : List Char
  revision : List Char
  deriving DecidableEq, Repr

/-- The epoch is up to the first colon, and the revision from the last hyphen on. -/
def parse (text : List Char) : Version :=
  let (epoch, rest) :=
    if ':' ∈ text then
      (number (text.takeWhile (· ≠ ':')), (text.dropWhile (· ≠ ':')).tail)
    else (0, text)
  if '-' ∈ rest then
    ⟨epoch, (rest.rdropWhile (· ≠ '-')).dropLast, rest.rtakeWhile (· ≠ '-')⟩
  else ⟨epoch, rest, []⟩

def Version.compare (a b : Version) : Ordering :=
  (order a.epoch b.epoch).then
    ((verrevcmp a.upstream b.upstream).then (verrevcmp a.revision b.revision))

def compare (a b : String) : Ordering := (parse a.toList).compare (parse b.toList)

example : compare "1.0~rc1" "1.0" = .lt ∧ compare "2.0" "1:1.0" = .lt ∧
    compare "1.2-3ubuntu5" "1.2-3ubuntu10" = .lt ∧ compare "1.0" "1.0-0" = .eq := by
  decide +kernel

section Run

variable {digits rest : List Char}

structure Run (digits rest : List Char) : Prop where
  all : ∀ c ∈ digits, c.isDigit = true
  stops : ∀ c ∈ rest.head?, c.isDigit = false

theorem tokens_some_of_stops (stops : ∀ c ∈ rest.head?, c.isDigit = false) (n : Nat) :
    tokens (some n) rest = toLex (0, n) :: tokens none rest := by
  cases rest with
  | nil => rfl
  | cons c rest =>
    have other := stops c rfl
    simp [tokens, other]

theorem tokens_digits (run : Run digits rest) (n : Nat) :
    tokens (some n) (digits ++ rest) =
      toLex (0, Nat.ofDigitChars 10 digits n) :: tokens none rest := by
  obtain ⟨all, stops⟩ := run
  induction digits generalizing n with
  | nil => exact tokens_some_of_stops stops n
  | cons c digits ih =>
    obtain ⟨digit, all⟩ := List.forall_mem_cons.mp all
    rw [List.cons_append, tokens, if_pos digit, ih _ all, Nat.ofDigitChars_cons]
    rfl

theorem tokens_run (run : Run digits rest) (some_ : digits ≠ []) :
    tokens none (digits ++ rest) = toLex (0, number digits) :: tokens none rest := by
  obtain ⟨c, digits, rfl⟩ := List.exists_cons_of_ne_nil some_
  obtain ⟨digit, all⟩ := List.forall_mem_cons.mp run.all
  rw [List.cons_append, tokens, if_pos digit, tokens_digits ⟨all, run.stops⟩]
  rfl

theorem tokens_cons {c : Char} (other : c.isDigit = false) :
    tokens none (c :: rest) = toLex (weight c, 0) :: tokens none rest := by
  simp [tokens, other]

end Run

def isSep (c : Char) : Bool := c = '.' || c = '-' || c = '+'

/-- Two texts and how they are told apart. Up to the first difference they are the same but for
leading zeros at the start of a part. They differ first in a number, which either starts its part
or has as many digits in both; in a letter; or in that one ends where the other goes on with a
letter, or with a part if nothing comes behind its end. -/
inductive Told (leftEnds rightEnds : Bool) :
    Bool → List Char → List Char → Ordering → Prop
  | same {first} : Told leftEnds rightEnds first [] [] .eq
  | char {first c s t told} (other : c.isDigit = false)
      (later : Told leftEnds rightEnds (isSep c) s t told) :
      Told leftEnds rightEnds first (c :: s) (c :: t) told
  | sameNumber {first d e s t told} (left : Run d s) (right : Run e t) (some_ : d ≠ [] ∧ e ≠ [])
      (value : number d = number e) (inside : first = false → d = e)
      (later : Told leftEnds rightEnds false s t told) :
      Told leftEnds rightEnds first (d ++ s) (e ++ t) told
  | numbers {first d e s t} (left : Run d s) (right : Run e t) (some_ : d ≠ [] ∧ e ≠ [])
      (value : number d ≠ number e) (inside : first = false → d.length = e.length) :
      Told leftEnds rightEnds first (d ++ s) (e ++ t) (order (number d) (number e))
  | letters {first c d s t} (left : c.isAlpha = true) (right : d.isAlpha = true) (other : c ≠ d) :
      Told leftEnds rightEnds first (c :: s) (d :: t) (order c d)
  | beforeLetter {first c t} (letter : c.isAlpha = true) :
      Told leftEnds rightEnds first [] (c :: t) .lt
  | letterBefore {first c s} (letter : c.isAlpha = true) :
      Told leftEnds rightEnds first (c :: s) [] .gt
  | beforePart {first c t} (ends : leftEnds = true) (separator : isSep c = true) :
      Told leftEnds rightEnds first [] (c :: t) .lt
  | partBefore {first c s} (ends : rightEnds = true) (separator : isSep c = true) :
      Told leftEnds rightEnds first (c :: s) [] .gt

section Told

variable {leftEnds rightEnds first : Bool} {s t : List Char} {told : Ordering}

theorem told_self (first : Bool) (text : List Char) :
    Told leftEnds rightEnds first text text .eq := by
  generalize size : text.length = n
  induction n using Nat.strong_induction_on generalizing first text with
  | _ n ih =>
    cases text with
    | nil => exact .same
    | cons c rest =>
      cases digit : c.isDigit with
      | false =>
        have fewer : rest.length < n := by
          rw [← size, List.length_cons]
          omega
        exact .char digit (ih _ fewer _ rest rfl)
      | true =>
        have front : (c :: rest).takeWhile Char.isDigit =
            c :: rest.takeWhile Char.isDigit := List.takeWhile_cons_of_pos digit
        have back : (c :: rest).dropWhile Char.isDigit = rest.dropWhile Char.isDigit :=
          List.dropWhile_cons_of_pos digit
        have fewer : (rest.dropWhile Char.isDigit).length < n := by
          have length := (List.dropWhile_sublist Char.isDigit (l := rest)).length_le
          rw [← size, List.length_cons]
          omega
        have run : Run (c :: rest.takeWhile Char.isDigit) (rest.dropWhile Char.isDigit) := by
          constructor
          · rw [← front]
            exact fun d member => List.mem_takeWhile_imp member
          · intro d own
            have stops := List.head?_dropWhile_not Char.isDigit rest
            rw [Option.mem_def.mp own] at stops
            simpa using stops
        have split : c :: rest = (c :: rest.takeWhile Char.isDigit) ++
            rest.dropWhile Char.isDigit := by
          rw [List.cons_append, List.takeWhile_append_dropWhile]
        have some_ := List.cons_ne_nil c (rest.takeWhile Char.isDigit)
        rw [split]
        exact .sameNumber run run ⟨some_, some_⟩ rfl (fun _ => rfl) (ih _ fewer _ _ rfl)

theorem isDigit_range {c : Char} (digit : c.isDigit = true) : 48 ≤ c.toNat ∧ c.toNat ≤ 57 := by
  simpa [Char.isDigit, UInt32.le_iff_toNat_le] using digit

theorem isAlpha_range {c : Char} (letter : c.isAlpha = true) :
    65 ≤ c.toNat ∧ c.toNat ≤ 90 ∨ 97 ≤ c.toNat ∧ c.toNat ≤ 122 := by
  have either : (c.isUpper || c.isLower) = true := letter
  rcases Bool.or_eq_true_iff.mp either with upper | lower
  · have range : 65 ≤ c.val ∧ c.val ≤ 90 := of_decide_eq_true upper
    exact .inl (range.imp UInt32.le_iff_toNat_le.mp UInt32.le_iff_toNat_le.mp)
  · have range : decide (97 ≤ c.val) = true ∧ decide (c.val ≤ 122) = true :=
      Bool.and_eq_true_iff.mp lower
    have bounds : 97 ≤ c.val ∧ c.val ≤ 122 := range.imp of_decide_eq_true of_decide_eq_true
    exact .inr (bounds.imp UInt32.le_iff_toNat_le.mp UInt32.le_iff_toNat_le.mp)

theorem not_isDigit_of_isAlpha {c : Char} (letter : c.isAlpha = true) : c.isDigit = false := by
  have range := isAlpha_range letter
  cases digit : c.isDigit with
  | false => rfl
  | true =>
    have between := isDigit_range digit
    omega

theorem isSep_cases {c : Char} (separator : isSep c = true) : c = '.' ∨ c = '-' ∨ c = '+' := by
  simpa [isSep, or_assoc] using separator

theorem not_isDigit_of_isSep {c : Char} (separator : isSep c = true) : c.isDigit = false := by
  rcases isSep_cases separator with rfl | rfl | rfl <;> rfl

theorem weight_of_isAlpha {c : Char} (letter : c.isAlpha = true) : weight c = c.toNat :=
  if_pos letter

theorem order_zero_weight {c : Char} (either : c.isAlpha = true ∨ isSep c = true) :
    order 0 (weight c) = .lt := by
  apply order_eq_lt_iff.mpr
  rcases either with letter | separator
  · have range := isAlpha_range letter
    rw [weight_of_isAlpha letter]
    omega
  · rcases isSep_cases separator with rfl | rfl | rfl <;> decide

theorem order_weight_zero {c : Char} (either : c.isAlpha = true ∨ isSep c = true) :
    order (weight c) 0 = .gt :=
  order_eq_gt_iff.mpr (order_eq_lt_iff.mp (order_zero_weight either))

theorem order_weight {c d : Char} (left : c.isAlpha = true) (right : d.isAlpha = true) :
    order (weight c) (weight d) = order c d := by
  have less (c d : Char) : (c.toNat : Int) < d.toNat ↔ c < d := Int.ofNat_lt
  rw [weight_of_isAlpha left, weight_of_isAlpha right]
  rcases lt_trichotomy c d with first | rfl | first
  · rw [order_eq_lt_iff.mpr first, order_eq_lt_iff.mpr ((less c d).mpr first)]
  · rw [order_self, order_self]
  · rw [order_eq_gt_iff.mpr first, order_eq_gt_iff.mpr ((less d c).mpr first)]

theorem then_of_ne_eq {told rest : Ordering} (other : told ≠ .eq) : told.then rest = told := by
  cases told with
  | eq => exact absurd rfl other
  | _ => rfl

theorem order_ne_eq {α : Type} [LinearOrder α] {a b : α} (other : a ≠ b) : order a b ≠ .eq :=
  fun same => other ((cmp_eq_eq_iff a b).mp same)

theorem verrevcmp_nil_cons {c : Char} (either : c.isAlpha = true ∨ isSep c = true)
    (other : c.isDigit = false) (t : List Char) : verrevcmp [] (c :: t) = .lt := by
  unfold verrevcmp
  rw [tokens_cons other]
  change padded _ [] _ = _
  rw [padded_nil_cons, order_toLex, order_zero_weight either]
  rfl

theorem verrevcmp_cons_nil {c : Char} (either : c.isAlpha = true ∨ isSep c = true)
    (other : c.isDigit = false) (s : List Char) : verrevcmp (c :: s) [] = .gt := by
  unfold verrevcmp
  rw [tokens_cons other]
  change padded _ _ [] = _
  rw [padded_cons_nil, order_toLex, order_weight_zero either]
  rfl

theorem verrevcmp_told (how : Told leftEnds rightEnds first s t told) :
    verrevcmp s t = told := by
  induction how with
  | same => rfl
  | char other _ ih =>
    unfold verrevcmp at ih ⊢
    rw [tokens_cons other, tokens_cons other, padded_cons_self, ih]
  | sameNumber left right some_ value _ _ ih =>
    unfold verrevcmp at ih ⊢
    rw [tokens_run left some_.1, tokens_run right some_.2, value, padded_cons_self, ih]
  | numbers left right some_ value _ =>
    unfold verrevcmp
    rw [tokens_run left some_.1, tokens_run right some_.2, padded_cons_cons, order_toLex,
      order_self]
    exact then_of_ne_eq (order_ne_eq value)
  | letters left right other =>
    unfold verrevcmp
    rw [tokens_cons (not_isDigit_of_isAlpha left), tokens_cons (not_isDigit_of_isAlpha right),
      padded_cons_cons, order_toLex, order_weight left right,
      then_of_ne_eq (order_ne_eq other), then_of_ne_eq (order_ne_eq other)]
  | beforeLetter letter =>
    exact verrevcmp_nil_cons (.inl letter) (not_isDigit_of_isAlpha letter) _
  | letterBefore letter =>
    exact verrevcmp_cons_nil (.inl letter) (not_isDigit_of_isAlpha letter) _
  | beforePart _ separator =>
    exact verrevcmp_nil_cons (.inr separator) (not_isDigit_of_isSep separator) _
  | partBefore _ separator =>
    exact verrevcmp_cons_nil (.inr separator) (not_isDigit_of_isSep separator) _

end Told

end Dpkg

end HlHelper.Advisory
