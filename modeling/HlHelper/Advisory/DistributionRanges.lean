import HlHelper.Advisory.Versions
import HlHelper.Advisory.Dpkg
import Mathlib.Algebra.Group.Nat.Defs

/-! The ranges of distributions. The tuples of two versions that are told apart as `dpkg` does are
in the same order. -/

namespace HlHelper.Advisory

open Library Dpkg
open Dispatch (truthy)

section Parts

def tupleOf (text : List Char) : List (Nat ×ₗ List Char) :=
  ((text.map fun c => if c = '-' ∨ c = '+' then '.' else c).splitOn '.').map
    fun part => toLex (segment asciiDigits part)

/-- The text up to the end of the part, and the tuple of what comes behind. -/
def cut (text : List Char) : List Char × List (Nat ×ₗ List Char) :=
  (text.takeWhile fun c => !isSep c,
    match text.dropWhile fun c => !isSep c with
    | [] => []
    | _ :: later => tupleOf later)

/-- What is left of a part, and all further ones, in front of others. -/
def remainder (text : List Char) (others : List (Nat ×ₗ List Char)) :
    List Char ×ₗ List (Nat ×ₗ List Char) :=
  toLex ((cut text).1, (cut text).2 ++ others)

theorem cut_cons_of_sep {c : Char} (separator : isSep c = true) (text : List Char) :
    cut (c :: text) = ([], tupleOf text) := by
  simp [cut, separator]

theorem cut_cons_of_not_sep {c : Char} (other : isSep c = false) (text : List Char) :
    cut (c :: text) = (c :: (cut text).1, (cut text).2) := by
  simp [cut, other]

theorem tupleOf_eq (text : List Char) :
    tupleOf text = toLex (segment asciiDigits (cut text).1) :: (cut text).2 := by
  have first (text : List Char) :
      (text.map fun c => if c = '-' ∨ c = '+' then '.' else c).splitOn '.' =
        (cut text).1 :: match text.dropWhile fun c => !isSep c with
          | [] => []
          | _ :: later =>
            (later.map fun c => if c = '-' ∨ c = '+' then '.' else c).splitOn '.' := by
    induction text with
    | nil => rfl
    | cons c text ih =>
      rw [List.map_cons, List.splitOn_cons_eq_if_modifyHead]
      cases separator : isSep c with
      | true =>
        have dot : (if c = '-' ∨ c = '+' then '.' else c) = '.' := by
          rcases isSep_cases separator with rfl | rfl | rfl <;> rfl
        simp [cut, separator, dot]
      | false =>
        have others : ¬ (c = '-' ∨ c = '+') ∧ c ≠ '.' := by
          simp only [isSep, Bool.or_eq_false_iff, decide_eq_false_iff_not] at separator
          tauto
        rw [if_neg others.1, if_neg (by simpa using others.2), ih]
        simp [cut, separator]
  unfold tupleOf
  rw [first, List.map_cons]
  unfold cut
  dsimp only
  split <;> rfl

theorem segment_digits {part front back : List Char} (digits : part.takeWhile Char.isDigit = front)
    (others : part.dropWhile Char.isDigit = back) :
    segment asciiDigits part = if front = [] then (0, part) else (number front, back) := by
  have taken : part.takeWhile asciiDigits.isDigit = front := digits
  have left : part.dropWhile asciiDigits.isDigit = back := others
  unfold segment
  rw [taken, left]
  cases front with
  | nil => rfl
  | cons c front => rfl

theorem segment_run {digits rest : List Char} (run : Run digits rest) :
    segment asciiDigits (digits ++ rest) = (number digits, rest) := by
  obtain ⟨all, stops⟩ := run
  have front : (digits ++ rest).takeWhile Char.isDigit = digits := by
    rw [List.takeWhile_append_of_pos all]
    cases rest with
    | nil => simp
    | cons c rest => simp [stops c rfl]
  have back : (digits ++ rest).dropWhile Char.isDigit = rest := by
    rw [List.dropWhile_append_of_pos all]
    cases rest with
    | nil => rfl
    | cons c rest => simp [stops c rfl]
  rw [segment_digits front back]
  cases digits with
  | nil => exact if_pos rfl
  | cons c digits => exact if_neg (List.cons_ne_nil c digits)

theorem isSep_of_isDigit {c : Char} (digit : c.isDigit = true) : isSep c = false := by
  cases separator : isSep c with
  | false => rfl
  | true => exact absurd digit (by simp [not_isDigit_of_isSep separator])

theorem cut_digits {digits : List Char} (all : ∀ c ∈ digits, c.isDigit = true)
    (rest : List Char) : cut (digits ++ rest) = (digits ++ (cut rest).1, (cut rest).2) := by
  induction digits with
  | nil => rfl
  | cons c digits ih =>
    obtain ⟨digit, all⟩ := List.forall_mem_cons.mp all
    rw [List.cons_append, cut_cons_of_not_sep (isSep_of_isDigit digit), ih all]
    rfl

theorem stops_cut {rest : List Char} (stops : ∀ c ∈ rest.head?, c.isDigit = false) :
    ∀ c ∈ (cut rest).1.head?, c.isDigit = false := by
  cases rest with
  | nil => exact nofun
  | cons c rest =>
    cases separator : isSep c with
    | true =>
      rw [cut_cons_of_sep separator]
      exact nofun
    | false =>
      rw [cut_cons_of_not_sep separator]
      exact stops

theorem tupleOf_run {digits rest : List Char} (run : Run digits rest) :
    tupleOf (digits ++ rest) = toLex (number digits, (cut rest).1) :: (cut rest).2 := by
  rw [tupleOf_eq, cut_digits run.all, segment_run ⟨run.all, stops_cut run.stops⟩]

end Parts

section Order

variable {s t d e : List Char} {X Y : List (Nat ×ₗ List Char)} {c : Char}

theorem order_remainder (s t : List Char) (X Y : List (Nat ×ₗ List Char)) :
    order (remainder s X) (remainder t Y) =
      (order (cut s).1 (cut t).1).then (order ((cut s).2 ++ X) ((cut t).2 ++ Y)) :=
  order_toLex _ _ _ _

theorem order_remainder_cons (other : isSep c = false) :
    order (remainder (c :: s) X) (remainder (c :: t) Y) =
      order (remainder s X) (remainder t Y) := by
  rw [order_remainder, order_remainder, cut_cons_of_not_sep other, cut_cons_of_not_sep other,
    order_cons_self]

theorem order_remainder_sep (separator : isSep c = true) :
    order (remainder (c :: s) X) (remainder (c :: t) Y) =
      order (tupleOf s ++ X) (tupleOf t ++ Y) := by
  rw [order_remainder, cut_cons_of_sep separator, cut_cons_of_sep separator, order_self]
  rfl

theorem order_tupleOf (left : Run d s) (right : Run e t) :
    order (tupleOf (d ++ s) ++ X) (tupleOf (e ++ t) ++ Y) =
      (order (number d) (number e)).then (order (remainder s X) (remainder t Y)) := by
  rw [tupleOf_run left, tupleOf_run right, List.cons_append, List.cons_append, order_cons_cons,
    order_toLex, order_remainder]
  cases order (number d) (number e) <;> rfl

theorem order_remainder_digits (all : ∀ c ∈ d, c.isDigit = true) :
    order (remainder (d ++ s) X) (remainder (d ++ t) Y) =
      order (remainder s X) (remainder t Y) := by
  induction d with
  | nil => rfl
  | cons c d ih =>
    obtain ⟨digit, all⟩ := List.forall_mem_cons.mp all
    rw [List.cons_append, List.cons_append, order_remainder_cons (isSep_of_isDigit digit),
      ih all]

theorem number_cons (c : Char) (digits : List Char) :
    number (c :: digits) = 10 ^ digits.length * (c.toNat - '0'.toNat) + number digits := by
  unfold number
  rw [Nat.ofDigitChars_cons, Nat.ofDigitChars_eq_ofDigitChars_zero, Nat.mul_zero, Nat.zero_add]

theorem number_lt (all : ∀ c ∈ d, c.isDigit = true) : number d < 10 ^ d.length := by
  induction d with
  | nil => exact Nat.one_pos
  | cons c d ih =>
    obtain ⟨digit, all⟩ := List.forall_mem_cons.mp all
    have range := isDigit_range digit
    have small := ih all
    have first : 10 ^ d.length * (c.toNat - '0'.toNat) ≤ 10 ^ d.length * 9 :=
      Nat.mul_le_mul_left _ (show c.toNat - 48 ≤ 9 by omega)
    have power : 10 ^ (c :: d).length = 10 ^ d.length * 10 := Nat.pow_succ 10 _
    rw [number_cons]
    omega

theorem digits_lt_iff {power a b m n : Nat} (left : m < power) (right : n < power) :
    power * a + m < power * b + n ↔ a < b ∨ a = b ∧ m < n := by
  rcases lt_trichotomy a b with less | rfl | more
  · have room : power * (a + 1) ≤ power * b := Nat.mul_le_mul_left power less
    rw [Nat.mul_succ] at room
    constructor
    · exact fun _ => .inl less
    · intro _
      omega
  · simp
  · have room : power * (b + 1) ≤ power * a := Nat.mul_le_mul_left power more
    rw [Nat.mul_succ] at room
    constructor
    · intro sum
      omega
    · rintro (less | ⟨same, _⟩) <;> omega

theorem order_digits (size : d.length = e.length) (left : ∀ c ∈ d, c.isDigit = true)
    (right : ∀ c ∈ e, c.isDigit = true) (x y : List Char) :
    order (d ++ x) (e ++ y) = (order (number d) (number e)).then (order x y) := by
  induction d generalizing e with
  | nil =>
    obtain rfl := List.length_eq_zero_iff.mp size.symm
    rw [order_self]
    rfl
  | cons c d ih =>
    match e, size with
    | c' :: e, size =>
      have fewer : d.length = e.length := Nat.succ.inj size
      obtain ⟨digit, left⟩ := List.forall_mem_cons.mp left
      obtain ⟨digit', right⟩ := List.forall_mem_cons.mp right
      have first (c c' : Char) (digit : c.isDigit = true) (digit' : c'.isDigit = true) :
          (c.toNat - '0'.toNat < c'.toNat - '0'.toNat ↔ c < c') ∧
            (c.toNat - '0'.toNat = c'.toNat - '0'.toNat ↔ c = c') := by
        have range := isDigit_range digit
        have range' := isDigit_range digit'
        have less : c < c' ↔ c.toNat < c'.toNat := Iff.rfl
        have same : c = c' ↔ c.toNat = c'.toNat := Char.toNat_inj.symm
        rw [less, same]
        change (c.toNat - 48 < c'.toNat - 48 ↔ _) ∧ (c.toNat - 48 = c'.toNat - 48 ↔ _)
        constructor <;> omega
      have small := number_lt left
      have small' := number_lt right
      rw [← fewer] at small'
      have numbers : order (number (c :: d)) (number (c' :: e)) =
          (order c c').then (order (number d) (number e)) := by
        rw [number_cons, number_cons, ← fewer]
        apply order_eq_then
        · rw [digits_lt_iff small small', (first c c' digit digit').1,
            (first c c' digit digit').2]
        · rw [digits_lt_iff small' small, (first c' c digit' digit).1,
            (first c' c digit' digit).2]
      rw [List.cons_append, List.cons_append, order_cons_cons, ih fewer left right, numbers]
      cases order c c' <;> rfl

/-- The tuples of two texts, from the start of a part or from within one. -/
def partOrder (first : Bool) (s : List Char) (X : List (Nat ×ₗ List Char)) (t : List Char)
    (Y : List (Nat ×ₗ List Char)) : Ordering :=
  if first then order (tupleOf s ++ X) (tupleOf t ++ Y)
  else order (remainder s X) (remainder t Y)

theorem partOrder_of_stops (left : ∀ c ∈ s.head?, c.isDigit = false)
    (right : ∀ c ∈ t.head?, c.isDigit = false) (first : Bool) :
    partOrder first s X t Y = order (remainder s X) (remainder t Y) := by
  cases first with
  | false => rfl
  | true =>
    have numbers := @order_tupleOf s t [] [] X Y ⟨nofun, left⟩ ⟨nofun, right⟩
    rw [order_self] at numbers
    exact numbers

theorem order_remainder_nil_cons (ends : isSep c = true → X = []) (t : List Char) :
    order (remainder [] X) (remainder (c :: t) Y) = .lt := by
  rw [order_remainder]
  cases separator : isSep c with
  | true =>
    rw [cut_cons_of_sep separator, ends separator, tupleOf_eq, List.cons_append]
    exact order_nil_cons _ _
  | false =>
    rw [cut_cons_of_not_sep separator]
    change (order [] _).then _ = _
    rw [order_nil_cons]
    rfl

theorem order_remainder_cons_nil (ends : isSep c = true → Y = []) (s : List Char) :
    order (remainder (c :: s) X) (remainder [] Y) = .gt :=
  order_eq_gt_iff.mpr (order_eq_lt_iff.mp (order_remainder_nil_cons ends s))

theorem not_isSep_of_isAlpha (letter : c.isAlpha = true) : isSep c = false := by
  cases separator : isSep c with
  | false => rfl
  | true => rcases isSep_cases separator with rfl | rfl | rfl <;> exact absurd letter (by decide)

theorem stops_nil : ∀ d ∈ ([] : List Char).head?, d.isDigit = false :=
  fun _ own => absurd own (Option.not_mem_none _)

theorem stops_cons (other : c.isDigit = false) (rest : List Char) :
    ∀ d ∈ (c :: rest).head?, d.isDigit = false := by
  intro d own
  cases own
  exact other

theorem partOrder_told {leftEnds rightEnds first : Bool} {told : Ordering}
    (how : Told leftEnds rightEnds first s t told) (left : leftEnds = true → X = [])
    (right : rightEnds = true → Y = []) :
    partOrder first s X t Y = told.then (order X Y) := by
  induction how with
  | same =>
    rw [partOrder_of_stops stops_nil stops_nil, order_remainder]
    rfl
  | @char _ c _ _ _ other _ ih =>
    rw [partOrder_of_stops (stops_cons other _) (stops_cons other _), ← ih]
    cases separator : isSep c with
    | true => exact order_remainder_sep separator
    | false => exact order_remainder_cons separator
  | @sameNumber first _ _ _ _ _ run run' _ value inside _ ih =>
    rw [← ih]
    cases first with
    | true =>
      change order _ _ = order _ _
      rw [order_tupleOf run run', value, order_self]
      rfl
    | false =>
      obtain rfl := inside rfl
      exact order_remainder_digits run.all
  | @numbers first _ _ _ _ run run' _ value inside =>
    have told := order_ne_eq value
    rw [then_of_ne_eq told]
    cases first with
    | true =>
      change order _ _ = _
      rw [order_tupleOf run run', then_of_ne_eq told]
    | false =>
      change order (remainder _ _) (remainder _ _) = _
      rw [order_remainder, cut_digits run.all, cut_digits run'.all,
        order_digits (inside rfl) run.all run'.all, then_of_ne_eq told, then_of_ne_eq told]
  | letters letter letter' other =>
    rw [partOrder_of_stops (stops_cons (not_isDigit_of_isAlpha letter) _)
        (stops_cons (not_isDigit_of_isAlpha letter') _), order_remainder,
      cut_cons_of_not_sep (not_isSep_of_isAlpha letter),
      cut_cons_of_not_sep (not_isSep_of_isAlpha letter'), order_cons_cons]
    have told := order_ne_eq other
    rw [then_of_ne_eq told, then_of_ne_eq told, then_of_ne_eq told]
  | beforeLetter letter =>
    have inside := not_isSep_of_isAlpha letter
    rw [partOrder_of_stops stops_nil (stops_cons (not_isDigit_of_isAlpha letter) _)]
    exact order_remainder_nil_cons (fun separator => absurd separator (by simp [inside])) _
  | letterBefore letter =>
    have inside := not_isSep_of_isAlpha letter
    rw [partOrder_of_stops (stops_cons (not_isDigit_of_isAlpha letter) _) stops_nil]
    exact order_remainder_cons_nil (fun separator => absurd separator (by simp [inside])) _
  | beforePart ends separator =>
    rw [partOrder_of_stops stops_nil (stops_cons (not_isDigit_of_isSep separator) _)]
    exact order_remainder_nil_cons (fun _ => left ends) _
  | partBefore ends separator =>
    rw [partOrder_of_stops (stops_cons (not_isDigit_of_isSep separator) _) stops_nil]
    exact order_remainder_cons_nil (fun _ => right ends) _

end Order

section Spelling

def withEpoch (epoch : Option (List Char)) (upstream : List Char) : List Char :=
  match epoch with
  | none => upstream
  | some digits => digits ++ ':' :: upstream

def withRevision (head : List Char) (revision : Option (List Char)) : List Char :=
  match revision with
  | none => head
  | some revision => head ++ '-' :: revision

/-- `[epoch:]upstream[-revision]`, with no number too long for `int`. -/
structure Spelling where
  epoch : Option (List Char)
  upstream : List Char
  revision : Option (List Char)
  numeric : ∀ digits ∈ epoch, digits ≠ [] ∧ ∀ c ∈ digits, c.isDigit = true
  allowed : ∀ c ∈ upstream ++ revision.getD [],
    c.isAlpha = true ∨ c.isDigit = true ∨ c ∈ ['.', '+', '~']
  filled : upstream ≠ []
  short : (withRevision (withEpoch epoch upstream) revision).length ≤ 4300

namespace Spelling

def head (version : Spelling) : List Char := withEpoch version.epoch version.upstream

def chars (version : Spelling) : List Char := withRevision version.head version.revision

def text (version : Spelling) : String := String.ofList version.chars

/-- Revisions that are told apart; none comes before one that starts with a number. -/
inductive RevisionsTold : Option (List Char) → Option (List Char) → Prop
  | neither : RevisionsTold none none
  | both {r s told} (how : Told true true true r s told) : RevisionsTold (some r) (some s)
  | right {digits rest} (run : Run digits rest) (value : number digits ≠ 0) :
      RevisionsTold none (some (digits ++ rest))
  | left {digits rest} (run : Run digits rest) (value : number digits ≠ 0) :
      RevisionsTold (some (digits ++ rest)) none

/-- Both have an epoch or neither does, and what is up to the revisions tells them apart, or else
these do. -/
def Comparable (v w : Spelling) : Prop :=
  v.epoch.isSome = w.epoch.isSome ∧
    ∃ told, Told v.revision.isNone w.revision.isNone true v.head w.head told ∧
      (told = .eq → RevisionsTold v.revision w.revision)

variable {v w : Spelling}

theorem allowed_ne {c d : Char}
    (allowed : c.isAlpha = true ∨ c.isDigit = true ∨ c ∈ ['.', '+', '~'])
    (mark : d = ':' ∨ d = '-') : c ≠ d := by
  rintro rfl
  rcases mark with rfl | rfl <;> exact absurd allowed (by decide)

theorem not_mem_upstream {d : Char} (mark : d = ':' ∨ d = '-') (v : Spelling) :
    d ∉ v.upstream := fun member =>
  allowed_ne (v.allowed d (List.mem_append_left _ member)) mark rfl

theorem not_mem_revision {d : Char} (mark : d = ':' ∨ d = '-') (v : Spelling) :
    d ∉ v.revision.getD [] := fun member =>
  allowed_ne (v.allowed d (List.mem_append_right _ member)) mark rfl

theorem parse_withRevision {upstream : List Char} {revision : Option (List Char)}
    (plain : '-' ∉ upstream) (free : '-' ∉ revision.getD []) (epoch : Nat) :
    (if '-' ∈ withRevision upstream revision then
        (⟨epoch, ((withRevision upstream revision).rdropWhile (· ≠ '-')).dropLast,
          (withRevision upstream revision).rtakeWhile (· ≠ '-')⟩ : Version)
      else ⟨epoch, withRevision upstream revision, []⟩) =
        ⟨epoch, upstream, revision.getD []⟩ := by
  cases revision with
  | none => exact if_neg plain
  | some revision =>
    change '-' ∉ revision at free
    have hyphen : '-' ∈ upstream ++ '-' :: revision :=
      List.mem_append_right _ List.mem_cons_self
    have others : ∀ c ∈ revision.reverse, decide (c ≠ '-') = true := by
      intro c member
      apply decide_eq_true
      rintro rfl
      exact free (List.mem_reverse.mp member)
    have backwards : (upstream ++ '-' :: revision).reverse =
        revision.reverse ++ '-' :: upstream.reverse := by
      simp
    have last : (upstream ++ '-' :: revision).rtakeWhile (· ≠ '-') = revision := by
      rw [List.rtakeWhile, backwards, List.takeWhile_append_of_pos others]
      simp
    have front : ((upstream ++ '-' :: revision).rdropWhile (· ≠ '-')).dropLast = upstream := by
      rw [List.rdropWhile, backwards, List.dropWhile_append_of_pos others]
      simp
    change (if '-' ∈ upstream ++ '-' :: revision then _ else _) = _
    rw [if_pos hyphen]
    change (⟨epoch, ((upstream ++ '-' :: revision).rdropWhile _).dropLast,
      (upstream ++ '-' :: revision).rtakeWhile _⟩ : Version) = _
    rw [last, front]
    rfl

theorem withRevision_withEpoch (digits upstream : List Char) (revision : Option (List Char)) :
    withRevision (withEpoch (some digits) upstream) revision =
      digits ++ ':' :: withRevision upstream revision := by
  cases revision <;> simp [withRevision, withEpoch]

theorem colon_not_mem (v : Spelling) : ':' ∉ withRevision v.upstream v.revision := by
  have plain := not_mem_upstream (.inl rfl) v
  have free := not_mem_revision (.inl rfl) v
  unfold withRevision
  split
  · exact plain
  · next own =>
    rw [own] at free
    simpa [plain] using free

theorem parse_chars (v : Spelling) : parse v.chars =
    ⟨(v.epoch.map number).getD 0, v.upstream, v.revision.getD []⟩ := by
  have last := parse_withRevision (not_mem_upstream (.inr rfl) v)
    (not_mem_revision (.inr rfl) v)
  have plain := colon_not_mem v
  unfold chars head parse
  cases own : v.epoch with
  | none =>
    have whole : withRevision (withEpoch none v.upstream) v.revision =
        withRevision v.upstream v.revision := rfl
    rw [whole, if_neg plain]
    exact last 0
  | some digits =>
    have numeric := (v.numeric digits own).2
    have others : ∀ c ∈ digits, decide (c ≠ ':') = true := by
      intro c member
      apply decide_eq_true
      rintro rfl
      exact absurd (numeric ':' member) (by decide)
    have colon : ':' ∈ digits ++ ':' :: withRevision v.upstream v.revision :=
      List.mem_append_right _ List.mem_cons_self
    rw [withRevision_withEpoch, if_pos colon, List.takeWhile_append_of_pos others,
      List.dropWhile_append_of_pos others]
    simpa using last (number digits)

theorem verrevcmp_withEpoch {digits digits' : List Char} (left : ∀ c ∈ digits, c.isDigit = true)
    (right : ∀ c ∈ digits', c.isDigit = true) (some_ : digits ≠ [] ∧ digits' ≠ [])
    (u w : List Char) :
    verrevcmp (digits ++ ':' :: u) (digits' ++ ':' :: w) =
      (order (number digits) (number digits')).then (verrevcmp u w) := by
  have colon : Char.isDigit ':' = false := rfl
  unfold verrevcmp
  rw [tokens_run ⟨left, stops_cons colon u⟩ some_.1, tokens_run ⟨right, stops_cons colon w⟩ some_.2,
    tokens_cons colon, tokens_cons colon, padded_cons_cons, padded_cons_self, order_toLex,
    order_self]
  cases order (number digits) (number digits') <;> rfl

theorem verrevcmp_head (both : v.epoch.isSome = w.epoch.isSome) :
    verrevcmp v.head w.head =
      (order ((v.epoch.map number).getD 0) ((w.epoch.map number).getD 0)).then
        (verrevcmp v.upstream w.upstream) := by
  unfold head
  cases left : v.epoch with
  | none =>
    cases right : w.epoch with
    | none =>
      change _ = (order 0 0).then _
      rw [order_self]
      rfl
    | some digits' => simp [left, right] at both
  | some digits =>
    cases right : w.epoch with
    | none => simp [left, right] at both
    | some digits' =>
      have numeric := v.numeric digits left
      have numeric' := w.numeric digits' right
      exact verrevcmp_withEpoch numeric.2 numeric'.2 ⟨numeric.1, numeric'.1⟩ _ _

theorem tupleOf_append_cons {c : Char} (separator : isSep c = true) (s t : List Char) :
    tupleOf (s ++ c :: t) = tupleOf s ++ tupleOf t := by
  have dot : (if c = '-' ∨ c = '+' then '.' else c) = '.' := by
    rcases isSep_cases separator with rfl | rfl | rfl <;> rfl
  unfold tupleOf
  rw [List.map_append, List.map_cons, dot, List.splitOn_append_cons_self, List.map_append]

theorem tupleOf_chars (v : Spelling) :
    tupleOf v.chars = tupleOf v.head ++ (v.revision.map tupleOf).getD [] := by
  unfold chars withRevision
  split
  · next own =>
    rw [own]
    exact (List.append_nil _).symm
  · next revision own =>
    rw [own]
    exact tupleOf_append_cons rfl v.head revision

theorem tupleOf_ne_nil (text : List Char) : tupleOf text ≠ [] := by
  rw [tupleOf_eq]
  exact List.cons_ne_nil _ _

theorem verrevcmp_nil_number {digits rest : List Char} (run : Run digits rest)
    (value : number digits ≠ 0) : verrevcmp [] (digits ++ rest) = .lt := by
  have some_ : digits ≠ [] := fun none_ => value (by rw [none_]; rfl)
  have less : order 0 (number digits) = .lt := order_eq_lt_iff.mpr (Nat.pos_of_ne_zero value)
  unfold verrevcmp
  rw [tokens_run run some_]
  change padded _ [] _ = _
  rw [padded_nil_cons, order_toLex, order_self, less]
  rfl

theorem verrevcmp_number_nil {digits rest : List Char} (run : Run digits rest)
    (value : number digits ≠ 0) : verrevcmp (digits ++ rest) [] = .gt := by
  have some_ : digits ≠ [] := fun none_ => value (by rw [none_]; rfl)
  have more : order (number digits) 0 = .gt := order_eq_gt_iff.mpr (Nat.pos_of_ne_zero value)
  unfold verrevcmp
  rw [tokens_run run some_]
  change padded _ _ [] = _
  rw [padded_cons_nil, order_toLex, order_self, more]
  rfl

theorem order_revisions {left right : Option (List Char)} (how : RevisionsTold left right) :
    order ((left.map tupleOf).getD []) ((right.map tupleOf).getD []) =
      verrevcmp (left.getD []) (right.getD []) := by
  cases how with
  | neither => exact order_self _
  | @both r s told how =>
    have same := @partOrder_told r s [] [] true true true told how (fun _ => rfl) fun _ => rfl
    rw [order_self] at same
    unfold partOrder at same
    simp only [List.append_nil, if_true] at same
    change order (tupleOf r) (tupleOf s) = verrevcmp r s
    rw [verrevcmp_told how, same]
    cases told <;> rfl
  | @right digits rest run value =>
    obtain ⟨part, parts, filled⟩ := List.exists_cons_of_ne_nil (tupleOf_ne_nil (digits ++ rest))
    change order [] (tupleOf (digits ++ rest)) = verrevcmp [] (digits ++ rest)
    rw [verrevcmp_nil_number run value, filled, order_nil_cons]
  | @left digits rest run value =>
    obtain ⟨part, parts, filled⟩ := List.exists_cons_of_ne_nil (tupleOf_ne_nil (digits ++ rest))
    change order (tupleOf (digits ++ rest)) [] = verrevcmp (digits ++ rest) []
    rw [verrevcmp_number_nil run value, filled, order_cons_nil]

theorem order_tupleOf_chars (comparable : v.Comparable w) :
    order (tupleOf v.chars) (tupleOf w.chars) = (parse v.chars).compare (parse w.chars) := by
  obtain ⟨both, told, how, revisions⟩ := comparable
  have ends {revision : Option (List Char)} (none_ : revision.isNone = true) :
      (revision.map tupleOf).getD [] = [] := by
    rw [Option.isNone_iff_eq_none.mp none_]
    rfl
  have tuples := partOrder_told how ends ends
  have heads := verrevcmp_told how
  rw [verrevcmp_head both] at heads
  have assoc (first second third : Ordering) :
      first.then (second.then third) = (first.then second).then third := by
    cases first <;> rfl
  rw [parse_chars, parse_chars, tupleOf_chars, tupleOf_chars]
  change order _ _ = told.then _ at tuples
  rw [tuples]
  unfold Version.compare
  rw [assoc, heads]
  by_cases same : told = .eq
  · subst same
    exact order_revisions (revisions rfl)
  · rw [then_of_ne_eq same, then_of_ne_eq same]

end Spelling

end Spelling

section Ranges

/-- `str.isdigit` and `int` on ASCII; `int` reads up to 4300 digits. -/
structure Digits.Reads (digits : Digits) : Prop where
  ascii : ∀ c : Char, c.toNat < 128 → digits.isDigit c = c.isDigit
  int : ∀ text : List Char, text ≠ [] → (∀ c ∈ text, c.isDigit = true) → text.length ≤ 4300 →
    digits.int text = some (number text)

theorem reads_asciiDigits : asciiDigits.Reads where
  ascii _ _ := rfl
  int _ _ _ _ := rfl

variable {digits : Digits}

theorem span_congr {p q : Char → Bool} {text : List Char} (same : ∀ c ∈ text, p c = q c) :
    text.takeWhile p = text.takeWhile q ∧ text.dropWhile p = text.dropWhile q := by
  induction text with
  | nil => exact ⟨rfl, rfl⟩
  | cons c text ih =>
    obtain ⟨here, later⟩ := List.forall_mem_cons.mp same
    obtain ⟨front, back⟩ := ih later
    rw [List.takeWhile_cons, List.takeWhile_cons, List.dropWhile_cons, List.dropWhile_cons, here,
      front, back]
    exact ⟨rfl, rfl⟩

theorem segment_eq (reads : digits.Reads) {part : List Char} (ascii : ∀ c ∈ part, c.toNat < 128)
    (short : part.length ≤ 4300) : segment digits part = segment asciiDigits part := by
  obtain ⟨front, back⟩ := span_congr fun c member => reads.ascii c (ascii c member)
  rw [segment_digits rfl rfl]
  unfold segment
  rw [front, back]
  cases own : part.takeWhile Char.isDigit with
  | nil => rfl
  | cons c text =>
    have numeric : ∀ d ∈ c :: text, d.isDigit = true := by
      rw [← own]
      exact fun d member => List.mem_takeWhile_imp member
    have size : (c :: text).length ≤ 4300 := by
      rw [← own]
      exact (List.takeWhile_sublist _).length_le.trans short
    have int := reads.int (c :: text) (List.cons_ne_nil c text) numeric size
    dsimp only
    rw [int]
    exact (if_neg (List.cons_ne_nil c text)).symm

theorem sublist_of_mem_splitOn {text part : List Char} (member : part ∈ text.splitOn '.') :
    part.Sublist text := by
  induction text generalizing part with
  | nil =>
    rw [List.splitOn_nil] at member
    rw [List.mem_singleton.mp member]
  | cons c text ih =>
    rw [List.splitOn_cons_eq_if_modifyHead] at member
    obtain ⟨first, parts, split⟩ := List.exists_cons_of_ne_nil (List.splitOn_ne_nil '.' text)
    split at member
    · rcases List.mem_cons.mp member with rfl | later
      · exact List.nil_sublist _
      · exact (ih later).cons c
    · rw [split, List.modifyHead_cons] at member
      rcases List.mem_cons.mp member with rfl | later
      · exact (ih (split ▸ List.mem_cons_self)).cons_cons c
      · exact (ih (split ▸ List.mem_cons_of_mem _ later)).cons c

theorem versionTuple_eq (reads : digits.Reads) {text : String}
    (ascii : ∀ c ∈ text.toList, c.toNat < 128) (short : text.toList.length ≤ 4300) :
    versionTuple digits text = versionTuple asciiDigits text := by
  unfold versionTuple
  split
  · rfl
  · apply List.map_congr_left
    intro part member
    have inside := sublist_of_mem_splitOn member
    rw [segment_eq reads]
    · intro c own
      obtain ⟨d, there, rfl⟩ := List.mem_map.mp (inside.subset own)
      split
      · decide
      · exact ascii d there
    · have size := inside.length_le
      rw [List.length_map] at size
      exact size.trans short

/-- An ecosystem of Debian or Ubuntu, with or without a release. -/
def Distribution (ecosystem : String) : Prop :=
  ∃ release, ecosystem = "Debian" ++ release ∨ ecosystem = "Ubuntu" ++ release

theorem inRange_distribution (packaging : Option Packaging) {ecosystem : String}
    (distribution : Distribution ecosystem) (current : String) (introduced fixed : Option String) :
    inRange packaging digits current introduced fixed ecosystem =
      tupleCompare digits current introduced fixed := by
  have first : ecosystem.toList.head? = some 'D' ∨ ecosystem.toList.head? = some 'U' := by
    obtain ⟨release, rfl | rfl⟩ := distribution
    · exact .inl (by simp)
    · exact .inr (by simp)
  have other {name : String}
      (differs : name.toList.head? ≠ some 'D' ∧ name.toList.head? ≠ some 'U') :
      ecosystem ≠ name := by
    rintro rfl
    rcases first with letter | letter
    · exact differs.1 letter
    · exact differs.2 letter
  have unasked : ecosystem ∉ ["PyPI", "Go", "Maven", "NuGet", "crates.io"] := by
    simp only [List.mem_cons, List.not_mem_nil, or_false, not_or]
    refine ⟨other ?_, other ?_, other ?_, other ?_, other ?_⟩ <;> decide
  have notNpm : ecosystem ≠ "npm" := other (by decide)
  unfold inRange
  rw [if_neg unasked]
  cases packaging with
  | none => simp
  | some packaging => simp [notNpm]

theorem zero_le_versionTuple (reads : digits.Reads) {current : String} (filled : current ≠ "") :
    versionTuple digits "0" ≤ versionTuple digits current := by
  have zero : versionTuple digits "0" = [toLex (0, [])] := by
    have chars : "0".toList = ['0'] := rfl
    rw [versionTuple_eq reads (by simp [chars]) (by simp [chars])]
    rfl
  obtain ⟨part, parts, tuple⟩ : ∃ part parts, versionTuple digits current = part :: parts := by
    apply List.exists_cons_of_ne_nil
    unfold versionTuple
    rw [if_neg filled]
    simp
  rw [zero, tuple]
  apply not_lt.mp
  intro less
  rcases List.cons_lt_cons_iff.mp less with below | ⟨_, shorter⟩
  · rcases Prod.Lex.lt_iff.mp below with number | ⟨_, text⟩
    · exact Nat.not_lt_zero _ number
    · exact List.not_lt_nil _ text
  · exact List.not_lt_nil _ shorter

theorem ascii_chars (version : Spelling) : ∀ c ∈ version.chars, c.toNat < 128 := by
  have digit {c : Char} (own : c.isDigit = true) : c.toNat < 128 := by
    have range := isDigit_range own
    omega
  have plain {c : Char} (member : c ∈ version.upstream ++ version.revision.getD []) :
      c.toNat < 128 := by
    rcases version.allowed c member with letter | own | mark
    · have range := isAlpha_range letter
      omega
    · exact digit own
    · simp only [List.mem_cons, List.not_mem_nil, or_false] at mark
      rcases mark with rfl | rfl | rfl <;> decide
  have head : ∀ c ∈ version.head, c.toNat < 128 := by
    intro c member
    unfold Spelling.head withEpoch at member
    split at member
    · exact plain (List.mem_append_left _ member)
    · next digits own =>
      rcases List.mem_append.mp member with epoch | rest
      · exact digit ((version.numeric digits own).2 c epoch)
      · rcases List.mem_cons.mp rest with rfl | upstream
        · decide
        · exact plain (List.mem_append_left _ upstream)
  intro c member
  unfold Spelling.chars withRevision at member
  split at member
  · exact head c member
  · next revision own =>
    rcases List.mem_append.mp member with front | rest
    · exact head c front
    · rcases List.mem_cons.mp rest with rfl | back
      · decide
      · exact plain (List.mem_append_right _ (by rw [own]; exact back))

theorem text_ne_empty (version : Spelling) : version.text ≠ "" := by
  have head : version.head ≠ [] := by
    unfold Spelling.head withEpoch
    split
    · exact version.filled
    · simp
  have chars : version.chars ≠ [] := by
    unfold Spelling.chars withRevision
    split
    · exact head
    · simp
  intro none_
  apply chars
  have same := congrArg String.toList none_
  rwa [Spelling.text, String.toList_ofList] at same

theorem order_versionTuple (reads : digits.Reads) {v w : Spelling} (comparable : v.Comparable w) :
    order (versionTuple digits v.text) (versionTuple digits w.text) =
      Dpkg.compare v.text w.text := by
  have read (version : Spelling) : versionTuple digits version.text = tupleOf version.chars := by
    have chars : version.text.toList = version.chars := String.toList_ofList
    rw [versionTuple_eq reads (chars ▸ ascii_chars version) (chars ▸ version.short), versionTuple,
      if_neg (text_ne_empty version), chars]
    rfl
  rw [read, read, Spelling.order_tupleOf_chars comparable]
  unfold Dpkg.compare Spelling.text
  rw [String.toList_ofList, String.toList_ofList]

/-- In an ecosystem of Debian or Ubuntu the range is taken in the order of the tuples, in which the
zero of OSV is below all versions; between versions that are told apart as `dpkg` does, it is the
range in the order of `dpkg`. -/
theorem distribution_in_range_iff (packaging : Option Packaging) (reads : digits.Reads)
    {ecosystem : String} (distribution : Distribution ecosystem) :
    (∀ current introduced fixed,
      inRange packaging digits current introduced fixed ecosystem = true ↔
        (∀ first ∈ truthy introduced, versionTuple digits first ≤ versionTuple digits current) ∧
          ∀ last ∈ truthy fixed, versionTuple digits current < versionTuple digits last) ∧
      (∀ current, current ≠ "" → versionTuple digits "0" ≤ versionTuple digits current) ∧
      ∀ (current : Spelling) (introduced fixed : Option String),
        (∀ first ∈ introduced, first = "0" ∨
          ∃ version : Spelling, first = version.text ∧ version.Comparable current) →
        (∀ last ∈ fixed, ∃ version : Spelling, last = version.text ∧ current.Comparable version) →
        (inRange packaging digits current.text introduced fixed ecosystem = true ↔
          (∀ first ∈ introduced, first = "0" ∨ Dpkg.compare first current.text ≠ .gt) ∧
            ∀ last ∈ fixed, Dpkg.compare current.text last = .lt) := by
  have tuples (current : String) (introduced fixed : Option String) :
      inRange packaging digits current introduced fixed ecosystem = true ↔
        (∀ first ∈ truthy introduced, versionTuple digits first ≤ versionTuple digits current) ∧
          ∀ last ∈ truthy fixed, versionTuple digits current < versionTuple digits last := by
    rw [inRange_distribution packaging distribution, tupleCompare, between_iff]
    simp
  refine ⟨tuples, fun current filled => zero_le_versionTuple reads filled, ?_⟩
  intro current introduced fixed opens closes
  have named : ∀ first ∈ introduced, first ≠ "" := by
    intro first own
    rcases opens first own with rfl | ⟨version, rfl, _⟩
    · decide
    · exact text_ne_empty version
  have ended : ∀ last ∈ fixed, last ≠ "" := by
    intro last own
    obtain ⟨version, rfl, _⟩ := closes last own
    exact text_ne_empty version
  rw [tuples, truthy_of_forall_ne named, truthy_of_forall_ne ended]
  apply and_congr
  case h₁ =>
    apply forall₂_congr
    intro first own
    have zero : first = "0" → versionTuple digits first ≤ versionTuple digits current.text := by
      rintro rfl
      exact zero_le_versionTuple reads (text_ne_empty current)
    rcases opens first own with same | ⟨version, rfl, comparable⟩
    · exact iff_of_true (zero same) (.inl same)
    · have told : versionTuple digits version.text ≤ versionTuple digits current.text ↔
          Dpkg.compare version.text current.text ≠ .gt := by
        rw [← order_versionTuple reads comparable, Ne, order_eq_gt_iff, not_lt]
      constructor
      · exact fun below => .inr (told.mp below)
      · exact fun either => either.elim zero told.mpr
  case h₂ =>
    apply forall₂_congr
    intro last own
    obtain ⟨version, rfl, comparable⟩ := closes last own
    rw [← order_versionTuple reads comparable, order_eq_lt_iff]

/-- `1.2-3ubuntu5` and its like. -/
def ubuntu (digit : Char) (own : digit.isDigit = true) : Spelling where
  epoch := none
  upstream := ['1', '.', '2']
  revision := some ['3', 'u', 'b', 'u', 'n', 't', 'u', digit]
  numeric := nofun
  allowed := by simp [own]
  filled := by decide
  short := by simp [withRevision, withEpoch]

theorem ubuntu_comparable : (ubuntu '5' rfl).Comparable (ubuntu '6' rfl) := by
  have run (digit : Char) (own : digit.isDigit = true) : Run [digit] [] :=
    ⟨List.forall_mem_singleton.mpr own, stops_nil⟩
  have letters (rest : List Char) : Run ['3'] ('u' :: rest) :=
    ⟨List.forall_mem_singleton.mpr rfl, stops_cons rfl rest⟩
  have filled (digit : Char) : [digit] ≠ [] := List.cons_ne_nil digit []
  have last : Told true true false ['5'] ['6'] (order (number ['5']) (number ['6'])) :=
    .numbers (run '5' rfl) (run '6' rfl) ⟨filled '5', filled '6'⟩ (by decide) fun _ => rfl
  have word : Told true true false ['u', 'b', 'u', 'n', 't', 'u', '5']
      ['u', 'b', 'u', 'n', 't', 'u', '6'] (order (number ['5']) (number ['6'])) :=
    .char rfl (.char rfl (.char rfl (.char rfl (.char rfl (.char rfl last)))))
  have whole : Told true true true ('3' :: ['u', 'b', 'u', 'n', 't', 'u', '5'])
      ('3' :: ['u', 'b', 'u', 'n', 't', 'u', '6']) (order (number ['5']) (number ['6'])) :=
    .sameNumber (letters _) (letters _) ⟨filled '3', filled '3'⟩ rfl nofun word
  exact ⟨rfl, .eq, told_self true _, fun _ => .both whole⟩

theorem ubuntu_in_range :
    inRange none asciiDigits "1.2-3ubuntu5" (some "0") (some "1.2-3ubuntu6") "Ubuntu:22.04" =
      true :=
  ((distribution_in_range_iff none reads_asciiDigits ⟨":22.04", .inr rfl⟩).2.2 (ubuntu '5' rfl)
    (some "0") (some "1.2-3ubuntu6") (fun _ own => .inl (Option.some.inj own).symm)
    fun _ own => ⟨ubuntu '6' rfl, (Option.some.inj own).symm, ubuntu_comparable⟩).mpr
      ⟨fun _ own => .inl (Option.some.inj own).symm, by decide +kernel⟩

/-- A release candidate, a version without the epoch and one with a longer number are below the
fixed one, and out of its range. -/
theorem below_fixed_out_of_range :
    Dpkg.compare "1.0~rc1" "1.0" = .lt ∧
      inRange none asciiDigits "1.0~rc1" (some "0") (some "1.0") "Debian:12" = false ∧
      Dpkg.compare "2.0" "1:1.0" = .lt ∧
      inRange none asciiDigits "2.0" (some "0") (some "1:1.0") "Debian:12" = false ∧
      Dpkg.compare "1.2-3ubuntu9" "1.2-3ubuntu10" = .lt ∧
      inRange none asciiDigits "1.2-3ubuntu9" (some "0") (some "1.2-3ubuntu10") "Ubuntu:22.04" =
        false := by
  refine ⟨?_, ?_, ?_, ?_, ?_, ?_⟩ <;> decide +kernel

end Ranges

end HlHelper.Advisory
