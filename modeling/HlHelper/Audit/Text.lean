import HlHelper.Audit.Chain
import HlHelper.Library.PrefixFree
import Mathlib.Algebra.Group.Nat.Defs

/-! Strings, hashes and times are known from the texts that stand for them in the canonical
bytes. -/

namespace HlHelper.Audit

open HlHelper.Library

theorem digitChar_injective : ∀ a < 16, ∀ b < 16, Nat.digitChar a = Nat.digitChar b → a = b := by
  decide

theorem length_hexDigits (width n : Nat) : (hexDigits width n).length = width := by
  induction width generalizing n with
  | zero => rfl
  | succ width ih => simp [hexDigits, ih]

variable {width m n : Nat}

theorem hexDigits_injective (left : m < 16 ^ width) (right : n < 16 ^ width)
    (same : hexDigits width m = hexDigits width n) : m = n := by
  induction width generalizing m n with
  | zero => omega
  | succ width ih =>
    rw [Nat.pow_succ] at left right
    obtain ⟨front, last⟩ := List.append_inj' same rfl
    have high := ih (m := m / 16) (n := n / 16) (by omega) (by omega) front
    have low := digitChar_injective _ (Nat.mod_lt m (by decide)) _ (Nat.mod_lt n (by decide))
      (List.singleton_inj.mp last)
    omega

def shortEscapes : List (Nat × Char) :=
  [(34, '"'), (92, '\\'), (10, 'n'), (13, 'r'), (9, 't'), (12, 'f'), (8, 'b')]

inductive Escaped (c : Char) : List Char → Prop
  | plain (printable : 32 ≤ c.toNat) (quotable : c ≠ '"' ∧ c ≠ '\\') : Escaped c [c]
  | short (k : Char) (listed : (c.toNat, k) ∈ shortEscapes) : Escaped c ['\\', k]
  | unicode (basic : c.toNat < 65536) : Escaped c ('\\' :: 'u' :: hexDigits 4 c.toNat)
  | pair (beyond : 65536 ≤ c.toNat) :
      Escaped c ('\\' :: 'u' :: hexDigits 4 (55296 + (c.toNat - 65536) / 1024) ++
        ('\\' :: 'u' :: hexDigits 4 (56320 + (c.toNat - 65536) % 1024)))

theorem escaped_escape (c : Char) : Escaped c (escape c) := by
  unfold escape
  split
  · next code => exact .short '"' (by simp [shortEscapes, code])
  split
  · next code => exact .short '\\' (by simp [shortEscapes, code])
  split
  · next code => exact .short 'n' (by simp [shortEscapes, code])
  split
  · next code => exact .short 'r' (by simp [shortEscapes, code])
  split
  · next code => exact .short 't' (by simp [shortEscapes, code])
  split
  · next code => exact .short 'f' (by simp [shortEscapes, code])
  split
  · next code => exact .short 'b' (by simp [shortEscapes, code])
  split
  · next noQuote noBackslash _ _ _ _ _ printable =>
    refine .plain printable.1 ⟨?_, ?_⟩
    · rintro rfl
      exact noQuote rfl
    · rintro rfl
      exact noBackslash rfl
  split
  · next basic => exact .unicode basic
  · next beyond => exact .pair (by omega)

theorem not_surrogate (c : Char) (bound : n < 2048) : c.toNat ≠ 55296 + n := by
  have valid : c.toNat < 55296 ∨ 57343 < c.toNat ∧ c.toNat < 1114112 := c.valid
  omega

theorem toNat_lt (c : Char) : c.toNat < 1114112 := by
  have valid : c.toNat < 55296 ∨ 57343 < c.toNat ∧ c.toNat < 1114112 := c.valid
  omega

theorem shortEscapes_injective {k : Char} (left : (m, k) ∈ shortEscapes)
    (right : (n, k) ∈ shortEscapes) : m = n := by
  have all : ∀ a ∈ shortEscapes, ∀ b ∈ shortEscapes, a.2 = b.2 → a.1 = b.1 := by decide
  exact all _ left _ right rfl

theorem not_shortEscape (n : Nat) : (n, 'u') ∉ shortEscapes := by
  simp [shortEscapes]

theorem hexDigits_append_inj {rest others : List Char} (left : m < 65536) (right : n < 65536)
    (same : hexDigits 4 m ++ rest = hexDigits 4 n ++ others) : m = n ∧ rest = others := by
  obtain ⟨digits, rests⟩ := List.append_inj same (by simp [length_hexDigits])
  exact ⟨hexDigits_injective left right digits, rests⟩

theorem basic_ne_pair {c d : Char} (basic : c.toNat < 65536) (rest others : List Char) :
    hexDigits 4 c.toNat ++ rest ≠ hexDigits 4 (55296 + (d.toNat - 65536) / 1024) ++ others := by
  intro same
  have small := toNat_lt d
  obtain ⟨codes, -⟩ := hexDigits_append_inj basic (by omega) same
  exact not_surrogate c (by omega) codes

theorem pair_inj {c d : Char} {rest others : List Char} (beyond : 65536 ≤ c.toNat)
    (beyondToo : 65536 ≤ d.toNat)
    (same : hexDigits 4 (55296 + (c.toNat - 65536) / 1024) ++
        '\\' :: 'u' :: (hexDigits 4 (56320 + (c.toNat - 65536) % 1024) ++ rest) =
      hexDigits 4 (55296 + (d.toNat - 65536) / 1024) ++
        '\\' :: 'u' :: (hexDigits 4 (56320 + (d.toNat - 65536) % 1024) ++ others)) :
    c = d ∧ rest = others := by
  have small := toNat_lt c
  have smallToo := toNat_lt d
  obtain ⟨high, tails⟩ := hexDigits_append_inj (by omega) (by omega) same
  simp only [List.cons.injEq, true_and] at tails
  obtain ⟨low, rests⟩ := hexDigits_append_inj (by omega) (by omega) tails
  exact ⟨Char.toNat_inj.mp (by omega), rests⟩

theorem escaped_inj {c d : Char} {word wordToo rest others : List Char} (first : Escaped c word)
    (second : Escaped d wordToo) (same : word ++ rest = wordToo ++ others) :
    c = d ∧ rest = others := by
  cases first with
  | plain printable quotable =>
    cases second with
    | plain => simpa using same
    | short => exact absurd (List.cons.inj same).1 quotable.2
    | unicode => exact absurd (List.cons.inj same).1 quotable.2
    | pair => exact absurd (List.cons.inj same).1 quotable.2
  | short k listed =>
    cases second with
    | plain printable quotable => exact absurd (List.cons.inj same).1.symm quotable.2
    | short l listedToo =>
      simp only [List.cons_append, List.nil_append, List.cons.injEq, true_and] at same
      obtain ⟨rfl, rests⟩ := same
      exact ⟨Char.toNat_inj.mp (shortEscapes_injective listed listedToo), rests⟩
    | unicode =>
      simp only [List.cons_append, List.cons.injEq, true_and] at same
      exact absurd (same.1 ▸ listed) (not_shortEscape _)
    | pair =>
      simp only [List.cons_append, List.cons.injEq, true_and] at same
      exact absurd (same.1 ▸ listed) (not_shortEscape _)
  | unicode basic =>
    cases second with
    | plain printable quotable => exact absurd (List.cons.inj same).1.symm quotable.2
    | short l listed =>
      simp only [List.cons_append, List.cons.injEq, true_and] at same
      exact absurd (same.1 ▸ listed) (not_shortEscape _)
    | unicode basicToo =>
      simp only [List.cons_append, List.cons.injEq, true_and] at same
      obtain ⟨codes, rests⟩ := hexDigits_append_inj basic basicToo same
      exact ⟨Char.toNat_inj.mp codes, rests⟩
    | pair beyond =>
      simp only [List.cons_append, List.append_assoc, List.cons.injEq, true_and] at same
      exact absurd same (basic_ne_pair basic _ _)
  | pair beyond =>
    cases second with
    | plain printable quotable => exact absurd (List.cons.inj same).1.symm quotable.2
    | short l listed =>
      simp only [List.cons_append, List.cons.injEq, true_and] at same
      exact absurd (same.1 ▸ listed) (not_shortEscape _)
    | unicode basic =>
      simp only [List.cons_append, List.append_assoc, List.cons.injEq, true_and] at same
      exact absurd same.symm (basic_ne_pair basic _ _)
    | pair beyondToo =>
      simp only [List.cons_append, List.append_assoc, List.cons.injEq, true_and] at same
      exact pair_inj beyond beyondToo same

theorem prefixFree_escape : PrefixFree escape := by
  intro c d rest others same
  exact escaped_inj (escaped_escape c) (escaped_escape d) same

theorem Escaped.starts {c : Char} {word : List Char} (escaped : Escaped c word) :
    ∃ head tail, word = head :: tail ∧ head ≠ '"' := by
  cases escaped with
  | plain printable quotable => exact ⟨c, [], rfl, quotable.1⟩
  | short k listed => exact ⟨'\\', [k], rfl, by decide⟩
  | unicode basic => exact ⟨'\\', _, rfl, by decide⟩
  | pair beyond => exact ⟨'\\', _, rfl, by decide⟩

theorem toList_quote (s : String) :
    (quote s).toList = '"' :: (s.toList.flatMap escape ++ ['"']) := by
  simp [quote]

theorem quote_append_inj {first second : String} {rest others : List Char}
    (same : (quote first).toList ++ rest = (quote second).toList ++ others) :
    first = second ∧ rest = others := by
  simp only [toList_quote, List.cons_append, List.append_assoc, List.nil_append, List.cons.injEq,
    true_and] at same
  obtain ⟨chars, rests⟩ := prefixFree_escape.flatMap_mark
    (fun c => (escaped_escape c).starts) same
  exact ⟨String.toList_inj.mp chars, rests⟩

theorem hex_injective {first second : Bytes} (same : hex first = hex second) :
    first = second := by
  have free : PrefixFree (fun byte : UInt8 => hexDigits 2 byte.toNat) := by
    apply prefixFree_of_width (fun byte : UInt8 => length_hexDigits 2 byte.toNat)
    intro a b digits
    exact UInt8.toNat_inj.mp (hexDigits_injective a.toNat_lt b.toNat_lt digits)
  have digits : first.flatMap (fun byte => hexDigits 2 byte.toNat) =
      second.flatMap (fun byte => hexDigits 2 byte.toNat) := by
    simpa [hex] using congrArg String.toList same
  have starts : ∀ byte : UInt8, ∃ c tail, hexDigits 2 byte.toNat = c :: tail ∧ c ≠ 'x' := by
    intro byte
    refine ⟨Nat.digitChar (byte.toNat / 16 % 16), [Nat.digitChar (byte.toNat % 16)], rfl, ?_⟩
    have apart : ∀ digit < 16, Nat.digitChar digit ≠ 'x' := by decide
    exact apart _ (Nat.mod_lt _ (by decide))
  have marked : first.flatMap (fun byte => hexDigits 2 byte.toNat) ++ ['x'] =
      second.flatMap (fun byte => hexDigits 2 byte.toNat) ++ ['x'] := by rw [digits]
  exact (free.flatMap_mark starts marked).1

section Decimal

def NonDigit (c : Char) : Prop := c.isDigit = false

theorem toList_padded (width n : Nat) :
    (padded width n).toList =
      List.replicate (width - (toString n).length) '0' ++ Nat.toDigits 10 n := by
  simp [padded, Nat.toList_repr]

theorem isDigit_padded : ∀ c ∈ (padded width n).toList, ¬ NonDigit c := by
  intro c member
  rw [toList_padded] at member
  rcases List.mem_append.mp member with zero | digit
  · rw [(List.mem_replicate.mp zero).2]
    simp [NonDigit]
  · simp [NonDigit, Nat.isDigit_of_mem_toDigits (by decide) (by decide) digit]

theorem padded_injective (same : (padded width m).toList = (padded width n).toList) : m = n := by
  have value : ∀ n, Nat.ofDigitChars 10 (padded width n).toList 0 = n := by
    intro n
    rw [toList_padded, Nat.ofDigitChars_append]
    simp
  rw [← value m, same, value n]

theorem padded_append_inj {rest others : List Char} (ends : Delimited NonDigit rest)
    (endsToo : Delimited NonDigit others)
    (same : (padded width m).toList ++ rest = (padded width n).toList ++ others) :
    m = n ∧ rest = others := by
  obtain ⟨digits, rests⟩ := append_inj_of_delimited isDigit_padded isDigit_padded ends endsToo same
  exact ⟨padded_injective digits, rests⟩

end Decimal

theorem fraction_inj (same : (if m = 0 then "" else "." ++ padded 6 m).toList ++ ['Z'] =
      (if n = 0 then "" else "." ++ padded 6 n).toList ++ ['Z']) : m = n := by
  split at same
  · next zero =>
    split at same
    · next zeroToo => rw [zero, zeroToo]
    · simp at same
  · split at same
    · simp at same
    · simp only [String.toList_append, List.append_assoc] at same
      exact (padded_append_inj (by simp [delimited_cons, NonDigit])
        (by simp [delimited_cons, NonDigit]) (List.append_cancel_left same)).1

theorem delimited_fraction (n : Nat) :
    Delimited NonDigit ((if n = 0 then "" else "." ++ padded 6 n).toList ++ ['Z']) := by
  split <;> simp [String.toList_append, delimited_cons, NonDigit]

theorem isoformat_injective {first second : Datetime} (same : isoformat first = isoformat second) :
    first = second := by
  have text := congrArg String.toList same
  have dash : ("-" : String).toList = ['-'] := rfl
  have letter : ("T" : String).toList = ['T'] := rfl
  have colon : (":" : String).toList = [':'] := rfl
  have zulu : ("Z" : String).toList = ['Z'] := rfl
  have ends : ∀ c rest, c = '-' ∨ c = 'T' ∨ c = ':' → Delimited NonDigit (c :: rest) := by
    rintro c rest (rfl | rfl | rfl) <;> exact delimited_cons.mpr rfl
  simp only [isoformat, String.toList_append, List.append_assoc, dash, letter, colon, zulu,
    List.cons_append, List.nil_append] at text
  obtain ⟨years, text⟩ := padded_append_inj (ends _ _ (by simp)) (ends _ _ (by simp)) text
  obtain ⟨months, text⟩ := padded_append_inj (ends _ _ (by simp)) (ends _ _ (by simp))
    (List.cons.inj text).2
  obtain ⟨days, text⟩ := padded_append_inj (ends _ _ (by simp)) (ends _ _ (by simp))
    (List.cons.inj text).2
  obtain ⟨hours, text⟩ := padded_append_inj (ends _ _ (by simp)) (ends _ _ (by simp))
    (List.cons.inj text).2
  obtain ⟨minutes, text⟩ := padded_append_inj (ends _ _ (by simp)) (ends _ _ (by simp))
    (List.cons.inj text).2
  obtain ⟨seconds, text⟩ := padded_append_inj (delimited_fraction _) (delimited_fraction _)
    (List.cons.inj text).2
  have microseconds := fraction_inj text
  cases first
  cases second
  simp_all

end HlHelper.Audit
