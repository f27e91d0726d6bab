import HlHelper.Groups.Ids
import Mathlib.Data.List.TakeWhile

/-! Addresses as `net.IP` prints them. The text tells addresses of one length apart. -/

namespace HlHelper.Exposure

def hextets : List Nat → List Nat
  | a :: b :: rest => (256 * a + b) :: hextets rest
  | _ => []

/-- The first of the longest runs of zeros: where it starts, and its length. -/
def zeroRun (words : List Nat) : Nat × Nat :=
  (List.range words.length).foldl
    (fun longest start =>
      let length := ((words.drop start).takeWhile (· = 0)).length
      if longest.2 < length then (start, length) else longest)
    (0, 0)

def sideParts : List Nat → List (List Char)
  | [] => [[]]
  | words => words.map (Nat.toDigits 16)

/-- The texts between the colons. In place of a run of at least two zeros there is nothing. -/
def colonParts (words : List Nat) : List (List Char) :=
  let (start, length) := zeroRun words
  if length < 2 then words.map (Nat.toDigits 16)
  else sideParts (words.take start) ++ [] :: sideParts (words.drop (start + length))

def dottedDecimal (bytes : List Nat) : List Char := ['.'].intercalate (bytes.map (Nat.toDigits 10))

def ipString (bytes : List Nat) : String :=
  String.ofList <|
    if bytes.length = 4 then dottedDecimal bytes
    else if bytes.length = 16 then
      if bytes.take 12 = List.replicate 10 0 ++ [255, 255] then dottedDecimal (bytes.drop 12)
      else [':'].intercalate (colonParts (hextets bytes))
    else if bytes = [] then "<nil>".toList
    else '?' :: bytes.flatMap fun b => [Nat.digitChar (b / 16), Nat.digitChar (b % 16)]

example : ipString ([32, 1, 13, 184] ++ List.replicate 11 0 ++ [1]) = "2001:db8::1" := by
  decide +kernel

section Injective

variable {a b words others front back : List Nat}

theorem toDigits_ten_injective : Function.Injective (Nat.toDigits 10) := by
  intro m n same
  calc
    m = Nat.ofDigitChars 10 (Nat.toDigits 10 m) 0 := Nat.ofDigitChars_ten_toDigits.symm
    _ = n := by rw [same, Nat.ofDigitChars_ten_toDigits]

theorem toDigits_sixteen_injective : Function.Injective (Nat.toDigits 16) := by
  intro m n same
  have left := Groups.foldlM_toDigits m
  rw [same, Groups.foldlM_toDigits n] at left
  exact (Option.some.inj left).symm

theorem intercalate_injective {separator : Char} {parts texts : List (List Char)}
    (some_ : parts ≠ []) (others : texts ≠ []) (plain : ∀ part ∈ parts, separator ∉ part)
    (free : ∀ text ∈ texts, separator ∉ text)
    (same : [separator].intercalate parts = [separator].intercalate texts) : parts = texts := by
  have split := congrArg (List.splitOn separator) same
  rwa [List.splitOn_intercalate _ plain some_, List.splitOn_intercalate _ free others] at split

theorem digit_ne {n : Nat} {c : Char} (member : c ∈ Nat.toDigits 10 n) : c ≠ '.' ∧ c ≠ ':' := by
  have digit := Nat.isDigit_of_mem_toDigits (by decide) (by decide) member
  constructor <;> rintro rfl <;> exact absurd digit (by decide)

theorem dottedDecimal_injective (some_ : a ≠ []) (others : b ≠ [])
    (same : dottedDecimal a = dottedDecimal b) :
    a = b := by
  have plain (bytes : List Nat) : ∀ part ∈ bytes.map (Nat.toDigits 10), '.' ∉ part := by
    intro part member dot
    obtain ⟨n, _, rfl⟩ := List.mem_map.mp member
    exact (digit_ne dot).1 rfl
  have parts := intercalate_injective (by simpa using some_) (by simpa using others) (plain a)
    (plain b) same
  exact List.map_injective_iff.mpr toDigits_ten_injective parts

theorem take_zeroRun (words : List Nat) :
    (words.drop (zeroRun words).1).take (zeroRun words).2 =
      List.replicate (zeroRun words).2 0 := by
  have zeros (starts : List Nat) (longest : Nat × Nat)
      (run : (words.drop longest.1).take longest.2 = List.replicate longest.2 0) :
      let found := starts.foldl
        (fun longest start =>
          let length := ((words.drop start).takeWhile (· = 0)).length
          if longest.2 < length then (start, length) else longest) longest
      (words.drop found.1).take found.2 = List.replicate found.2 0 := by
    induction starts generalizing longest with
    | nil => exact run
    | cons start starts ih =>
      apply ih
      dsimp only
      split
      · have front := List.prefix_iff_eq_take.mp
          (List.takeWhile_prefix (l := words.drop start) fun n => decide (n = 0))
        rw [← front]
        apply List.eq_replicate_iff.mpr
        refine ⟨rfl, ?_⟩
        intro n member
        simpa using List.mem_takeWhile_imp member
      · exact run
  exact zeros (List.range words.length) (0, 0) rfl

theorem zeroRun_spec (words : List Nat) :
    words = words.take (zeroRun words).1 ++ (List.replicate (zeroRun words).2 0 ++
      words.drop ((zeroRun words).1 + (zeroRun words).2)) := by
  have zeros := take_zeroRun words
  generalize zeroRun words = run at zeros ⊢
  calc
    words = words.take run.1 ++ words.drop run.1 := (List.take_append_drop _ _).symm
    _ = words.take run.1 ++ ((words.drop run.1).take run.2 ++ (words.drop run.1).drop run.2) := by
      rw [List.take_append_drop run.2]
    _ = _ := by rw [zeros, List.drop_drop]

theorem takeWhile_map_toDigits (words : List Nat) :
    (words.map (Nat.toDigits 16)).takeWhile (· ≠ []) = words.map (Nat.toDigits 16) := by
  apply List.takeWhile_eq_self_iff.mpr
  intro part member
  obtain ⟨n, _, rfl⟩ := List.mem_map.mp member
  exact decide_eq_true Nat.toDigits_ne_nil

theorem takeWhile_sideParts (words : List Nat) (rest : List (List Char)) :
    (sideParts words ++ [] :: rest).takeWhile (· ≠ []) = words.map (Nat.toDigits 16) := by
  cases words with
  | nil => rfl
  | cons word words =>
    have all := takeWhile_map_toDigits (word :: words)
    unfold sideParts
    rw [List.takeWhile_append_of_pos]
    · simp
    · exact List.takeWhile_eq_self_iff.mp all

theorem sideParts_reverse (words : List Nat) :
    (sideParts words).reverse = sideParts words.reverse := by
  cases words with
  | nil => rfl
  | cons word words =>
    have some_ : (word :: words).reverse ≠ [] := by simp
    obtain ⟨last, rest, reversed⟩ := List.exists_cons_of_ne_nil some_
    calc
      _ = ((word :: words).map (Nat.toDigits 16)).reverse := rfl
      _ = (last :: rest).map (Nat.toDigits 16) := by rw [← reversed, List.map_reverse]
      _ = _ := by rw [reversed]; rfl

theorem sides_injective {left right : List Nat}
    (same : sideParts front ++ [] :: sideParts back = sideParts left ++ [] :: sideParts right) :
    front = left ∧ back = right := by
  have digits := List.map_injective_iff.mpr toDigits_sixteen_injective
  constructor
  · apply digits
    rw [← takeWhile_sideParts front, same, takeWhile_sideParts]
  · have backwards := congrArg List.reverse same
    simp only [List.reverse_append, List.reverse_cons, List.append_assoc, List.singleton_append,
      sideParts_reverse] at backwards
    apply List.reverse_injective
    apply digits
    rw [← takeWhile_sideParts back.reverse, backwards, takeWhile_sideParts]

theorem colonParts_injective (size : words.length = others.length)
    (same : colonParts words = colonParts others) : words = others := by
  have full (words : List Nat) : [] ∉ words.map (Nat.toDigits 16) := by
    intro member
    obtain ⟨n, _, empty⟩ := List.mem_map.mp member
    exact Nat.toDigits_ne_nil empty
  have left := zeroRun_spec words
  have right := zeroRun_spec others
  unfold colonParts at same
  generalize zeroRun words = run at same left
  generalize zeroRun others = other_run at same right
  dsimp only at same
  split at same
  · split at same
    · exact List.map_injective_iff.mpr toDigits_sixteen_injective same
    · exact absurd (same ▸ List.mem_append_right _ List.mem_cons_self) (full words)
  · split at same
    · exact absurd (same ▸ List.mem_append_right _ List.mem_cons_self) (full others)
    · obtain ⟨fronts, backs⟩ := sides_injective same
      rw [fronts, backs] at left
      have lengths : run.2 = other_run.2 := by
        have one := congrArg List.length left
        have other := congrArg List.length right
        simp only [List.length_append, List.length_replicate] at one other
        omega
      exact left.trans (by rw [lengths, ← right])

theorem hextets_length (n : Nat) (size : a.length = 2 * n) : (hextets a).length = n := by
  induction n generalizing a with
  | zero =>
    obtain rfl := List.length_eq_zero_iff.mp size
    rfl
  | succ n ih =>
    match a, size with
    | _ :: _ :: rest, size =>
      have fewer : rest.length = 2 * n := by
        simp only [List.length_cons] at size
        omega
      exact congrArg Nat.succ (ih fewer)

theorem hextets_injective (n : Nat) (size : a.length = 2 * n) (other : b.length = 2 * n)
    (bytes : ∀ byte ∈ a, byte < 256) (octets : ∀ byte ∈ b, byte < 256)
    (same : hextets a = hextets b) : a = b := by
  induction n generalizing a b with
  | zero => rw [List.length_eq_zero_iff.mp size, List.length_eq_zero_iff.mp other]
  | succ n ih =>
    match a, b, size, other with
    | high :: low :: rest, top :: bottom :: more, size, other =>
      simp only [List.forall_mem_cons] at bytes octets
      simp only [List.length_cons] at size other
      obtain ⟨first, later⟩ := List.cons.inj same
      obtain rfl := ih (by omega) (by omega) bytes.2.2 octets.2.2 later
      obtain rfl : high = top := by omega
      obtain rfl : low = bottom := by omega
      rfl

/-- The text of a 16-byte address, apart at the colons. -/
def parts (bytes : List Nat) : List (List Char) :=
  if bytes.take 12 = List.replicate 10 0 ++ [255, 255] then [dottedDecimal (bytes.drop 12)]
  else colonParts (hextets bytes)

theorem mem_intercalate {separator c : Char} {texts : List (List Char)}
    (member : c ∈ [separator].intercalate texts) : c = separator ∨ ∃ text ∈ texts, c ∈ text := by
  induction texts with
  | nil => exact absurd member List.not_mem_nil
  | cons text texts ih =>
    cases texts with
    | nil =>
      rw [List.intercalate_singleton] at member
      exact .inr ⟨text, List.mem_cons_self, member⟩
    | cons next texts =>
      rw [List.intercalate_cons_cons] at member
      rcases List.mem_append.mp member with here | later
      · rcases List.mem_append.mp here with own | between
        · exact .inr ⟨text, List.mem_cons_self, own⟩
        · exact .inl (List.mem_singleton.mp between)
      · rcases ih later with between | ⟨other, there, own⟩
        · exact .inl between
        · exact .inr ⟨other, List.mem_cons_of_mem _ there, own⟩

theorem colon_not_mem_dottedDecimal (bytes : List Nat) : ':' ∉ dottedDecimal bytes := by
  intro colon
  rcases mem_intercalate colon with dot | ⟨text, there, own⟩
  · exact absurd dot (by decide)
  · obtain ⟨n, _, rfl⟩ := List.mem_map.mp there
    exact (digit_ne own).2 rfl

theorem words_plain (words : List Nat) : ∀ part ∈ words.map (Nat.toDigits 16), ':' ∉ part := by
  intro part member colon
  obtain ⟨n, _, rfl⟩ := List.mem_map.mp member
  obtain ⟨d, small, own⟩ := Groups.toDigits_digit colon
  exact (Groups.digitChar_plain d small).2.1 own.symm

theorem sideParts_plain (words : List Nat) : ∀ part ∈ sideParts words, ':' ∉ part := by
  cases words with
  | nil => simp [sideParts]
  | cons word words => exact words_plain (word :: words)

theorem parts_plain (bytes : List Nat) : ∀ part ∈ parts bytes, ':' ∉ part := by
  unfold parts
  split
  · exact List.forall_mem_singleton.mpr (colon_not_mem_dottedDecimal _)
  · unfold colonParts
    dsimp only
    split
    · exact words_plain _
    · intro part member
      rcases List.mem_append.mp member with front | rest
      · exact sideParts_plain _ part front
      · rcases List.mem_cons.mp rest with rfl | back
        · exact List.not_mem_nil
        · exact sideParts_plain _ part back

theorem colonParts_length (size : words.length = 8) : 2 ≤ (colonParts words).length := by
  unfold colonParts
  dsimp only
  split
  · rw [List.length_map, size]
    decide
  · have some_ (side : List Nat) : 0 < (sideParts side).length := by
      cases side <;> simp [sideParts]
    have front := some_ (words.take (zeroRun words).1)
    rw [List.length_append, List.length_cons]
    omega

theorem parts_injective (size : a.length = 16) (other : b.length = 16)
    (bytes : ∀ byte ∈ a, byte < 256) (octets : ∀ byte ∈ b, byte < 256)
    (same : parts a = parts b) : a = b := by
  have apart {left right : List Nat} (size : right.length = 16)
      (same : [dottedDecimal (left.drop 12)] = colonParts (hextets right)) : False := by
    have two := colonParts_length (hextets_length 8 size)
    rw [← same] at two
    exact absurd two (by simp)
  unfold parts at same
  split at same
  · next mapped =>
    split at same
    · next other_mapped =>
      have tails := dottedDecimal_injective (by simp [← List.length_eq_zero_iff, size])
        (by simp [← List.length_eq_zero_iff, other]) (List.cons.inj same).1
      calc
        a = a.take 12 ++ a.drop 12 := (List.take_append_drop 12 a).symm
        _ = b.take 12 ++ b.drop 12 := by rw [mapped, other_mapped, tails]
        _ = b := List.take_append_drop 12 b
    · exact absurd same (apart other)
  · split at same
    · exact absurd same.symm (apart size)
    · apply hextets_injective 8 size other bytes octets
      apply colonParts_injective _ same
      rw [hextets_length 8 size, hextets_length 8 other]

theorem parts_ne_nil (size : a.length = 16) : parts a ≠ [] := by
  unfold parts
  split
  · exact List.cons_ne_nil _ _
  · have two := colonParts_length (hextets_length 8 size)
    intro none_
    rw [none_] at two
    exact absurd two (by decide)

theorem ipString_injective (size : a.length = 4 ∨ a.length = 16) (length : b.length = a.length)
    (bytes : ∀ byte ∈ a, byte < 256) (octets : ∀ byte ∈ b, byte < 256)
    (same : ipString a = ipString b) : a = b := by
  have texts := String.ofList_injective same
  rw [length] at texts
  rcases size with four | sixteen
  · rw [if_pos four, if_pos four] at texts
    apply dottedDecimal_injective _ _ texts
    · simp [← List.length_eq_zero_iff, four]
    · simp [← List.length_eq_zero_iff, length, four]
  · have text (bytes : List Nat) : (if bytes.take 12 = List.replicate 10 0 ++ [255, 255] then
        dottedDecimal (bytes.drop 12) else [':'].intercalate (colonParts (hextets bytes))) =
          [':'].intercalate (parts bytes) := by
      unfold parts
      split
      · exact List.intercalate_singleton.symm
      · rfl
    have other : b.length = 16 := length.trans sixteen
    have long : ¬ a.length = 4 := by omega
    rw [if_neg long, if_neg long, if_pos sixteen, if_pos sixteen, text, text] at texts
    apply parts_injective sixteen other bytes octets
    exact intercalate_injective (parts_ne_nil sixteen) (parts_ne_nil other) (parts_plain a)
      (parts_plain b) texts

end Injective

end HlHelper.Exposure
