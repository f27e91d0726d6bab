import HlHelper.Dispatch.Targets

/-! UUIDs and their texts: the canonical one, and those that `UUID(text)` reads. -/

namespace HlHelper.Groups

open Dispatch (hexDigit isBrace)

abbrev Uuid := BitVec 128

def str (id : Uuid) : String := Dispatch.uuidText id.toNat

/-- `UUID(text)`: it reads at least the canonical texts. -/
structure UuidReader where
  parse : String → Option Uuid
  parse_str : ∀ id, parse (str id) = some id

/-- `text.replace(pattern, "")`; `skip` characters of an occurrence are still to be passed. -/
def removeFrom (pattern : List Char) : Nat → List Char → List Char
  | _, [] => []
  | skip + 1, _ :: rest => removeFrom pattern skip rest
  | 0, c :: rest =>
    if pattern.isPrefixOf (c :: rest) then removeFrom pattern (pattern.length - 1) rest
    else c :: removeFrom pattern 0 rest

def hexValue (digits : List Char) : Option Nat :=
  digits.foldlM (fun value c => (hexDigit c).map (16 * value + ·)) 0

/-- The documented forms: 32 hexadecimal digits; URN prefix, braces and hyphens are optional. -/
def readHex (text : String) : Option Uuid :=
  let bare := removeFrom "uuid:".toList 0 (removeFrom "urn:".toList 0 text.toList)
  let stripped := ((bare.dropWhile isBrace).reverse.dropWhile isBrace).reverse
  let hex := stripped.filter (· ≠ '-')
  if hex.length = 32 then (hexValue hex).map (BitVec.ofNat 128) else none

theorem removeFrom_eq_self {pattern text : List Char} (colon : ':' ∈ pattern)
    (absent : ':' ∉ text) : removeFrom pattern 0 text = text := by
  induction text with
  | nil => rfl
  | cons c rest ih =>
    have elsewhere : ¬ pattern.isPrefixOf (c :: rest) := by
      rw [List.isPrefixOf_iff_prefix]
      exact fun starts => absent (starts.subset colon)
    rw [removeFrom, if_neg elsewhere, ih (fun member => absent (List.mem_cons_of_mem _ member))]

theorem hexDigit_digitChar : ∀ d < 16, hexDigit (Nat.digitChar d) = some d := by decide

theorem digitChar_plain : ∀ d < 16, Nat.digitChar d ≠ '-' ∧ Nat.digitChar d ≠ ':' ∧
    isBrace (Nat.digitChar d) = false := by decide

theorem foldlM_toDigits (n : Nat) :
    (Nat.toDigits 16 n).foldlM (fun value c => (hexDigit c).map (16 * value + ·)) 0 = some n := by
  induction n using Nat.strongRecOn with
  | ind n ih =>
    by_cases small : n < 16
    · rw [Nat.toDigits_of_lt_base small]
      simp [hexDigit_digitChar n small]
    · have shorter : n / 16 < n := by omega
      rw [Nat.toDigits_of_base_le (by decide) (Nat.le_of_not_lt small), List.foldlM_append,
        ih _ shorter]
      have digit := hexDigit_digitChar (n % 16) (Nat.mod_lt n (by decide))
      simp only [List.foldlM_cons, List.foldlM_nil, digit, Option.map_some, Option.bind_some,
        Option.pure_def, Option.bind_eq_bind]
      congr 1
      omega

theorem toDigits_digit {n : Nat} {c : Char} (member : c ∈ Nat.toDigits 16 n) :
    ∃ d < 16, c = Nat.digitChar d := by
  induction n using Nat.strongRecOn with
  | ind n ih =>
    by_cases small : n < 16
    · rw [Nat.toDigits_of_lt_base small] at member
      exact ⟨n, small, List.mem_singleton.mp member⟩
    · rw [Nat.toDigits_of_base_le (by decide) (Nat.le_of_not_lt small)] at member
      rcases List.mem_append.mp member with front | last
      · exact ih (n / 16) (by omega) front
      · exact ⟨n % 16, Nat.mod_lt n (by decide), List.mem_singleton.mp last⟩

def padded (id : Uuid) : List Char :=
  List.replicate (32 - (Nat.toDigits 16 id.toNat).length) '0' ++ Nat.toDigits 16 id.toNat

theorem padded_length (id : Uuid) : (padded id).length = 32 := by
  have short : (Nat.toDigits 16 id.toNat).length ≤ 32 := by
    rw [Nat.length_toDigits_le_iff (by decide) (by decide)]
    exact id.isLt
  rw [padded, List.length_append, List.length_replicate]
  omega

theorem padded_digit {id : Uuid} {c : Char} (member : c ∈ padded id) :
    ∃ d < 16, c = Nat.digitChar d := by
  rcases List.mem_append.mp member with zero | digit
  · exact ⟨0, by decide, (List.mem_replicate.mp zero).2⟩
  · exact toDigits_digit digit

theorem hexValue_padded (id : Uuid) : hexValue (padded id) = some id.toNat := by
  have zeros : ∀ n, (List.replicate n '0').foldlM
      (fun value c => (hexDigit c).map (16 * value + ·)) 0 = some 0 := by
    intro n
    induction n with
    | zero => rfl
    | succ n ih => rw [List.replicate_succ, List.foldlM_cons]; exact ih
  rw [hexValue, padded, List.foldlM_append, zeros]
  exact foldlM_toDigits id.toNat

theorem str_toList (id : Uuid) : (str id).toList =
    ((padded id).drop 0).take 8 ++ '-' :: (((padded id).drop 8).take 4 ++
      '-' :: (((padded id).drop 12).take 4 ++ '-' :: (((padded id).drop 16).take 4 ++
      '-' :: (padded id).drop 20))) := by
  rw [str, Dispatch.uuidText, String.toList_ofList]
  simp only [List.append_assoc, List.cons_append]
  rfl

theorem str_toList_digit {id : Uuid} {c : Char} (member : c ∈ (str id).toList) :
    c = '-' ∨ ∃ d < 16, c = Nat.digitChar d := by
  have among : c = '-' ∨ c ∈ padded id := by
    rw [str_toList] at member
    simp only [List.mem_append, List.mem_cons] at member
    have cut : ∀ {n k}, c ∈ ((padded id).drop n).take k → c ∈ padded id :=
      fun piece => List.mem_of_mem_drop (List.mem_of_mem_take piece)
    rcases member with piece | hyphen | piece | hyphen | piece | hyphen | piece | hyphen | piece
    · exact .inr (cut piece)
    · exact .inl hyphen
    · exact .inr (cut piece)
    · exact .inl hyphen
    · exact .inr (cut piece)
    · exact .inl hyphen
    · exact .inr (cut piece)
    · exact .inl hyphen
    · exact .inr (List.mem_of_mem_drop piece)
  exact among.imp_right padded_digit

theorem str_filter (id : Uuid) : (str id).toList.filter (· ≠ '-') = padded id := by
  have plain : ∀ piece : List Char, (∀ c ∈ piece, c ∈ padded id) →
      piece.filter (· ≠ '-') = piece := by
    intro piece inside
    refine List.filter_eq_self.mpr fun c member => ?_
    obtain ⟨d, small, rfl⟩ := padded_digit (inside c member)
    exact decide_eq_true (digitChar_plain d small).1
  have cut : ∀ n k, ∀ c ∈ ((padded id).drop n).take k, c ∈ padded id :=
    fun n k c member => List.mem_of_mem_drop (List.mem_of_mem_take member)
  have joined : ∀ n k, ((padded id).drop n).take k ++ (padded id).drop (n + k) =
      (padded id).drop n := by
    intro n k
    rw [← List.drop_drop, List.take_append_drop]
  have hyphen : ∀ rest : List Char, ('-' :: rest).filter (· ≠ '-') = rest.filter (· ≠ '-') :=
    fun rest => List.filter_cons_of_neg (by decide)
  calc (str id).toList.filter (· ≠ '-')
      = ((padded id).drop 0).take 8 ++ (((padded id).drop 8).take 4 ++
          (((padded id).drop 12).take 4 ++ (((padded id).drop 16).take 4 ++
          (padded id).drop 20))) := by
        rw [str_toList]
        simp only [List.filter_append, hyphen]
        rw [plain _ (cut 0 8), plain _ (cut 8 4), plain _ (cut 12 4), plain _ (cut 16 4),
          plain _ fun c member => List.mem_of_mem_drop member]
    _ = padded id := by
        rw [joined 16 4, joined 12 4, joined 8 4, joined 0 8, List.drop_zero]

theorem readHex_str (id : Uuid) : readHex (str id) = some id := by
  have no_colon : ':' ∉ (str id).toList := by
    intro member
    rcases str_toList_digit member with hyphen | ⟨d, small, digit⟩
    · exact absurd hyphen (by decide)
    · exact (digitChar_plain d small).2.1 digit.symm
  have no_brace : ∀ c ∈ (str id).toList, isBrace c = false := by
    intro c member
    rcases str_toList_digit member with rfl | ⟨d, small, rfl⟩
    · decide
    · exact (digitChar_plain d small).2.2
  have kept : ∀ text : List Char, (∀ c ∈ text, isBrace c = false) →
      text.dropWhile isBrace = text := by
    intro text plain
    cases text with
    | nil => rfl
    | cons c rest =>
      exact List.dropWhile_cons_of_neg (by rw [plain c List.mem_cons_self]; decide)
  rw [readHex, removeFrom_eq_self (by decide) no_colon, removeFrom_eq_self (by decide) no_colon]
  rw [kept _ no_brace, kept _ fun c member => no_brace c (List.mem_reverse.mp member),
    List.reverse_reverse, str_filter, if_pos (padded_length id), hexValue_padded, Option.map_some]
  rw [BitVec.ofNat_toNat, BitVec.setWidth_eq]

def hexReader : UuidReader where
  parse := readHex
  parse_str := readHex_str

end HlHelper.Groups
