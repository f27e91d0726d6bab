import Mathlib.Data.List.Infix

/-! The names of the local secret store: paths and their segments, the file of a version,
and the patterns by which files are found again. A text is the list of its characters. -/

namespace HlHelper.Secrets

abbrev Name := List Char

/-- The segments of a file or directory below `.secrets`. -/
abbrev Location := List Name

/-- `text.split("/")`. -/
def split : Name → List Name
  | [] => [[]]
  | c :: rest => if c = '/' then [] :: split rest else (split rest).modifyHead (c :: ·)

/-- `Path(text)` drops empty segments and those that are a dot. -/
def clean (segments : List Name) : Location := segments.filter (fun s => s ≠ [] ∧ s ≠ ['.'])

def location (text : Name) : Location := clean (split text)

def isPathChar (c : Char) : Bool := c.isAlphanum || c ∈ ['_', '.', '/', '-']

/-- The regular expression of `_validate_path`, whose `$` also matches before a newline at
the end. -/
def matchesPath (path : Name) : Bool :=
  match if path.getLast? = some '\n' then path.dropLast else path with
  | [] => false
  | first :: rest => first.isAlphanum && rest.all isPathChar

def validatePath (path : Name) : Bool :=
  path ≠ [] && matchesPath path && (split path).all (fun s => s ≠ ['.', '.'] ∧ s ≠ ['.'])

def dotV : Name := ['.', 'v']

def dotBin : Name := ['.', 'b', 'i', 'n']

def dotTmp : Name := ['.', 't', 'm', 'p']

def decimal : Int → Name
  | .ofNat n => Nat.toDigits 10 n
  | .negSucc n => '-' :: Nat.toDigits 10 (n + 1)

/-- `_path`, below `.secrets`. -/
def fileOf (path : Name) (version : Int) : Location :=
  location (path ++ dotV ++ decimal version ++ dotBin)

def stripSuffix (suffix text : Name) : Option Name :=
  if suffix <:+ text then some (text.take (text.length - suffix.length)) else none

/-- The match of `^(?P<name>.+)\\.v(?P<ver>\\d+)\\.bin$`, with the version as a number. -/
def parseName (name : Name) : Option (Name × Nat) := do
  let stem ← stripSuffix dotBin name
  let digits := (stem.reverse.takeWhile Char.isDigit).reverse
  let base ← stripSuffix dotV (stem.reverse.dropWhile Char.isDigit).reverse
  if digits = [] ∨ base = [] ∨ '\n' ∈ base then none
  else some (base, Nat.ofDigitChars 10 digits 0)

/-- A name that the pattern `start*.bin` matches. -/
def globMatches (start name : Name) : Bool :=
  start.isPrefixOf name && dotBin.isSuffixOf (name.drop start.length)

/-- A location that `glob(f"\x7bpath\x7d.v*.bin")` matches. -/
def captures (path : Name) (place : Location) : Bool :=
  match place.getLast?, (location (path ++ dotV)).getLast? with
  | some name, some start =>
    decide (place.dropLast = (location (path ++ dotV)).dropLast) && globMatches start name
  | _, _ => false

/-- A top-level location that `glob("*.v*.bin")` matches. -/
def capturesAny (place : Location) : Bool :=
  match place with
  | [name] => (List.range name.length).any (fun i => globMatches dotV (name.drop i))
  | _ => false

theorem split_ne_nil (text : Name) : split text ≠ [] := by
  induction text with
  | nil => simp [split]
  | cons c rest ih =>
    simp only [split]
    split
    · simp
    · simpa [List.modifyHead_eq_nil_iff] using ih

theorem split_of_plain {text : Name} (plain : '/' ∉ text) : split text = [text] := by
  induction text with
  | nil => rfl
  | cons c rest ih =>
    have other : c ≠ '/' := fun same => plain (same ▸ List.mem_cons_self)
    have more := ih (fun member => plain (List.mem_cons_of_mem _ member))
    simp [split, other, more]

theorem split_append {suffix : Name} (plain : '/' ∉ suffix) {path base : Name}
    {above : List Name} (segments : split path = above ++ [base]) :
    split (path ++ suffix) = above ++ [base ++ suffix] := by
  induction path generalizing above base with
  | nil =>
    cases above with
    | nil =>
      obtain rfl : base = [] := by simpa [split] using segments.symm
      simpa using split_of_plain plain
    | cons first more =>
      have lengths := congrArg List.length segments
      simp [split] at lengths
  | cons c rest ih =>
    by_cases slash : c = '/'
    · cases above with
      | nil => simp [split, slash, split_ne_nil] at segments
      | cons first more =>
        simp only [split, slash, if_true, List.cons_append, List.cons.injEq] at segments
        simp only [List.cons_append, split, slash, if_true]
        rw [ih segments.2, ← segments.1]
    · simp only [split, slash, if_false] at segments
      simp only [List.cons_append, split, slash, if_false]
      cases inner : split rest with
      | nil => exact absurd inner (split_ne_nil rest)
      | cons head tail =>
        rw [inner, List.modifyHead_cons] at segments
        cases above with
        | nil =>
          obtain ⟨rfl, rfl⟩ : c :: head = base ∧ tail = [] := by simpa using segments
          rw [ih (show split rest = [] ++ [head] from inner)]
          rfl
        | cons first more =>
          obtain ⟨rfl, rfl⟩ : c :: head = first ∧ tail = more ++ [base] := by
            simpa using segments
          rw [ih (show split rest = (head :: more) ++ [base] from inner)]
          rfl

def directory (path : Name) : Location := clean (split path).dropLast

def baseOf (path : Name) : Name := (split path).getLast (split_ne_nil path)

theorem location_append {suffix : Name} (plain : '/' ∉ suffix) (long : 2 ≤ suffix.length)
    (path : Name) : location (path ++ suffix) = directory path ++ [baseOf path ++ suffix] := by
  have segments : split path = (split path).dropLast ++ [baseOf path] :=
    (List.dropLast_append_getLast (split_ne_nil path)).symm
  have kept : baseOf path ++ suffix ≠ [] ∧ baseOf path ++ suffix ≠ ['.'] := by
    constructor
    · intro empty
      have := congrArg List.length empty
      simp only [List.length_append, List.length_nil] at this
      omega
    · intro dot
      have := congrArg List.length dot
      simp only [List.length_append, List.length_cons, List.length_nil] at this
      omega
  rw [location, split_append plain segments, clean, List.filter_append, directory, clean]
  simp [kept]

def fileName (path : Name) (version : Int) : Name :=
  baseOf path ++ dotV ++ decimal version ++ dotBin

theorem isDigit_or_minus {c : Char} {version : Int} (member : c ∈ decimal version) :
    c.isDigit ∨ c = '-' := by
  cases version with
  | ofNat n => exact .inl (Nat.isDigit_of_mem_toDigits (by decide) (by decide) member)
  | negSucc n =>
    rcases List.mem_cons.mp member with dash | digit
    · exact .inr dash
    · exact .inl (Nat.isDigit_of_mem_toDigits (by decide) (by decide) digit)

theorem not_mem_decimal {c : Char} (letter : c.isDigit = false) (other : c ≠ '-')
    (version : Int) : c ∉ decimal version := by
  intro member
  rcases isDigit_or_minus member with digit | dash
  · simp [letter] at digit
  · exact other dash

theorem fileOf_eq (path : Name) (version : Int) :
    fileOf path version = directory path ++ [fileName path version] := by
  have digits : '/' ∉ decimal version := not_mem_decimal rfl (by decide) version
  have plain : '/' ∉ dotV ++ decimal version ++ dotBin := by
    simp [dotV, dotBin, digits]
  have long : 2 ≤ (dotV ++ decimal version ++ dotBin).length := by
    simp [dotV]
  rw [fileOf, List.append_assoc, List.append_assoc, ← List.append_assoc dotV,
    location_append plain long]
  simp [fileName]

theorem pattern_eq (path : Name) :
    location (path ++ dotV) = directory path ++ [baseOf path ++ dotV] :=
  location_append (by decide) (by decide) path

theorem globMatches_iff {start name : Name} :
    globMatches start name = true ↔ ∃ middle, name = start ++ middle ++ dotBin := by
  constructor
  · intro both
    obtain ⟨before, after⟩ := Bool.and_eq_true_iff.mp both
    obtain ⟨rest, rfl⟩ := List.isPrefixOf_iff_prefix.mp before
    rw [List.drop_left] at after
    obtain ⟨middle, rfl⟩ := List.isSuffixOf_iff_suffix.mp after
    exact ⟨middle, (List.append_assoc _ _ _).symm⟩
  · intro split
    obtain ⟨middle, rfl⟩ := split
    refine Bool.and_eq_true_iff.mpr ⟨?_, ?_⟩
    · exact List.isPrefixOf_iff_prefix.mpr ⟨middle ++ dotBin, (List.append_assoc _ _ _).symm⟩
    · rw [List.append_assoc, List.drop_left]
      exact List.isSuffixOf_iff_suffix.mpr ⟨middle, rfl⟩

theorem captures_iff {path : Name} {place : Location} : captures path place = true ↔
    ∃ middle, place = directory path ++ [baseOf path ++ dotV ++ middle ++ dotBin] := by
  unfold captures
  rw [pattern_eq, List.getLast?_concat, List.dropLast_concat]
  cases last : place.getLast? with
  | none =>
    rw [List.getLast?_eq_none_iff] at last
    simp [last]
  | some name =>
    obtain ⟨above, rfl⟩ := List.getLast?_eq_some_iff.mp last
    simp only [List.dropLast_concat, Bool.and_eq_true, decide_eq_true_eq, globMatches_iff]
    constructor
    · intro both
      obtain ⟨rfl, middle, rfl⟩ := both
      exact ⟨middle, rfl⟩
    · intro found
      obtain ⟨middle, same⟩ := found
      obtain ⟨above_eq, name_eq⟩ := List.append_inj' same rfl
      exact ⟨above_eq, middle, by simpa using name_eq⟩

theorem stripSuffix_append (suffix text : Name) :
    stripSuffix suffix (text ++ suffix) = some text := by
  simp [stripSuffix]

/-- The last `.v` and the digits after it are those that the file name was made with. -/
theorem parseName_append {digits : Name} (numeric : ∀ c ∈ digits, c.isDigit)
    (nonempty : digits ≠ []) (base : Name) :
    parseName (base ++ dotV ++ digits ++ dotBin) =
      if base = [] ∨ '\n' ∈ base then none else some (base, Nat.ofDigitChars 10 digits 0) := by
  have backwards : (base ++ dotV ++ digits).reverse = digits.reverse ++ (base ++ dotV).reverse :=
    List.reverse_append
  have letter : (base ++ dotV).reverse = 'v' :: '.' :: base.reverse := by simp [dotV]
  have all : ∀ c ∈ digits.reverse, c.isDigit := fun c member =>
    numeric c (List.mem_reverse.mp member)
  have taken : ((base ++ dotV ++ digits).reverse.takeWhile Char.isDigit).reverse = digits := by
    rw [backwards, List.takeWhile_append_of_pos all, letter]
    simp
  have dropped : ((base ++ dotV ++ digits).reverse.dropWhile Char.isDigit).reverse =
      base ++ dotV := by
    rw [backwards, List.dropWhile_append_of_pos all, letter]
    simp [dotV]
  simp only [parseName, stripSuffix_append, Option.bind_eq_bind, Option.bind_some, taken, dropped]
  simp [nonempty]

/-- Two readings of a name at a `v`, where the first is the last `v` of the name. -/
theorem eq_or_prefix_of_last {a b s t : Name} (same : a ++ 'v' :: s = b ++ 'v' :: t)
    (last : 'v' ∉ s) : a = b ∨ b ++ ['v'] <+: a := by
  rcases List.append_eq_append_iff.mp same with ⟨c, left, right⟩ | ⟨c, left, right⟩
  · cases c with
    | nil => exact .inl (by simpa using left.symm)
    | cons head tail =>
      rw [List.cons_append, List.cons.injEq] at right
      exact absurd (right.2 ▸ List.mem_append_right tail List.mem_cons_self) last
  · cases c with
    | nil => exact .inl (by simpa using left)
    | cons head tail =>
      rw [List.cons_append, List.cons.injEq] at right
      exact .inr ⟨tail, by rw [left, ← right.1]; simp⟩

/-- A path whose own files the regular expression reads back. -/
def Readable (path : Name) : Prop := baseOf path ≠ [] ∧ '\n' ∉ baseOf path

instance (path : Name) : Decidable (Readable path) := inferInstanceAs (Decidable (_ ∧ _))

theorem parseName_fileName (path : Name) (version : Nat) :
    parseName (fileName path version) =
      if Readable path then some (baseOf path, version) else none := by
  have numeric : ∀ c ∈ decimal version, c.isDigit := fun c member =>
    Nat.isDigit_of_mem_toDigits (by decide) (by decide) member
  have nonempty : decimal version ≠ [] := Nat.toDigits_ne_nil
  rw [fileName, parseName_append numeric nonempty]
  have number : Nat.ofDigitChars 10 (decimal version) 0 = version :=
    Nat.ofDigitChars_ten_toDigits
  by_cases readable : Readable path
  · simp [readable, readable.1, readable.2, number]
  · have broken : baseOf path = [] ∨ '\n' ∈ baseOf path := by
      by_contra neither
      exact readable (not_or.mp neither |>.imp_right id)
    simp [readable, broken]

theorem fileName_split (path : Name) (version : Int) :
    fileName path version = (baseOf path ++ ['.']) ++ 'v' :: (decimal version ++ dotBin) := by
  simp [fileName, dotV]

theorem not_mem_rest (version : Int) : 'v' ∉ decimal version ++ dotBin := by
  intro member
  rcases List.mem_append.mp member with inside | inside
  · exact not_mem_decimal rfl (by decide) version inside
  · exact absurd inside (by decide)

/-- Which paths' patterns match a file: its own path's, and those whose name with a `.v` its
path goes on from. -/
theorem captures_fileOf {path other : Name} {version : Int} :
    captures path (fileOf other version) = true ↔ directory path = directory other ∧
      (baseOf path = baseOf other ∨ baseOf path ++ dotV <+: baseOf other) := by
  rw [captures_iff, fileOf_eq]
  constructor
  · intro found
    obtain ⟨middle, same⟩ := found
    obtain ⟨above, name⟩ := List.append_inj' same rfl
    rw [fileName_split, List.cons.injEq] at name
    have cut : (baseOf other ++ ['.']) ++ 'v' :: (decimal version ++ dotBin) =
        (baseOf path ++ ['.']) ++ 'v' :: (middle ++ dotBin) := by
      simpa [dotV] using name.1
    refine ⟨above.symm, ?_⟩
    rcases eq_or_prefix_of_last cut (not_mem_rest version) with bases | longer
    · exact .inl (List.append_left_injective _ bases).symm
    · rcases List.prefix_concat_iff.mp longer with ends | within
      · have lasts := congrArg List.getLast? ends
        simp at lasts
      · exact .inr (by simpa [dotV] using within)
  · intro both
    obtain ⟨above, base⟩ := both
    rcases base with base | ⟨rest, base⟩
    · exact ⟨decimal version, by simp [fileName, above, base]⟩
    · exact ⟨rest ++ dotV ++ decimal version, by simp [fileName, above, ← base]⟩

theorem decimal_injective : Function.Injective decimal := by
  intro v w same
  have digit : ∀ n rest, Nat.toDigits 10 n ≠ '-' :: rest := by
    intro n rest starts
    have member : '-' ∈ Nat.toDigits 10 n := starts ▸ List.mem_cons_self
    exact absurd (Nat.isDigit_of_mem_toDigits (by decide) (by decide) member) (by decide)
  have numbers : ∀ m n, Nat.toDigits 10 m = Nat.toDigits 10 n → m = n := by
    intro m n equal
    have := congrArg (Nat.ofDigitChars 10 · 0) equal
    simpa [Nat.ofDigitChars_ten_toDigits] using this
  cases v with
  | ofNat m =>
    cases w with
    | ofNat n => exact congrArg Int.ofNat (numbers m n same)
    | negSucc n => exact absurd same (digit m _)
  | negSucc m =>
    cases w with
    | ofNat n => exact absurd same.symm (digit n _)
    | negSucc n =>
      have := numbers _ _ (List.cons.inj same).2
      exact congrArg Int.negSucc (Nat.succ.inj this)

theorem fileOf_inj {path other : Name} {v w : Int} (same : fileOf path v = fileOf other w) :
    directory path = directory other ∧ baseOf path = baseOf other ∧ v = w := by
  rw [fileOf_eq, fileOf_eq] at same
  obtain ⟨above, name⟩ := List.append_inj' same rfl
  rw [fileName_split, fileName_split, List.cons.injEq] at name
  have bases : baseOf path ++ ['.'] = baseOf other ++ ['.'] := by
    rcases eq_or_prefix_of_last name.1 (not_mem_rest v) with equal | shorter
    · exact equal
    · rcases eq_or_prefix_of_last name.1.symm (not_mem_rest w) with equal | longer
      · exact equal.symm
      · have first := shorter.length_le
        have second := longer.length_le
        simp only [List.length_append, List.length_cons, List.length_nil] at first second
        omega
  have numbers := name.1
  rw [bases] at numbers
  have rest := (List.cons.inj (List.append_cancel_left numbers)).2
  exact ⟨above, List.append_left_injective _ bases,
    decimal_injective (List.append_cancel_right rest)⟩

theorem split_eq_singleton {text segment : Name} (single : split text = [segment]) :
    text = segment := by
  induction text generalizing segment with
  | nil => simpa [split] using single
  | cons c rest ih =>
    simp only [split] at single
    by_cases slash : c = '/'
    · simp [slash, split_ne_nil] at single
    · rw [if_neg slash] at single
      cases inner : split rest with
      | nil => exact absurd inner (split_ne_nil rest)
      | cons head tail =>
        rw [inner, List.modifyHead_cons] at single
        obtain ⟨rfl, rfl⟩ : c :: head = segment ∧ tail = [] := by simpa using single
        rw [ih inner]

theorem validatePath_head {path : Name} (valid : validatePath path = true) :
    ∃ c rest, path = c :: rest ∧ c.isAlphanum = true := by
  have matched : matchesPath path = true := by
    simp only [validatePath, Bool.and_eq_true] at valid
    exact valid.1.2
  cases path with
  | nil => exact absurd matched (by decide)
  | cons c rest =>
    refine ⟨c, rest, rfl, ?_⟩
    unfold matchesPath at matched
    split at matched
    · exact Bool.noConfusion matched
    · next first more body =>
      rw [Bool.and_eq_true] at matched
      split at body
      · cases rest with
        | nil => exact absurd body (by simp)
        | cons d more' =>
          rw [List.dropLast_cons_of_ne_nil (by simp)] at body
          rw [(List.cons.inj body).1]
          exact matched.1
      · rw [(List.cons.inj body).1]
        exact matched.1

theorem baseOf_eq_self {path : Name} (valid : validatePath path = true)
    (top : directory path = []) : baseOf path = path := by
  obtain ⟨c, rest, rfl, alnum⟩ := validatePath_head valid
  have not_slash : c ≠ '/' := by
    rintro rfl
    exact absurd alnum (by decide)
  have not_dot : c ≠ '.' := by
    rintro rfl
    exact absurd alnum (by decide)
  cases inner : split rest with
  | nil => exact absurd inner (split_ne_nil rest)
  | cons head tail =>
    have segments : split (c :: rest) = (c :: head) :: tail := by
      simp [split, not_slash, inner]
    cases tail with
    | nil =>
      have whole := split_eq_singleton segments
      simp only [baseOf, segments, List.getLast_singleton]
      exact whole.symm
    | cons second more =>
      rw [directory, clean, segments, List.dropLast_cons_of_ne_nil (by simp)] at top
      simp [not_dot] at top

end HlHelper.Secrets
