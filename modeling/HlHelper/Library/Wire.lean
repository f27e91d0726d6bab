import Mathlib.Data.List.Basic

/-! The protobuf wire format: base-128 varints, tagged fields, and the readers of
a message's fields. Every reader undoes its writer. -/

namespace HlHelper.Library.Wire

/-- Groups of seven bits, low group first; the fuel bounds the number of groups. -/
def putGroups : Nat → Nat → List UInt8
  | 0, _ => []
  | fuel + 1, n =>
    if n < 128 then [UInt8.ofNat n]
    else UInt8.ofNat (n % 128 + 128) :: putGroups fuel (n / 128)

def putVarint (n : Nat) : List UInt8 := putGroups (n + 1) n

def getVarint : List UInt8 → Option (Nat × List UInt8)
  | [] => none
  | group :: rest =>
    if group.toNat < 128 then some (group.toNat, rest)
    else (getVarint rest).map (fun (high, rest) => (group.toNat - 128 + 128 * high, rest))

theorem getVarint_putGroups (fuel n : Nat) (rest : List UInt8) (enough : n < fuel) :
    getVarint (putGroups fuel n ++ rest) = some (n, rest) := by
  induction fuel generalizing n with
  | zero => omega
  | succ fuel ih =>
    unfold putGroups
    split
    · next small =>
      have value : (UInt8.ofNat n).toNat = n := by
        rw [UInt8.toNat_ofNat']
        omega
      simp [getVarint, value, small]
    · next large =>
      have value : (UInt8.ofNat (n % 128 + 128)).toNat = n % 128 + 128 := by
        rw [UInt8.toNat_ofNat']
        omega
      have high := ih (n / 128) (by omega)
      have more : ¬ n % 128 + 128 < 128 := by omega
      simp only [List.cons_append, getVarint, value, more, if_false, high, Option.map_some]
      congr 2
      omega

theorem getVarint_putVarint (n : Nat) (rest : List UInt8) :
    getVarint (putVarint n ++ rest) = some (n, rest) :=
  getVarint_putGroups (n + 1) n rest (Nat.lt_succ_self n)

theorem putVarint_ne_nil (n : Nat) : putVarint n ≠ [] := by
  unfold putVarint putGroups
  split <;> simp

inductive Value where
  | varint (n : Nat)
  | bytes (content : List UInt8)
  deriving DecidableEq, Repr

abbrev Field := Nat × Value

def putField : Field → List UInt8
  | (number, .varint n) => putVarint (8 * number) ++ putVarint n
  | (number, .bytes content) =>
    putVarint (8 * number + 2) ++ (putVarint content.length ++ content)

def getField (input : List UInt8) : Option (Field × List UInt8) :=
  match getVarint input with
  | none => none
  | some (tag, rest) =>
    match getVarint rest with
    | none => none
    | some (n, rest) =>
      if tag % 8 = 0 then some ((tag / 8, .varint n), rest)
      else if tag % 8 = 2 ∧ n ≤ rest.length then
        some ((tag / 8, .bytes (rest.take n)), rest.drop n)
      else none

theorem getField_putField (field : Field) (rest : List UInt8) :
    getField (putField field ++ rest) = some (field, rest) := by
  obtain ⟨number, value⟩ := field
  cases value with
  | varint n =>
    simp [putField, getField, getVarint_putVarint]
  | bytes content =>
    have tag : (8 * number + 2) % 8 = 2 := by omega
    have recovered : (8 * number + 2) / 8 = number := by omega
    simp [putField, getField, getVarint_putVarint, tag, recovered]

theorem putField_ne_nil (field : Field) : putField field ≠ [] := by
  obtain ⟨number, value⟩ := field
  cases value <;> simp [putField, putVarint_ne_nil]

def putFields (fields : List Field) : List UInt8 := fields.flatMap putField

/-- Each field takes at least one byte, so the length is fuel enough. -/
def getFieldsFuel : Nat → List UInt8 → Option (List Field)
  | _, [] => some []
  | 0, _ :: _ => none
  | fuel + 1, input =>
    match getField input with
    | none => none
    | some (field, rest) => (getFieldsFuel fuel rest).map (fun fields => field :: fields)

def getFields (input : List UInt8) : Option (List Field) := getFieldsFuel input.length input

theorem getFieldsFuel_putFields (fields : List Field) (fuel : Nat)
    (enough : fields.length ≤ fuel) : getFieldsFuel fuel (putFields fields) = some fields := by
  induction fields generalizing fuel with
  | nil => cases fuel <;> rfl
  | cons field fields ih =>
    cases fuel with
    | zero => simp at enough
    | succ fuel =>
      have step := getField_putField field (putFields fields)
      have tail := ih fuel (by simpa using enough)
      have shape : putFields (field :: fields) = putField field ++ putFields fields := rfl
      rw [shape]
      cases start : putField field ++ putFields fields with
      | nil => simp [putField_ne_nil] at start
      | cons first rest =>
        rw [start] at step
        simp [getFieldsFuel, step, tail]

theorem length_le_putFields (fields : List Field) :
    fields.length ≤ (putFields fields).length := by
  induction fields with
  | nil => simp
  | cons field fields ih =>
    have one := List.length_pos_of_ne_nil (putField_ne_nil field)
    have shape : putFields (field :: fields) = putField field ++ putFields fields := rfl
    rw [shape, List.length_append, List.length_cons]
    omega

theorem getFields_putFields (fields : List Field) : getFields (putFields fields) = some fields :=
  getFieldsFuel_putFields fields _ (length_le_putFields fields)

def utf8 (text : String) : List UInt8 := text.toByteArray.data.toList

def unutf8 (content : List UInt8) : Option String := String.fromUTF8? ⟨content.toArray⟩

@[simp] theorem unutf8_utf8 (text : String) : unutf8 (utf8 text) = some text := by
  have same : (⟨text.toByteArray.data.toList.toArray⟩ : ByteArray) = text.toByteArray := by simp
  unfold unutf8 utf8
  rw [same]
  simp [String.fromUTF8?, text.isValidUTF8]
  rfl

theorem utf8_eq (text : String) : utf8 text = text.toList.flatMap String.utf8EncodeChar := by
  have encoded : text.toByteArray = text.toList.utf8Encode := String.utf8Encode_toList.symm
  rw [utf8, encoded, List.utf8Encode]
  simp

theorem mem_utf8EncodeChar {byte : UInt8} {c : Char} (ascii : byte.toNat < 128) :
    byte ∈ String.utf8EncodeChar c ↔ c.toNat = byte.toNat := by
  have value : c.val.toNat = c.toNat := rfl
  have bytes : ∀ n, byte = UInt8.ofNat n ↔ byte.toNat = n % 256 := fun n => by
    rw [← UInt8.toNat_inj, UInt8.toNat_ofNat']
  unfold String.utf8EncodeChar
  simp only [value]
  split
  · rw [List.mem_singleton, bytes]
    omega
  · split
    · simp only [List.mem_cons, List.not_mem_nil, bytes, or_false]
      omega
    · split
      · simp only [List.mem_cons, List.not_mem_nil, bytes, or_false]
        omega
      · simp only [List.mem_cons, List.not_mem_nil, bytes, or_false]
        omega

theorem mem_utf8 {byte : UInt8} (ascii : byte.toNat < 128) {text : String} :
    byte ∈ utf8 text ↔ ∃ c ∈ text.toList, c.toNat = byte.toNat := by
  rw [utf8_eq, List.mem_flatMap]
  simp only [mem_utf8EncodeChar ascii]

section Message

/-- The fields whose number meets `p`, in the order of the message. -/
def pick (p : Nat → Bool) (fields : List Field) : List Field :=
  fields.filter (fun field => p field.1)

abbrev select (number : Nat) (fields : List Field) : List Field :=
  pick (fun other => other = number) fields

@[simp] theorem pick_append (p : Nat → Bool) (first second : List Field) :
    pick p (first ++ second) = pick p first ++ pick p second := by
  simp [pick]

/-- A scalar field is left out when it holds its default. -/
def nat (number n : Nat) : List Field := if n = 0 then [] else [(number, .varint n)]

def flag (number : Nat) (b : Bool) : List Field := nat number b.toNat

def bytes (number : Nat) (content : List UInt8) : List Field :=
  if content = [] then [] else [(number, .bytes content)]

def text (number : Nat) (content : String) : List Field := bytes number (utf8 content)

def texts (number : Nat) (contents : List String) : List Field :=
  contents.map (fun content => (number, .bytes (utf8 content)))

def message (number : Nat) (fields : Option (List Field)) : List Field :=
  fields.toList.map (fun fields => (number, .bytes (putFields fields)))

def natOf (fields : List Field) : Nat :=
  match fields.getLast? with
  | some (_, .varint n) => n
  | _ => 0

def flagOf (fields : List Field) : Bool := natOf fields ≠ 0

def bytesOf (fields : List Field) : List UInt8 :=
  match fields.getLast? with
  | some (_, .bytes content) => content
  | _ => []

def textOf (fields : List Field) : Option String := unutf8 (bytesOf fields)

def textOfField : Field → Option String
  | (_, .varint _) => none
  | (_, .bytes content) => unutf8 content

def textsOf (fields : List Field) : Option (List String) := fields.mapM textOfField

/-- A submessage is absent, or the fields its bytes parse to. -/
def messageOf (fields : List Field) : Option (Option (List Field)) :=
  match fields.getLast? with
  | some (_, .bytes content) => (getFields content).map some
  | _ => some none

variable {p : Nat → Bool} {number : Nat}

theorem pick_none {fields : List Field} (under : ∀ field ∈ fields, field.1 = number)
    (refused : p number = false) : pick p fields = [] := by
  refine List.filter_eq_nil_iff.mpr ?_
  intro field member
  simp [under field member, refused]

theorem pick_all {fields : List Field} (under : ∀ field ∈ fields, field.1 = number)
    (wanted : p number = true) : pick p fields = fields := by
  refine List.filter_eq_self.mpr ?_
  intro field member
  rw [under field member]
  exact wanted

theorem under_nat (n : Nat) : ∀ field ∈ nat number n, field.1 = number := by
  unfold nat
  split <;> simp

theorem under_bytes (content : List UInt8) : ∀ field ∈ bytes number content, field.1 = number := by
  unfold bytes
  split <;> simp

theorem under_texts (contents : List String) :
    ∀ field ∈ texts number contents, field.1 = number := by
  simp [texts]

theorem under_message (fields : Option (List Field)) :
    ∀ field ∈ message number fields, field.1 = number := by
  cases fields <;> simp [message]

section

variable (refused : p number = false)
include refused

@[simp] theorem pick_nat_none (n : Nat) :
    pick p (nat number n) = [] := pick_none (under_nat n) refused

@[simp] theorem pick_flag_none (b : Bool) :
    pick p (flag number b) = [] := pick_none (under_nat b.toNat) refused

@[simp] theorem pick_bytes_none (content : List UInt8) :
    pick p (bytes number content) = [] := pick_none (under_bytes content) refused

@[simp] theorem pick_text_none (content : String) :
    pick p (text number content) = [] := pick_none (under_bytes (utf8 content)) refused

@[simp] theorem pick_texts_none (contents : List String) :
    pick p (texts number contents) = [] := pick_none (under_texts contents) refused

@[simp] theorem pick_message_none (fields : Option (List Field)) :
    pick p (message number fields) = [] := pick_none (under_message fields) refused

end

section

variable (wanted : p number = true)
include wanted

@[simp] theorem natOf_pick_nat (n : Nat) : natOf (pick p (nat number n)) = n := by
  rw [pick_all (under_nat n) wanted]
  unfold nat
  split_ifs with zero
  · exact zero.symm
  · rfl

@[simp] theorem flagOf_pick_flag (b : Bool) : flagOf (pick p (flag number b)) = b := by
  rw [flagOf, flag, natOf_pick_nat wanted]
  cases b <;> rfl

@[simp] theorem bytesOf_pick_bytes (content : List UInt8) :
    bytesOf (pick p (bytes number content)) = content := by
  rw [pick_all (under_bytes content) wanted]
  unfold bytes
  split_ifs with blank
  · exact blank.symm
  · rfl

@[simp] theorem textOf_pick_text (content : String) :
    textOf (pick p (text number content)) = some content := by
  rw [textOf, text, bytesOf_pick_bytes wanted, unutf8_utf8]

@[simp] theorem textsOf_pick_texts (contents : List String) :
    textsOf (pick p (texts number contents)) = some contents := by
  rw [pick_all (under_texts contents) wanted]
  induction contents with
  | nil => rfl
  | cons content contents ih =>
    have rest : (texts number contents).mapM textOfField = some contents := ih
    simp only [texts] at rest
    simp [textsOf, texts, List.mapM_cons, textOfField, rest]

@[simp] theorem messageOf_pick_message (fields : Option (List Field)) :
    messageOf (pick p (message number fields)) = some fields := by
  rw [pick_all (under_message fields) wanted]
  cases fields with
  | none => rfl
  | some fields => simp [message, messageOf, getFields_putFields]

end

end Message

end HlHelper.Library.Wire
