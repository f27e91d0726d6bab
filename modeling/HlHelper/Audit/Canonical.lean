import HlHelper.Audit.Text
import HlHelper.Library.Rows
import Mathlib.Data.String.Basic

/-! The canonical bytes of an entry determine the entry, a payload up to the order of
the keys of its objects. -/

namespace HlHelper.Audit

open HlHelper.Library

/-- What Python prints for a `float`. -/
def FloatText (text : String) : Prop :=
  text ∈ ["NaN", "Infinity", "-Infinity"] ∨
    (∀ c ∈ text.toList, c.isDigit ∨ c ∈ ['-', '+', '.', 'e']) ∧
      ∃ c ∈ text.toList, c = '.' ∨ c = 'e'

instance (text : String) : Decidable (FloatText text) :=
  @instDecidableOr _ _ inferInstance
    (@instDecidableAnd _ _ (List.decidableBAll _ _) (List.decidableBEx _ _))

mutual

/-- The floats of the value are held as Python prints them. -/
def Value.FloatsPrinted : Value → Prop
  | .float text => FloatText text
  | .arr items => itemsPrinted items
  | .obj fields => fieldsPrinted fields
  | .null | .bool _ | .int _ | .str _ => True

def itemsPrinted : List Value → Prop
  | [] => True
  | item :: rest => item.FloatsPrinted ∧ itemsPrinted rest

def fieldsPrinted : List (String × Value) → Prop
  | [] => True
  | (_, value) :: rest => value.FloatsPrinted ∧ fieldsPrinted rest

end

mutual

def Value.ordered : Value → Value
  | .arr items => .arr (orderedItems items)
  | .obj fields =>
    .obj ((orderedFields fields).insertionSort (fun first second => first.1 ≤ second.1))
  | .null => .null
  | .bool b => .bool b
  | .int n => .int n
  | .float text => .float text
  | .str s => .str s

def orderedItems : List Value → List Value
  | [] => []
  | item :: rest => item.ordered :: orderedItems rest

def orderedFields : List (String × Value) → List (String × Value)
  | [] => []
  | (key, value) :: rest => (key, value.ordered) :: orderedFields rest

end

/-- Equality of payloads, which does not see the order of keys. -/
def Value.Same (first second : Value) : Prop := first.ordered = second.ordered

@[elab_as_elim]
theorem Value.induction {motive : Value → Prop} (null : motive .null)
    (bool : ∀ b, motive (.bool b)) (int : ∀ n, motive (.int n))
    (float : ∀ text, motive (.float text)) (str : ∀ s, motive (.str s))
    (arr : ∀ items, (∀ item ∈ items, motive item) → motive (.arr items))
    (obj : ∀ fields, (∀ member ∈ fields, motive member.2) → motive (.obj fields))
    (value : Value) : motive value :=
  @Value.rec motive (fun items => ∀ item ∈ items, motive item)
    (fun fields => ∀ member ∈ fields, motive member.2) (fun member => motive member.2)
    null bool int float str arr obj (List.forall_mem_nil _)
    (fun _ _ here rest => List.forall_mem_cons.mpr ⟨here, rest⟩) (List.forall_mem_nil _)
    (fun _ _ here rest => List.forall_mem_cons.mpr ⟨here, rest⟩) (fun _ _ here => here) value

theorem itemsPrinted_iff {items : List Value} :
    itemsPrinted items ↔ ∀ item ∈ items, item.FloatsPrinted := by
  induction items with
  | nil => simp [itemsPrinted]
  | cons item rest ih => simp [itemsPrinted, ih]

variable {fields : List (String × Value)}

theorem fieldsPrinted_iff : fieldsPrinted fields ↔ ∀ member ∈ fields, member.2.FloatsPrinted := by
  induction fields with
  | nil => simp [fieldsPrinted]
  | cons member rest ih => simp [fieldsPrinted, ih]

theorem orderedItems_eq (items : List Value) : orderedItems items = items.map Value.ordered := by
  induction items with
  | nil => rfl
  | cons item rest ih => rw [orderedItems, ih, List.map_cons]

theorem orderedFields_eq (fields : List (String × Value)) :
    orderedFields fields = fields.map (fun member => (member.1, member.2.ordered)) := by
  induction fields with
  | nil => rfl
  | cons member rest ih => rw [orderedFields, ih, List.map_cons]

theorem dumpItems_eq (items : List Value) : dumpItems items = items.map dumps := by
  induction items with
  | nil => rfl
  | cons item rest ih => rw [dumpItems, ih, List.map_cons]

theorem dumpFields_eq (fields : List (String × Value)) :
    dumpFields fields = fields.map (fun member => (member.1, dumps member.2)) := by
  induction fields with
  | nil => rfl
  | cons member rest ih => rw [dumpFields, ih, List.map_cons]

def byKey (fields : List (String × Value)) : List (String × Value) :=
  fields.insertionSort (fun first second => first.1 ≤ second.1)

theorem toList_dumps_arr (items : List Value) :
    (dumps (.arr items)).toList =
      '[' :: ([','].intercalate (items.map (fun item => (dumps item).toList)) ++ [']']) := by
  simp [dumps, dumpItems_eq, String.toList_intercalate]
  rfl

theorem insertionSort_map {β : Type} (f : Value → β) (fields : List (String × Value)) :
    (fields.map (fun member => (member.1, f member.2))).insertionSort
        (fun first second => first.1 ≤ second.1) =
      (byKey fields).map (fun member => (member.1, f member.2)) :=
  (List.map_insertionSort (fun first second => first.1 ≤ second.1)
    (fun first second => first.1 ≤ second.1) (fun member => (member.1, f member.2)) fields
    (fun _ _ _ _ => Iff.rfl)).symm

theorem toList_dumps_obj (fields : List (String × Value)) :
    (dumps (.obj fields)).toList =
      '\x7b' :: ([','].intercalate ((byKey fields).map (fun member =>
        (quote member.1).toList ++ ':' :: (dumps member.2).toList)) ++ ['\x7d']) := by
  have brace : ("\x7b" : String).toList = ['\x7b'] := rfl
  have close : ("\x7d" : String).toList = ['\x7d'] := rfl
  have comma : ("," : String).toList = [','] := rfl
  have colon : (":" : String).toList = [':'] := rfl
  simp only [dumps, objectText, dumpFields_eq, insertionSort_map, String.toList_append, brace,
    close, String.toList_intercalate, comma, List.map_map, List.cons_append, List.nil_append,
    Function.comp_def, colon, List.append_assoc]

theorem ordered_obj (fields : List (String × Value)) :
    (Value.obj fields).ordered =
      .obj ((byKey fields).map (fun member => (member.1, member.2.ordered))) := by
  rw [Value.ordered, orderedFields_eq, insertionSort_map]

theorem ordered_arr (items : List Value) :
    (Value.arr items).ordered = .arr (items.map Value.ordered) := by
  rw [Value.ordered, orderedItems_eq]

def Structural (c : Char) : Prop := c ∈ [',', ']', '\x7d', '"', '[', '\x7b']

instance (c : Char) : Decidable (Structural c) := inferInstanceAs (Decidable (_ ∈ _))

def Value.IsToken : Value → Prop
  | .null | .bool _ | .int _ | .float _ => True
  | .str _ | .arr _ | .obj _ => False

theorem toList_ofNat (n : Nat) : (toString (Int.ofNat n)).toList = Nat.toDigits 10 n :=
  Nat.toList_repr

theorem toList_negSucc (n : Nat) :
    (toString (Int.negSucc n)).toList = '-' :: Nat.toDigits 10 (n + 1) := by
  rw [← Nat.toList_repr]
  exact String.toList_append

theorem mem_toDigits {n : Nat} {c : Char} (member : c ∈ Nat.toDigits 10 n) : c.isDigit :=
  Nat.isDigit_of_mem_toDigits (by decide) (by decide) member

theorem mem_toList_int {n : Int} {c : Char} (member : c ∈ (toString n).toList) :
    c.isDigit ∨ c = '-' := by
  cases n with
  | ofNat m =>
    rw [toList_ofNat] at member
    exact .inl (mem_toDigits member)
  | negSucc m =>
    rw [toList_negSucc] at member
    rcases List.mem_cons.mp member with sign | digit
    · exact .inr sign
    · exact .inl (mem_toDigits digit)

theorem toDigits_injective {m n : Nat} (same : Nat.toDigits 10 m = Nat.toDigits 10 n) :
    m = n :=
  calc
    m = Nat.ofDigitChars 10 (Nat.toDigits 10 m) 0 := Nat.ofDigitChars_ten_toDigits.symm
    _ = Nat.ofDigitChars 10 (Nat.toDigits 10 n) 0 := by rw [same]
    _ = n := Nat.ofDigitChars_ten_toDigits

theorem minus_not_digits {m : Nat} (tail : List Char) : Nat.toDigits 10 m ≠ '-' :: tail := by
  intro same
  have digit := mem_toDigits (n := m) (c := '-') (by simp [same])
  exact absurd digit (by decide)

theorem toString_int_injective {m n : Int} (same : toString m = toString n) : m = n := by
  have text := congrArg String.toList same
  cases m with
  | ofNat m =>
    cases n with
    | ofNat n =>
      rw [toList_ofNat, toList_ofNat] at text
      rw [toDigits_injective text]
    | negSucc n =>
      rw [toList_ofNat, toList_negSucc] at text
      exact absurd text (minus_not_digits _)
  | negSucc m =>
    cases n with
    | ofNat n =>
      rw [toList_ofNat, toList_negSucc] at text
      exact absurd text.symm (minus_not_digits _)
    | negSucc n =>
      rw [toList_negSucc, toList_negSucc] at text
      rw [Nat.succ.inj (toDigits_injective (List.cons.inj text).2)]

theorem word_not_int {word : String} (letter : ∃ c ∈ word.toList, ¬ (c.isDigit ∨ c = '-'))
    (n : Int) : word ≠ toString n := by
  rintro rfl
  obtain ⟨c, member, other⟩ := letter
  exact other (mem_toList_int member)

theorem floatText_not_int {text : String} (printed : FloatText text) (n : Int) :
    text ≠ toString n := by
  apply word_not_int
  rcases printed with word | ⟨-, c, member, point⟩
  · simp only [List.mem_cons, List.not_mem_nil, or_false] at word
    rcases word with rfl | rfl | rfl
    · exact ⟨'N', by decide, by decide⟩
    · exact ⟨'I', by decide, by decide⟩
    · exact ⟨'I', by decide, by decide⟩
  · refine ⟨c, member, ?_⟩
    rcases point with rfl | rfl <;> decide

theorem floatText_ne_word {text : String} (printed : FloatText text) :
    text ≠ "null" ∧ text ≠ "true" ∧ text ≠ "false" := by
  refine ⟨?_, ?_, ?_⟩ <;> rintro rfl <;> revert printed <;> decide

variable {value : Value}

theorem eq_of_dumps_word {word : Value} (listed : word ∈ [.null, .bool true, .bool false])
    (token : value.IsToken) (printed : value.FloatsPrinted) (same : dumps word = dumps value) :
    word = value := by
  have letters : ∃ c ∈ (dumps word).toList, ¬ (c.isDigit ∨ c = '-') := by
    simp only [List.mem_cons, List.not_mem_nil, or_false] at listed
    rcases listed with rfl | rfl | rfl
    · exact ⟨'n', by decide, by decide⟩
    · exact ⟨'t', by decide, by decide⟩
    · exact ⟨'f', by decide, by decide⟩
  cases value with
  | null =>
    simp only [List.mem_cons, List.not_mem_nil, or_false] at listed
    rcases listed with rfl | rfl | rfl
    · rfl
    · simp [dumps] at same
    · simp [dumps] at same
  | bool b =>
    simp only [List.mem_cons, List.not_mem_nil, or_false] at listed
    rcases listed with rfl | rfl | rfl <;> cases b <;> simp [dumps] at same ⊢
  | int n => exact absurd same (word_not_int letters n)
  | float text =>
    obtain ⟨noNull, noTrue, noFalse⟩ := floatText_ne_word printed
    simp only [List.mem_cons, List.not_mem_nil, or_false] at listed
    rcases listed with rfl | rfl | rfl
    · exact absurd same.symm noNull
    · exact absurd same.symm noTrue
    · exact absurd same.symm noFalse
  | str | arr | obj => exact token.elim

theorem token_injective {first second : Value} (token : first.IsToken) (tokenToo : second.IsToken)
    (printed : first.FloatsPrinted) (printedToo : second.FloatsPrinted)
    (same : dumps first = dumps second) : first = second := by
  cases first with
  | null => exact eq_of_dumps_word (by simp) tokenToo printedToo same
  | bool b => exact eq_of_dumps_word (by cases b <;> simp) tokenToo printedToo same
  | int n =>
    cases second with
    | null => exact (eq_of_dumps_word (by simp) token printed same.symm).symm
    | bool b => exact (eq_of_dumps_word (by cases b <;> simp) token printed same.symm).symm
    | int m => rw [toString_int_injective same]
    | float text => exact absurd same.symm (floatText_not_int printedToo n)
    | str | arr | obj => exact tokenToo.elim
  | float text =>
    cases second with
    | null => exact (eq_of_dumps_word (by simp) token printed same.symm).symm
    | bool b => exact (eq_of_dumps_word (by cases b <;> simp) token printed same.symm).symm
    | int m => exact absurd same (floatText_not_int printed m)
    | float other => exact congrArg Value.float same
    | str | arr | obj => exact tokenToo.elim
  | str | arr | obj => exact token.elim

theorem digit_not_structural {c : Char} (plain : c.isDigit ∨ c ∈ ['-', '+', '.', 'e']) :
    ¬ Structural c := by
  intro structural
  simp only [Structural, List.mem_cons, List.not_mem_nil, or_false] at structural
  rcases structural with rfl | rfl | rfl | rfl | rfl | rfl <;> revert plain <;> decide

theorem not_structural_of_all {text : List Char}
    (plain : (text.all fun c => ¬ Structural c) = true) : ∀ c ∈ text, ¬ Structural c := by
  simpa using plain

theorem token_chars (token : value.IsToken) (printed : value.FloatsPrinted) :
    ∀ c ∈ (dumps value).toList, ¬ Structural c := by
  cases value with
  | null => exact not_structural_of_all (by decide)
  | bool b => cases b <;> exact not_structural_of_all (by decide)
  | int n =>
    intro c member
    exact digit_not_structural ((mem_toList_int member).imp_right (by rintro rfl; decide))
  | float text =>
    rcases printed with word | ⟨plain, -⟩
    · have words : ∀ word ∈ ["NaN", "Infinity", "-Infinity"],
          (word.toList.all fun c => ¬ Structural c) = true := by decide
      exact not_structural_of_all (words text word)
    · intro c member
      exact digit_not_structural (plain c member)
  | str | arr | obj => exact token.elim

theorem token_ne_nil (token : value.IsToken) (printed : value.FloatsPrinted) :
    (dumps value).toList ≠ [] := by
  cases value with
  | null => decide
  | bool b => cases b <;> decide
  | int n =>
    cases n with
    | ofNat n =>
      rw [dumps, toList_ofNat]
      exact Nat.toDigits_ne_nil
    | negSucc n =>
      rw [dumps, toList_negSucc]
      exact List.cons_ne_nil _ _
  | float text =>
    rcases printed with word | ⟨-, c, member, -⟩
    · have words : ∀ word ∈ ["NaN", "Infinity", "-Infinity"], word.toList ≠ [] := by decide
      exact words text word
    · exact List.ne_nil_of_mem member
  | str | arr | obj => exact token.elim

def Value.opening : Value → Option Char
  | .null | .bool _ | .int _ | .float _ => none
  | .str _ => some '"'
  | .arr _ => some '['
  | .obj _ => some '\x7b'

theorem isToken_iff : value.IsToken ↔ value.opening = none := by
  cases value <;> simp [Value.IsToken, Value.opening]

theorem structural_of_opening {c : Char} (opens : value.opening = some c) : Structural c := by
  cases value <;> simp only [Value.opening, reduceCtorEq, Option.some.injEq] at opens <;>
    subst opens <;> decide

theorem dumps_starts (printed : value.FloatsPrinted) :
    ∃ c tail, (dumps value).toList = c :: tail ∧
      (value.opening = some c ∨ value.opening = none ∧ ¬ Structural c) := by
  by_cases token : value.IsToken
  · obtain ⟨c, tail, shape⟩ := List.exists_cons_of_ne_nil (token_ne_nil token printed)
    exact ⟨c, tail, shape, .inr ⟨isToken_iff.mp token,
      token_chars token printed c (by simp [shape])⟩⟩
  · cases value with
    | null | bool | int | float => exact absurd trivial token
    | str s => exact ⟨_, _, toList_quote s, .inl rfl⟩
    | arr items => exact ⟨_, _, toList_dumps_arr items, .inl rfl⟩
    | obj fields => exact ⟨_, _, toList_dumps_obj fields, .inl rfl⟩

theorem opening_eq {first second : Value} {rest others : List Char}
    (printed : first.FloatsPrinted) (printedToo : second.FloatsPrinted)
    (same : (dumps first).toList ++ rest = (dumps second).toList ++ others) :
    first.opening = second.opening := by
  obtain ⟨c, tail, shape, opens⟩ := dumps_starts printed
  obtain ⟨d, tailToo, shapeToo, opensToo⟩ := dumps_starts printedToo
  rw [shape, shapeToo] at same
  obtain ⟨rfl, -⟩ := List.cons.inj same
  rcases opens with opens | ⟨opens, plain⟩
  · rcases opensToo with opensToo | ⟨-, plainToo⟩
    · rw [opens, opensToo]
    · exact absurd (structural_of_opening opens) plainToo
  · rcases opensToo with opensToo | ⟨opensToo, -⟩
    · exact absurd (structural_of_opening opensToo) plain
    · rw [opens, opensToo]

theorem opening_ne_closing {value : Value} (printed : value.FloatsPrinted) {mark : Char}
    (closes : mark = ']' ∨ mark = '\x7d') :
    ∃ c tail, (dumps value).toList = c :: tail ∧ c ≠ mark := by
  obtain ⟨c, tail, shape, opens⟩ := dumps_starts printed
  refine ⟨c, tail, shape, ?_⟩
  rintro rfl
  rcases opens with opens | ⟨-, plain⟩
  · cases value <;> simp only [Value.opening, reduceCtorEq, Option.some.injEq] at opens <;>
      subst opens <;> revert closes <;> decide
  · rcases closes with rfl | rfl <;> exact plain (by decide)

theorem mem_byKey {member : String × Value} : member ∈ byKey fields ↔ member ∈ fields :=
  (List.perm_insertionSort _ fields).mem_iff

theorem token_append_inj {first second : Value} {rest others : List Char} (token : first.IsToken)
    (printed : first.FloatsPrinted) (printedToo : second.FloatsPrinted)
    (ends : Delimited Structural rest) (endsToo : Delimited Structural others)
    (same : (dumps first).toList ++ rest = (dumps second).toList ++ others) :
    first.Same second ∧ rest = others := by
  have tokenToo : second.IsToken := by
    rwa [isToken_iff, ← opening_eq printed printedToo same, ← isToken_iff]
  obtain ⟨texts, rests⟩ := append_inj_of_delimited (token_chars token printed)
    (token_chars tokenToo printedToo) ends endsToo same
  have values := token_injective token tokenToo printed printedToo (String.toList_inj.mp texts)
  exact ⟨congrArg Value.ordered values, rests⟩

theorem map_eq_of_forall₂ {α β : Type} {f : α → β} {first second : List α}
    (all : List.Forall₂ (fun a b => f a = f b) first second) : first.map f = second.map f := by
  induction all with
  | nil => rfl
  | cons here _ ih => rw [List.map_cons, List.map_cons, here, ih]

/-- A value is known, up to the order of keys, from any text that starts with its text and
goes on with a structural character. -/
def Value.Determined (first : Value) : Prop :=
  ∀ second, second.FloatsPrinted → ∀ rest others : List Char, Delimited Structural rest →
    Delimited Structural others → (dumps first).toList ++ rest = (dumps second).toList ++ others →
    first.Same second ∧ rest = others

theorem determined_token (token : value.IsToken) (printed : value.FloatsPrinted) :
    value.Determined := by
  intro second printedToo rest others ends endsToo same
  exact token_append_inj token printed printedToo ends endsToo same

theorem determined_str (s : String) : (Value.str s).Determined := by
  intro second printedToo rest others _ _ same
  have openings := opening_eq (by trivial) printedToo same
  cases second with
  | null | bool | int | float | arr | obj => simp [Value.opening] at openings
  | str t =>
    obtain ⟨rfl, rests⟩ := quote_append_inj same
    exact ⟨rfl, rests⟩

theorem determined_arr {items : List Value} (inside : ∀ item ∈ items, item.FloatsPrinted)
    (each : ∀ item ∈ items, item.Determined) : (Value.arr items).Determined := by
  intro second printedToo rest others _ _ same
  have openings := @opening_eq (.arr items) _ _ _ (itemsPrinted_iff.mpr inside) printedToo same
  cases second with
  | null | bool | int | float | str | obj => simp [Value.opening] at openings
  | arr itemsToo =>
    have insideToo := itemsPrinted_iff.mp printedToo
    have parts : ∀ item ∈ items, ∀ other ∈ itemsToo, ∀ rest others : List Char,
        Delimited Structural rest → Delimited Structural others →
        (dumps item).toList ++ rest = (dumps other).toList ++ others →
        item.ordered = other.ordered ∧ rest = others :=
      fun item member other memberToo => each item member other (insideToo other memberToo)
    simp only [toList_dumps_arr, List.cons_append, List.append_assoc, List.nil_append,
      List.cons.injEq, true_and] at same
    obtain ⟨all, rests⟩ := intercalate_inj (by decide) (by decide) (by decide)
      (fun item member => opening_ne_closing
        (member.elim (inside item) (insideToo item)) (.inl rfl)) parts same
    refine ⟨?_, rests⟩
    rw [Value.Same, ordered_arr, ordered_arr, map_eq_of_forall₂ all]

theorem determined_obj (inside : ∀ member ∈ fields, member.2.FloatsPrinted)
    (each : ∀ member ∈ fields, member.2.Determined) : (Value.obj fields).Determined := by
  intro second printedToo rest others _ _ same
  have openings := @opening_eq (.obj fields) _ _ _ (fieldsPrinted_iff.mpr inside) printedToo same
  cases second with
  | null | bool | int | float | str | arr => simp [Value.opening] at openings
  | obj fieldsToo =>
    have insideToo := fieldsPrinted_iff.mp printedToo
    have parts : ∀ member ∈ byKey fields, ∀ other ∈ byKey fieldsToo,
        ∀ rest others : List Char, Delimited Structural rest → Delimited Structural others →
        ((quote member.1).toList ++ ':' :: (dumps member.2).toList) ++ rest =
          ((quote other.1).toList ++ ':' :: (dumps other.2).toList) ++ others →
        (member.1, member.2.ordered) = (other.1, other.2.ordered) ∧ rest = others := by
      intro member listed other listedToo rest others ends endsToo same
      rw [mem_byKey] at listed listedToo
      simp only [List.append_assoc, List.cons_append] at same
      obtain ⟨keys, tails⟩ := quote_append_inj same
      obtain ⟨value, rests⟩ := each member listed other.2 (insideToo other listedToo) rest
        others ends endsToo (List.cons.inj tails).2
      exact ⟨Prod.ext keys value, rests⟩
    simp only [toList_dumps_obj, List.cons_append, List.append_assoc, List.nil_append,
      List.cons.injEq, true_and] at same
    obtain ⟨all, rests⟩ := intercalate_inj (by decide) (by decide) (by decide)
      (fun member _ => ⟨'"', _, by rw [toList_quote, List.cons_append], by decide⟩)
      parts same
    refine ⟨?_, rests⟩
    rw [Value.Same, ordered_obj, ordered_obj, map_eq_of_forall₂ all]

theorem determined_of_printed (value : Value) (printed : value.FloatsPrinted) :
    value.Determined := by
  induction value using Value.induction with
  | null => exact determined_token trivial printed
  | bool => exact determined_token trivial printed
  | int => exact determined_token trivial printed
  | float => exact determined_token trivial printed
  | str s => exact determined_str s
  | arr items ih =>
    have inside := itemsPrinted_iff.mp printed
    exact determined_arr inside fun item member => ih item member (inside item member)
  | obj fields ih =>
    have inside := fieldsPrinted_iff.mp printed
    exact determined_obj inside fun member listed => ih member listed (inside member listed)

/-- The fields as `ordered` leaves them, before they are sorted. -/
def orderedMembers (fields : List (String × Value)) : List (String × Value) :=
  fields.map (fun member => (member.1, member.2.ordered))

theorem same_obj {others : List (String × Value)} :
    (Value.obj fields).Same (.obj others) ↔
      byKey (orderedMembers fields) = byKey (orderedMembers others) := by
  have sorted : ∀ members, byKey (orderedMembers members) =
      (byKey members).map (fun member => (member.1, member.2.ordered)) :=
    insertionSort_map Value.ordered
  rw [Value.Same, ordered_obj, ordered_obj, Value.obj.injEq, sorted, sorted]

theorem Value.Same.perm {others : List (String × Value)}
    (same : (Value.obj fields).Same (.obj others)) :
    (orderedMembers fields).Perm (orderedMembers others) := by
  have left := List.perm_insertionSort (fun first second : String × Value =>
    first.1 ≤ second.1) (orderedMembers fields)
  have right := List.perm_insertionSort (fun first second : String × Value =>
    first.1 ≤ second.1) (orderedMembers others)
  have lists := same_obj.mp same
  rw [byKey, byKey] at lists
  rw [lists] at left
  exact left.symm.trans right

/-- Pairs of the same distinct keys in the same order are a permutation of one another only if
they have the same values. -/
theorem eq_of_zip_perm {α β : Type*} {keys : List α} {values others : List β}
    (distinct : keys.Nodup) (same : (keys.zip values).Perm (keys.zip others))
    (all : values.length = keys.length) (allToo : others.length = keys.length) :
    values = others := by
  refine List.ext_getElem (all.trans allToo.symm) fun i left right => ?_
  have here : i < keys.length := all ▸ left
  have pair : (keys[i], values[i]) ∈ keys.zip others := same.mem_iff.mp
    (List.mem_iff_getElem.mpr ⟨i, by simp [all, here], List.getElem_zip⟩)
  obtain ⟨j, inside, found⟩ := List.mem_iff_getElem.mp pair
  rw [List.getElem_zip] at found
  obtain ⟨key, value⟩ := Prod.mk.inj found
  obtain rfl := distinct.getElem_inj_iff.mp key
  exact value.symm

theorem Value.Same.values {keys : List String} {values others : List Value}
    (same : (Value.obj (keys.zip values)).Same (.obj (keys.zip others))) (distinct : keys.Nodup)
    (all : values.length = keys.length) (allToo : others.length = keys.length) :
    values.map Value.ordered = others.map Value.ordered := by
  refine eq_of_zip_perm distinct ?_ ((List.length_map _).trans all)
    ((List.length_map _).trans allToo)
  rw [List.zip_map_right, List.zip_map_right]
  exact same.perm

theorem utf8_injective {first second : String} (same : Wire.utf8 first = Wire.utf8 second) :
    first = second := by
  have texts := congrArg Wire.unutf8 same
  simpa using texts

theorem same_of_utf8 {value other : Value} (printed : value.FloatsPrinted)
    (printedToo : other.FloatsPrinted)
    (same : Wire.utf8 (dumps value) = Wire.utf8 (dumps other)) : value.Same other :=
  (determined_of_printed value printed other printedToo [] [] nofun nofun
    (congrArg (fun text => text.toList ++ []) (utf8_injective same))).1

theorem canonicalEntryBytes_injective {sequence sequenceToo : Int} {time timeToo : Datetime}
    {actor actorToo action actionToo : String} {subject subjectToo : Option String}
    {payload payloadToo : Value} {prevHash prevHashToo : Bytes}
    (printed : payload.FloatsPrinted) (printedToo : payloadToo.FloatsPrinted)
    (same : canonicalEntryBytes sequence time actor action subject payload prevHash =
      canonicalEntryBytes sequenceToo timeToo actorToo actionToo subjectToo payloadToo
        prevHashToo) :
    sequence = sequenceToo ∧ time = timeToo ∧ actor = actorToo ∧ action = actionToo ∧
      subject = subjectToo ∧ payload.Same payloadToo ∧ prevHash = prevHashToo := by
  have plain : ∀ subject : Option String,
      ((subject.map Value.str).getD .null).FloatsPrinted := by
    intro subject
    cases subject <;> trivial
  have objects := same_of_utf8 (by simp [Value.FloatsPrinted, fieldsPrinted, plain, printed])
    (by simp [Value.FloatsPrinted, fieldsPrinted, plain, printedToo]) same
  have values := @Value.Same.values ["sequence", "timestamp", "actor", "action", "subject",
    "payload", "prev_hash"] [_, _, _, _, _, _, _] [_, _, _, _, _, _, _] objects (by decide) rfl rfl
  simp only [List.map_cons, List.map_nil, Value.ordered, List.cons.injEq, Value.int.injEq,
    Value.str.injEq, and_true] at values
  obtain ⟨sequences, times, actors, actions, subjects, payloads, hashes⟩ := values
  refine ⟨sequences, isoformat_injective times, actors, actions, ?_, payloads,
    hex_injective hashes⟩
  cases subject <;> cases subjectToo <;> simp_all [Value.ordered]

end HlHelper.Audit
