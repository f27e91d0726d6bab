import Mathlib.Data.List.Forall2

/-! Codes whose words can be read off the front of a longer text, and texts that end
at a delimiter. -/

namespace HlHelper.Library

variable {α β : Type*}

/-- A text that starts with a word of the code starts with no other. -/
def PrefixFree (code : α → List β) : Prop :=
  ∀ a b rest others, code a ++ rest = code b ++ others → a = b ∧ rest = others

theorem prefixFree_of_width {code : α → List β} {width : Nat}
    (wide : ∀ a, (code a).length = width) (injective : ∀ a b, code a = code b → a = b) :
    PrefixFree code := by
  intro a b rest others same
  obtain ⟨words, rests⟩ := List.append_inj same ((wide a).trans (wide b).symm)
  exact ⟨injective a b words, rests⟩

theorem PrefixFree.flatMap_mark {code : α → List β} (free : PrefixFree code) {mark : β}
    (starts : ∀ a, ∃ c tail, code a = c :: tail ∧ c ≠ mark) {first second : List α}
    {rest others : List β}
    (same : first.flatMap code ++ mark :: rest = second.flatMap code ++ mark :: others) :
    first = second ∧ rest = others := by
  induction first generalizing second with
  | nil =>
    cases second with
    | nil => exact ⟨rfl, (List.cons.inj same).2⟩
    | cons b second =>
      obtain ⟨c, tail, word, other⟩ := starts b
      simp only [List.flatMap_nil, List.nil_append, List.flatMap_cons, word, List.cons_append,
        List.cons.injEq] at same
      exact absurd same.1.symm other
  | cons a first ih =>
    cases second with
    | nil =>
      obtain ⟨c, tail, word, other⟩ := starts a
      simp only [List.flatMap_nil, List.nil_append, List.flatMap_cons, word, List.cons_append,
        List.cons.injEq] at same
      exact absurd same.1 other
    | cons b second =>
      simp only [List.flatMap_cons, List.append_assoc] at same
      obtain ⟨rfl, tails⟩ := free a b _ _ same
      obtain ⟨rfl, rests⟩ := ih tails
      exact ⟨rfl, rests⟩

/-- What follows a text: nothing, or a delimiter first. -/
def Delimited (delimits : β → Prop) (rest : List β) : Prop := ∀ c ∈ rest.head?, delimits c

theorem delimited_cons {delimits : β → Prop} {c : β} {rest : List β} :
    Delimited delimits (c :: rest) ↔ delimits c := by
  simp [Delimited]

theorem append_inj_of_delimited {delimits : β → Prop} {first second rest others : List β}
    (inside : ∀ c ∈ first, ¬ delimits c) (insideToo : ∀ c ∈ second, ¬ delimits c)
    (ends : Delimited delimits rest) (endsToo : Delimited delimits others)
    (same : first ++ rest = second ++ others) : first = second ∧ rest = others := by
  induction first generalizing second with
  | nil =>
    cases second with
    | nil => exact ⟨rfl, same⟩
    | cons c second =>
      rw [List.nil_append] at same
      exact absurd (ends c (by simp [same])) (insideToo c List.mem_cons_self)
  | cons c first ih =>
    cases second with
    | nil =>
      rw [List.nil_append] at same
      exact absurd (endsToo c (by simp [← same])) (inside c List.mem_cons_self)
    | cons d second =>
      obtain ⟨rfl, tails⟩ := List.cons.inj same
      obtain ⟨rfl, rests⟩ := ih (fun e member => inside e (List.mem_cons_of_mem c member))
        (fun e member => insideToo e (List.mem_cons_of_mem c member)) tails
      exact ⟨rfl, rests⟩

section Separated

variable {rel : α → α → Prop} {code : α → List β} {delimits : β → Prop} {comma close : β}

/-- What stands behind the first of the parts that commas separate. -/
def behind (code : α → List β) (comma close : β) (more : List α) (rest : List β) : List β :=
  match more with
  | [] => close :: rest
  | b :: more => comma :: ([comma].intercalate ((b :: more).map code) ++ close :: rest)

theorem intercalate_cons (a : α) (more : List α) (rest : List β) :
    [comma].intercalate ((a :: more).map code) ++ close :: rest =
      code a ++ behind code comma close more rest := by
  cases more with
  | nil => simp [behind]
  | cons b more => simp [behind, List.intercalate_cons_cons]

theorem delimited_behind (separates : delimits comma) (closes : delimits close) (more : List α)
    (rest : List β) : Delimited delimits (behind code comma close more rest) := by
  cases more with
  | nil => exact delimited_cons.mpr closes
  | cons b more => exact delimited_cons.mpr separates

theorem not_close_of_starts {a : α} (starts : ∃ c tail, code a = c :: tail ∧ c ≠ close)
    (tail others : List β) : code a ++ tail ≠ close :: others := by
  intro equal
  obtain ⟨c, word, start, other⟩ := starts
  rw [start] at equal
  exact other (List.cons.inj equal).1

theorem intercalate_inj (different : comma ≠ close) (separates : delimits comma)
    (closes : delimits close) {first second : List α} {rest others : List β}
    (starts : ∀ a, a ∈ first ∨ a ∈ second → ∃ c tail, code a = c :: tail ∧ c ≠ close)
    (parts : ∀ a ∈ first, ∀ b ∈ second, ∀ rest others, Delimited delimits rest →
      Delimited delimits others → code a ++ rest = code b ++ others → rel a b ∧ rest = others)
    (same : [comma].intercalate (first.map code) ++ close :: rest =
      [comma].intercalate (second.map code) ++ close :: others) :
    List.Forall₂ rel first second ∧ rest = others := by
  induction first generalizing second with
  | nil =>
    cases second with
    | nil => exact ⟨.nil, (List.cons.inj same).2⟩
    | cons b second =>
      rw [intercalate_cons] at same
      exact absurd same.symm (not_close_of_starts (starts b (by simp)) _ _)
  | cons a first ih =>
    rw [intercalate_cons] at same
    cases second with
    | nil => exact absurd same (not_close_of_starts (starts a (by simp)) _ _)
    | cons b second =>
      rw [intercalate_cons] at same
      obtain ⟨related, tails⟩ := parts a List.mem_cons_self b List.mem_cons_self _ _
        (delimited_behind separates closes first rest)
        (delimited_behind separates closes second others) same
      have inside : ∀ c, c ∈ first ∨ c ∈ second → c ∈ a :: first ∨ c ∈ b :: second :=
        fun c => Or.imp (List.mem_cons_of_mem a) (List.mem_cons_of_mem b)
      have further := @ih second (fun c member => starts c (inside c member))
        (fun c member d memberToo => parts c (List.mem_cons_of_mem a member) d
          (List.mem_cons_of_mem b memberToo))
      cases first with
      | nil => cases second with
        | nil => exact ⟨.cons related .nil, (List.cons.inj tails).2⟩
        | cons => exact absurd (List.cons.inj tails).1.symm different
      | cons => cases second with
        | nil => exact absurd (List.cons.inj tails).1 different
        | cons =>
          obtain ⟨all, rests⟩ := further (List.cons.inj tails).2
          exact ⟨.cons related all, rests⟩

end Separated

end HlHelper.Library
