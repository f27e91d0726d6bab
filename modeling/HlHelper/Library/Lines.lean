import Mathlib.Data.List.Basic

/-! Texts as lines, each of which ends with a newline; the last one may lack it. -/

namespace HlHelper.Library

def splitLines : List Char → List (List Char)
  | [] => []
  | c :: rest =>
    if c = '\n' then [] :: splitLines rest
    else
      match splitLines rest with
      | [] => [[c]]
      | line :: lines => (c :: line) :: lines

/-- The text of the lines, with or without the newline of the last one. -/
def unlines (ended : Bool) : List (List Char) → List Char
  | [] => []
  | [line] => if ended then line ++ ['\n'] else line
  | line :: next :: lines => line ++ '\n' :: unlines ended (next :: lines)

theorem splitLines_newline {line : List Char} (plain : '\n' ∉ line) (rest : List Char) :
    splitLines (line ++ '\n' :: rest) = line :: splitLines rest := by
  induction line with
  | nil => simp [splitLines]
  | cons c line ih =>
    obtain ⟨first, others⟩ := List.ne_and_not_mem_of_not_mem_cons plain
    rw [List.cons_append, splitLines, if_neg (Ne.symm first), ih others]

theorem splitLines_last {line : List Char} (plain : '\n' ∉ line) (filled : line ≠ []) :
    splitLines line = [line] := by
  induction line with
  | nil => exact absurd rfl filled
  | cons c line ih =>
    obtain ⟨first, others⟩ := List.ne_and_not_mem_of_not_mem_cons plain
    rw [splitLines, if_neg (Ne.symm first)]
    cases line with
    | nil => rfl
    | cons d line => rw [ih others (List.cons_ne_nil d line)]

theorem splitLines_unlines (ended : Bool) {lines : List (List Char)}
    (plain : ∀ line ∈ lines, '\n' ∉ line) :
    splitLines (unlines ended lines) = lines ∨
      splitLines (unlines ended lines) ++ [[]] = lines := by
  induction lines with
  | nil => exact .inl rfl
  | cons line lines ih =>
    obtain ⟨here, others⟩ := List.forall_mem_cons.mp plain
    cases lines with
    | cons next lines =>
      rw [unlines, splitLines_newline here, List.cons_append, List.cons_inj_right,
        List.cons_inj_right]
      exact ih others
    | nil =>
      cases ended with
      | true => exact .inl (splitLines_newline here [])
      | false =>
        cases line with
        | nil => exact .inr rfl
        | cons c line => exact .inl (splitLines_last here (List.cons_ne_nil c line))

end HlHelper.Library
