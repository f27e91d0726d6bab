import Mathlib.Data.List.Basic

/-! First-in first-out delivery with redelivery: what was put on a line is
delivered in that order, and only what was already delivered may be put in
front of the line once more. -/

namespace HlHelper.Library

variable {α : Type*}

/-- `Line puts delivered waiting`: the items put so far, the deliveries so far
and the items that wait, oldest first. -/
inductive Line : List α → List α → List α → Prop
  | empty : Line [] [] []
  | put {puts delivered waiting} (item : α) :
      Line puts delivered waiting → Line (puts ++ [item]) delivered (waiting ++ [item])
  | deliver {puts delivered waiting} {item : α} :
      Line puts delivered (item :: waiting) → Line puts (delivered ++ [item]) waiting
  | replay {puts delivered waiting} (again : List α) :
      Line puts delivered waiting → (∀ item ∈ again, item ∈ delivered) →
      Line puts delivered (again ++ waiting)

/-- A delivery marked `true` is the first one of its item, every other one
comes after it. -/
def Preceded (copies : List (Bool × α)) : Prop :=
  ∀ before item after, copies = before ++ (false, item) :: after → (true, item) ∈ before

/-- The deliveries followed by what waits, with redeliveries left out, are
exactly the items put, each once and in the order in which they were put. -/
def InOrder (puts delivered waiting : List α) : Prop :=
  ∃ copies : List (Bool × α), copies.map Prod.snd = delivered ++ waiting ∧
    (copies.filter Prod.fst).map Prod.snd = puts ∧ Preceded copies

theorem preceded_nil : Preceded ([] : List (Bool × α)) := by
  intro before item after split
  simp at split

theorem preceded_append_first {copies : List (Bool × α)} (ordered : Preceded copies) (item : α) :
    Preceded (copies ++ [(true, item)]) := by
  intro before other after split
  rcases List.append_eq_append_iff.mp split with ⟨middle, rfl, tail⟩ | ⟨middle, rfl, tail⟩
  · cases middle with
    | nil => simp at tail
    | cons head rest => simp at tail
  · cases middle with
    | nil => simp at tail
    | cons head rest =>
      simp only [List.cons_append, List.cons.injEq] at tail
      obtain ⟨rfl, _⟩ := tail
      exact ordered before other rest rfl

theorem preceded_insert {front back : List (Bool × α)} (again : List α)
    (ordered : Preceded (front ++ back))
    (known : ∀ item ∈ again, (true, item) ∈ front) :
    Preceded (front ++ (again.map (fun item => (false, item)) ++ back)) := by
  intro before item after split
  rcases List.append_eq_append_iff.mp split with ⟨middle, rfl, tail⟩ | ⟨middle, rfl, tail⟩
  · rcases List.append_eq_append_iff.mp tail with ⟨inner, rfl, rest⟩ | ⟨inner, pieces, rest⟩
    · have shape : front ++ back = (front ++ inner) ++ (false, item) :: after := by
        rw [rest, List.append_assoc]
      have found := ordered (front ++ inner) item after shape
      rcases List.mem_append.mp found with found | found
      · exact List.mem_append_left _ found
      · exact List.mem_append_right _ (List.mem_append_right _ found)
    · cases inner with
      | nil =>
        simp only [List.nil_append] at rest
        have shape : front ++ back = front ++ (false, item) :: after := by rw [← rest]
        exact List.mem_append_left _ (ordered front item after shape)
      | cons head inner =>
        simp only [List.cons_append, List.cons.injEq] at rest
        obtain ⟨rfl, _⟩ := rest
        have member : (false, item) ∈ again.map (fun item => (false, item)) := by
          rw [pieces]
          simp
        obtain ⟨same, inside, equal⟩ := List.mem_map.mp member
        obtain rfl : same = item := (Prod.mk.inj equal).2
        exact List.mem_append_left _ (known same inside)
  · cases middle with
    | nil =>
      simp only [List.nil_append] at tail
      have member : (false, item) ∈ again.map (fun item => (false, item)) ++ back := by
        rw [← tail]
        simp
      rw [List.append_nil] at known
      cases again with
      | nil =>
        simp only [List.map_nil, List.nil_append] at tail
        exact ordered before item after (by rw [List.append_nil, ← tail])
      | cons head rest =>
        simp only [List.map_cons, List.cons_append, List.cons.injEq, Prod.mk.injEq,
          true_and] at tail
        exact known item (by simp [tail.1])
    | cons head rest =>
      simp only [List.cons_append, List.cons.injEq] at tail
      obtain ⟨rfl, _⟩ := tail
      exact ordered before item (rest ++ back) (by simp)

theorem Line.inOrder {puts delivered waiting : List α} (line : Line puts delivered waiting) :
    ∃ front back : List (Bool × α), front.map Prod.snd = delivered ∧ back.map Prod.snd = waiting ∧
      ((front ++ back).filter Prod.fst).map Prod.snd = puts ∧ Preceded (front ++ back) := by
  induction line with
  | empty => exact ⟨[], [], rfl, rfl, rfl, preceded_nil⟩
  | put item _ ih =>
    obtain ⟨front, back, done, rest, firsts, ordered⟩ := ih
    refine ⟨front, back ++ [(true, item)], done, by simp [rest], ?_, ?_⟩
    · rw [← List.append_assoc, List.filter_append, List.map_append, firsts]
      rfl
    · rw [← List.append_assoc]
      exact preceded_append_first ordered item
  | @deliver puts delivered waiting item _ ih =>
    obtain ⟨front, back, done, rest, firsts, ordered⟩ := ih
    cases back with
    | nil => simp at rest
    | cons copy back =>
      simp only [List.map_cons, List.cons.injEq] at rest
      have shape : (front ++ [copy]) ++ back = front ++ copy :: back := by simp
      refine ⟨front ++ [copy], back, by simp [done, rest.1], rest.2, ?_, ?_⟩
      · rw [shape, firsts]
      · rw [shape]
        exact ordered
  | replay again _ known ih =>
    obtain ⟨front, back, done, rest, firsts, ordered⟩ := ih
    refine ⟨front, again.map (fun item => (false, item)) ++ back, done, ?_, ?_, ?_⟩
    · simp [rest, Function.comp_def]
    · have none_first :
          ((again.map (fun item => (false, item))).filter Prod.fst : List (Bool × α)) = [] := by
        simp [List.filter_eq_nil_iff]
      rw [List.filter_append, List.filter_append, none_first, List.nil_append,
        ← List.filter_append, firsts]
    · apply preceded_insert again ordered
      intro item member
      have delivered := known item member
      rw [← done] at delivered
      obtain ⟨copy, inside, rfl⟩ := List.mem_map.mp delivered
      obtain ⟨before, after, rfl⟩ := List.append_of_mem inside
      obtain ⟨mark, item⟩ := copy
      cases mark with
      | true => simp
      | false =>
        have earlier := ordered before item (after ++ back) (by simp)
        exact List.mem_append_left _ earlier

theorem Line.ordered {puts delivered waiting : List α} (line : Line puts delivered waiting) :
    InOrder puts delivered waiting := by
  obtain ⟨front, back, done, rest, firsts, ordered⟩ := line.inOrder
  exact ⟨front ++ back, by simp [done, rest], firsts, ordered⟩

theorem Line.delivered_or_waiting {puts delivered waiting : List α}
    (line : Line puts delivered waiting) {item : α} (member : item ∈ puts) :
    item ∈ delivered ∨ item ∈ waiting := by
  obtain ⟨copies, shape, firsts, _⟩ := line.ordered
  rw [← firsts] at member
  obtain ⟨copy, inside, rfl⟩ := List.mem_map.mp member
  have everywhere : copy.2 ∈ copies.map Prod.snd :=
    List.mem_map.mpr ⟨copy, (List.mem_filter.mp inside).1, rfl⟩
  rw [shape] at everywhere
  exact List.mem_append.mp everywhere

end HlHelper.Library
