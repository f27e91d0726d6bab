import Mathlib.Data.List.Forall2

/-! Computations that may raise, and lists that are worked through until one does. -/

namespace HlHelper.Library

variable {ε α β : Type}

theorem map_eq_ok {f : α → β} {x : Except ε α} {b : β} :
    x.map f = .ok b ↔ ∃ a, x = .ok a ∧ f a = b := by
  cases x <;> simp [Except.map]

theorem ok_of_toOption_map {x : Except ε α} {f : α → β} {result : β}
    (given : (x.map f).toOption = some result) : ∃ a, x = .ok a ∧ f a = result := by
  cases x with
  | error e => cases given
  | ok a => exact ⟨a, rfl, Option.some.inj given⟩

theorem bind_eq_ok {f : α → Except ε β} {x : Except ε α} {b : β} :
    x.bind f = .ok b ↔ ∃ a, x = .ok a ∧ f a = .ok b := by
  cases x <;> simp [Except.bind]

theorem foldlM_skip {f : β → α → Except ε β} {items : List α} {acc : β}
    (skips : ∀ x ∈ items, ∀ acc, f acc x = .ok acc) : items.foldlM f acc = .ok acc := by
  induction items with
  | nil => rfl
  | cons x items ih =>
    rw [List.foldlM_cons, skips x List.mem_cons_self]
    exact ih fun y member => skips y (List.mem_cons_of_mem _ member)

theorem mapM_pure_related {m : Type → Type} [Monad m] [LawfulMonad m] {f : α → m β}
    {R : α → β → Prop} {items : List α} (all : ∀ x ∈ items, ∃ y, f x = pure y ∧ R x y) :
    ∃ results, items.mapM f = pure results ∧ List.Forall₂ R items results := by
  induction items with
  | nil => exact ⟨[], List.mapM_nil, List.Forall₂.nil⟩
  | cons x items ih =>
    obtain ⟨⟨y, first, related⟩, rest⟩ := List.forall_mem_cons.mp all
    obtain ⟨results, mapped, each⟩ := ih rest
    refine ⟨y :: results, ?_, List.Forall₂.cons related each⟩
    rw [List.mapM_cons, first, mapped, pure_bind, pure_bind]

theorem mapM_related {f : α → Except ε β} {R : α → β → Prop} {items : List α}
    (all : ∀ x ∈ items, ∃ y, f x = .ok y ∧ R x y) :
    ∃ results, items.mapM f = .ok results ∧ List.Forall₂ R items results :=
  mapM_pure_related all

theorem mapM_some_related {f : α → Option β} {R : α → β → Prop} {items : List α}
    (all : ∀ x ∈ items, ∃ y, f x = some y ∧ R x y) :
    ∃ results, items.mapM f = some results ∧ List.Forall₂ R items results :=
  mapM_pure_related all

theorem mem_flatten_of_related {P : α → β → Prop} {items : List α} {results : List (List β)}
    (each : List.Forall₂ (fun x ys => ∀ y, y ∈ ys ↔ P x y) items results) {y : β} :
    y ∈ results.flatten ↔ ∃ x ∈ items, P x y := by
  induction each with
  | nil => simp
  | cons related _ ih =>
    rw [List.flatten_cons, List.mem_append, related, ih]
    simp only [List.mem_cons, exists_eq_or_imp]

theorem mapM_ok {f : α → Except ε β} {items : List α} {results : List β}
    (mapped : items.mapM f = .ok results) {x : α} (member : x ∈ items) : ∃ y, f x = .ok y := by
  induction items generalizing results with
  | nil => exact (List.not_mem_nil member).elim
  | cons first items ih =>
    rw [List.mapM_cons] at mapped
    obtain ⟨y, here, mapped⟩ := bind_eq_ok.mp mapped
    obtain ⟨later, rest, _⟩ := bind_eq_ok.mp mapped
    rcases List.mem_cons.mp member with rfl | inside
    · exact ⟨y, here⟩
    · exact ih rest inside

theorem forall₂_left {R : α → β → Prop} {items : List α} {results : List β}
    (each : List.Forall₂ R items results) {x : α} (member : x ∈ items) :
    ∃ y ∈ results, R x y := by
  induction each with
  | nil => cases member
  | cons related each ih =>
    rcases List.mem_cons.mp member with rfl | later
    · exact ⟨_, List.mem_cons_self, related⟩
    · obtain ⟨y, there, known⟩ := ih later
      exact ⟨y, List.mem_cons_of_mem _ there, known⟩

/-- Two lists give the same at each place exactly if all that equally many of their entries give
together is the same, however many. -/
theorem forall₂_iff_prefixes {γ : Type} {f : α → Option γ} {g : β → Option γ} {xs : List α}
    {ys : List β} (size : xs.length = ys.length) :
    List.Forall₂ (fun x y => f x = g y) xs ys ↔
      ∀ n, (xs.take n).filterMap f = (ys.take n).filterMap g := by
  constructor
  · intro each
    clear size
    induction each with
    | nil => simp
    | cons same _ ih =>
      intro n
      cases n with
      | zero => rfl
      | succ n => rw [List.take_succ_cons, List.take_succ_cons, List.filterMap_cons,
          List.filterMap_cons, same, ih n]
  · intro all
    induction xs generalizing ys with
    | nil =>
      obtain rfl := List.length_eq_zero_iff.mp size.symm
      exact List.Forall₂.nil
    | cons x xs ih =>
      cases ys with
      | nil => cases size
      | cons y ys =>
        have alone := all 1
        have same : f x = g y := by
          cases left : f x <;> cases right : g y <;> simp_all
        refine List.Forall₂.cons same (ih (Nat.succ.inj size) ?_)
        intro n
        have more := all (n + 1)
        rw [List.take_succ_cons, List.take_succ_cons, List.filterMap_cons,
          List.filterMap_cons, same] at more
        cases found : g y with
        | none => rwa [found] at more
        | some z =>
          rw [found] at more
          exact (List.cons.inj more).2

end HlHelper.Library
