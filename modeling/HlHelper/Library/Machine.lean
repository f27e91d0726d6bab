import HlHelper.Library.Runs

/-! Machines that answer every operation, and when two of them answer alike. -/

namespace HlHelper.Library

variable {σ τ α β : Type*} {first : σ → α → σ × β} {second : τ → α → τ × β}

def next (step : σ → α → σ × β) (s : σ) (op : α) : Option σ := some (step s op).1

/-- What a machine answers to operations one after the other. -/
def answers (step : σ → α → σ × β) : σ → List α → List β :=
  outputs (next step) fun s op => some (step s op).2

theorem answers_cons (step : σ → α → σ × β) (s : σ) (op : α) (ops : List α) :
    answers step s (op :: ops) = (step s op).2 :: answers step (step s op).1 ops := rfl

def after (step : σ → α → σ × β) (s : σ) (ops : List α) : σ :=
  ops.foldl (fun s op => (step s op).1) s

theorem after_concat (step : σ → α → σ × β) (s : σ) (ops : List α) (op : α) :
    after step s (ops ++ [op]) = (step (after step s ops) op).1 := by
  rw [after, List.foldl_append]
  rfl

theorem run_next (step : σ → α → σ × β) (s : σ) (ops : List α) :
    run (next step) s ops = some (after step s ops) := by
  induction ops generalizing s with
  | nil => rfl
  | cons op ops ih => exact ih _

theorem meets_next_iff {step : σ → α → σ × β} {condition : σ → α → Prop} {s : σ} {ops : List α} :
    Meets (next step) condition s ops ↔
      ∀ before op rest, ops = before ++ op :: rest → condition (after step s before) op := by
  constructor
  · intro met before op rest split
    subst split
    exact (meets_append (run_next step s before) met).2.1
  · intro all
    apply meets_of_splits
    intro before op rest t split reached
    obtain rfl := Option.some.inj ((run_next step s before).symm.trans reached)
    exact all before op rest split

theorem answers_concat (step : σ → α → σ × β) (s : σ) (ops : List α) (op : α) :
    answers step s (ops ++ [op]) = answers step s ops ++ [(step (after step s ops) op).2] := by
  induction ops generalizing s with
  | nil => rfl
  | cons first ops ih =>
    rw [List.cons_append, answers_cons, ih]
    rfl

/-- The steps of a machine that keeps what it has answered. -/
def logged (step : σ → α → σ × β) (s : σ × List β) (op : α) : Option (σ × List β) :=
  some ((step s.1 op).1, s.2 ++ [(step s.1 op).2])

theorem run_logged (step : σ → α → σ × β) (s : σ) (log : List β) (ops : List α) :
    run (logged step) (s, log) ops = some (after step s ops, log ++ answers step s ops) := by
  induction ops generalizing s log with
  | nil => exact congrArg (fun log => some (s, log)) (List.append_nil log).symm
  | cons op ops ih =>
    apply (ih (step s op).1 _).trans
    rw [List.append_assoc]
    rfl

theorem meets_logged_concat {step : σ → α → σ × β} {condition : σ × List β → α → Prop} {s : σ}
    {ops : List α} {op : α} (met : Meets (logged step) condition (s, []) (ops ++ [op])) :
    Meets (logged step) condition (s, []) ops ∧
      condition (after step s ops, answers step s ops) op :=
  have parts := meets_append (run_logged step s [] ops) met
  ⟨parts.1, parts.2.1⟩

section View

variable {γ : Type*} {view : σ → τ} {read : α → γ} {other : τ → γ → τ × β}

theorem answers_eq_view
    (same : ∀ s op, (view (first s op).1, (first s op).2) = other (view s) (read op))
    (s : σ) (ops : List α) :
    answers first s ops = answers other (view s) (ops.map read) ∧
      view (after first s ops) = after other (view s) (ops.map read) := by
  induction ops generalizing s with
  | nil => exact ⟨rfl, rfl⟩
  | cons op ops ih =>
    obtain ⟨state, answer⟩ := Prod.mk.inj (same s op)
    obtain ⟨answered, reached⟩ := ih (first s op).1
    rw [state] at answered reached
    rw [List.map_cons, answers_cons, answers_cons, answer, answered]
    exact ⟨rfl, reached⟩

theorem meets_logged_view {condition : τ × List β → γ → Prop}
    (same : ∀ s op, (view (first s op).1, (first s op).2) = other (view s) (read op))
    {s : σ} {log : List β} {ops : List α}
    (met : Meets (logged first) (fun s op => condition (view s.1, s.2) (read op)) (s, log) ops) :
    Meets (logged other) condition (view s, log) (ops.map read) := by
  induction ops generalizing s log with
  | nil => trivial
  | cons op ops ih =>
    obtain ⟨state, answer⟩ := Prod.mk.inj (same s op)
    refine ⟨met.1, fun t stepped => ?_⟩
    cases stepped
    have rest := ih (met.2 _ rfl)
    rwa [state, answer] at rest

end View

theorem answers_eq_iff {R : σ → τ → Prop} {condition : τ → α → Prop}
    (same : ∀ s t op, R s t → ((first s op).2 = (second t op).2 ↔ condition t op))
    (keeps : ∀ s t op, R s t → condition t op → R (first s op).1 (second t op).1)
    {s : σ} {t : τ} (related : R s t) (ops : List α) :
    answers first s ops = answers second t ops ↔ Meets (next second) condition t ops := by
  induction ops generalizing s t with
  | nil => exact ⟨fun _ => trivial, fun _ => rfl⟩
  | cons op ops ih =>
    rw [answers_cons, answers_cons, List.cons.injEq, same s t op related]
    constructor
    case mp =>
      intro both
      refine ⟨both.1, fun u stepped => ?_⟩
      cases stepped
      exact (ih (keeps s t op related both.1)).mp both.2
    case mpr =>
      intro met
      exact ⟨met.1, (ih (keeps s t op related met.1)).mpr (met.2 _ rfl)⟩

end HlHelper.Library
