import Mathlib.Data.List.Basic

/-! Runs of a partial step function, the runs whose steps all meet a condition
on the state before the step, and the induction rules for both. -/

namespace HlHelper.Library

variable {σ α : Type*}

def run (step : σ → α → Option σ) : σ → List α → Option σ
  | s, [] => some s
  | s, event :: events => (step s event).bind (fun t => run step t events)

/-- Along the run of the events from `s`, each step starts in a state in which
`condition` allows its event. -/
def Meets (step : σ → α → Option σ) (condition : σ → α → Prop) : σ → List α → Prop
  | _, [] => True
  | s, event :: events =>
    condition s event ∧ ∀ t, step s event = some t → Meets step condition t events

variable {step : σ → α → Option σ} {condition : σ → α → Prop}

instance decidableMeets [∀ s event, Decidable (condition s event)] :
    ∀ s events, Decidable (Meets step condition s events)
  | _, [] => isTrue trivial
  | s, event :: events =>
    match found : step s event with
    | none => decidable_of_iff (condition s event) (by simp [Meets, found])
    | some t =>
      have := decidableMeets t events
      decidable_of_iff (condition s event ∧ Meets step condition t events)
        (by simp [Meets, found])

theorem run_cons_eq_some {s u : σ} {event : α} {events : List α} :
    run step s (event :: events) = some u ↔
      ∃ t, step s event = some t ∧ run step t events = some u := by
  simp [run, Option.bind_eq_some_iff]

theorem run_append (s : σ) (events more : List α) :
    run step s (events ++ more) = (run step s events).bind (fun t => run step t more) := by
  induction events generalizing s with
  | nil => rfl
  | cons event events ih =>
    simp only [List.cons_append, run, ih, Option.bind_assoc]

theorem run_after {s t u : σ} {events more : List α} (reached : run step s events = some t)
    (all : run step s (events ++ more) = some u) : run step t more = some u := by
  rwa [run_append, reached, Option.bind_some] at all

theorem meets_of_forall {allowed : α → Prop} {events : List α}
    (all : ∀ event ∈ events, allowed event) (s : σ) :
    Meets step (fun _ event => allowed event) s events := by
  induction events generalizing s with
  | nil => trivial
  | cons event events ih =>
    obtain ⟨here, rest⟩ := List.forall_mem_cons.mp all
    exact ⟨here, fun t _ => ih rest t⟩

theorem Meets.and {other : σ → α → Prop} {s : σ} {events : List α}
    (first : Meets step condition s events) (second : Meets step other s events) :
    Meets step (fun s event => condition s event ∧ other s event) s events := by
  induction events generalizing s with
  | nil => trivial
  | cons event events ih =>
    exact ⟨⟨first.1, second.1⟩, fun t stepped => ih (first.2 t stepped) (second.2 t stepped)⟩

theorem meets_append {s t : σ} {events more : List α} (reached : run step s events = some t)
    (met : Meets step condition s (events ++ more)) :
    Meets step condition s events ∧ Meets step condition t more := by
  induction events generalizing s with
  | nil =>
    obtain rfl : s = t := by simpa [run] using reached
    exact ⟨trivial, met⟩
  | cons event events ih =>
    obtain ⟨u, stepped, rest⟩ := run_cons_eq_some.mp reached
    obtain ⟨before, after⟩ := ih rest (met.2 u stepped)
    refine ⟨⟨met.1, ?_⟩, after⟩
    intro v other
    obtain rfl : u = v := Option.some.inj (stepped.symm.trans other)
    exact before

theorem meets_of_splits {s : σ} {events : List α}
    (all : ∀ before event after t, events = before ++ event :: after →
      run step s before = some t → condition t event) : Meets step condition s events := by
  induction events generalizing s with
  | nil => trivial
  | cons event events ih =>
    refine ⟨all [] event events s rfl rfl, fun t stepped => ih ?_⟩
    intro before next after u split reached
    refine all (event :: before) next after u ?_ (run_cons_eq_some.mpr ⟨t, stepped, reached⟩)
    rw [split, List.cons_append]

theorem pairwise_of_splits {R : α → α → Prop} {entries : List α}
    (all : ∀ before entry after, entries = before ++ entry :: after →
      ∀ earlier ∈ before, R earlier entry) : entries.Pairwise R := by
  induction entries with
  | nil => exact List.Pairwise.nil
  | cons first rest ih =>
    refine List.pairwise_cons.mpr ⟨?_, ih ?_⟩
    · intro entry member
      obtain ⟨before, after, rfl⟩ := List.append_of_mem member
      exact all (first :: before) entry after rfl first List.mem_cons_self
    · intro before entry after split earlier member
      refine all (first :: before) entry after ?_ earlier (List.mem_cons_of_mem _ member)
      rw [split, List.cons_append]

theorem cut_append {front back before after : List α} {entry : α}
    (split : front ++ back = before ++ entry :: after) :
    (∃ rest, front = before ++ entry :: rest ∧ after = rest ++ back) ∨
      ∃ rest, back = rest ++ entry :: after ∧ before = front ++ rest := by
  rcases List.append_eq_append_iff.mp split with ⟨rest, rfl, inside⟩ | ⟨rest, whole, inside⟩
  · exact .inr ⟨rest, inside, rfl⟩
  · cases rest with
    | nil =>
      rw [List.append_nil] at whole
      exact .inr ⟨[], inside.symm, whole.symm.trans (List.append_nil _).symm⟩
    | cons head rest =>
      obtain ⟨rfl, beyond⟩ := List.cons.inj inside
      exact .inl ⟨rest, whole, beyond⟩

theorem forall_splits_append {P : List α → α → Prop} {front back : List α}
    (first : ∀ before entry after, front = before ++ entry :: after → P before entry)
    (second : ∀ before entry after, back = before ++ entry :: after → P (front ++ before) entry) :
    ∀ before entry after, front ++ back = before ++ entry :: after → P before entry := by
  intro before entry after split
  rcases cut_append split with ⟨rest, inside, _⟩ | ⟨rest, inside, rfl⟩
  · exact first before entry rest inside
  · exact second rest entry after inside

def outputs {β : Type*} (step : σ → α → Option σ) (output : σ → α → Option β) :
    σ → List α → List β
  | _, [] => []
  | s, event :: events =>
    (output s event).toList ++
      match step s event with
      | none => []
      | some t => outputs step output t events

theorem outputs_cons {β : Type*} {output : σ → α → Option β} {s t : σ} {event : α}
    {events : List α} (stepped : step s event = some t) :
    outputs step output s (event :: events) =
      (output s event).toList ++ outputs step output t events := by
  simp [outputs, stepped]

section Outputs

variable {β : Type*} {output : σ → α → Option β} {R : β → β → Prop} {Holds : σ → Prop}
  {After : β → σ → Prop}
  (keep : ∀ s event t, Holds s → condition s event → step s event = some t → Holds t)
  (starts : ∀ s event t b, Holds s → condition s event → step s event = some t →
    output s event = some b → After b t)
  (keeps : ∀ b s event t, After b s → Holds s → condition s event → step s event = some t →
    After b t)
  (apart : ∀ b s event c, After b s → output s event = some c → R b c)

variable {s t : σ} {events : List α}

include keep

theorem run_keeps (start : Holds s) (reached : run step s events = some t)
    (met : Meets step condition s events) : Holds t := by
  induction events generalizing s with
  | nil =>
    obtain rfl : s = t := by simpa [run] using reached
    exact start
  | cons event events ih =>
    obtain ⟨u, stepped, rest⟩ := run_cons_eq_some.mp reached
    exact ih (keep s event u start met.1 stepped) rest (met.2 u stepped)

include keeps apart

/-- What an allowed run puts out is related to `b`, if it starts in a state with a property that
allowed steps keep and that relates `b` to what comes. -/
theorem outputs_related {b : β} (after : After b s) (holds : Holds s)
    (met : Meets step condition s events) : ∀ c ∈ outputs step output s events, R b c := by
  induction events generalizing s with
  | nil => exact fun _ member => (List.not_mem_nil member).elim
  | cons event events ih =>
    intro c member
    rcases List.mem_append.mp member with here | rest
    · exact apart b s event c after (Option.mem_toList.mp here)
    · cases stepped : step s event with
      | none =>
        rw [stepped] at rest
        exact (List.not_mem_nil rest).elim
      | some t =>
        rw [stepped] at rest
        exact ih (keeps b s event t after holds met.1 stepped)
          (keep s event t holds met.1 stepped) (met.2 t stepped) c rest

include starts

/-- What an allowed run puts out is related pairwise, if each output starts a property of states
that allowed steps keep and that relates it to what comes. -/
theorem outputs_pairwise (start : Holds s) (met : Meets step condition s events) :
    (outputs step output s events).Pairwise R := by
  induction events generalizing s with
  | nil => exact List.Pairwise.nil
  | cons event events ih =>
    rw [outputs]
    cases stepped : step s event with
    | none =>
      rw [List.append_nil]
      cases output s event with
      | none => exact List.Pairwise.nil
      | some b => exact List.pairwise_singleton ..
    | some t =>
      have holds := keep s event t start met.1 stepped
      refine List.pairwise_append.mpr ⟨?_, ih holds (met.2 t stepped), ?_⟩
      · cases output s event with
        | none => exact List.Pairwise.nil
        | some b => exact List.pairwise_singleton ..
      · intro b here c member
        exact outputs_related keep keeps apart (starts s event t b start met.1 stepped
          (Option.mem_toList.mp here)) holds (met.2 t stepped) c member

omit apart in
theorem forall_outputs (start : Holds s) (reached : run step s events = some t)
    (met : Meets step condition s events) : ∀ b ∈ outputs step output s events, After b t := by
  induction events generalizing s with
  | nil => exact List.forall_mem_nil _
  | cons event events ih =>
    intro b member
    obtain ⟨u, stepped, rest⟩ := run_cons_eq_some.mp reached
    have holds := keep s event u start met.1 stepped
    rw [outputs_cons stepped] at member
    rcases List.mem_append.mp member with here | later
    · have after := starts s event u b start met.1 stepped (Option.mem_toList.mp here)
      exact (@run_keeps _ _ step condition (fun s => After b s ∧ Holds s)
        (fun s event t both allowed moved => ⟨keeps b s event t both.1 both.2 allowed moved,
          keep s event t both.2 allowed moved⟩) _ _ _ ⟨after, holds⟩ rest (met.2 u stepped)).1
    · exact ih holds rest (met.2 u stepped) b later

end Outputs

/-- If a step keeps a property exactly when it is allowed, the runs whose steps are all allowed
are the ones that have the property wherever they are cut. -/
theorem meets_iff_throughout {Holds : σ → Prop}
    (exactly : ∀ s event t, Holds s → step s event = some t → (condition s event ↔ Holds t))
    {s t : σ} {events : List α} (start : Holds s) (reached : run step s events = some t) :
    Meets step condition s events ↔ ∀ before after u, events = before ++ after →
      run step s before = some u → Holds u := by
  constructor
  · rintro met before after u rfl cut
    exact run_keeps (fun s event t holds allowed stepped =>
      (exactly s event t holds stepped).mp allowed) start cut (meets_append cut met).1
  · intro throughout
    induction events generalizing s with
    | nil => trivial
    | cons event events ih =>
      obtain ⟨u, stepped, rest⟩ := run_cons_eq_some.mp reached
      have next : Holds u := by
        apply throughout [event] events u rfl
        rw [run, stepped]
        rfl
      refine ⟨(exactly s event u start stepped).mpr next, fun v other => ?_⟩
      obtain rfl : u = v := Option.some.inj (stepped.symm.trans other)
      apply ih next rest
      intro before after w split cut
      apply throughout (event :: before) after w
      · rw [split, List.cons_append]
      · exact run_cons_eq_some.mpr ⟨u, stepped, cut⟩

theorem run_preserves {Holds : σ → Prop}
    (keep : ∀ s event t, Holds s → step s event = some t → Holds t)
    {s t : σ} {events : List α} (start : Holds s) (reached : run step s events = some t) :
    Holds t :=
  run_keeps (fun s event t holds _ stepped => keep s event t holds stepped) start reached
    (meets_of_forall (fun _ _ => trivial) s)

theorem run_folds {β τ : Type*} {output : σ → α → Option β} {Holds : σ → Prop} {view : σ → τ}
    {after : τ → β → τ} (keep : ∀ s event t, Holds s → step s event = some t → Holds t)
    (changes : ∀ s event t, Holds s → step s event = some t →
      view t = (output s event).elim (view s) (after (view s)))
    {s t : σ} {events : List α} (start : Holds s) (reached : run step s events = some t) :
    view t = (outputs step output s events).foldl after (view s) := by
  induction events generalizing s with
  | nil =>
    obtain rfl : s = t := by simpa [run] using reached
    rfl
  | cons event events ih =>
    obtain ⟨u, stepped, rest⟩ := run_cons_eq_some.mp reached
    rw [outputs_cons stepped, List.foldl_append, ih (keep s event u start stepped) rest,
      changes s event u start stepped]
    cases output s event <;> rfl

theorem meets_of_keeps {Holds : σ → Prop} {follows : σ → α → Prop}
    (keep : ∀ s event t, Holds s → condition s event → step s event = some t → Holds t)
    (implied : ∀ s event t, Holds s → condition s event → step s event = some t → follows s event)
    {s : σ} {events : List α} (start : Holds s) (finishes : (run step s events).isSome)
    (met : Meets step condition s events) : Meets step follows s events := by
  induction events generalizing s with
  | nil => trivial
  | cons event events ih =>
    obtain ⟨t, reached⟩ := Option.isSome_iff_exists.mp finishes
    obtain ⟨u, stepped, rest⟩ := run_cons_eq_some.mp reached
    refine ⟨implied s event u start met.1 stepped, fun v other => ?_⟩
    obtain rfl : u = v := Option.some.inj (stepped.symm.trans other)
    exact ih (keep s event u start met.1 stepped) (Option.isSome_iff_exists.mpr ⟨t, rest⟩)
      (met.2 u stepped)

section Simulation

variable {τ : Type*} {rel : τ → α → τ → Prop} {R : σ → τ → Prop}

/-- Runs of a relation on the states, one event after the other. -/
def Follows (rel : τ → α → τ → Prop) : τ → List α → τ → Prop
  | x, [], z => z = x
  | x, event :: events, z => ∃ y, rel x event y ∧ Follows rel y events z

theorem run_follows
    (keep : ∀ s event t x, R s x → condition s event → step s event = some t →
      ∃ y, rel x event y ∧ R t y)
    {s t : σ} {x : τ} {events : List α} (related : R s x) (reached : run step s events = some t)
    (met : Meets step condition s events) : ∃ z, Follows rel x events z ∧ R t z := by
  induction events generalizing s x with
  | nil =>
    obtain rfl : s = t := by simpa [run] using reached
    exact ⟨x, rfl, related⟩
  | cons event events ih =>
    obtain ⟨u, stepped, rest⟩ := run_cons_eq_some.mp reached
    obtain ⟨y, first, next⟩ := keep s event u x related met.1 stepped
    obtain ⟨z, later, last⟩ := ih next rest (met.2 u stepped)
    exact ⟨z, ⟨y, first, later⟩, last⟩

theorem run_tracks {after : τ → α → τ}
    (keep : ∀ s event t x, R s x → condition s event → step s event = some t →
      R t (after x event))
    {s t : σ} {x : τ} {events : List α} (related : R s x) (reached : run step s events = some t)
    (met : Meets step condition s events) : R t (events.foldl after x) := by
  induction events generalizing s x with
  | nil =>
    obtain rfl : s = t := by simpa [run] using reached
    exact related
  | cons event events ih =>
    obtain ⟨u, stepped, rest⟩ := run_cons_eq_some.mp reached
    exact ih (keep s event u x related met.1 stepped) rest (met.2 u stepped)

end Simulation

end HlHelper.Library
