import Mathlib.Data.List.Induction

/-! `publish_after_commit` and the handler it registers on the session, against what the
transactions of that session commit. -/

namespace HlHelper.Events

@[ext] structure Publish (Bus Channel Payload : Type*) where
  bus : Bus
  channel : Channel
  payload : Payload
  deriving DecidableEq, Repr

inductive Step (Bus Channel Payload : Type*) where
  | publishAfterCommit (publish : Publish Bus Channel Payload)
  | commit
  | rollback
  deriving DecidableEq, Repr

/-- The first two fields are keys of `session.info`; `listeners` are the `_flush`
functions on `after_commit`, each with the bus it closes over. -/
structure Session (Bus Channel Payload : Type*) where
  pendingBusPublishes : Option (List (Channel × Payload))
  afterCommitRegistered : Bool
  listeners : List Bus
  scheduled : List (Publish Bus Channel Payload)
  deriving DecidableEq, Repr

variable {Bus Channel Payload : Type*}

namespace Session

def new : Session Bus Channel Payload := ⟨none, false, [], []⟩

def publishAfterCommit (session : Session Bus Channel Payload)
    (publish : Publish Bus Channel Payload) : Session Bus Channel Payload :=
  let pending := session.pendingBusPublishes.getD []
  let session :=
    { session with pendingBusPublishes := some (pending ++ [(publish.channel, publish.payload)]) }
  if session.afterCommitRegistered then session
  else
    { session with
      afterCommitRegistered := true
      listeners := session.listeners ++ [publish.bus] }

/-- `_flush` of the call that passed `bus`. -/
def flush (session : Session Bus Channel Payload) (bus : Bus) : Session Bus Channel Payload :=
  let pending := session.pendingBusPublishes.getD []
  { session with
    scheduled :=
      session.scheduled ++ pending.map (fun (channel, payload) => ⟨bus, channel, payload⟩)
    pendingBusPublishes := some [] }

def commit (session : Session Bus Channel Payload) : Session Bus Channel Payload :=
  session.listeners.foldl flush session

def rollback (session : Session Bus Channel Payload) : Session Bus Channel Payload := session

def step (session : Session Bus Channel Payload) :
    Step Bus Channel Payload → Session Bus Channel Payload
  | .publishAfterCommit publish => session.publishAfterCommit publish
  | .commit => session.commit
  | .rollback => session.rollback

def after (steps : List (Step Bus Channel Payload)) : Session Bus Channel Payload :=
  steps.foldl step new

end Session

/-- What the steps of a session mean: `current` was registered in the open transaction,
`committed` in transactions that committed, `dropped` in those that have rolled back since
the last commit. -/
structure Ledger (Bus Channel Payload : Type*) where
  first : Option Bus
  current : List (Publish Bus Channel Payload)
  dropped : List (Publish Bus Channel Payload)
  committed : List (Publish Bus Channel Payload)

namespace Ledger

def new : Ledger Bus Channel Payload := ⟨none, [], [], []⟩

def step (ledger : Ledger Bus Channel Payload) :
    Step Bus Channel Payload → Ledger Bus Channel Payload
  | .publishAfterCommit publish =>
    { ledger with
      first := ledger.first <|> some publish.bus
      current := ledger.current ++ [publish] }
  | .commit =>
    { ledger with
      current := []
      dropped := []
      committed := ledger.committed ++ ledger.current }
  | .rollback => { ledger with current := [], dropped := ledger.dropped ++ ledger.current }

def after (steps : List (Step Bus Channel Payload)) : Ledger Bus Channel Payload :=
  steps.foldl step new

/-- A commit now publishes what it should: no event of a rolled back transaction is
waiting, and the open transaction names no bus but the first of the session. -/
def Publishable (ledger : Ledger Bus Channel Payload) : Prop :=
  ledger.dropped = [] ∧ ∀ publish ∈ ledger.current, ledger.first = some publish.bus

end Ledger

/-- The events on the bus are those of the committed transactions. -/
def Exact (steps : List (Step Bus Channel Payload)) : Prop :=
  (Session.after steps).scheduled = (Ledger.after steps).committed

instance [DecidableEq Bus] [DecidableEq Channel] [DecidableEq Payload]
    (steps : List (Step Bus Channel Payload)) : Decidable (Exact steps) :=
  inferInstanceAs (Decidable (_ = _))

@[simp] theorem Session.after_concat (steps : List (Step Bus Channel Payload))
    (step : Step Bus Channel Payload) :
    Session.after (steps ++ [step]) = (Session.after steps).step step := by
  simp [Session.after]

@[simp] theorem Ledger.after_concat (steps : List (Step Bus Channel Payload))
    (step : Step Bus Channel Payload) :
    Ledger.after (steps ++ [step]) = (Ledger.after steps).step step := by
  simp [Ledger.after]

def Publish.unbound (publish : Publish Bus Channel Payload) : Channel × Payload :=
  (publish.channel, publish.payload)

def Publish.onBus (bus : Bus) (publish : Publish Bus Channel Payload) :
    Publish Bus Channel Payload :=
  { publish with bus := bus }

/-- The session holds the events of the open transaction behind those of the rolled back
ones, and one handler with the first bus. -/
structure Tracks (session : Session Bus Channel Payload) (ledger : Ledger Bus Channel Payload) :
    Prop where
  pending : session.pendingBusPublishes.getD [] =
    (ledger.dropped ++ ledger.current).map Publish.unbound
  registered : session.afterCommitRegistered = ledger.first.isSome
  listeners : session.listeners = ledger.first.toList
  first : ledger.first = none → ledger.dropped ++ ledger.current = []

namespace Tracks

variable {session : Session Bus Channel Payload} {ledger : Ledger Bus Channel Payload}

section

variable (tracks : Tracks session ledger)
include tracks

theorem publishAfterCommit (publish : Publish Bus Channel Payload) :
    Tracks (session.publishAfterCommit publish) (ledger.step (.publishAfterCommit publish)) := by
  cases known : ledger.first with
  | none =>
    have unregistered : session.afterCommitRegistered = false := by
      simp [tracks.registered, known]
    have unheard : session.listeners = [] := by simp [tracks.listeners, known]
    constructor <;>
      simp [Session.publishAfterCommit, Ledger.step, unregistered, unheard, known,
        tracks.pending, Publish.unbound]
  | some bus =>
    have registered : session.afterCommitRegistered = true := by
      simp [tracks.registered, known]
    constructor <;>
      simp [Session.publishAfterCommit, Ledger.step, registered, known, tracks.pending,
        tracks.listeners, Publish.unbound]

theorem scheduled_commit : session.commit.scheduled = session.scheduled ++
      (ledger.first.toList.flatMap
        fun bus => (ledger.dropped ++ ledger.current).map (Publish.onBus bus)) := by
  cases known : ledger.first with
  | none => simp [Session.commit, tracks.listeners, known]
  | some bus =>
    have rebound : ∀ published : List (Publish Bus Channel Payload),
        (published.map Publish.unbound).map (fun (channel, payload) => ⟨bus, channel, payload⟩) =
          published.map (Publish.onBus bus) := by
      intro published
      simp only [List.map_map]
      rfl
    simp [Session.commit, Session.flush, tracks.listeners, known, tracks.pending, rebound]

theorem commit : Tracks session.commit (ledger.step .commit) := by
  cases known : ledger.first with
  | none =>
    have heard : session.commit = session := by simp [Session.commit, tracks.listeners, known]
    refine ⟨?_, ?_, ?_, fun _ => rfl⟩
    · simpa [heard, Ledger.step, tracks.first known] using tracks.pending
    · simpa [heard, Ledger.step] using tracks.registered
    · simpa [heard, Ledger.step] using tracks.listeners
  | some bus =>
    have heard : session.commit = session.flush bus := by
      simp [Session.commit, tracks.listeners, known]
    refine ⟨?_, ?_, ?_, fun _ => rfl⟩
    · simp [heard, Session.flush, Ledger.step]
    · simpa [heard, Session.flush, Ledger.step] using tracks.registered
    · simpa [heard, Session.flush, Ledger.step] using tracks.listeners

theorem rollback : Tracks session.rollback (ledger.step .rollback) := by
  refine ⟨?_, tracks.registered, tracks.listeners, ?_⟩
  · simpa [Session.rollback, Ledger.step] using tracks.pending
  · simpa [Ledger.step] using tracks.first

end

end Tracks

theorem tracks_after (steps : List (Step Bus Channel Payload)) :
    Tracks (Session.after steps) (Ledger.after steps) := by
  induction steps using List.reverseRecOn with
  | nil => exact ⟨rfl, rfl, rfl, fun _ => rfl⟩
  | append_singleton steps step ih =>
    rw [Session.after_concat, Ledger.after_concat]
    cases step with
    | publishAfterCommit publish => exact ih.publishAfterCommit publish
    | commit => exact ih.commit
    | rollback => exact ih.rollback

theorem scheduled_concat (steps : List (Step Bus Channel Payload))
    (step : Step Bus Channel Payload) (open_ : step ≠ .commit) :
    (Session.after (steps ++ [step])).scheduled = (Session.after steps).scheduled ∧
      (Ledger.after (steps ++ [step])).committed = (Ledger.after steps).committed := by
  rw [Session.after_concat, Ledger.after_concat]
  cases step with
  | publishAfterCommit publish =>
    refine ⟨?_, rfl⟩
    simp only [Session.step, Session.publishAfterCommit]
    split <;> rfl
  | commit => exact absurd rfl open_
  | rollback => exact ⟨rfl, rfl⟩

theorem committed_length_le (steps : List (Step Bus Channel Payload)) :
    (Ledger.after steps).committed.length ≤ (Session.after steps).scheduled.length := by
  induction steps using List.reverseRecOn with
  | nil => exact Nat.le_refl 0
  | append_singleton steps step ih =>
    by_cases committing : step = .commit
    · subst committing
      have scheduled := (tracks_after steps).scheduled_commit
      have tracks := tracks_after steps
      rw [Session.after_concat, Ledger.after_concat]
      simp only [Session.step, Ledger.step, scheduled, List.length_append]
      cases known : (Ledger.after steps).first with
      | none =>
        have empty := tracks.first known
        simp only [List.append_eq_nil_iff] at empty
        simp [empty.2, ih]
      | some bus =>
        simp
        omega
    · obtain ⟨sameScheduled, sameCommitted⟩ := scheduled_concat steps step committing
      rwa [sameScheduled, sameCommitted]

theorem map_onBus_eq_self {bus : Bus} {published : List (Publish Bus Channel Payload)} :
    published.map (Publish.onBus bus) = published ↔ ∀ publish ∈ published, bus = publish.bus := by
  induction published with
  | nil => simp
  | cons publish published ih =>
    rw [List.map_cons, List.cons_eq_cons, ih, List.forall_mem_cons]
    simp [Publish.onBus, Publish.ext_iff]

theorem exact_commit (steps : List (Step Bus Channel Payload)) :
    Exact (steps ++ [.commit]) ↔ Exact steps ∧ (Ledger.after steps).Publishable := by
  have tracks := tracks_after steps
  have shorter := committed_length_le steps
  simp only [Exact, Ledger.Publishable, Session.after_concat, Ledger.after_concat, Session.step,
    Ledger.step, tracks.scheduled_commit]
  cases known : (Ledger.after steps).first with
  | none =>
    obtain ⟨dropped, current⟩ := List.append_eq_nil_iff.mp (tracks.first known)
    simp [dropped, current]
  | some bus =>
    simp only [Option.toList_some, List.flatMap_singleton, Option.some.injEq]
    constructor
    · intro same
      have lengths := congrArg List.length same
      simp only [List.length_append, List.length_map] at lengths
      have none_ : (Ledger.after steps).dropped = [] := List.eq_nil_of_length_eq_zero (by omega)
      obtain ⟨before, here⟩ := List.append_inj same (by omega)
      rw [none_, List.nil_append] at here
      exact ⟨before, none_, map_onBus_eq_self.mp here⟩
    · rintro ⟨before, none_, named⟩
      rw [before, none_, List.nil_append, map_onBus_eq_self.mpr named]

theorem forall_commit_concat {steps : List (Step Bus Channel Payload)}
    {step : Step Bus Channel Payload} {condition : List (Step Bus Channel Payload) → Prop} :
    (∀ before after, steps ++ [step] = before ++ .commit :: after → condition before) ↔
      (∀ before after, steps = before ++ .commit :: after → condition before) ∧
        (step = .commit → condition steps) := by
  constructor
  · intro all
    refine ⟨fun before after split => all before (after ++ [step]) (by simp [split]), ?_⟩
    rintro rfl
    exact all steps [] rfl
  · rintro ⟨earlier, last⟩ before after split
    cases after using List.reverseRecOn with
    | nil =>
      obtain ⟨rfl, same⟩ := List.append_inj' split rfl
      exact last (List.singleton_inj.mp same)
    | append_singleton after step' =>
      have longer : steps ++ [step] = (before ++ .commit :: after) ++ [step'] := by
        simpa using split
      exact earlier before after (List.append_inj' longer rfl).1

/-- The events on the bus are those of the committed transactions, exactly when each commit
finds no event of a rolled back transaction and no event for a second bus. -/
theorem exact_iff_publishable_at_commits (steps : List (Step Bus Channel Payload)) :
    Exact steps ↔ ∀ before after, steps = before ++ .commit :: after →
      (Ledger.after before).Publishable := by
  induction steps using List.reverseRecOn with
  | nil => simp [Exact, Session.after, Ledger.after, Session.new, Ledger.new]
  | append_singleton steps step ih =>
    rw [forall_commit_concat, ← ih]
    by_cases committing : step = .commit
    · subst committing
      simp [exact_commit]
    · obtain ⟨sameScheduled, sameCommitted⟩ := scheduled_concat steps step committing
      rw [Exact, sameScheduled, sameCommitted]
      simp [Exact, committing]

theorem dropped_event_published :
    ¬ Exact [.publishAfterCommit ⟨"bus", "commands", "first.event"⟩, .rollback, .commit] := by
  decide

end HlHelper.Events
