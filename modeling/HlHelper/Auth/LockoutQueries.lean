import HlHelper.Auth.LockoutTrackers

/-! Queries of a lock change nothing unless they find the lock over: then they take the escalation
away. -/

namespace HlHelper.Auth.Lockout

open HlHelper.Library

def Op.query (key : String) (now : Int) : Op := ⟨.isLocked, key, now⟩
def Op.failure (key : String) (now : Int) : Op := ⟨.recordFailure, key, now⟩

/-- A tracker, with the lock and the level that it holds for a key. A query that does not find the
lock over leaves the state; one that does forgets the key; and a failure behind a lock without a
query escalates. -/
structure Tracker where
  State : Type
  empty : State
  step : State → Op → State × Answer
  lock : State → String → Option Int
  level : State → String → Nat
  quiet : ∀ s key now, ¬ expired (lock s key) now → (step s (.query key now)).1 = s
  forgets : ∀ s key now later, expired (lock s key) now →
    (step (step s (.query key now)).1 (.failure key later)).2 = .state ⟨1, some later, none, 0⟩
  escalates : ∀ s key now, expired (lock s key) now →
    (step s (.failure key now)).2 = .state ⟨1, some now,
      some (now + cooldownForLevel (level s key + 1)), level s key + 1⟩

section Trackers

variable {states : States} {record : LockoutRecord} {now : Int} {key : String}

theorem recordFailure_new (now : Int) :
    ({} : LockState).recordFailure now = ⟨1, some now, none, 0⟩ := by
  unfold LockState.recordFailure
  simp [LockState.locks]

theorem failed_fresh (now : Int) :
    (LockoutRecord.failed .fresh now).state = ⟨1, some now, none, 0⟩ := by
  unfold LockoutRecord.failed LockoutRecord.fresh LockoutRecord.state
  simp

theorem failed_expired (ended : expired record.lockoutExpiresAt now) :
    (record.failed now).state =
      ⟨1, some now, some (now + cooldownForLevel (record.level + 1)), record.level + 1⟩ := by
  obtain ⟨expires, own, _⟩ := ended
  unfold LockoutRecord.failed
  rw [own]
  rfl

theorem not_locks_of_expired (ended : expired record.lockoutExpiresAt now) :
    ¬ record.locks now := by
  intro ⟨other, there, early⟩
  obtain ⟨expires, own, past⟩ := ended
  obtain rfl := Option.some.inj (there.symm.trans own)
  exact absurd early (Int.not_lt.mpr past)

def LockState.toRecord (state : LockState) : LockoutRecord :=
  ⟨state.failureCount, state.lastFailureTime, state.lockoutExpiresAt, state.lockoutLevel⟩

theorem recordFailure_expired (state : LockState) (ended : expired state.lockoutExpiresAt now) :
    state.recordFailure now =
      ⟨1, some now, some (now + cooldownForLevel (state.lockoutLevel + 1)),
        state.lockoutLevel + 1⟩ := by
  have unlocked : ¬ state.toRecord.state.locks now := fun ⟨expires, own, _, early⟩ =>
    not_locks_of_expired (show expired state.toRecord.lockoutExpiresAt now from ended)
      ⟨expires, own, early⟩
  exact (state_recordFailure unlocked).trans
    (failed_expired (show expired state.toRecord.lockoutExpiresAt now from ended))

def inMemory (step : States → Op → States × Answer)
    (same : step = LockoutTrackerPersistent.memoryStep) : Tracker where
  State := States
  empty := fun _ => none
  step := step
  lock states key := (stateIn states key).lockoutExpiresAt
  level states key := (stateIn states key).lockoutLevel
  quiet := by
    subst same
    intro states key now on
    exact congrArg Prod.fst (isLockedIn_not_expired on)
  forgets := by
    subst same
    intro states key now later ended
    change (recordFailureIn (isLockedIn states key now).1 key later).2 = _
    rw [isLockedIn_expired ended]
    change Answer.state ((stateIn _ key).recordFailure later) = _
    rw [stateIn_update, if_pos rfl, recordFailure_new]
  escalates := by
    subst same
    intro states key now ended
    exact congrArg Answer.state (recordFailure_expired _ ended)

def sync : Tracker := inMemory LockoutTracker.step rfl

def memory : Tracker := inMemory LockoutTrackerPersistent.memoryStep rfl

def database (db : Db) : Tracker where
  State := Records
  empty := fun _ => none
  step := db.step
  lock records key := (recordOf records key).lockoutExpiresAt
  level records key := (recordOf records key).level
  quiet := fun _ _ _ on => congrArg Prod.fst (Db.isLocked_not_expired on)
  forgets := by
    intro records key now later ended
    change (db.recordFailure (Db.isLocked records key now).1 key later).2 = _
    rw [Db.isLocked_expired ended]
    change Answer.state (db.recordToState (((_ : Option Loaded).getD {}).recordFailure later)) = _
    rw [loaded_eq, recordOf_update, if_pos rfl]
    have unlocked : ¬ LockoutRecord.fresh.locks later := fun ⟨_, own, _⟩ => absurd own nofun
    exact congrArg Answer.state ((load_recordFailure unlocked).2.trans (failed_fresh later))
  escalates := by
    intro records key now ended
    change Answer.state (db.recordToState (((_ : Option Loaded).getD {}).recordFailure now)) = _
    dsimp only [Op.failure, Op.query]
    rw [loaded_eq, (load_recordFailure (not_locks_of_expired ended)).2, failed_expired ended]

end Trackers

namespace Tracker

variable {tracker : Tracker}

def observe (tracker : Tracker) : tracker.State → List (Op × Bool) → List Answer
  | _, [] => []
  | s, (op, extra) :: rest =>
    (if extra then [] else [(tracker.step s op).2]) ++ tracker.observe (tracker.step s op).1 rest

def without (marked : List (Op × Bool)) : List Op :=
  (marked.filter fun entry => !entry.2).map Prod.fst

/-- Queries can be put in and taken out without a change to what later operations answer; and the
first failure behind a query that finds a first lock over locks for five minutes. -/
structure Observers (tracker : Tracker) (ops : List Op) : Prop where
  silent : ∀ marked rest later, ops = marked.map Prod.fst ++ rest →
    (∀ entry ∈ marked, entry.2 = true → entry.1.method = .isLocked) →
    ((marked.map Prod.fst).getLast?.toList ++ later).Pairwise (·.now ≤ ·.now) →
    tracker.observe tracker.empty (marked ++ later.map (·, false)) =
      answers tracker.step tracker.empty (without marked ++ later)
  escalates : ∀ before key now later rest,
    ops = before ++ .query key now :: .failure key later :: rest → now ≤ later →
    let s := after tracker.step tracker.empty before
    expired (tracker.lock s key) now → tracker.level s key = 1 →
    ∃ state, (tracker.step (tracker.step s (.query key now)).1 (.failure key later)).2 =
      .state state ∧ state.lockoutExpiresAt = some (later + 300 * second)

def Careful (tracker : Tracker) (s : tracker.State) (op : Op) : Prop :=
  op.method = .isLocked → ¬ expired (tracker.lock s op.key) op.now

theorem observe_unmarked (s : tracker.State) (ops : List Op) :
    tracker.observe s (ops.map (·, false)) = answers tracker.step s ops := by
  induction ops generalizing s with
  | nil => rfl
  | cons op ops ih =>
    rw [answers_cons, ← ih]
    rfl

theorem observe_careful {s : tracker.State} {marked : List (Op × Bool)} (later : List Op)
    (queries : ∀ entry ∈ marked, entry.2 = true → entry.1.method = .isLocked)
    (met : Meets (next tracker.step) tracker.Careful s (marked.map Prod.fst)) :
    tracker.observe s (marked ++ later.map (·, false)) =
      answers tracker.step s (without marked ++ later) := by
  induction marked generalizing s with
  | nil => exact observe_unmarked s later
  | cons entry marked ih =>
    obtain ⟨op, extra⟩ := entry
    obtain ⟨query, queries⟩ := List.forall_mem_cons.mp queries
    have rest := ih queries (met.2 _ rfl)
    cases extra with
    | false =>
      change (tracker.step s op).2 :: tracker.observe (tracker.step s op).1 _ =
        (tracker.step s op).2 :: answers tracker.step (tracker.step s op).1 _
      exact congrArg (_ :: ·) rest
    | true =>
      obtain ⟨method, key, now⟩ := op
      obtain rfl : method = .isLocked := query rfl
      have stays := tracker.quiet s key now (met.1 rfl)
      calc
        _ = answers tracker.step (tracker.step s (.query key now)).1
              (without marked ++ later) := rest
        _ = answers tracker.step s (without marked ++ later) := by rw [stays]

theorem observe_append (s : tracker.State) (ops : List Op) (rest : List (Op × Bool)) :
    tracker.observe s (ops.map (·, false) ++ rest) =
      answers tracker.step s ops ++ tracker.observe (after tracker.step s ops) rest := by
  induction ops generalizing s with
  | nil => rfl
  | cons op ops ih =>
    change _ :: tracker.observe _ (ops.map (·, false) ++ rest) = _ :: _
    rw [ih]
    rfl

theorem answers_append (s : tracker.State) (ops more : List Op) :
    answers tracker.step s (ops ++ more) =
      answers tracker.step s ops ++ answers tracker.step (after tracker.step s ops) more := by
  rw [← observe_unmarked, List.map_append, observe_append, observe_unmarked]

theorem without_unmarked (ops : List Op) : without (ops.map (·, false)) = ops := by
  induction ops with
  | nil => rfl
  | cons op ops ih => exact congrArg (op :: ·) ih

theorem careful_of_silent {before : List Op} {op : Op} (query : op.method = .isLocked)
    (silent : tracker.observe tracker.empty ((before.map (·, false) ++ [(op, true)]) ++
        [Op.failure op.key op.now].map (·, false)) =
      answers tracker.step tracker.empty (without (before.map (·, false) ++ [(op, true)]) ++
        [.failure op.key op.now])) :
    ¬ expired (tracker.lock (after tracker.step tracker.empty before) op.key) op.now := by
  intro ended
  obtain ⟨method, key, now⟩ := op
  obtain rfl : method = .isLocked := query
  have thin : without (before.map (·, false) ++ [(Op.query key now, true)]) = before := by
    unfold without
    rw [List.filter_append, List.map_append]
    exact (List.append_nil _).trans (without_unmarked before)
  change tracker.observe tracker.empty ((before.map (·, false) ++ [(Op.query key now, true)]) ++
    _) = answers tracker.step tracker.empty (without (before.map (·, false) ++
      [(Op.query key now, true)]) ++ _) at silent
  rw [thin, List.append_assoc, observe_append, answers_append] at silent
  have last := List.append_cancel_left silent
  have forgets := tracker.forgets _ key now now ended
  have escalates := tracker.escalates _ key now ended
  change [(tracker.step (tracker.step _ (.query key now)).1 (.failure key now)).2] =
    [(tracker.step _ (.failure key now)).2] at last
  rw [forgets, escalates] at last
  exact absurd last (by simp)

theorem observers_iff_careful (tracker : Tracker) (ops : List Op) :
    tracker.Observers ops ↔ Meets (next tracker.step) tracker.Careful tracker.empty ops := by
  constructor
  case mp =>
    intro observers
    apply meets_next_iff.mpr
    intro before op rest split query
    apply careful_of_silent query
    apply observers.silent _ rest
    · simp [split, Function.comp_def]
    · simp [query]
    · simp [Op.failure]
  case mpr =>
    intro met
    constructor
    case silent =>
      intro marked rest later split queries _
      subst split
      exact observe_careful later queries (meets_append (run_next _ _ _) met).1
    case escalates =>
      intro before key now later rest split _ s ended _
      subst split
      exact absurd ended ((meets_append (run_next _ _ _) met).2.1 rfl)

/-- In every tracker queries are pure, and the lock escalates, exactly while no query finds a lock
over. -/
theorem all_observers_iff_careful (db : Db) (ops : List Op) :
    (sync.Observers ops ↔ Meets (next sync.step) sync.Careful sync.empty ops) ∧
      (memory.Observers ops ↔ Meets (next memory.step) memory.Careful memory.empty ops) ∧
      ((database db).Observers ops ↔
        Meets (next (database db).step) (database db).Careful (database db).empty ops) :=
  ⟨sync.observers_iff_careful ops, memory.observers_iff_careful ops,
    (database db).observers_iff_careful ops⟩

def fiveFailures : List Op := List.replicate 5 (.failure "alice" (100 * second))

def attempt : List Op := [.query "alice" (220 * second), .failure "alice" (220 * second)]

theorem escalation_unreached :
    ¬ sync.Observers (fiveFailures ++ attempt) ∧
      ¬ memory.Observers (fiveFailures ++ attempt) ∧
      ¬ (database ⟨true, fun _ => 0⟩).Observers (fiveFailures ++ attempt) := by
  have fails (tracker : Tracker)
      (ended : expired (tracker.lock (after tracker.step tracker.empty fiveFailures) "alice")
        (220 * second))
      (first : tracker.level (after tracker.step tracker.empty fiveFailures) "alice" = 1) :
      ¬ tracker.Observers (fiveFailures ++ attempt) := by
    intro observers
    have ⟨state, answer, locks⟩ := observers.escalates fiveFailures "alice" (220 * second)
      (220 * second) [] rfl (Int.le_refl _) ended first
    rw [tracker.forgets _ _ _ _ ended] at answer
    obtain rfl := Answer.state.inj answer
    exact absurd locks (by simp)
  apply And.intro
  case left => exact fails sync (by decide +kernel) (by decide +kernel)
  case right =>
    apply And.intro
    case left => exact fails memory (by decide +kernel) (by decide +kernel)
    case right => exact fails (database _) (by decide +kernel) (by decide +kernel)

end Tracker

end HlHelper.Auth.Lockout
