import HlHelper.Auth.Lockout
import HlHelper.Library.Machine
import Mathlib.Logic.Function.Basic

/-! The lockout trackers one operation after the other: `LockoutTracker`, and
`LockoutTrackerPersistent` without and with a database. They answer alike but for the times of a
lock that the database returns without their zone. Times are microseconds. -/

namespace HlHelper.Auth.Lockout

open HlHelper.Library

structure LockState where
  failureCount : Nat := 0
  lastFailureTime : Option Int := none
  lockoutExpiresAt : Option Int := none
  lockoutLevel : Nat := 0
  deriving DecidableEq, Repr

inductive Method where
  | recordFailure
  | recordSuccess
  | isLocked
  deriving DecidableEq, Repr

structure Op where
  method : Method
  key : String
  now : Int
  deriving DecidableEq, Repr

inductive Answer where
  | state (state : LockState)
  | cleared
  | locked (locked : Bool)
  deriving DecidableEq, Repr

section Memory

abbrev States := String → Option LockState

/-- A lock that is still on; an expiry of `0.0` is falsy. -/
def LockState.locks (state : LockState) (now : Int) : Prop :=
  ∃ expires ∈ state.lockoutExpiresAt, expires ≠ 0 ∧ now < expires

instance (state : LockState) (now : Int) : Decidable (state.locks now) :=
  inferInstanceAs (Decidable (∃ _ ∈ _, _))

def LockState.recordFailure (state : LockState) (now : Int) : LockState :=
  if state.locks now then state
  else
    let wasLocked := state.lockoutExpiresAt.isSome
    let stale := ∃ last ∈ state.lastFailureTime, 300 * second < now - last
    let state := { state with
      failureCount := (if stale then 0 else state.failureCount) + 1
      lastFailureTime := some now }
    if 5 ≤ state.failureCount ∨ wasLocked then
      let state := if wasLocked then
          { state with lockoutLevel := state.lockoutLevel + 1, failureCount := 1 }
        else { state with lockoutLevel := 1 }
      { state with lockoutExpiresAt := some (now + cooldownForLevel state.lockoutLevel) }
    else state

def recordFailureIn (states : States) (key : String) (now : Int) : States × Answer :=
  let state := ((states key).getD {}).recordFailure now
  (Function.update states key (some state), .state state)

def recordSuccessIn (states : States) (key : String) : States × Answer :=
  (if (states key).isSome then Function.update states key (some {}) else states, .cleared)

def isLockedIn (states : States) (key : String) (now : Int) : States × Answer :=
  match states key with
  | none => (states, .locked false)
  | some state =>
    match state.lockoutExpiresAt with
    | none => (states, .locked false)
    | some expires =>
      if expires ≤ now then (Function.update states key (some {}), .locked false)
      else (states, .locked true)

end Memory

namespace LockoutTracker

def recordFailure := recordFailureIn
def recordSuccess := recordSuccessIn
def isLocked := isLockedIn

def step (states : States) (op : Op) : States × Answer :=
  match op.method with
  | .recordFailure => recordFailure states op.key op.now
  | .recordSuccess => recordSuccess states op.key
  | .isLocked => isLocked states op.key op.now

end LockoutTracker

namespace LockoutTrackerPersistent

def recordFailureMemory := recordFailureIn
def isLockedMemory := isLockedIn

def memoryStep (states : States) (op : Op) : States × Answer :=
  match op.method with
  | .recordFailure => recordFailureMemory states op.key op.now
  | .recordSuccess => recordSuccessIn states op.key
  | .isLocked => isLockedMemory states op.key op.now

end LockoutTrackerPersistent

section Database

/-- A `datetime` in UTC, with its zone or without. -/
structure Datetime where
  utc : Int
  aware : Bool
  deriving DecidableEq, Repr

/-- Whether the database returns times with their zone, and the offset of the local zone at a
wall time. -/
structure Db where
  zoned : Bool
  offset : Int → Int

structure Loaded where
  failureCount : Nat := 0
  lastFailureAt : Option Datetime := none
  lockoutExpiresAt : Option Datetime := none
  level : Nat := 0
  deriving DecidableEq, Repr

abbrev Records := String → Option LockoutRecord

def Loaded.store (loaded : Loaded) : LockoutRecord :=
  ⟨loaded.failureCount, loaded.lastFailureAt.map Datetime.utc,
    loaded.lockoutExpiresAt.map Datetime.utc, loaded.level⟩

namespace Db

variable (db : Db)

/-- `timestamp()` takes a time without zone for local time. -/
def timestamp (time : Datetime) : Int :=
  if time.aware then time.utc else time.utc - db.offset time.utc

def load (record : LockoutRecord) : Loaded :=
  ⟨record.failureCount, record.lastFailureAt.map (⟨·, db.zoned⟩),
    record.lockoutExpiresAt.map (⟨·, db.zoned⟩), record.level⟩

def recordToState (loaded : Loaded) : LockState :=
  ⟨loaded.failureCount, loaded.lastFailureAt.map db.timestamp,
    loaded.lockoutExpiresAt.map db.timestamp, loaded.level⟩

end Db

/-- A failure in the session; the comparisons give a time without zone the zone UTC. -/
def Loaded.recordFailure (loaded : Loaded) (now : Int) : Loaded :=
  if ∃ expires ∈ loaded.lockoutExpiresAt, now < expires.utc then loaded
  else
    let wasLocked := loaded.lockoutExpiresAt.isSome
    let stale := ∃ last ∈ loaded.lastFailureAt, 300 * second < now - last.utc
    let loaded := { loaded with
      failureCount := (if stale then 0 else loaded.failureCount) + 1
      lastFailureAt := some ⟨now, true⟩ }
    if 5 ≤ loaded.failureCount ∨ wasLocked then
      let loaded := if wasLocked then { loaded with level := loaded.level + 1, failureCount := 1 }
        else { loaded with level := 1 }
      { loaded with lockoutExpiresAt := some ⟨now + cooldownForLevel loaded.level, true⟩ }
    else loaded

namespace Db

def recordFailure (db : Db) (records : Records) (key : String) (now : Int) : Records × Answer :=
  let loaded := (((records key).map db.load).getD {}).recordFailure now
  (Function.update records key (some loaded.store), .state (db.recordToState loaded))

def recordSuccess (records : Records) (key : String) : Records × Answer :=
  (Function.update records key none, .cleared)

def isLocked (records : Records) (key : String) (now : Int) : Records × Answer :=
  match records key with
  | none => (records, .locked false)
  | some record =>
    match record.lockoutExpiresAt with
    | none => (records, .locked false)
    | some expires =>
      if expires ≤ now then (Function.update records key none, .locked false)
      else (records, .locked true)

def step (db : Db) (records : Records) (op : Op) : Records × Answer :=
  match op.method with
  | .recordFailure => db.recordFailure records op.key op.now
  | .recordSuccess => recordSuccess records op.key
  | .isLocked => isLocked records op.key op.now

end Db

end Database

variable {states : States} {records : Records} {record : LockoutRecord} {now : Int} {db : Db}
  {key : String}

def LockoutRecord.state (record : LockoutRecord) : LockState :=
  ⟨record.failureCount, record.lastFailureAt, record.lockoutExpiresAt, record.level⟩

def LockoutRecord.locks (record : LockoutRecord) (now : Int) : Prop :=
  ∃ expires ∈ record.lockoutExpiresAt, now < expires

instance (record : LockoutRecord) (now : Int) : Decidable (record.locks now) :=
  inferInstanceAs (Decidable (∃ _ ∈ _, _))

/-- A record after a failure that finds no lock on: the fifth locks for a minute, and one behind
a lock for five. -/
def LockoutRecord.failed (record : LockoutRecord) (now : Int) : LockoutRecord :=
  let stale := ∃ last ∈ record.lastFailureAt, 300 * second < now - last
  let count := (if stale then 0 else record.failureCount) + 1
  match record.lockoutExpiresAt with
  | some _ => ⟨1, some now, some (now + cooldownForLevel (record.level + 1)), record.level + 1⟩
  | none =>
    if 5 ≤ count then ⟨count, some now, some (now + cooldownForLevel 1), 1⟩
    else ⟨count, some now, none, record.level⟩

section Record

theorem state_recordFailure (unlocked : ¬ record.state.locks now) :
    record.state.recordFailure now = (record.failed now).state := by
  unfold LockState.recordFailure LockoutRecord.failed
  rw [if_neg unlocked]
  unfold LockoutRecord.state
  cases record.lockoutExpiresAt with
  | none =>
    by_cases old : ∃ last ∈ record.lastFailureAt, 300 * second < now - last
    · simp only [if_pos old]
      simp
    · simp only [if_neg old]
      by_cases fifth : 5 ≤ record.failureCount + 1 <;> simp [fifth]
  | some expires => simp

theorem store_load (record : LockoutRecord) : (db.load record).store = record := by
  simp [Db.load, Loaded.store, Function.comp_def]

theorem load_recordFailure_of_locks (locked : record.locks now) :
    (db.load record).recordFailure now = db.load record := by
  apply if_pos
  simpa [Db.load, LockoutRecord.locks] using locked

theorem load_recordFailure (unlocked : ¬ record.locks now) :
    ((db.load record).recordFailure now).store = record.failed now ∧
      db.recordToState ((db.load record).recordFailure now) = (record.failed now).state := by
  have open_ : ¬ ∃ expires ∈ (db.load record).lockoutExpiresAt, now < expires.utc := by
    simpa [Db.load, LockoutRecord.locks] using unlocked
  have ages : (∃ last ∈ (db.load record).lastFailureAt, 300 * second < now - last.utc) ↔
      ∃ last ∈ record.lastFailureAt, 300 * second < now - last := by simp [Db.load]
  unfold Loaded.recordFailure LockoutRecord.failed
  rw [if_neg open_]
  simp only [ages]
  unfold Db.load Db.recordToState Loaded.store LockoutRecord.state
  cases record.lockoutExpiresAt with
  | none =>
    by_cases old : ∃ last ∈ record.lastFailureAt, 300 * second < now - last
    · simp only [if_pos old]
      simp [Db.timestamp]
    · simp only [if_neg old]
      by_cases fifth : 5 ≤ record.failureCount + 1 <;> simp [fifth, Db.timestamp]
  | some expires => simp [Db.timestamp]

end Record

section Queries

def stateIn (states : States) (key : String) : LockState := (states key).getD {}

def recordOf (records : Records) (key : String) : LockoutRecord := (records key).getD .fresh

theorem stateIn_update (states : States) (key other : String) (state : LockState) :
    stateIn (Function.update states key (some state)) other =
      if other = key then state else stateIn states other := by
  unfold stateIn
  rw [Function.update_apply]
  split <;> rfl

theorem recordOf_update (records : Records) (key other : String) (record : Option LockoutRecord) :
    recordOf (Function.update records key record) other =
      if other = key then record.getD .fresh else recordOf records other := by
  unfold recordOf
  rw [Function.update_apply]
  split <;> rfl

def expired (expiry : Option Int) (now : Int) : Prop := ∃ expires ∈ expiry, expires ≤ now

instance (expiry : Option Int) (now : Int) : Decidable (expired expiry now) :=
  inferInstanceAs (Decidable (∃ _ ∈ _, _))

theorem isLockedIn_expired (ended : expired (stateIn states key).lockoutExpiresAt now) :
    isLockedIn states key now = (Function.update states key (some {}), .locked false) := by
  obtain ⟨expires, own, past⟩ := ended
  unfold isLockedIn
  cases there : states key with
  | none => simp [stateIn, there] at own
  | some state =>
    have own : state.lockoutExpiresAt = some expires := by simpa [stateIn, there] using own
    simp [own, past]

theorem isLockedIn_not_expired (on : ¬ expired (stateIn states key).lockoutExpiresAt now) :
    isLockedIn states key now =
      (states, .locked (stateIn states key).lockoutExpiresAt.isSome) := by
  unfold isLockedIn
  cases there : states key with
  | none => simp [stateIn, there]
  | some state =>
    have same : stateIn states key = state := by simp [stateIn, there]
    rw [same] at on ⊢
    dsimp only
    cases own : state.lockoutExpiresAt with
    | none => rfl
    | some expires =>
      have early : ¬ expires ≤ now := fun past => on ⟨expires, own, past⟩
      simp [early]

theorem Db.isLocked_expired (ended : expired (recordOf records key).lockoutExpiresAt now) :
    Db.isLocked records key now = (Function.update records key none, .locked false) := by
  obtain ⟨expires, own, past⟩ := ended
  unfold Db.isLocked
  cases there : records key with
  | none => simp [recordOf, there, LockoutRecord.fresh] at own
  | some record =>
    have own : record.lockoutExpiresAt = some expires := by simpa [recordOf, there] using own
    simp [own, past]

theorem Db.isLocked_not_expired (on : ¬ expired (recordOf records key).lockoutExpiresAt now) :
    Db.isLocked records key now =
      (records, .locked (recordOf records key).lockoutExpiresAt.isSome) := by
  unfold Db.isLocked
  cases there : records key with
  | none => simp [recordOf, there, LockoutRecord.fresh]
  | some record =>
    have same : recordOf records key = record := by simp [recordOf, there]
    rw [same] at on ⊢
    dsimp only
    cases own : record.lockoutExpiresAt with
    | none => rfl
    | some expires =>
      have early : ¬ expires ≤ now := fun past => on ⟨expires, own, past⟩
      simp [early]

end Queries

section Agreement

def Mirrors (states : States) (records : Records) : Prop :=
  ∀ key, stateIn states key = (recordOf records key).state

theorem Mirrors.update (mirrors : Mirrors states records) {state : LockState}
    {record : Option LockoutRecord} (same : state = (record.getD .fresh).state) :
    Mirrors (Function.update states key (some state)) (Function.update records key record) := by
  intro other
  rw [stateIn_update, recordOf_update]
  split
  · exact same
  · exact mirrors other

theorem Mirrors.recordSuccess (mirrors : Mirrors states records) :
    Mirrors (recordSuccessIn states key).1 (Db.recordSuccess records key).1 := by
  unfold recordSuccessIn Db.recordSuccess
  split
  · exact mirrors.update rfl
  · next absent =>
    intro other
    rw [recordOf_update]
    split
    · next same =>
      subst same
      have missing : states other = none := by simpa using absent
      change ((states other).getD {}) = _
      rw [missing]
      rfl
    · exact mirrors other

theorem Mirrors.isLocked (mirrors : Mirrors states records) :
    (isLockedIn states key now).2 = (Db.isLocked records key now).2 ∧
      Mirrors (isLockedIn states key now).1 (Db.isLocked records key now).1 := by
  have own : (stateIn states key).lockoutExpiresAt = (recordOf records key).lockoutExpiresAt := by
    rw [mirrors key]
    rfl
  by_cases ended : expired (stateIn states key).lockoutExpiresAt now
  · rw [isLockedIn_expired ended, Db.isLocked_expired (own ▸ ended)]
    exact ⟨rfl, mirrors.update rfl⟩
  · rw [isLockedIn_not_expired ended, Db.isLocked_not_expired (own ▸ ended), own]
    exact ⟨rfl, mirrors⟩

/-- A failure finds a lock that is on only if its times come back with their zone or are the same
in local time, and it does not end at the epoch. -/
def Db.Careful (db : Db) (records : Records) (op : Op) : Prop :=
  op.method = .recordFailure → ∀ expires ∈ (recordOf records op.key).lockoutExpiresAt,
    op.now < expires → expires ≠ 0 ∧ (db.zoned = false → db.offset expires = 0 ∧
      ∀ last ∈ (recordOf records op.key).lastFailureAt, db.offset last = 0)

theorem timestamp_eq_iff (time : Int) :
    db.timestamp ⟨time, db.zoned⟩ = time ↔ (db.zoned = false → db.offset time = 0) := by
  unfold Db.timestamp
  cases db.zoned with
  | true => simp
  | false =>
    simp only [Bool.false_eq_true, if_false, true_imp_iff]
    omega

theorem recordToState_load {expires : Int} (own : record.lockoutExpiresAt = some expires) :
    db.recordToState (db.load record) = record.state ↔
      (db.zoned = false → db.offset expires = 0 ∧
        ∀ last ∈ record.lastFailureAt, db.offset last = 0) := by
  have times : db.recordToState (db.load record) = record.state ↔
      (∀ last ∈ record.lastFailureAt, db.timestamp ⟨last, db.zoned⟩ = last) ∧
        db.timestamp ⟨expires, db.zoned⟩ = expires := by
    unfold Db.recordToState Db.load LockoutRecord.state
    rw [own]
    cases record.lastFailureAt <;> simp
  rw [times, timestamp_eq_iff]
  simp only [timestamp_eq_iff]
  cases db.zoned <;> simp [and_comm]

theorem loaded_eq : ((records key).map db.load).getD {} = db.load (recordOf records key) := by
  unfold recordOf
  cases records key <;> rfl

theorem recordFailure_epoch (own : record.lockoutExpiresAt = some 0) :
    (record.state.recordFailure now).lockoutLevel = record.level + 1 := by
  have unlocked : ¬ record.state.locks now := by
    rintro ⟨expires, there, apart, _⟩
    exact apart (Option.some.inj (there.symm.trans own))
  rw [state_recordFailure unlocked, LockoutRecord.failed, own]
  rfl

section

variable (mirrors : Mirrors states records)
include mirrors

theorem recordFailure_same_iff (now : Int) :
    (recordFailureIn states key now).2 = (db.recordFailure records key now).2 ↔
      db.Careful records ⟨.recordFailure, key, now⟩ := by
  have same := mirrors key
  unfold recordFailureIn Db.recordFailure
  change Answer.state ((stateIn states key).recordFailure now) = .state (db.recordToState _) ↔ _
  rw [loaded_eq, same, Answer.state.injEq]
  unfold Db.Careful
  generalize recordOf records key = record
  by_cases locked : record.locks now
  · obtain ⟨expires, own, early⟩ := locked
    rw [load_recordFailure_of_locks ⟨expires, own, early⟩]
    by_cases epoch : expires = 0
    · subst epoch
      constructor
      case mp =>
        intro equal
        have level := congrArg LockState.lockoutLevel equal
        rw [recordFailure_epoch own] at level
        exact absurd level (Nat.succ_ne_self _)
      case mpr => exact fun careful => absurd rfl (careful rfl 0 own early).1
    · have kept : record.state.recordFailure now = record.state :=
        if_pos ⟨expires, own, epoch, early⟩
      rw [kept, eq_comm, recordToState_load own]
      constructor
      case mp =>
        intro zones _ other there _
        obtain rfl := Option.some.inj (there.symm.trans own)
        exact ⟨epoch, zones⟩
      case mpr => exact fun careful => (careful rfl expires own early).2
  · have unlocked : ¬ record.state.locks now :=
      fun ⟨expires, own, _, early⟩ => locked ⟨expires, own, early⟩
    rw [(load_recordFailure locked).2, state_recordFailure unlocked]
    exact ⟨fun _ _ expires own early => absurd ⟨expires, own, early⟩ locked, fun _ => rfl⟩

theorem Mirrors.recordFailure (careful : db.Careful records ⟨.recordFailure, key, now⟩) :
    Mirrors (recordFailureIn states key now).1 (db.recordFailure records key now).1 := by
  have answered := (recordFailure_same_iff mirrors now).mpr careful
  unfold recordFailureIn Db.recordFailure at answered ⊢
  apply mirrors.update
  rw [loaded_eq, Answer.state.injEq] at answered
  rw [answered, loaded_eq, Option.getD_some]
  by_cases locked : (recordOf records key).locks now
  · obtain ⟨expires, own, early⟩ := locked
    rw [load_recordFailure_of_locks ⟨expires, own, early⟩, store_load]
    exact (recordToState_load own).mpr (careful rfl expires own early).2
  · rw [(load_recordFailure locked).1, (load_recordFailure locked).2]

theorem step_same_iff (op : Op) :
    (LockoutTrackerPersistent.memoryStep states op).2 = (db.step records op).2 ↔
      db.Careful records op := by
  obtain ⟨method, key, now⟩ := op
  cases method with
  | recordFailure => exact recordFailure_same_iff mirrors now
  | recordSuccess => exact ⟨fun _ other => absurd other nofun, fun _ => rfl⟩
  | isLocked => exact ⟨fun _ other => absurd other nofun, fun _ => mirrors.isLocked.1⟩

theorem Mirrors.step (op : Op) (careful : db.Careful records op) :
    Mirrors (LockoutTrackerPersistent.memoryStep states op).1 (db.step records op).1 := by
  obtain ⟨method, key, now⟩ := op
  cases method with
  | recordFailure => exact mirrors.recordFailure careful
  | recordSuccess => exact mirrors.recordSuccess
  | isLocked => exact mirrors.isLocked.2

end

/-- The three trackers answer alike to a list of operations. -/
def Agree (db : Db) (ops : List Op) : Prop :=
  answers LockoutTracker.step (fun _ => none) ops =
      answers LockoutTrackerPersistent.memoryStep (fun _ => none) ops ∧
    answers LockoutTrackerPersistent.memoryStep (fun _ => none) ops =
      answers db.step (fun _ => none) ops

theorem trackers_agree_iff (db : Db) (ops : List Op) :
    Agree db ops ↔ Meets (next db.step) db.Careful (fun _ => none) ops := by
  have sync : LockoutTracker.step = LockoutTrackerPersistent.memoryStep := rfl
  have mirrors : Mirrors (fun _ => none) (fun _ => none) := fun _ => rfl
  unfold Agree
  rw [sync, eq_self, true_and]
  exact @answers_eq_iff _ _ _ _ _ db.step Mirrors db.Careful
    (fun _ _ op related => step_same_iff related op)
    (fun _ _ op related careful => related.step op careful) _ _ mirrors ops

def sixFailures : List Op :=
  [1, 2, 3, 4, 5, 6].map fun now => ⟨.recordFailure, "user:1", now * second⟩

def hourAhead : Db := ⟨false, fun _ => 3600 * second⟩

theorem locked_state_in_local_time : ¬ Agree hourAhead sixFailures := by
  intro agree
  exact absurd agree.2 (by decide +kernel)

end Agreement

end HlHelper.Auth.Lockout
