import HlHelper.Library.Runs

/-! `LockoutTrackerPersistent` under the logins of one key, one step for each statement of the
database with the code behind it. Times are microseconds. -/

namespace HlHelper.Auth.Lockout

open HlHelper.Library

def second : Int := 1000000

structure LockoutRecord where
  failureCount : Nat
  lastFailureAt : Option Int
  lockoutExpiresAt : Option Int
  level : Nat
  deriving DecidableEq, Repr

def LockoutRecord.fresh : LockoutRecord := ⟨0, none, none, 0⟩

def cooldownForLevel (level : Nat) : Int := if level = 1 then 60 * second else 300 * second

/-- `record_failure` between its read and its write; none where the record is locked. -/
def recordFailure (record : LockoutRecord) (nowUtc nowTs : Int) : Option LockoutRecord :=
  if ∃ expires ∈ record.lockoutExpiresAt, nowUtc < expires then none
  else
    let wasLocked := record.lockoutExpiresAt.isSome
    let stale := ∃ last ∈ record.lastFailureAt, 300 * second < nowUtc - last
    let count := (if stale then 0 else record.failureCount) + 1
    if 5 ≤ count ∨ wasLocked then
      let level := if wasLocked then record.level + 1 else 1
      some ⟨if wasLocked then 1 else count, some nowUtc, some (nowTs + cooldownForLevel level),
        level⟩
    else some ⟨count, some nowUtc, record.lockoutExpiresAt, record.level⟩

inductive Failure where
  | integrity | staleData | other
  deriving DecidableEq, Repr

/-- The statement that a login executes next, or how it has ended: with 423, 401 or behind
`record_success`. The times are those that have been read. -/
inductive Phase where
  | looking (nowUtc : Int)
  | expiring (loaded : LockoutRecord)
  | recording (nowUtc nowTs : Int)
  | writing (nowUtc : Int) (loaded : Option LockoutRecord) (new : LockoutRecord)
  | clearing
  | deleting (loaded : LockoutRecord)
  | refused
  | rejected
  | passed
  | raised (failure : Failure)
  deriving DecidableEq, Repr

structure Call where
  correct : Bool
  phase : Phase
  deriving DecidableEq, Repr

/-- The row of the key, with the times of the failures that have been recorded. -/
structure Server where
  row : Option LockoutRecord
  clock : Int
  calls : List Call
  recorded : List Int
  deriving DecidableEq, Repr

inductive Step where
  | start (correct : Bool) (now : Int)
  | advance (index : Nat) (nowUtc nowTs : Int)
  | fail (index : Nat)
  deriving DecidableEq, Repr

def Phase.past : Phase → Bool
  | .recording _ _ | .writing _ _ _ | .clearing | .deleting _ | .rejected | .passed => true
  | _ => false

/-- A column is written when its value is another than the loaded one. -/
def flush {α : Type} [DecidableEq α] (loaded new stored : α) : α :=
  if new = loaded then stored else new

def LockoutRecord.flush (loaded new stored : LockoutRecord) : LockoutRecord :=
  ⟨Lockout.flush loaded.failureCount new.failureCount stored.failureCount,
    Lockout.flush loaded.lastFailureAt new.lastFailureAt stored.lastFailureAt,
    Lockout.flush loaded.lockoutExpiresAt new.lockoutExpiresAt stored.lockoutExpiresAt,
    Lockout.flush loaded.level new.level stored.level⟩

structure Outcome where
  phase : Phase
  row : Option LockoutRecord
  recorded : List Int

/-- Behind `is_locked`: the password is verified, and a failure reads the clock twice. -/
def checkPassword (correct : Bool) (nowUtc nowTs : Int) : Phase :=
  if correct then .clearing else .recording nowUtc nowTs

/-- What the next statement of a login does to the row, and the code behind it. -/
def outcome (row : Option LockoutRecord) (correct : Bool) (nowUtc nowTs : Int) :
    Phase → Option Outcome
  | .looking began =>
    match row with
    | none => some ⟨checkPassword correct nowUtc nowTs, row, []⟩
    | some record =>
      match record.lockoutExpiresAt with
      | none => some ⟨checkPassword correct nowUtc nowTs, row, []⟩
      | some expires =>
        if expires ≤ began then some ⟨.expiring record, row, []⟩
        else some ⟨.refused, row, []⟩
  | .expiring _ => some ⟨checkPassword correct nowUtc nowTs, none, []⟩
  | .recording began beganTs =>
    match recordFailure (row.getD .fresh) began beganTs with
    | none => some ⟨.rejected, row, [began]⟩
    | some new => some ⟨.writing began row new, row, []⟩
  | .writing began loaded new =>
    match loaded, row with
    | none, none => some ⟨.rejected, some new, [began]⟩
    | none, some _ => some ⟨.raised .integrity, row, []⟩
    | some old, some record => some ⟨.rejected, some (old.flush new record), [began]⟩
    | some _, none => some ⟨.raised .staleData, row, []⟩
  | .clearing =>
    match row with
    | none => some ⟨.passed, row, []⟩
    | some record => some ⟨.deleting record, row, []⟩
  | .deleting _ => some ⟨.passed, none, []⟩
  | _ => none

namespace Server

def initial : Server := ⟨none, 0, [], []⟩

def advance (s : Server) (index : Nat) (nowUtc nowTs : Int) (call : Call) : Option Server :=
  (outcome s.row call.correct nowUtc nowTs call.phase).map fun result =>
    ⟨result.row, nowTs, s.calls.set index { call with phase := result.phase },
      s.recorded ++ result.recorded⟩

def fail (s : Server) (index : Nat) (call : Call) : Option Server :=
  match call.phase with
  | .refused | .rejected | .passed | .raised _ => none
  | _ => some { s with calls := s.calls.set index { call with phase := .raised .other } }

def step (s : Server) : Step → Option Server
  | .start correct now =>
    if s.clock ≤ now then
      some { s with clock := now, calls := s.calls ++ [⟨correct, .looking now⟩] }
    else none
  | .advance index nowUtc nowTs =>
    if s.clock ≤ nowUtc ∧ nowUtc ≤ nowTs then
      (s.calls[index]?).bind (s.advance index nowUtc nowTs)
    else none
  | .fail index => (s.calls[index]?).bind (s.fail index)

def count (s : Server) : Nat := (s.row.map LockoutRecord.failureCount).getD 0

def LockedUntil (s : Server) (expires : Int) : Prop :=
  ∃ record, s.row = some record ∧ record.lockoutExpiresAt = some expires

end Server

def Step.wrong : Step → Bool
  | .start correct _ => !correct
  | _ => true

def Within (times : List Int) : Prop :=
  ∀ first ∈ times, ∀ last ∈ times, last - first ≤ 300 * second

/-- The laws of a run: the failures recorded are the logins answered with 401; failures within
five minutes are counted up to four, and the fifth locks for a minute; no call meets a uniqueness
error; and while a lock lasts no new login comes to the password check. -/
structure Laws (steps : List Step) : Prop where
  complete : ∀ (before after : List Step) (s : Server), steps = before ++ after →
    run Server.step .initial before = some s →
    s.recorded.length = s.calls.countP (fun call => call.phase = .rejected)
  counted : ∀ (before after : List Step) (s : Server), steps = before ++ after →
    run Server.step .initial before = some s → (∀ event ∈ before, event.wrong = true) →
    Within s.recorded → s.recorded.length < 5 → s.count = s.recorded.length
  locks : ∀ (before after : List Step) (event : Step) (s t : Server),
    steps = before ++ event :: after → run Server.step .initial before = some s →
    s.step event = some t → (∀ event ∈ before, event.wrong = true) → Within t.recorded →
    s.recorded.length = 4 → t.recorded.length = 5 →
    ∃ expires, t.LockedUntil expires ∧ ∀ last ∈ t.recorded.getLast?, last + 60 * second ≤ expires
  unique : ∀ (before after : List Step) (s : Server), steps = before ++ after →
    run Server.step .initial before = some s → ∀ call ∈ s.calls, call.phase ≠ .raised .integrity
  refuses : ∀ (before between after : List Step) (s t : Server) (expires : Int),
    steps = before ++ between ++ after → run Server.step .initial before = some s →
    (∀ event ∈ before, event.wrong = true) → s.LockedUntil expires →
    run Server.step s between = some t → t.clock < expires →
    ∀ (index : Nat) (call : Call), s.calls.length ≤ index → t.calls[index]? = some call →
      call.phase.past = false

/-- What a call writes over or deletes is still the row that it has read. -/
def Careful (s : Server) : Step → Prop
  | .advance index _ _ =>
    match s.calls[index]? with
    | some ⟨_, .writing _ loaded _⟩ => s.row = loaded
    | some ⟨_, .expiring loaded⟩ => s.row = some loaded
    | some ⟨_, .deleting loaded⟩ => s.row = some loaded
    | _ => True
  | _ => True

instance (s : Server) (event : Step) : Decidable (Careful s event) := by
  unfold Careful
  split
  · split <;> infer_instance
  · infer_instance

end HlHelper.Auth.Lockout
