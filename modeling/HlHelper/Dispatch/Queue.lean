import HlHelper.Dispatch.Targets
import HlHelper.Library.OrderedMap
import HlHelper.Library.Rows
import HlHelper.Tables
import Mathlib.Logic.Function.Basic
import Mathlib.Logic.Function.Iterate

/-! The database as one session sees it, with the writes of a dispatch, and
`CommandQueue.enqueue` with its process-local cache of idempotency keys. -/

namespace HlHelper.Dispatch

open HlHelper.Library

structure Approval where
  id : String
  subjectType : String
  subjectId : String
  policy : String
  requesterId : String
  approved : Bool
  decidedById : Option String
  deriving DecidableEq, Repr

structure AuditEntry where
  actor : String
  action : String
  subject : String
  hostId : HostId
  taskRunId : TaskRunId
  risk : RiskLevel
  payloadKind : String
  deriving DecidableEq, Repr

/-- `nextSeq` is the table `host_sequences`. -/
structure Tables where
  fleet : Fleet
  approvals : List Approval
  tasks : List Task
  runs : List TaskRun
  commands : List Command
  nextSeq : HostId → Option Nat
  audit : List AuditEntry

def Tables.allocate (tables : Tables) (hostId : HostId) : Nat × Tables :=
  match tables.nextSeq hostId with
  | none => (1, { tables with nextSeq := Function.update tables.nextSeq hostId (some 2) })
  | some next =>
    (next, { tables with nextSeq := Function.update tables.nextSeq hostId (some (next + 1)) })

/-- Events that are published when the session commits. -/
inductive Publish where
  | issued (commandId : CommandId) (hostId : HostId)
  | pendingApproval (approvalId : String)
  deriving DecidableEq, Repr

/-- `committed` is what a rollback goes back to. -/
structure Session where
  committed : Tables
  tables : Tables
  publishes : List Publish

namespace Session

def begin (tables : Tables) : Session := ⟨tables, tables, []⟩

def commit (session : Session) : Session := { session with committed := session.tables }

/-- A rollback does not withdraw the publishes of the session. -/
def rollback (session : Session) : Session := { session with tables := session.committed }

def addTask (session : Session) (task : Task) : Session :=
  { session with tables := { session.tables with tasks := session.tables.tasks ++ [task] } }

def addApproval (session : Session) (approval : Approval) : Session :=
  { session with
    tables := { session.tables with approvals := session.tables.approvals ++ [approval] } }

def addRun (session : Session) (run : TaskRun) : Session :=
  { session with tables := { session.tables with runs := session.tables.runs ++ [run] } }

def allocate (session : Session) (hostId : HostId) : Nat × Session :=
  let (sequence, tables) := session.tables.allocate hostId
  (sequence, { session with tables := tables })

def othersCommit (session : Session) (rows : List Command) : Session :=
  { session with
    committed := { session.committed with commands := session.committed.commands ++ rows }
    tables := { session.tables with commands := session.tables.commands ++ rows } }

def getCommand (session : Session) (commandId : CommandId) : Option Command :=
  findKey Command.id session.tables.commands commandId

/-- `select(Command).where(Command.idempotency_key == key)`. -/
def byIdempotencyKey (session : Session) (key : String) : Option Command :=
  findKey Command.idempotencyKey session.tables.commands (some key)

/-- `add` and `flush` of a command: the primary key and the two unique constraints. -/
def flushCommand (session : Session) (command : Command) : Except DispatchError Session :=
  let rows := session.tables.commands
  if command.id ∈ rows.map Command.id then
    .error (.integrityError "UNIQUE constraint failed: commands.id")
  else if command.idempotencyKey ≠ none ∧
      command.idempotencyKey ∈ rows.map Command.idempotencyKey then
    .error (.integrityError "UNIQUE constraint failed: commands.idempotency_key")
  else if (command.hostId, command.sequence) ∈ rows.map (fun row => (row.hostId, row.sequence)) then
    .error (.integrityError "UNIQUE constraint failed: commands.host_id, commands.sequence")
  else .ok { session with tables := { session.tables with commands := rows ++ [command] } }

/-- `SqlAuditChain.append`: when another transaction took the entry's sequence, the
whole session is rolled back and the entry is written once more. -/
def appendAudit (session : Session) (entry : AuditEntry) (clashes : Nat) :
    Except DispatchError Session :=
  let write := fun session : Session =>
    { session with tables := { session.tables with audit := session.tables.audit ++ [entry] } }
  match clashes with
  | 0 => .ok (write session)
  | 1 => .ok (write session.rollback)
  | _ => .error (.integrityError "UNIQUE constraint failed: audit_entries.sequence")

def publish (session : Session) (event : Publish) : Session :=
  { session with publishes := session.publishes ++ [event] }

variable {session next : Session} {command : Command}

theorem flushCommand_eq_ok :
    session.flushCommand command = .ok next ↔
      command.id ∉ session.tables.commands.map Command.id ∧
        (command.idempotencyKey = none ∨
          command.idempotencyKey ∉ session.tables.commands.map Command.idempotencyKey) ∧
        (command.hostId, command.sequence) ∉
          session.tables.commands.map (fun row => (row.hostId, row.sequence)) ∧
        next = { session with
          tables := { session.tables with commands := session.tables.commands ++ [command] } } := by
  simp only [flushCommand]
  split
  · next taken => simp [taken]
  · next free =>
    split
    · next clash => simp [clash]
    · next unkeyed =>
      split
      · next taken => simp [taken]
      · next unused =>
        simp only [Except.ok.injEq]
        constructor
        · rintro rfl
          refine ⟨free, ?_, unused, rfl⟩
          by_contra both
          exact unkeyed (not_or.mp both |>.imp_right not_not.mp)
        · rintro ⟨_, _, _, rfl⟩
          rfl

theorem appendAudit_eq_ok {entry : AuditEntry} {clashes : Nat}
    (appended : session.appendAudit entry clashes = .ok next) :
    ∃ base, (clashes = 0 ∧ base = session ∨ clashes = 1 ∧ base = session.rollback) ∧
      next = { base with
        tables := { base.tables with audit := base.tables.audit ++ [entry] } } := by
  match clashes with
  | 0 => exact ⟨session, .inl ⟨rfl, rfl⟩, (Except.ok.inj appended).symm⟩
  | 1 => exact ⟨session.rollback, .inr ⟨rfl, rfl⟩, (Except.ok.inj appended).symm⟩
  | _ + 2 => cases appended

end Session

inductive Row where
  | approval (row : Approval)
  | task (row : Task)
  | run (row : TaskRun)
  | command (row : Command)
  | sequence (hostId : HostId) (next : Nat)
  | audit (row : AuditEntry)

def Tables.Holds (tables : Tables) : Row → Prop
  | .approval row => row ∈ tables.approvals
  | .task row => row ∈ tables.tasks
  | .run row => row ∈ tables.runs
  | .command row => row ∈ tables.commands
  | .sequence hostId next => tables.nextSeq hostId = some next
  | .audit row => row ∈ tables.audit

def Session.Pending (session : Session) (row : Row) : Prop :=
  session.tables.Holds row ∧ ¬ session.committed.Holds row

theorem Session.rollback_drops {session : Session} {row : Row} (pending : session.Pending row) :
    ¬ session.rollback.tables.Holds row ∧ ¬ session.rollback.commit.committed.Holds row :=
  ⟨pending.2, pending.2⟩

/-- `_idempotency_cache`: command ids by idempotency key, the oldest first. -/
abbrev Cache := OrderedMap String CommandId

/-- Assign, move to the end, and pop the oldest entries while there are too many. -/
def remember (capacity : Nat) (cache : Cache) (key : String) (commandId : CommandId) : Cache :=
  let cache := (cache.insert key commandId).moveToEnd key
  OrderedMap.popFirst^[cache.entries.length - capacity] cache

/-- The queue after its cache gave no row: the lookup in the database, then the
insertion. `racing` are the rows that others commit between the two. -/
def enqueueUncached (capacity : Nat) (session : Session) (cache : Cache) (command : Command)
    (key : String) (racing : List Command) : Except DispatchError (Command × Session × Cache) :=
  match session.byIdempotencyKey key with
  | some existing => .ok (existing, session, remember capacity cache key existing.id)
  | none =>
    let command := { command with idempotencyKey := some key }
    let session := session.othersCommit racing
    match session.flushCommand command with
    | .ok session => .ok (command, session, remember capacity cache key command.id)
    | .error error =>
      -- the text of every error quotes the statement, which names idempotency_key
      let session := session.rollback
      match session.byIdempotencyKey key with
      | some existing => .ok (existing, session, remember capacity cache key existing.id)
      | none => .error error

def enqueue (capacity : Nat) (session : Session) (cache : Cache) (command : Command)
    (key : Option String) (racing : List Command) :
    Except DispatchError (Command × Session × Cache) :=
  match key with
  | none =>
    ((session.othersCommit racing).flushCommand command).map
      (fun session => (command, session, cache))
  | some key =>
    match cache.get? key with
    | none => enqueueUncached capacity session cache command key racing
    | some cachedId =>
      let cache := cache.moveToEnd key
      match session.getCommand cachedId with
      | some existing => .ok (existing, session, cache)
      | none => enqueueUncached capacity session (cache.erase key) command key racing

section Enqueue

variable {capacity : Nat} {session next : Session} {cache after : Cache}
  {command enqueued : Command} {key : String} {racing : List Command}

theorem byIdempotencyKey_eq_none :
    session.byIdempotencyKey key = none ↔
      some key ∉ session.tables.commands.map Command.idempotencyKey :=
  findKey_none

/-- The queue has a row for the key, in its cache or in the database. -/
def Answered (key : String) (tables : Tables) (cache : Cache) : Prop :=
  some key ∈ tables.commands.map Command.idempotencyKey ∨
    ∃ cachedId, cache.get? key = some cachedId ∧
      (findKey Command.id tables.commands cachedId).isSome

theorem answered_congr {tables later : Tables} (commands : later.commands = tables.commands) :
    Answered key later cache ↔ Answered key tables cache := by
  rw [Answered, Answered, commands]

theorem enqueue_answered (capacity : Nat) (command : Command) (racing : List Command)
    (answered : Answered key session.tables cache) :
    ∃ existing ∈ session.tables.commands, ∃ after,
      enqueue capacity session cache command (some key) racing = .ok (existing, session, after) ∧
        Answered key session.tables after := by
  have uncached (cache : Cache)
      (present : some key ∈ session.tables.commands.map Command.idempotencyKey) :
      ∃ existing ∈ session.tables.commands, ∃ after,
        enqueueUncached capacity session cache command key racing =
            .ok (existing, session, after) ∧ Answered key session.tables after := by
    cases found : session.byIdempotencyKey key with
    | none => exact absurd present (byIdempotencyKey_eq_none.mp found)
    | some existing =>
      refine ⟨existing, (findKey_some found).1, remember capacity cache key existing.id, ?_,
        .inl present⟩
      simp [enqueueUncached, found]
  simp only [enqueue]
  cases cached : cache.get? key with
  | none =>
    refine uncached cache (answered.resolve_right ?_)
    rintro ⟨cachedId, found, _⟩
    simp [cached] at found
  | some cachedId =>
    cases row : session.getCommand cachedId with
    | some existing =>
      simp only [row]
      refine ⟨existing, (findKey_some row).1, _, rfl, .inr ⟨cachedId, ?_, ?_⟩⟩
      · rw [OrderedMap.get?_moveToEnd_same, cached]
      · rw [show findKey Command.id session.tables.commands cachedId = some existing from row]
        rfl
    | none =>
      simp only [row]
      refine uncached _ (answered.resolve_right ?_)
      rintro ⟨other, found, present⟩
      rw [cached, Option.some.injEq] at found
      subst found
      rw [show findKey Command.id session.tables.commands cachedId = none from row] at present
      cases present

theorem enqueueUncached_absent (absent : session.byIdempotencyKey key = none)
    (returned : enqueueUncached capacity session cache command key racing =
      .ok (enqueued, next, after)) :
    (enqueued = { command with idempotencyKey := some key } ∧
        (session.othersCommit racing).flushCommand enqueued = .ok next) ∨
      (next = (session.othersCommit racing).rollback ∧
        next.byIdempotencyKey key = some enqueued) := by
  simp only [enqueueUncached, absent] at returned
  split at returned
  · next flushed stored =>
    obtain ⟨rfl, rest⟩ := Prod.mk.inj (Except.ok.inj returned)
    obtain ⟨rfl, _⟩ := Prod.mk.inj rest
    exact .inl ⟨rfl, stored⟩
  · split at returned
    · next existing found =>
      obtain ⟨rfl, rest⟩ := Prod.mk.inj (Except.ok.inj returned)
      obtain ⟨rfl, _⟩ := Prod.mk.inj rest
      exact .inr ⟨rfl, found⟩
    · cases returned

theorem enqueue_absent (unanswered : ¬ Answered key session.tables cache)
    (returned : enqueue capacity session cache command (some key) racing =
      .ok (enqueued, next, after)) :
    (enqueued = { command with idempotencyKey := some key } ∧
        (session.othersCommit racing).flushCommand enqueued = .ok next) ∨
      (next = (session.othersCommit racing).rollback ∧
        next.byIdempotencyKey key = some enqueued) := by
  obtain ⟨no_row, no_entry⟩ := not_or.mp unanswered
  have absent := byIdempotencyKey_eq_none.mpr no_row
  simp only [enqueue] at returned
  split at returned
  · exact enqueueUncached_absent absent returned
  · next cachedId cached =>
    split at returned
    · next existing row =>
      refine absurd ⟨cachedId, cached, ?_⟩ no_entry
      rw [show findKey Command.id session.tables.commands cachedId = some existing from row]
      rfl
    · exact enqueueUncached_absent absent returned

theorem enqueue_conflict_drops {error : DispatchError} {row : Row}
    (unanswered : ¬ Answered key session.tables cache)
    (conflict : (session.othersCommit racing).flushCommand
      { command with idempotencyKey := some key } = .error error)
    (returned : enqueue capacity session cache command (some key) racing =
      .ok (enqueued, next, after))
    (pending : (session.othersCommit racing).Pending row) :
    ¬ next.tables.Holds row ∧ ¬ next.commit.committed.Holds row := by
  rcases enqueue_absent unanswered returned with ⟨rfl, stored⟩ | ⟨rfl, _⟩
  · rw [conflict] at stored
    cases stored
  · exact Session.rollback_drops pending

theorem enqueue_unkeyed
    (returned : enqueue capacity session cache command none racing = .ok (enqueued, next, after)) :
    enqueued = command ∧ (session.othersCommit racing).flushCommand command = .ok next := by
  obtain ⟨flushed, stored, same⟩ := map_eq_ok.mp returned
  obtain ⟨rfl, rest⟩ := Prod.mk.inj same
  obtain ⟨rfl, _⟩ := Prod.mk.inj rest
  exact ⟨rfl, stored⟩

theorem enqueue_new {key : Option String} (plain : command.idempotencyKey = none)
    (unanswered : ∀ k ∈ key, ¬ Answered k session.tables cache)
    (returned : enqueue capacity session cache command key racing = .ok (enqueued, next, after)) :
    (enqueued = { command with idempotencyKey := key } ∧
        (session.othersCommit racing).flushCommand enqueued = .ok next) ∨
      (next = (session.othersCommit racing).rollback ∧
        ∃ k ∈ key, next.byIdempotencyKey k = some enqueued) := by
  cases key with
  | none =>
    obtain ⟨rfl, stored⟩ := enqueue_unkeyed returned
    exact .inl ⟨by rw [← plain], stored⟩
  | some key =>
    refine (enqueue_absent (unanswered key rfl) returned).imp_right ?_
    rintro ⟨rolled_back, found⟩
    exact ⟨rolled_back, key, rfl, found⟩

end Enqueue

end HlHelper.Dispatch
