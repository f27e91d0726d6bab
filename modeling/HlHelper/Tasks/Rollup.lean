import HlHelper.Library.Rows
import HlHelper.Library.Runs
import HlHelper.Tables
import Mathlib.Algebra.Group.Nat.Defs
import Mathlib.Data.List.MinMax

/-! How results and expiries reach the status of a task: the roll-ups of
`ResultHandler.handle` and `_sweep_once`. -/

namespace HlHelper.Tasks

open HlHelper.Library

/-- `ORDER BY key DESC LIMIT 1`; the database is free among equal keys. It refuses integers from
`intLimit` on: 2^63 in SQLite, 2^31 in PostgreSQL. -/
structure SqlOrder where
  intLimit : Nat
  latest : {α : Type} → (α → Nat) → List α → Option α
  latest_mem : ∀ {α : Type} {key : α → Nat} {rows : List α} {row : α},
    latest key rows = some row → row ∈ rows ∧ ∀ other ∈ rows, key other ≤ key row
  latest_some : ∀ {α : Type} {key : α → Nat} {rows : List α}, rows ≠ [] →
    (latest key rows).isSome

/-- A database that takes the first row of the greatest key. -/
def firstOfLatest : SqlOrder where
  intLimit := 2 ^ 63
  latest := fun key rows => rows.argmax key
  latest_mem := fun found =>
    ⟨List.argmax_mem found, fun _ other => List.le_of_mem_argmax other found⟩
  latest_some := fun nonempty => by
    rw [Option.isSome_iff_ne_none]
    exact fun missing => nonempty (List.argmax_eq_none.mp missing)

structure Db where
  tasks : List Task
  runs : List TaskRun
  commands : List Command
  results : List Result

def Db.empty : Db := ⟨[], [], [], []⟩

structure ResultEnvelope where
  commandId : CommandId
  hostId : HostId
  sequence : Nat
  status : ResultStatus
  deriving DecidableEq, Repr

def isOpen (status : TaskStatus) : Bool :=
  status = .pending ∨ status = .approved ∨ status = .running

def rollUp (statuses : List (Option ResultStatus)) : TaskStatus :=
  if statuses.any (fun s => s = none) then .running
  else if statuses.all (fun s => s = some .ok) then .succeeded
  else if statuses.all (fun s => s ≠ some .ok) then .failed
  else .partialSuccess

def Db.commandsOfRun (db : Db) (run : TaskRun) : List Command :=
  db.commands.filter (fun command => command.taskRunId = run.id)

def Db.resultsOfRun (db : Db) (run : TaskRun) : List Result :=
  db.results.filter (fun result => result.commandId ∈ (db.commandsOfRun run).map Command.id)

def hasResult (db : Db) (command : Command) : Bool :=
  db.results.any (fun result => result.commandId = command.id)

/-- What a dispatch adds: a pending task, and for a run of it new queued commands
that expire together. -/
structure NewDispatch (db : Db) (task : Task) (run : Option TaskRun) (commands : List Command) :
    Prop where
  pending : task.status = .pending
  taskId : task.id ≠ "" ∧ task.id ∉ db.tasks.map Task.id ∧ task.id ∉ db.runs.map TaskRun.taskId
  runId : ∀ new ∈ run, new.taskId = task.id ∧ new.id ∉ db.runs.map TaskRun.id
  owned : ∀ command ∈ commands, ∃ new ∈ run, command.taskRunId = new.id
  queued : ∀ command ∈ commands, command.status = .queued
  together : ∀ a ∈ commands, ∀ b ∈ commands, a.expiresAt = b.expiresAt
  commandIds : ((db.commands ++ commands).map Command.id).Nodup
  unanswered : ∀ command ∈ commands, hasResult db command = false

instance (db : Db) (task : Task) (run : Option TaskRun) (commands : List Command) :
    Decidable (NewDispatch db task run commands) :=
  decidable_of_iff
    (task.status = .pending ∧
      (task.id ≠ "" ∧ task.id ∉ db.tasks.map Task.id ∧ task.id ∉ db.runs.map TaskRun.taskId) ∧
      (∀ new ∈ run, new.taskId = task.id ∧ new.id ∉ db.runs.map TaskRun.id) ∧
      (∀ command ∈ commands, ∃ new ∈ run.toList, command.taskRunId = new.id) ∧
      (∀ command ∈ commands, command.status = .queued) ∧
      (∀ a ∈ commands, ∀ b ∈ commands, a.expiresAt = b.expiresAt) ∧
      ((db.commands ++ commands).map Command.id).Nodup ∧
      ∀ command ∈ commands, hasResult db command = false)
    ⟨fun ⟨a, b, c, d, e, f, g, h⟩ => ⟨a, b, c, by simpa using d, e, f, g, h⟩,
      fun h => ⟨h.pending, h.taskId, h.runId, by simpa using h.owned, h.queued, h.together,
        h.commandIds, h.unanswered⟩⟩

section Step

variable (sql : SqlOrder)

def latestStatus (db : Db) (run : TaskRun) : Option ResultStatus :=
  (sql.latest Result.sequence (db.resultsOfRun run)).map Result.status

/-- The sweeper's reading of a run: without a result, the newest command decides. -/
def sweptStatus (db : Db) (run : TaskRun) : Option ResultStatus :=
  match latestStatus sql db run with
  | some status => some status
  | none =>
    match sql.latest Command.sequence (db.commandsOfRun run) with
    | some command => if command.status = .expired then some .timeout else none
    | none => none

/-- The task with this id is rolled up from its runs, if its status is open. -/
def syncTask (statusOf : Db → TaskRun → Option ResultStatus) (db : Db) (taskId : TaskId) : Db :=
  { db with
    tasks := db.tasks.map fun task =>
      if task.id = taskId ∧ isOpen task.status then
        { task with
          status := rollUp ((db.runs.filter (fun run => run.taskId = task.id)).map (statusOf db)) }
      else task }

/-- Steps 5 and 5b of `handle`: the accepted result and the status of its task. -/
def acceptResult (db : Db) (id : String) (env : ResultEnvelope) : Db :=
  let db : Db := { db with
    results := db.results ++ [⟨id, env.commandId, env.hostId, env.sequence, env.status⟩] }
  match findKey Command.id db.commands env.commandId with
  | none => db
  | some command =>
    match findKey TaskRun.id db.runs command.taskRunId with
    | none => db
    | some run => if run.taskId = "" then db else syncTask (latestStatus sql) db run.taskId

/-- Steps 1 to 4: a known host, its own host id, its signature, and a sequence
above all of the host's earlier ones. -/
def accepts (db : Db) (expectedHostId : HostId) (hostKnown verified : Bool)
    (env : ResultEnvelope) : Bool :=
  hostKnown && env.hostId == expectedHostId && verified &&
    match sql.latest Result.sequence
        (db.results.filter (fun result => result.hostId = expectedHostId)) with
    | none => true
    | some last => last.sequence < env.sequence

/-- The commands that a sweep at `now` marks as expired. -/
def expiring (db : Db) (now : Int) : List Command :=
  db.commands.filter fun command =>
    (command.status = .queued ∨ command.status = .inFlight) ∧ command.expiresAt < now ∧
      hasResult db command = false

def setStatus (status : CommandStatus) (ids : List CommandId) (command : Command) : Command :=
  if command.id ∈ ids then { command with status := status } else command

theorem setStatus_eq (status : CommandStatus) (ids : List CommandId) (command : Command) :
    ∃ now, setStatus status ids command = { command with status := now } := by
  rw [setStatus]
  split
  · exact ⟨status, rfl⟩
  · exact ⟨command.status, rfl⟩

theorem setStatus_kept (status : CommandStatus) (ids : List CommandId) (command : Command) :
    (setStatus status ids command).id = command.id ∧
      (setStatus status ids command).taskRunId = command.taskRunId ∧
      (setStatus status ids command).expiresAt = command.expiresAt := by
  obtain ⟨now, same⟩ := setStatus_eq status ids command
  simp [same]

def affectedTasks (db : Db) (commands : List Command) : List TaskId :=
  (commands.filterMap fun command =>
    (findKey TaskRun.id db.runs command.taskRunId).bind fun run =>
      if run.taskId = "" then none else some run.taskId).dedup

def sweepOnce (db : Db) (now : Int) : Db :=
  let rows := expiring db now
  let expired : Db := { db with
    commands := db.commands.map (setStatus .expired (rows.map Command.id)) }
  (affectedTasks db rows).foldl (syncTask (sweptStatus sql)) expired

inductive TaskEvent where
  | dispatch (task : Task) (run : Option TaskRun) (commands : List Command)
  | result (expectedHostId : HostId) (hostKnown verified : Bool) (id : String)
      (env : ResultEnvelope)
  | sweep (now : Int)

def taskStep (db : Db) : TaskEvent → Option Db
  | .dispatch task run commands =>
    if NewDispatch db task run commands then
      some { db with
        tasks := db.tasks ++ [task]
        runs := db.runs ++ run.toList
        commands := db.commands ++ commands }
    else none
  | .result expectedHostId hostKnown verified id env =>
    if accepts sql db expectedHostId hostKnown verified env then
      some (acceptResult sql db id env)
    else some db
  | .sweep now => some (sweepOnce sql db now)

end Step

def hasOk (db : Db) (command : Command) : Bool :=
  db.results.any (fun result => result.commandId = command.id ∧ result.status = .ok)

def settled (db : Db) (command : Command) : Bool :=
  hasResult db command || command.status = .expired

def Db.commandsOf (db : Db) (task : Task) : List Command :=
  db.commands.filter fun command =>
    ∃ run ∈ db.runs, run.id = command.taskRunId ∧ run.taskId = task.id

/-- The final status that the outcomes of the commands call for. -/
def verdict (db : Db) (commands : List Command) : TaskStatus :=
  if commands.all (hasOk db) then .succeeded
  else if commands.any (hasOk db) then .partialSuccess
  else .failed

structure RolledUp (db : Db) (task : Task) : Prop where
  succeeded : task.status = .succeeded → ∀ command ∈ db.commandsOf task, hasOk db command = true
  terminal : isOpen task.status = false → ∀ command ∈ db.commandsOf task,
    settled db command = true
  partly : task.status = .partialSuccess ↔
    (∃ command ∈ db.commandsOf task, hasOk db command = true) ∧
      ∃ command ∈ db.commandsOf task, hasOk db command = false
  final : db.commandsOf task ≠ [] →
    (∀ command ∈ db.commandsOf task, settled db command = true) →
      task.status = verdict db (db.commandsOf task)

def inOpenTask (db : Db) (command : Command) : Bool :=
  db.runs.any fun run =>
    run.id = command.taskRunId ∧
      db.tasks.any (fun task => task.id = run.taskId ∧ isOpen task.status)

/-- The condition on the state before an event: a result for a command of an open
task arrives only when the command is the only one of its run, and one for a
command of a task that was rolled up is not the command's first ok result. -/
def OneCommandRuns (sql : SqlOrder) (db : Db) : TaskEvent → Prop
  | .result expectedHostId hostKnown verified _ env =>
    accepts sql db expectedHostId hostKnown verified env = true →
      ∀ command ∈ db.commands, command.id = env.commandId →
        if inOpenTask db command then
          ∀ other ∈ db.commands, other.taskRunId = command.taskRunId → other = command
        else env.status = .ok → hasOk db command = true
  | .dispatch _ _ _ | .sweep _ => True

instance decidableOneCommandRuns (sql : SqlOrder) (db : Db) :
    ∀ event, Decidable (OneCommandRuns sql db event)
  | .result _ _ _ _ _ => inferInstanceAs (Decidable (_ → _))
  | .dispatch _ _ _ | .sweep _ => isTrue trivial

end HlHelper.Tasks
