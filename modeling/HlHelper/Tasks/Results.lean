import HlHelper.Dispatch.Dispatcher
import HlHelper.Tasks.Rollup

/-! The results of a task and its cancellation, as the task endpoints of the API read
and write them. -/

namespace HlHelper.Tasks

open HlHelper.Dispatch HlHelper.Library

def isActive (status : CommandStatus) : Bool := status = .queued ∨ status = .inFlight

/-- One run of the loop of `cancel_task`. -/
def cancelRun (acc : Nat × List Command) (run : TaskRun) : Nat × List Command :=
  let cmds := acc.2.filter (fun command => command.taskRunId = run.id ∧ isActive command.status)
  (acc.1 + cmds.length, acc.2.map (setStatus .cancelled (cmds.map Command.id)))

def runsOfTask (tables : Tables) (taskId : TaskId) : List TaskRun :=
  tables.runs.filter (fun run => run.taskId = taskId)

def cancelTask (tables : Tables) (taskId : TaskId) : Nat × Tables :=
  let (cancelledCount, commands) := (runsOfTask tables taskId).foldl cancelRun (0, tables.commands)
  (cancelledCount, { tables with commands := commands })

structure TaskResultItem where
  hostId : HostId
  status : CommandStatus
  lastCommandId : CommandId
  error : Option String
  deriving DecidableEq, Repr

/-- The columns of a `Result` that only its detail shows. -/
structure Output where
  exitCode : Option Int
  receivedAt : Int
  rejectionReason : Option String
  stdoutBlob : Option Bytes
  stderrBlob : Option Bytes
  deriving DecidableEq, Repr, Inhabited

/-- What the summary of an inventory task says about a host. -/
structure Inventory where
  packages : HostId → Nat
  containers : HostId → Nat
  surveyAt : HostId → Option String

/-- The rows that the endpoints read. The columns of results and runs that only the
details show are kept beside them, by id. -/
structure Store where
  tables : Tables
  results : List Result
  output : String → Output
  inventory : Inventory
  startedAt : TaskRunId → Option Int
  finishedAt : TaskRunId → Option Int

structure TaskResultDetail where
  hostId : HostId
  commandId : CommandId
  status : String
  exitCode : Option Int
  receivedAt : Int
  stdout : String
  stdoutTruncated : Bool
  stderr : String
  stderrTruncated : Bool
  rejectionReason : Option String
  deriving DecidableEq, Repr

inductive ResultError where
  | http (statusCode : Nat) (detail : String)
  | multipleResultsFound
  deriving DecidableEq, Repr

def outputCapBytes : Nat := 64 * 1024

/-- `_decode_blob`; `decode` is UTF-8 with replacements. -/
def decodeBlob (decode : Bytes → String) : Option Bytes → String × Bool
  | none | some [] => ("", false)
  | some blob =>
    if outputCapBytes < blob.length then (decode (blob.take outputCapBytes), true)
    else (decode blob, false)

def resultStatusText : ResultStatus → String
  | .ok => "ok"
  | .fail => "fail"
  | .rejected => "rejected"
  | .timeout => "timeout"
  | .capabilityDenied => "capability_denied"
  | .unknown => "unknown"

def runStatusText : TaskRunStatus → String
  | .pending => "TaskRunStatus.PENDING"
  | .running => "TaskRunStatus.RUNNING"
  | .succeeded => "TaskRunStatus.SUCCEEDED"
  | .failed => "TaskRunStatus.FAILED"
  | .skipped => "TaskRunStatus.SKIPPED"
  | .expired => "TaskRunStatus.EXPIRED"

/-- `payload.get("action")`, where it asks for an inventory. -/
def asksInventory (payload : Json) : Bool :=
  match payload with
  | .obj fields =>
    match (fields.find? (fun field => field.1 = "action")).map Prod.snd with
    | some (.str action) => action = "resurvey" ∨ action = "rescan"
    | _ => false
  | _ => false

section Read

variable (sql : SqlOrder) (decode : Bytes → String)

def latestCommand (tables : Tables) (run : TaskRun) : Option Command :=
  sql.latest Command.sequence
    (tables.commands.filter (fun command => command.taskRunId = run.id))

def getTaskResults (tables : Tables) (taskId : TaskId) : List TaskResultItem :=
  ((runsOfTask tables taskId).foldl (fun (results : OrderedMap HostId TaskResultItem) run =>
    match latestCommand sql tables run with
    | none => results
    | some command =>
      results.insert run.hostId ⟨run.hostId, command.status, command.id, none⟩)
    OrderedMap.empty).values

def latestResult (results : List Result) (command : Command) : Option Result :=
  sql.latest Result.sequence (results.filter (fun result => result.commandId = command.id))

def detailOf (store : Store) (result : Result) : TaskResultDetail :=
  let output := store.output result.id
  let stdout := decodeBlob decode output.stdoutBlob
  let stderr := decodeBlob decode output.stderrBlob
  { hostId := result.hostId
    commandId := result.commandId
    status := resultStatusText result.status
    exitCode := output.exitCode
    receivedAt := output.receivedAt
    stdout := stdout.1
    stdoutTruncated := stdout.2
    stderr := stderr.1
    stderrTruncated := stderr.2
    rejectionReason := output.rejectionReason }

/-- The summary that stands in for the result of an inventory task. -/
def inventoryDetail (store : Store) (run : TaskRun) (command : Option Command) (now : Int) :
    TaskResultDetail :=
  { hostId := run.hostId
    commandId := (command.map Command.id).getD ""
    status := runStatusText run.status
    exitCode := if run.status = .succeeded then some 0 else none
    receivedAt := (store.finishedAt run.id).getD ((store.startedAt run.id).getD now)
    stdout := "Inventory collected\n" ++
      "  packages: " ++ toString (store.inventory.packages run.hostId) ++ "\n" ++
      "  containers: " ++ toString (store.inventory.containers run.hostId) ++ "\n" ++
      "  survey_at: " ++ (store.inventory.surveyAt run.hostId).getD "—" ++ "\n"
    stdoutTruncated := false
    stderr := ""
    stderrTruncated := false
    rejectionReason := none }

def getTaskResultForHost (store : Store) (taskId : TaskId) (hostId : HostId) (now : Int) :
    Except ResultError TaskResultDetail :=
  match (runsOfTask store.tables taskId).filter (fun run => run.hostId = hostId) with
  | [] => .error (.http 404 "task_run_not_found")
  | [run] =>
    let command := latestCommand sql store.tables run
    match command.bind (latestResult sql store.results) with
    | some result => .ok (detailOf decode store result)
    | none =>
      match findKey Task.id store.tables.tasks taskId with
      | some task =>
        if asksInventory task.payload then .ok (inventoryDetail store run command now)
        else .error (.http 404 "result_not_found")
      | none => .error (.http 404 "result_not_found")
  | _ => .error .multipleResultsFound

end Read

section Cancel

/-- Whether a cancellation of the runs reaches the command. -/
def isCancelled (runIds : List TaskRunId) (command : Command) : Bool :=
  command.taskRunId ∈ runIds ∧ isActive command.status

def cancelRow (runIds : List TaskRunId) (command : Command) : Command :=
  if isCancelled runIds command then { command with status := .cancelled } else command

variable {rows : List Command} {tables : Tables} {command : Command} {runIds : List TaskRunId}

theorem cancelRow_kept (runIds : List TaskRunId) (command : Command) :
    ∃ status, cancelRow runIds command = { command with status := status } := by
  rw [cancelRow]
  split
  · exact ⟨.cancelled, rfl⟩
  · exact ⟨command.status, rfl⟩

theorem cancelRun_rows (unique : (rows.map Command.id).Nodup) (count : Nat) (run : TaskRun) :
    cancelRun (count, rows) run =
      (count + rows.countP (isCancelled [run.id]), rows.map (cancelRow [run.id])) := by
  have filtered : rows.filter (fun command =>
      command.taskRunId = run.id ∧ isActive command.status) =
        rows.filter (isCancelled [run.id]) :=
    List.filter_congr fun command _ => by simp [isCancelled]
  rw [cancelRun, filtered]
  refine Prod.ext (by rw [List.countP_eq_length_filter]) (List.map_congr_left fun row member => ?_)
  have named : row.id ∈ (rows.filter (isCancelled [run.id])).map Command.id ↔
      isCancelled [run.id] row = true := by
    constructor
    · intro inside
      obtain ⟨other, kept, same⟩ := List.mem_map.mp inside
      obtain ⟨there, cancelled⟩ := List.mem_filter.mp kept
      rwa [← key_injective unique there member same]
    · intro cancelled
      exact List.mem_map.mpr ⟨row, List.mem_filter.mpr ⟨member, cancelled⟩, rfl⟩
  simp only [setStatus, cancelRow, named]

theorem cancelRow_cancelRow (first : TaskRunId) (rest : List TaskRunId) (command : Command) :
    cancelRow rest (cancelRow [first] command) = cancelRow (first :: rest) command := by
  by_cases own : command.taskRunId = first <;> by_cases active : isActive command.status <;>
    simp [cancelRow, isCancelled, own, active, show isActive .cancelled = false from rfl]

theorem countP_cancelRow (first : TaskRunId) (rest : List TaskRunId) (rows : List Command) :
    rows.countP (isCancelled [first]) + (rows.map (cancelRow [first])).countP (isCancelled rest) =
      rows.countP (isCancelled (first :: rest)) := by
  induction rows with
  | nil => rfl
  | cons command rows ih =>
    have once : (if isCancelled [first] command then 1 else 0) +
        (if isCancelled rest (cancelRow [first] command) then 1 else 0) =
          if isCancelled (first :: rest) command then 1 else 0 := by
      by_cases own : command.taskRunId = first <;> by_cases active : isActive command.status <;>
        simp [cancelRow, isCancelled, own, active, show isActive .cancelled = false from rfl]
    rw [List.map_cons, List.countP_cons, List.countP_cons, List.countP_cons]
    omega

theorem foldl_cancelRun (unique : (rows.map Command.id).Nodup) (runs : List TaskRun)
    (count : Nat) :
    runs.foldl cancelRun (count, rows) =
      (count + rows.countP (isCancelled (runs.map TaskRun.id)),
        rows.map (cancelRow (runs.map TaskRun.id))) := by
  induction runs generalizing rows count with
  | nil =>
    have untouched : cancelRow [] = id := by
      funext command
      simp [cancelRow, isCancelled]
    have none_ : rows.countP (isCancelled []) = 0 := by
      simp [List.countP_eq_zero, isCancelled]
    rw [List.foldl_nil, List.map_nil, none_, untouched, List.map_id, Nat.add_zero]
  | cons run runs ih =>
    have kept : ((rows.map (cancelRow [run.id])).map Command.id).Nodup :=
      unique_map unique fun row => by
        obtain ⟨status, same⟩ := cancelRow_kept [run.id] row
        rw [same]
    rw [List.foldl_cons, cancelRun_rows unique, ih kept, List.map_map, Nat.add_assoc,
      countP_cancelRow]
    refine Prod.ext rfl (List.map_congr_left fun row _ => ?_)
    exact cancelRow_cancelRow run.id (runs.map TaskRun.id) row

/-- `cancel_task` cancels the active commands of the task's runs, and counts them. -/
theorem cancelTask_eq (unique : (tables.commands.map Command.id).Nodup) (taskId : TaskId) :
    cancelTask tables taskId =
      (tables.commands.countP (isCancelled ((runsOfTask tables taskId).map TaskRun.id)),
        { tables with
          commands := tables.commands.map
            (cancelRow ((runsOfTask tables taskId).map TaskRun.id)) }) := by
  rw [cancelTask, foldl_cancelRun unique, Nat.zero_add]

end Cancel

end HlHelper.Tasks
