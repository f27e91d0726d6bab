import HlHelper.Inbound.ResultHandler
import Mathlib.Data.List.Lex

/-! `_recv_loop` with its inventory handlers: what a message of an agent does to the database. The
host id is the one that the stream was authenticated with, but for the inventory handlers, which
take the one that the message names. -/

namespace HlHelper.Inbound

open Audit Library

structure Pkg where
  ecosystem : String
  name : String
  version : String
  source : String
  arch : String
  deriving DecidableEq, Repr, Inhabited

structure PackageInventory where
  hostId : HostId
  added : List Pkg
  removed : List Pkg
  fullSnapshot : Bool
  deriving DecidableEq, Repr, Inhabited

structure Container where
  id : String
  name : String
  imageRef : String
  imageDigest : String
  state : String
  engine : String
  deriving DecidableEq, Repr, Inhabited

structure ContainerInventory where
  hostId : HostId
  containers : List Container
  fullSnapshot : Bool
  deriving DecidableEq, Repr, Inhabited

structure HostFacts where
  hostId : HostId
  sshd : List (String × String)
  sysctl : List (String × String)
  mounts : List String
  fsPerms : List (String × String)
  deriving DecidableEq, Repr, Inhabited

/-- `text or None`. -/
def nonblank (text : String) : Option String := if text = "" then none else some text

/-- `INSERT ... ON CONFLICT DO UPDATE`: the row with the key of the new one is updated,
or the new row is inserted. -/
def upsert {α β : Type} [DecidableEq β] (key : α → β) (new : α) (update : α → α) (rows : List α) :
    List α :=
  if key new ∈ rows.map key then
    rows.map (fun row => if key row = key new then update row else row)
  else rows ++ [new]

def packageKey (row : HostPackage) : HostId × String × String :=
  (row.hostId, row.ecosystem, row.name)

def containerKey (row : HostContainer) : HostId × String := (row.hostId, row.containerId)

def upsertPackage (hostId : HostId) (now : Datetime) (rows : List HostPackage) (pkg : Pkg) :
    List HostPackage :=
  upsert packageKey
    ⟨hostId, pkg.ecosystem, pkg.name, pkg.version, nonblank pkg.source, nonblank pkg.arch, now⟩
    (fun row => { row with version := pkg.version, lastSeen := now }) rows

def deletePackage (hostId : HostId) (rows : List HostPackage) (pkg : Pkg) : List HostPackage :=
  rows.filter (fun row => packageKey row ≠ (hostId, pkg.ecosystem, pkg.name))

def upsertContainer (hostId : HostId) (now : Datetime) (rows : List HostContainer)
    (container : Container) : List HostContainer :=
  upsert containerKey
    ⟨hostId, container.id, container.name, container.imageRef, container.imageDigest,
      container.state, container.engine, now⟩
    (fun row => { row with
      state := container.state
      imageRef := container.imageRef
      imageDigest := container.imageDigest
      lastSeen := now }) rows

theorem findKey_setHost {update : Host → Host} (kept : ∀ host, (update host).id = host.id)
    (db : Db) (g h : HostId) :
    findKey Host.id (db.setHost g update).hosts h =
      (findKey Host.id db.hosts h).map
        (fun host => if host.id = g then update host else host) := by
  apply findKey_map
  intro host
  split
  · exact kept host
  · rfl

/-- The rows refer to a host; a row for a host that is not there fails the transaction. -/
def Db.knows (db : Db) (hostId : HostId) : Bool := db.hosts.any (fun host => host.id = hostId)

def handlePackageInventory (db : Db) (msg : PackageInventory) (now : Datetime) : Db :=
  if msg.hostId = "" then db
  else if db.knows msg.hostId = false ∧ msg.added ≠ [] then db
  else
    let kept :=
      if msg.fullSnapshot then db.packages.filter (fun row => row.hostId ≠ msg.hostId)
      else db.packages
    let added := msg.added.foldl (upsertPackage msg.hostId now) kept
    { db with packages := msg.removed.foldl (deletePackage msg.hostId) added }

def handleContainerInventory (db : Db) (msg : ContainerInventory) (now : Datetime) : Db :=
  if msg.hostId = "" then db
  else if db.knows msg.hostId = false ∧ msg.containers ≠ [] then db
  else
    let kept :=
      if msg.fullSnapshot then db.containers.filter (fun row => row.hostId ≠ msg.hostId)
      else db.containers
    { db with containers := msg.containers.foldl (upsertContainer msg.hostId now) kept }

/-- `fields[name] = value` on a dict. -/
def setField (fields : List (String × Value)) (name : String) (value : Value) :
    List (String × Value) :=
  if name ∈ fields.map Prod.fst then
    fields.map (fun field => if field.1 = name then (name, value) else field)
  else fields ++ [(name, value)]

theorem findKey_setField (fields : List (String × Value)) (name : String) (value : Value)
    (key : String) :
    findKey Prod.fst (setField fields name value) key =
      if key = name then some (name, value) else findKey Prod.fst fields key := by
  unfold setField
  by_cases present : name ∈ fields.map Prod.fst
  · rw [if_pos present]
    have kept : ∀ field : String × Value,
        (if field.1 = name then (name, value) else field).1 = field.1 := by
      intro field
      split
      · next named => exact named.symm
      · rfl
    rw [findKey_map kept]
    cases found : findKey Prod.fst fields key with
    | none =>
      have absent := findKey_none.mp found
      rw [Option.map_none, if_neg]
      rintro rfl
      exact absent present
    | some field =>
      have named := (findKey_some found).2
      rw [Option.map_some, named]
      split <;> rfl
  · rw [if_neg present, findKey_append]
    by_cases named : key = name
    · subst named
      rw [findKey_none.mpr present]
      simp [findKey]
    · rw [if_neg named]
      have absent : findKey Prod.fst [(name, value)] key = none := by
        simp [findKey, Ne.symm named]
      rw [absent, Option.or_none]

def textDict (entries : List (String × String)) : Value :=
  .obj (entries.map (fun entry => (entry.1, .str entry.2)))

def factsOf (msg : HostFacts) (now : Datetime) : Value :=
  .obj [
    ("sshd", textDict msg.sshd),
    ("sysctl", textDict msg.sysctl),
    ("mounts", .arr (msg.mounts.map Value.str)),
    ("fs_perms", textDict msg.fsPerms),
    ("at", .str (String.ofList (isoformat now).toList.dropLast ++ "+00:00"))]

def handleHostFacts (db : Db) (msg : HostFacts) (now : Datetime) : Db :=
  if msg.hostId = "" then db
  else
    db.setHost msg.hostId (fun host =>
      { host with survey := some (setField (host.survey.getD []) "facts" (factsOf msg now)) })

open Results

/-- `sleepUntil` is the timestamp as `ToDatetime` gives it, and the metrics are as
Python prints them. -/
structure Heartbeat where
  load1 : String
  load5 : String
  load15 : String
  memUsedPct : String
  diskUsedPct : String
  uptimeSeconds : Nat
  netRxBps : Nat
  netTxBps : Nat
  agentVersion : String
  updateStatus : Int
  updateTargetVersion : String
  sleeping : Bool
  sleepUntil : Datetime
  deriving DecidableEq, Repr, Inhabited

structure AgentAuditEvent where
  taskId : String
  binary : String
  args : List String
  elevator : String
  reason : String
  phase : String
  exitCode : Int
  error : String
  deriving DecidableEq, Repr, Inhabited

/-- A survey is held as `MessageToDict` gives it. -/
inductive AgentToServer where
  | result (env : ResultEnvelope)
  | heartbeat (beat : Heartbeat)
  | hostSurvey (survey : List (String × Value))
  | audit (event : AgentAuditEvent)
  | packageInventory (msg : PackageInventory)
  | containerInventory (msg : ContainerInventory)
  | hostFacts (msg : HostFacts)
  deriving Inhabited

/-- `_HB_STATUS_MAP`. -/
def updateStatusOf (status : Int) : AgentUpdateStatus :=
  if status = 2 then .downloading
  else if status = 3 then .swapping
  else if status = 4 then .healthchecking
  else if status = 5 then .rolledBack
  else if status = 6 then .failed
  else .idle

def metricsDict (beat : Heartbeat) : Value :=
  .obj [
    ("load_1", .float beat.load1),
    ("load_5", .float beat.load5),
    ("load_15", .float beat.load15),
    ("mem_used_pct", .float beat.memUsedPct),
    ("disk_used_pct", .float beat.diskUsedPct),
    ("uptime_seconds", .int beat.uptimeSeconds),
    ("net_rx_bps", .int beat.netRxBps),
    ("net_tx_bps", .int beat.netTxBps)]

def persistHeartbeat (beat : Heartbeat) (now : Datetime) (host : Host) : Host :=
  let versioned :=
    if beat.agentVersion ≠ "" ∧ host.agentVersion ≠ some beat.agentVersion then
      { host with
        agentVersion := some beat.agentVersion
        agentVersionUpdatedAt := some now
        labels := setField host.labels "agent_version" (.str beat.agentVersion) }
    else host
  { versioned with
    agentUpdateStatus := updateStatusOf beat.updateStatus
    agentUpdateTargetVersion := nonblank beat.updateTargetVersion
    sleeping := beat.sleeping
    sleepUntil := if beat.sleeping then some beat.sleepUntil else none }

def heartbeat (beat : Heartbeat) (now : Datetime) (host : Host) : Host :=
  persistHeartbeat beat now
    { host with
      lastSeenAt := some now
      status := .healthy
      metrics := some (metricsDict beat)
      metricsAt := some now }

def isResurvey (task : Task) : Bool :=
  decide (task.kind = .custom) &&
    match task.payload with
    | .obj fields =>
      match fields.find? (fun field => field.1 = "action") with
      | some (_, .str action) => action = "resurvey"
      | _ => false
    | _ => false

def moment (t : Datetime) : List Nat :=
  [t.year, t.month, t.day, t.hour, t.minute, t.second, t.microsecond]

/-- `ORDER BY started_at DESC`, where a missing time comes first. -/
def startsLater (a b : RunRow) : Prop :=
  match a.startedAt, b.startedAt with
  | none, _ => True
  | some _, none => False
  | some first, some second => moment second ≤ moment first

instance : DecidableRel startsLater := fun a b => by
  unfold startsLater
  split <;> infer_instance

/-- The newest running runs of the host whose task exists, five at most. -/
def runningRuns (db : Db) (hostId : HostId) : List RunRow :=
  ((db.runs.filter (fun run => run.hostId = hostId ∧ run.status = .running ∧
    run.taskId ∈ db.tasks.map Task.id)).insertionSort startsLater).take 5

def resurveyRun (db : Db) (hostId : HostId) : Option RunRow :=
  (runningRuns db hostId).find? (fun run =>
    (findKey Task.id db.tasks run.taskId).any isResurvey)

def closeResurvey (db : Db) (hostId : HostId) (now : Datetime) : Db :=
  match resurveyRun db hostId with
  | none => db
  | some closed =>
    { db with
      runs := db.runs.map (fun run =>
        if run.id = closed.id then
          { run with
            status := .succeeded, finishedAt := some now, summary := some "survey collected" }
        else run)
      tasks := db.tasks.map (fun task =>
        if task.id = closed.taskId then { task with status := .succeeded } else task) }

def handleSurvey (db : Db) (hostId : HostId) (survey : List (String × Value)) (now : Datetime) :
    Db :=
  closeResurvey
    (db.setHost hostId (fun host => { host with survey := some survey, surveyAt := some now }))
    hostId now

/-- The entry that an agent's audit event is recorded as. -/
def auditArgs (hostId : HostId) (event : AgentAuditEvent) (now : Datetime) : Args :=
  ⟨"agent:" ++ hostId, "exec.elevated." ++ event.phase, some event.taskId,
    .obj [
      ("binary", .str event.binary),
      ("args", .arr (event.args.map Value.str)),
      ("elevator", .str event.elevator),
      ("reason", .str event.reason),
      ("exit_code", .int event.exitCode),
      ("error", .str event.error)],
    now⟩

section Receive

variable (sql : Tasks.SqlOrder) (sha : Sha256) (proto : ResultProtobuf) (ed : Ed25519)

/-- A rejected result is logged; its changes are committed by then. -/
def recvMessage (db : Db) (hostId : HostId) (now : Datetime) (resultId : String) (raced : Bool) :
    AgentToServer → Db
  | .result env => (handle sql sha proto ed db env hostId now resultId raced).2
  | .heartbeat beat => db.setHost hostId (heartbeat beat now)
  | .hostSurvey survey => handleSurvey db hostId survey now
  | .audit event => db.appendAudit (auditArgs hostId event now)
  | .packageInventory msg => handlePackageInventory db msg now
  | .containerInventory msg => handleContainerInventory db msg now
  | .hostFacts msg => handleHostFacts db msg now

end Receive

end HlHelper.Inbound
