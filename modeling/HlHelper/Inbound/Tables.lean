import HlHelper.Audit.SqlChain
import HlHelper.Tasks.Rollup

/-! The tables that a message of an agent may change. -/

namespace HlHelper.Inbound

open Audit

/-- The values of `Host.status` that the server writes. -/
inductive HostStatus where
  | offline | healthy | warning | quarantined | revoked
  deriving DecidableEq, Repr, Inhabited

inductive AgentUpdateStatus where
  | idle | downloading | swapping | healthchecking | rolledBack | failed
  deriving DecidableEq, Repr, Inhabited

structure Host where
  id : HostId
  agentPubkey : Bytes
  status : HostStatus
  lastSeenAt : Option Datetime
  labels : List (String × Value)
  survey : Option (List (String × Value))
  surveyAt : Option Datetime
  metrics : Option Value
  metricsAt : Option Datetime
  agentVersion : Option String
  agentVersionUpdatedAt : Option Datetime
  agentUpdateStatus : AgentUpdateStatus
  agentUpdateTargetVersion : Option String
  sleeping : Bool
  sleepUntil : Option Datetime
  deriving Inhabited

structure HostPackage where
  hostId : HostId
  ecosystem : String
  name : String
  version : String
  source : Option String
  arch : Option String
  lastSeen : Datetime
  deriving DecidableEq, Repr, Inhabited

structure HostContainer where
  hostId : HostId
  containerId : String
  name : String
  imageRef : String
  imageDigest : String
  state : String
  engine : String
  lastSeen : Datetime
  deriving DecidableEq, Repr, Inhabited

/-- A row of `results`; the roll-ups read the fields of `Result`. -/
structure ResultRow extends Result where
  receivedAt : Datetime
  exitCode : Option Int
  rejectionReason : Option String
  stdoutBlob : Option Bytes
  stderrBlob : Option Bytes
  final : Bool
  prevResultHash : Option Bytes
  signature : Bytes
  deriving DecidableEq, Repr, Inhabited

/-- A row of `task_runs` with the columns that a survey writes. -/
structure RunRow extends TaskRun where
  startedAt : Option Datetime
  finishedAt : Option Datetime
  summary : Option String
  deriving DecidableEq, Repr, Inhabited

/-- `audit` holds what is appended to the audit chain. -/
structure Db where
  hosts : List Host
  packages : List HostPackage
  containers : List HostContainer
  results : List ResultRow
  tasks : List Task
  runs : List RunRow
  commands : List Command
  audit : List Args

def Db.empty : Db := ⟨[], [], [], [], [], [], [], []⟩

def Db.rollup (db : Db) : Tasks.Db :=
  ⟨db.tasks, db.runs.map RunRow.toTaskRun, db.commands, db.results.map ResultRow.toResult⟩

def Db.setHost (db : Db) (hostId : HostId) (update : Host → Host) : Db :=
  { db with hosts := db.hosts.map (fun host => if host.id = hostId then update host else host) }

def Db.appendAudit (db : Db) (entry : Args) : Db := { db with audit := db.audit ++ [entry] }

end HlHelper.Inbound
