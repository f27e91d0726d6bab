import HlHelper.Dispatch.Payload

/-! The rows of the server's database that dispatch, delivery and results share. -/

namespace HlHelper

open Dispatch

inductive CommandStatus where
  | queued | inFlight | acked | succeeded | failed | expired | cancelled
  deriving DecidableEq, Repr, Inhabited

inductive TaskStatus where
  | pending | approved | running | succeeded | partialSuccess | failed | cancelled | expired
  deriving DecidableEq, Repr, Inhabited

inductive TaskRunStatus where
  | pending | running | succeeded | failed | skipped | expired
  deriving DecidableEq, Repr, Inhabited

/-- The values of `Result.status` that `_result_status_to_string` returns. -/
inductive ResultStatus where
  | ok | fail | rejected | timeout | capabilityDenied | unknown
  deriving DecidableEq, Repr, Inhabited

abbrev TaskId := String
abbrev TaskRunId := String

structure Task where
  id : TaskId
  kind : TaskKind
  createdBy : String
  status : TaskStatus
  payload : Json
  targetSelector : Json
  idempotencyKey : Option String
  risk : RiskLevel
  requiresApproval : Bool
  deriving Inhabited

structure TaskRun where
  id : TaskRunId
  taskId : TaskId
  hostId : HostId
  status : TaskRunStatus
  deriving DecidableEq, Repr, Inhabited

structure Command where
  id : CommandId
  taskRunId : TaskRunId
  hostId : HostId
  sequence : Nat
  envelopeBytes : Bytes
  risk : RiskLevel
  issuedAt : Int
  expiresAt : Int
  status : CommandStatus
  idempotencyKey : Option String
  deriving DecidableEq, Repr, Inhabited

structure Result where
  id : String
  commandId : CommandId
  hostId : HostId
  sequence : Nat
  status : ResultStatus
  deriving DecidableEq, Repr, Inhabited

end HlHelper
