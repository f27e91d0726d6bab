import HlHelper.Envelope
import HlHelper.Library.Checked
import Mathlib.Algebra.Group.Int.Defs

/-! Payloads, risk levels and envelopes as the API dispatcher builds them. -/

namespace HlHelper.Dispatch

/-- JSON values of the `Task` columns. -/
inductive Json where
  | bool (b : Bool)
  | int (n : Int)
  | str (s : String)
  | arr (items : List Json)
  | obj (fields : List (String × Json))
  deriving Inhabited, Repr

inductive DispatchError where
  | typeError (message : String)
  | valueError (message : String)
  | integrityError (message : String)
  deriving DecidableEq, Repr, Inhabited

/-- The payload dataclasses; `unsupported` is any other object a caller may hand
over, with its `payload_kind` if it has one. -/
inductive TaskPayload where
  | reboot (delayS : Int) (reason : String)
  | shellExec (command : String) (timeoutS : Int) (asRoot : Bool) (reason : String)
  | pkgUpdate (classes : List String)
  | unsupported (typeName : String) (kind : Option String)
  deriving DecidableEq, Repr, Inhabited

def getPayloadKind : TaskPayload → Except DispatchError String
  | .reboot .. => .ok "reboot"
  | .shellExec .. => .ok "shell_exec"
  | .pkgUpdate .. => .ok "pkg_update"
  | .unsupported _ (some kind) => .ok kind
  | .unsupported typeName none => .error (.typeError ("payload has no payload_kind: " ++ typeName))

def payloadToDict : TaskPayload → Except DispatchError Json
  | .reboot delayS reason => .ok (.obj [("delay_s", .int delayS), ("reason", .str reason)])
  | .shellExec command timeoutS asRoot reason =>
    .ok (.obj [("command", .str command), ("timeout_s", .int timeoutS),
      ("as_root", .bool asRoot), ("reason", .str reason)])
  | .pkgUpdate classes => .ok (.obj [("classes", .arr (classes.map .str))])
  | .unsupported typeName _ => .error (.typeError ("unsupported payload type: " ++ typeName))

/-- A value for a `uint32` field; the protobuf runtime refuses any other. -/
def uint32 (n : Int) : Except DispatchError Nat :=
  if 0 ≤ n ∧ n < 2 ^ 32 then .ok n.toNat
  else .error (.valueError ("Value out of range: " ++ toString n))

def payloadToProto : TaskPayload → Except DispatchError Payload
  | .reboot delayS reason => (uint32 delayS).map (fun delay => .reboot delay reason)
  | .shellExec command timeoutS asRoot reason =>
    (uint32 timeoutS).map (fun timeout => .shellExec command [] timeout asRoot reason)
  | .pkgUpdate classes => .ok (.pkgUpdate classes false)
  | .unsupported typeName _ => .error (.typeError ("unsupported payload type: " ++ typeName))

inductive TaskKind where
  | pkgUpdate | shellExec | reboot | shutdown | containerUpdate | fileTransfer | custom
  | agentUpdate
  deriving DecidableEq, Repr, Inhabited

def taskKind (value : String) : Except DispatchError TaskKind :=
  if value = "pkg_update" then .ok .pkgUpdate
  else if value = "shell_exec" then .ok .shellExec
  else if value = "reboot" then .ok .reboot
  else if value = "shutdown" then .ok .shutdown
  else if value = "container_update" then .ok .containerUpdate
  else if value = "file_transfer" then .ok .fileTransfer
  else if value = "custom" then .ok .custom
  else if value = "agent_update" then .ok .agentUpdate
  else .error (.valueError ("'" ++ value ++ "' is not a valid TaskKind"))

def actionName (payloadKind : String) : String :=
  if payloadKind = "shell_exec" then "host:exec"
  else if payloadKind = "reboot" then "host:reboot"
  else if payloadKind = "shutdown" then "host:shutdown"
  else if payloadKind = "pkg_update" then "host:pkg_update"
  else "host:" ++ payloadKind

inductive RiskLevel where
  | low | med | high
  deriving DecidableEq, Repr, Inhabited

/-- The `classes` entry of the payload metadata. A Python tuple never equals a
list, so the two are kept apart. -/
inductive Classes where
  | list (items : List String)
  | tuple (items : List String)
  deriving DecidableEq, Repr

def extractPayloadMetadata : TaskPayload → Option Classes
  | .pkgUpdate classes => some (.tuple classes)
  | _ => none

def classify (payloadKind : String) (targetCount : Nat) (classes : Option Classes) : RiskLevel :=
  if payloadKind = "shell_exec" ∨ payloadKind = "container_exec" then .high
  else if payloadKind = "reboot" ∨ payloadKind = "shutdown" then
    if 1 < targetCount then .high else .med
  else if payloadKind = "pkg_update" then
    if classes = some (.list ["security"]) then .low else .med
  else if payloadKind = "file_transfer" then .med
  else if payloadKind = "container_update" then
    if targetCount ≤ 5 then .med else .high
  else .high

def riskToProto : RiskLevel → Int
  | .low => 0
  | .med => 1
  | .high => 2

/-- Time to live of a command: the shell timeout when there is one, else 300 s,
and 30 s of slack. -/
def lifetimeS : TaskPayload → Int
  | .shellExec _ timeoutS _ _ => (if 0 < timeoutS then timeoutS else 300) + 30
  | _ => 300 + 30

structure CapabilityClaims where
  hostId : HostId
  action : String
  resource : Option String
  issuedAt : Int
  expiresAt : Int
  issuer : String
  deriving DecidableEq, Repr

structure Principal where
  userId : Option String
  serviceAccountId : Option String
  userGroupIds : List String
  deriving DecidableEq, Repr, Inhabited

def truthy : Option String → Option String
  | some "" => none
  | other => other

theorem truthy_eq_some {value : Option String} {text : String} :
    truthy value = some text ↔ value = some text ∧ text ≠ "" := by
  unfold truthy
  split
  · simp only [reduceCtorEq, Option.some.injEq, false_iff, not_and, not_not]
    exact Eq.symm
  · next nonempty =>
    refine ⟨fun filled => ⟨filled, ?_⟩, And.left⟩
    rintro rfl
    exact nonempty filled

def principalIdentity (principal : Principal) : Except DispatchError String :=
  match truthy principal.userId with
  | some ident => .ok ident
  | none =>
    match truthy principal.serviceAccountId with
    | some ident => .ok ident
    | none => .error (.valueError
        "principal has no identity (user_id or service_account_id required)")

structure Order where
  principalId : String
  payloadKind : String
  payload : TaskPayload
  risk : RiskLevel
  now : Int
  deriving DecidableEq, Repr

def Order.expiresAt (order : Order) : Int := order.now + seconds (lifetimeS order.payload)

/-- Step 8 of a dispatch; `issue` is the capability issuer. -/
def buildEnvelope (issue : CapabilityClaims → Bytes) (order : Order) (hostId : HostId)
    (commandId : CommandId) (sequence : Nat) (nonce : Bytes) :
    Except DispatchError CommandEnvelope :=
  let claims : CapabilityClaims :=
    { hostId := hostId
      action := order.payloadKind
      resource := none
      issuedAt := order.now
      expiresAt := order.expiresAt
      issuer := order.principalId }
  (payloadToProto order.payload).map fun payload =>
    { commandId := commandId
      hostId := hostId
      sequence := sequence
      nonce := nonce
      issuedAt := some order.now
      expiresAt := some order.expiresAt
      issuedBy := order.principalId
      risk := riskToProto order.risk
      capability := some ⟨issue claims, ["host:" ++ hostId, "action:" ++ order.payloadKind]⟩
      payload := some payload
      signature := [] }

theorem buildEnvelope_fields {issue : CapabilityClaims → Bytes} {order : Order} {hostId : HostId}
    {commandId : CommandId} {sequence : Nat} {nonce : Bytes} {env : CommandEnvelope}
    (built : buildEnvelope issue order hostId commandId sequence nonce = .ok env) :
    env.commandId = commandId ∧ env.hostId = hostId ∧ env.sequence = sequence ∧
      env.nonce = nonce ∧ env.issuedAt = some order.now ∧ env.expiresAt = some order.expiresAt ∧
      env.risk = riskToProto order.risk ∧ env.signature = [] := by
  unfold buildEnvelope at built
  cases proto : payloadToProto order.payload with
  | error error => simp [proto, Except.map] at built
  | ok payload =>
    simp only [proto, Except.map, Except.ok.injEq] at built
    subst built
    exact ⟨rfl, rfl, rfl, rfl, rfl, rfl, rfl, rfl⟩

end HlHelper.Dispatch
