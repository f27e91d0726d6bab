import HlHelper.Envelope
import HlHelper.Library.Wire
import Mathlib.Algebra.Group.Int.Defs
import Mathlib.Algebra.Group.Nat.Defs

/-! The wire format of a command envelope, as the messages of `envelope.proto`
and `commands.proto` lay it out: one protobuf runtime that meets the law. -/

namespace HlHelper.Wire

open HlHelper.Library.Wire

/-- Two's complement in 64 bits. Values that no `int64` holds go above, so that
reading back is total. -/
def putInt (n : Int) : Nat :=
  if 0 ≤ n ∧ n < 2 ^ 63 then n.toNat
  else if n < 0 ∧ -2 ^ 63 ≤ n then (n + 2 ^ 64).toNat
  else if 0 ≤ n then 2 ^ 64 + 2 * (n - 2 ^ 63).toNat
  else 2 ^ 64 + 2 * (-n).toNat + 1

def getInt (n : Nat) : Int :=
  if n < 2 ^ 63 then n
  else if n < 2 ^ 64 then n - 2 ^ 64
  else if n % 2 = 0 then (n - 2 ^ 64) / 2 + 2 ^ 63
  else -((n - 2 ^ 64 - 1) / 2)

@[simp] theorem getInt_putInt (n : Int) : getInt (putInt n) = n := by
  unfold getInt putInt
  split_ifs <;> omega

/-- `google.protobuf.Timestamp`. -/
def timestampFields (moment : Int) : List Field :=
  nat 1 (putInt (moment / 1000000000)) ++ nat 2 (moment % 1000000000).toNat

def timestamp (fields : List Field) : Int :=
  getInt (natOf (select 1 fields)) * 1000000000 + natOf (select 2 fields)

@[simp] theorem timestamp_fields (moment : Int) : timestamp (timestampFields moment) = moment := by
  have parts (n : Int) : n / 1000000000 * 1000000000 + ((n % 1000000000).toNat : Int) = n := by
    omega
  simpa [timestamp, timestampFields] using parts moment

def capabilityFields (token : CapabilityToken) : List Field :=
  bytes 1 token.biscuit ++ texts 2 token.declaredScopes

def capability (fields : List Field) : Option CapabilityToken := do
  let declaredScopes ← textsOf (select 2 fields)
  return ⟨bytesOf (select 1 fields), declaredScopes⟩

@[simp] theorem capability_fields (token : CapabilityToken) :
    capability (capabilityFields token) = some token := by
  simp [capability, capabilityFields]

def payloadNumber : Payload → Nat
  | .pkgUpdate .. => 100
  | .reboot .. => 101
  | .shellExec .. => 102
  | .terminalOpen .. => 103
  | .fileTransfer .. => 104
  | .dockerOp .. => 105
  | .getFacts .. => 106
  | .pluginInvoke .. => 107
  | .agentUpdate .. => 108

def payloadFields : Payload → List Field
  | .pkgUpdate classes dryRun => texts 1 classes ++ flag 2 dryRun
  | .reboot delaySeconds reason => nat 1 delaySeconds ++ text 2 reason
  | .shellExec command args timeoutSeconds asRoot reason =>
    text 1 command ++ texts 2 args ++ nat 3 timeoutSeconds ++ flag 4 asRoot ++ text 5 reason
  | .terminalOpen sessionId cols rows => text 1 sessionId ++ nat 2 cols ++ nat 3 rows
  | .fileTransfer upload remotePath sizeBytes =>
    flag 1 (!upload) ++ text 2 remotePath ++ nat 3 sizeBytes
  | .dockerOp op container => text 1 op ++ text 2 container
  | .getFacts keys => texts 1 keys
  | .pluginInvoke pluginId payload => text 1 pluginId ++ bytes 2 payload
  | .agentUpdate releaseId manifestJson manifestSig binaryUrl downloadToken expectedSha256
      expectedSize force =>
    text 1 releaseId ++ bytes 2 manifestJson ++ bytes 3 manifestSig ++ text 4 binaryUrl ++
      text 5 downloadToken ++ text 6 expectedSha256 ++ nat 7 expectedSize ++ flag 8 force

def payloadAt (number : Nat) (fields : List Field) : Option Payload :=
  if number = 100 then do
    return .pkgUpdate (← textsOf (select 1 fields)) (flagOf (select 2 fields))
  else if number = 101 then do
    return .reboot (natOf (select 1 fields)) (← textOf (select 2 fields))
  else if number = 102 then do
    return .shellExec (← textOf (select 1 fields)) (← textsOf (select 2 fields))
      (natOf (select 3 fields)) (flagOf (select 4 fields)) (← textOf (select 5 fields))
  else if number = 103 then do
    return .terminalOpen (← textOf (select 1 fields)) (natOf (select 2 fields))
      (natOf (select 3 fields))
  else if number = 104 then do
    return .fileTransfer (!flagOf (select 1 fields)) (← textOf (select 2 fields))
      (natOf (select 3 fields))
  else if number = 105 then do
    return .dockerOp (← textOf (select 1 fields)) (← textOf (select 2 fields))
  else if number = 106 then do
    return .getFacts (← textsOf (select 1 fields))
  else if number = 107 then do
    return .pluginInvoke (← textOf (select 1 fields)) (bytesOf (select 2 fields))
  else if number = 108 then do
    return .agentUpdate (← textOf (select 1 fields)) (bytesOf (select 2 fields))
      (bytesOf (select 3 fields)) (← textOf (select 4 fields)) (← textOf (select 5 fields))
      (← textOf (select 6 fields)) (natOf (select 7 fields)) (flagOf (select 8 fields))
  else none

theorem payloadAt_fields (payload : Payload) :
    payloadAt (payloadNumber payload) (payloadFields payload) = some payload := by
  cases payload <;> simp [payloadAt, payloadNumber, payloadFields]

theorem payloadNumber_range (payload : Payload) :
    100 ≤ payloadNumber payload ∧ payloadNumber payload ≤ 108 := by
  cases payload <;> simp [payloadNumber]

def payloadMessage : Option Payload → List Field
  | none => []
  | some payload => message (payloadNumber payload) (some (payloadFields payload))

@[simp] theorem pick_payloadMessage_none {p : Nat → Bool} (payload : Option Payload)
    (refused : ∀ number, 100 ≤ number → number ≤ 108 → p number = false) :
    pick p (payloadMessage payload) = [] := by
  cases payload with
  | none => rfl
  | some payload =>
    have range := payloadNumber_range payload
    exact pick_message_none (refused _ range.1 range.2) _

def envelopeFields (env : CommandEnvelope) : List Field :=
  text 1 env.commandId ++ text 2 env.hostId ++ nat 3 env.sequence ++ bytes 4 env.nonce ++
    message 5 (env.issuedAt.map timestampFields) ++
    message 6 (env.expiresAt.map timestampFields) ++
    text 7 env.issuedBy ++ nat 8 (putInt env.risk) ++
    message 9 (env.capability.map capabilityFields) ++
    payloadMessage env.payload ++
    bytes 200 env.signature

/-- The alternative of the oneof that was written last. -/
def oneofPayload (fields : List Field) : Option (Option Payload) :=
  match (pick (fun number => 100 ≤ number ∧ number ≤ 108) fields).getLast? with
  | some (number, .bytes content) => do
      let inner ← getFields content
      let payload ← payloadAt number inner
      return some payload
  | some (_, .varint _) => none
  | none => some none

def envelope (fields : List Field) : Option CommandEnvelope := do
  let commandId ← textOf (select 1 fields)
  let hostId ← textOf (select 2 fields)
  let issuedAt ← messageOf (select 5 fields)
  let expiresAt ← messageOf (select 6 fields)
  let issuedBy ← textOf (select 7 fields)
  let token ← messageOf (select 9 fields)
  let capability ← token.mapM capability
  let payload ← oneofPayload fields
  return {
    commandId := commandId
    hostId := hostId
    sequence := natOf (select 3 fields)
    nonce := bytesOf (select 4 fields)
    issuedAt := issuedAt.map timestamp
    expiresAt := expiresAt.map timestamp
    issuedBy := issuedBy
    risk := getInt (natOf (select 8 fields))
    capability := capability
    payload := payload
    signature := bytesOf (select 200 fields) }

theorem oneofPayload_message (payload : Option Payload) :
    oneofPayload (payloadMessage payload) = some payload := by
  cases payload with
  | none => rfl
  | some payload =>
    have range := payloadNumber_range payload
    simp [oneofPayload, payloadMessage, message, pick, range, getFields_putFields,
      payloadAt_fields]

theorem oneofPayload_fields (env : CommandEnvelope) :
    oneofPayload (envelopeFields env) = some env.payload := by
  rw [← oneofPayload_message env.payload]
  have inside : pick (fun number => 100 ≤ number ∧ number ≤ 108) (envelopeFields env) =
      pick (fun number => 100 ≤ number ∧ number ≤ 108) (payloadMessage env.payload) := by
    simp [envelopeFields]
  rw [oneofPayload, oneofPayload, inside]

theorem envelope_fields (env : CommandEnvelope) : envelope (envelopeFields env) = some env := by
  have payload := oneofPayload_fields env
  have absent (number : Nat) (outside : number < 100 ∨ 108 < number) :
      select number (payloadMessage env.payload) = [] := by
    refine pick_payloadMessage_none _ ?_
    intro other low high
    simp only [decide_eq_false_iff_not]
    omega
  have token : (env.capability.map capabilityFields).mapM capability = some env.capability := by
    cases env.capability <;> simp
  have moments : timestamp ∘ timestampFields = id := funext timestamp_fields
  unfold envelope
  rw [payload]
  simp [envelopeFields, absent, token, moments]

def protobuf : Protobuf where
  serialize := fun env => putFields (envelopeFields env)
  parse := fun content => (getFields content).bind envelope
  parse_serialize := fun env => by simp [getFields_putFields, envelope_fields]

example :
    protobuf.serialize
      { (default : CommandEnvelope) with
        commandId := "c1", sequence := 300, payload := some (.reboot 5 "") } =
      [10, 2, 99, 49, 24, 172, 2, 170, 6, 2, 8, 5] := by
  decide

end HlHelper.Wire
