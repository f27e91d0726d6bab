import HlHelper.Wire

/-! The result envelope of `results.proto`, the agent's signature over it and the
hash that links it to the next one. Its wire format is one protobuf runtime that meets the law. -/

namespace HlHelper.Results

/-- `google.protobuf.Timestamp`. -/
structure Timestamp where
  seconds : Int
  nanos : Int
  deriving DecidableEq, Repr, Inhabited

structure AgentUpdateResult where
  fromVersion : String
  toVersion : String
  status : Int
  error : String
  deriving DecidableEq, Repr, Inhabited

/-- `status` is an open enumeration: any `int32` may be on the wire. -/
structure ResultEnvelope where
  commandId : CommandId
  hostId : HostId
  sequence : Nat
  startedAt : Option Timestamp
  completedAt : Option Timestamp
  exitCode : Int
  stdoutChunk : Bytes
  stderrChunk : Bytes
  final : Bool
  status : Int
  rejectionReason : String
  prevResultHash : Bytes
  payload : Option AgentUpdateResult
  signature : Bytes
  deriving DecidableEq, Repr, Inhabited

/-- `signature = b""`. -/
def ResultEnvelope.unsigned (env : ResultEnvelope) : ResultEnvelope := { env with signature := [] }

/-- The protobuf runtime on results; Go and Python write the same bytes. -/
structure ResultProtobuf where
  serialize : ResultEnvelope → Bytes
  parse : Bytes → Option ResultEnvelope
  parse_serialize : ∀ env, parse (serialize env) = some env

theorem ResultProtobuf.serialize_injective (proto : ResultProtobuf) {first second : ResultEnvelope}
    (same : proto.serialize first = proto.serialize second) : first = second := by
  have parsed := congrArg proto.parse same
  simpa [proto.parse_serialize] using parsed

structure Ed25519 where
  publicKey : Bytes → Bytes
  sign : Bytes → Bytes → Bytes
  verify : Bytes → Bytes → Bytes → Bool
  length_publicKey : ∀ secret, (publicKey secret).length = 32
  length_sign : ∀ secret message, (sign secret message).length = 64
  verify_sign : ∀ secret message, verify (publicKey secret) message (sign secret message) = true

/-- A key pair whose signature is the start of the message, for runs that are evaluated. -/
def Ed25519.plain : Ed25519 where
  publicKey := fun secret => secret.take 32 ++ List.replicate (32 - secret.length) 0
  sign := fun _ message => message.take 64 ++ List.replicate (64 - message.length) 0
  verify := fun _ message signature =>
    decide (signature = message.take 64 ++ List.replicate (64 - message.length) 0)
  length_publicKey := length_padded_digest
  length_sign := fun _ message => length_padded message 64
  verify_sign := fun _ _ => decide_eq_true rfl

def canonicalResultBytes (proto : ResultProtobuf) (env : ResultEnvelope) : Bytes :=
  proto.serialize env.unsigned

def verifyResult (proto : ResultProtobuf) (ed : Ed25519) (env : ResultEnvelope)
    (agentPubkey : Bytes) : Bool :=
  if agentPubkey.length ≠ 32 ∨ env.signature = [] then false
  else ed.verify agentPubkey (canonicalResultBytes proto env) env.signature

/-- `BuildAndSign`. -/
def buildAndSign (proto : ResultProtobuf) (ed : Ed25519) (secret : Bytes) (env : ResultEnvelope) :
    ResultEnvelope :=
  { env with signature := ed.sign secret (canonicalResultBytes proto env) }

/-- `_canonical_result_hash`, and the hash that the agent keeps of a queued result. -/
def canonicalResultHash (sha : Sha256) (proto : ResultProtobuf) (env : ResultEnvelope) : Bytes :=
  sha.sum (canonicalResultBytes proto env)

section Envelope

variable {sha : Sha256} {proto : ResultProtobuf} {ed : Ed25519} {secret : Bytes}
  {env other : ResultEnvelope}

theorem verifyResult_buildAndSign :
    verifyResult proto ed (buildAndSign proto ed secret env) (ed.publicKey secret) = true := by
  have signed : (buildAndSign proto ed secret env).signature ≠ [] := by
    apply List.ne_nil_of_length_pos
    rw [buildAndSign, ed.length_sign]
    omega
  rw [verifyResult, if_neg (by simp [ed.length_publicKey, signed])]
  exact ed.verify_sign secret _

theorem canonicalResultHash_eq
    (injective : canonicalResultHash sha proto env = canonicalResultHash sha proto other →
      canonicalResultBytes proto env = canonicalResultBytes proto other) :
    canonicalResultHash sha proto env = canonicalResultHash sha proto other ↔
      env.unsigned = other.unsigned := by
  constructor
  · intro same
    exact proto.serialize_injective (injective same)
  · intro same
    rw [canonicalResultHash, canonicalResultHash, canonicalResultBytes, canonicalResultBytes, same]

end Envelope

end HlHelper.Results

namespace HlHelper.Results.Wire

open HlHelper.Library.Wire HlHelper.Wire

def timestampFields (moment : Timestamp) : List Field :=
  nat 1 (putInt moment.seconds) ++ nat 2 (putInt moment.nanos)

def timestamp (fields : List Field) : Timestamp :=
  ⟨getInt (natOf (select 1 fields)), getInt (natOf (select 2 fields))⟩

@[simp] theorem timestamp_fields (moment : Timestamp) :
    timestamp (timestampFields moment) = moment := by
  simp [timestamp, timestampFields]

def updateFields (result : AgentUpdateResult) : List Field :=
  text 1 result.fromVersion ++ text 2 result.toVersion ++ nat 3 (putInt result.status) ++
    text 4 result.error

def update (fields : List Field) : Option AgentUpdateResult := do
  let fromVersion ← textOf (select 1 fields)
  let toVersion ← textOf (select 2 fields)
  let error ← textOf (select 4 fields)
  return ⟨fromVersion, toVersion, getInt (natOf (select 3 fields)), error⟩

@[simp] theorem update_fields (result : AgentUpdateResult) :
    update (updateFields result) = some result := by
  simp [update, updateFields]

def envelopeFields (env : ResultEnvelope) : List Field :=
  text 1 env.commandId ++ text 2 env.hostId ++ nat 3 env.sequence ++
    message 4 (env.startedAt.map timestampFields) ++
    message 5 (env.completedAt.map timestampFields) ++
    nat 6 (putInt env.exitCode) ++ bytes 7 env.stdoutChunk ++ bytes 8 env.stderrChunk ++
    flag 9 env.final ++ nat 10 (putInt env.status) ++ text 11 env.rejectionReason ++
    bytes 12 env.prevResultHash ++ bytes 200 env.signature ++
    message 300 (env.payload.map updateFields)

def envelope (fields : List Field) : Option ResultEnvelope := do
  let commandId ← textOf (select 1 fields)
  let hostId ← textOf (select 2 fields)
  let startedAt ← messageOf (select 4 fields)
  let completedAt ← messageOf (select 5 fields)
  let rejectionReason ← textOf (select 11 fields)
  let result ← messageOf (select 300 fields)
  let payload ← result.mapM update
  return {
    commandId := commandId
    hostId := hostId
    sequence := natOf (select 3 fields)
    startedAt := startedAt.map timestamp
    completedAt := completedAt.map timestamp
    exitCode := getInt (natOf (select 6 fields))
    stdoutChunk := bytesOf (select 7 fields)
    stderrChunk := bytesOf (select 8 fields)
    final := flagOf (select 9 fields)
    status := getInt (natOf (select 10 fields))
    rejectionReason := rejectionReason
    prevResultHash := bytesOf (select 12 fields)
    payload := payload
    signature := bytesOf (select 200 fields) }

theorem envelope_fields (env : ResultEnvelope) : envelope (envelopeFields env) = some env := by
  have payload : (env.payload.map updateFields).mapM update = some env.payload := by
    cases env.payload <;> simp
  have moments : timestamp ∘ timestampFields = id := funext timestamp_fields
  unfold envelope
  simp [envelopeFields, payload, moments]

def protobuf : ResultProtobuf where
  serialize := fun env => putFields (envelopeFields env)
  parse := fun content => (getFields content).bind envelope
  parse_serialize := fun env => by simp [getFields_putFields, envelope_fields]

example :
    protobuf.serialize
      { (default : ResultEnvelope) with
        commandId := "c1", sequence := 300, startedAt := some ⟨5, 0⟩, final := true } =
      [10, 2, 99, 49, 24, 172, 2, 34, 2, 8, 5, 72, 1] := by
  decide

end HlHelper.Results.Wire
