import Mathlib.Data.List.Basic

/-! The command envelope of `proto/fleet/v1`, the serialisation both sides use
and the server's signature over it, and SHA-256. Times are nanoseconds since the epoch. -/

namespace HlHelper

abbrev Bytes := List UInt8

abbrev HostId := String
abbrev CommandId := String

def seconds (n : Int) : Int := n * 1000000000

structure CapabilityToken where
  biscuit : Bytes
  declaredScopes : List String
  deriving DecidableEq, Repr, Inhabited

/-- The alternatives of the envelope's `payload` oneof. -/
inductive Payload where
  | pkgUpdate (classes : List String) (dryRun : Bool)
  | reboot (delaySeconds : Nat) (reason : String)
  | shellExec (command : String) (args : List String) (timeoutSeconds : Nat) (asRoot : Bool)
      (reason : String)
  | terminalOpen (sessionId : String) (cols rows : Nat)
  | fileTransfer (upload : Bool) (remotePath : String) (sizeBytes : Nat)
  | dockerOp (op container : String)
  | getFacts (keys : List String)
  | pluginInvoke (pluginId : String) (payload : Bytes)
  | agentUpdate (releaseId : String) (manifestJson manifestSig : Bytes)
      (binaryUrl downloadToken expectedSha256 : String) (expectedSize : Nat) (force : Bool)
  deriving DecidableEq, Repr, Inhabited

structure CommandEnvelope where
  commandId : CommandId
  hostId : HostId
  sequence : Nat
  nonce : Bytes
  issuedAt : Option Int
  expiresAt : Option Int
  issuedBy : String
  risk : Int
  capability : Option CapabilityToken
  payload : Option Payload
  signature : Bytes
  deriving DecidableEq, Repr, Inhabited

/-- `ClearField("signature")`. -/
def CommandEnvelope.unsigned (env : CommandEnvelope) : CommandEnvelope :=
  { env with signature := [] }

/-- The protobuf runtime, which is not part of the repository. Both sides write
an envelope deterministically and parse what was written back to it. -/
structure Protobuf where
  serialize : CommandEnvelope → Bytes
  parse : Bytes → Option CommandEnvelope
  parse_serialize : ∀ env, parse (serialize env) = some env

/-- The server's Ed25519 key pair: what it signs verifies under its public key. -/
structure SigningKey where
  sign : Bytes → Bytes
  verify : Bytes → Bytes → Bool
  verify_sign : ∀ message, verify message (sign message) = true

/-- A key pair whose signature repeats the message, for runs that are evaluated. -/
def SigningKey.echo : SigningKey where
  sign := id
  verify := fun message signature => decide (signature = message)
  verify_sign := fun _ => decide_eq_true rfl

/-- The bytes of `env` that the server signs and the agent checks. -/
def canonicalMsg (proto : Protobuf) (env : CommandEnvelope) : Bytes :=
  proto.serialize env.unsigned

/-- Steps 8 and 9 of a dispatch end with the signature over the unsigned bytes. -/
def signEnvelope (proto : Protobuf) (key : SigningKey) (env : CommandEnvelope) : CommandEnvelope :=
  { env with signature := key.sign (canonicalMsg proto env) }

/-- `env` carries the server's signature over its own bytes. -/
def SignedByServer (proto : Protobuf) (key : SigningKey) (env : CommandEnvelope) : Prop :=
  env.signature = key.sign (canonicalMsg proto env)

theorem signEnvelope_signed (proto : Protobuf) (key : SigningKey) (env : CommandEnvelope) :
    SignedByServer proto key (signEnvelope proto key env) := rfl

structure Sha256 where
  sum : Bytes → Bytes
  length_sum : ∀ content, (sum content).length = 32

theorem length_padded (content : Bytes) (n : Nat) :
    (content.take n ++ List.replicate (n - content.length) 0).length = n := by
  rw [List.length_append, List.length_take, List.length_replicate]
  omega

theorem length_padded_digest (content : Bytes) :
    (content.take 32 ++ List.replicate (32 - content.length) 0).length = 32 :=
  length_padded content 32

def Sha256.head : Sha256 where
  sum := fun content => content.take 32 ++ List.replicate (32 - content.length) 0
  length_sum := length_padded_digest

end HlHelper
