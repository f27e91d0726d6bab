import HlHelper.Envelope
import HlHelper.Library.OrderedMap
import HlHelper.Library.Rows
import HlHelper.Library.Runs
import HlHelper.Library.Slots
import HlHelper.Library.Wire

/-! `ReEnroll.Challenge` and `ReEnroll.Complete` with their state in memory, one step for each await
with the code behind it. Times are microseconds, those of requests seconds. -/

namespace HlHelper.ReEnroll

open HlHelper.Library

structure Host where
  id : String
  agentPubkey : Bytes
  certSerial : Option String
  certExpiresAt : Option Int
  certRotatedAt : Option Int
  certRotationCount : Option Nat
  lastReenrollAt : Option Int
  deriving DecidableEq, Repr

structure RevokedCert where
  serial : String
  hostId : String
  revokedAt : Int
  reason : Option String
  deriving DecidableEq, Repr

/-- What the callers of `issue_host_cert` take it to return. -/
structure IssuedCert where
  chainPem : Bytes
  newSerial : String
  notAfter : Int
  deriving DecidableEq, Repr

/-- The digest, Ed25519, the check of a CSR with the text that it raises, and the CA with what it
draws; none where the CA raises. -/
structure Service where
  sha : Sha256
  verify : Bytes → Bytes → Bytes → Bool
  validateCsr : Bytes → String → Option String
  issueHostCert : Bytes → String → Int → Nat → Option IssuedCert
  ttlDays : Int
  nonceTtl : Int
  window : Int
  maxPerWindow : Nat

structure Entry where
  nonce : Bytes
  putAt : Int
  deriving DecidableEq, Repr

/-- `NonceCache.consume` on the slot of a host, with what it leaves there. -/
def consume (service : Service) (slot : Option Entry) (nonce : Bytes) (now : Int) :
    Bool × Option Entry :=
  match slot with
  | none => (false, none)
  | some entry =>
    if service.nonceTtl < now - entry.putAt then (false, none)
    else if entry.nonce ≠ nonce then (false, some entry)
    else (true, none)

def allow (service : Service) (attempts : List Int) (now : Int) : Bool × List Int :=
  let recent := attempts.dropWhile fun at_ => at_ < now - service.window
  if service.maxPerWindow ≤ recent.length then (false, recent) else (true, recent ++ [now])

def canonicalPayload (service : Service) (hostId : String) (nonce : Bytes) (tsUnix : Int) : Bytes :=
  service.sha.sum (Wire.utf8 "reenroll-v1|" ++ Wire.utf8 hostId ++ Wire.utf8 "|" ++ nonce ++
    Wire.utf8 "|" ++ Wire.utf8 (toString tsUnix))

def verifySignature (service : Service) (hostId : String) (nonce : Bytes) (tsUnix : Int)
    (signature signingPubkey : Bytes) : Bool :=
  service.verify signingPubkey (canonicalPayload service hostId nonce tsUnix) signature

structure CompleteRequest where
  hostId : String
  nonce : Bytes
  ts : Int
  signature : Bytes
  csrPem : Bytes
  deriving DecidableEq, Repr

inductive Failure where
  | aborted (code text : String)
  /-- What the database or the CA raises, or a cancellation. -/
  | raised
  deriving DecidableEq, Repr

/-- The await that a call has come to; `host` is the row that it has read. -/
inductive Phase where
  | selecting (hostId : String) (signingPubkey : Bytes)
  | closing (hostId : String)
  | answered (nonce : Bytes)
  | loading (request : CompleteRequest) (nowUnix : Int)
  | listing (request : CompleteRequest) (host : Host) (cert : IssuedCert) (now : Int)
  | committing (host : Host) (cert : IssuedCert) (revokes : Option String) (now : Int)
  | returned (cert : IssuedCert)
  | failed (failure : Failure)
  deriving DecidableEq, Repr

/-- The tables, the state in memory and the calls; `challenged` holds every nonce that was put into
the cache, the latest first. -/
structure Server where
  hosts : List Host
  revoked : List RevokedCert
  nonces : OrderedMap String Entry
  attempts : OrderedMap String (List Int)
  calls : List Phase
  challenged : List (String × Entry)
  deriving DecidableEq

inductive Step where
  | challenge (hostId : String) (signingPubkey : Bytes)
  | complete (request : CompleteRequest) (now nowUnix : Int)
  /-- The await of a call is over; a nonce or what the CA draws, if it comes to it. -/
  | advance (index : Nat) (now : Int) (nonce : Bytes) (random : Nat)
  | fail (index : Nat)
  deriving DecidableEq, Repr

def Phase.ended : Phase → Bool
  | .answered _ | .returned _ | .failed _ => true
  | _ => false

namespace Server

def initial (hosts : List Host) (revoked : List RevokedCert) : Server :=
  ⟨hosts, revoked, .empty, .empty, [], []⟩

def slot (s : Server) (hostId : String) (entry : Option Entry) : OrderedMap String Entry :=
  match entry with
  | none => s.nonces.erase hostId
  | some entry => s.nonces.insert hostId entry

variable (service : Service)

/-- `Complete` behind the row of the host: the nonce is used up before the CSR is checked. -/
def authorise (s : Server) (request : CompleteRequest) (host : Host) (now : Int) (random : Nat) :
    Server × Phase :=
  if verifySignature service request.hostId request.nonce request.ts request.signature
      host.agentPubkey = false then
    (s, .failed (.aborted "PERMISSION_DENIED" "signature invalid"))
  else
    let (valid, left) := consume service (s.nonces.get? request.hostId) request.nonce now
    let s := { s with nonces := s.slot request.hostId left }
    if valid = false then (s, .failed (.aborted "PERMISSION_DENIED" "nonce invalid or consumed"))
    else
      match service.validateCsr request.csrPem request.hostId with
      | some error => (s, .failed (.aborted "INVALID_ARGUMENT" ("csr: " ++ error)))
      | none =>
        match service.issueHostCert request.csrPem request.hostId service.ttlDays random with
        | none => (s, .failed .raised)
        | some cert => (s, .listing request host cert now)

def superseded (s : Server) (host : Host) : Option String :=
  match host.certSerial with
  | none => none
  | some old =>
    if old = "" ∨ (s.revoked.any fun row => row.hostId = host.id ∧ row.serial = old) then none
    else some old

def renewed (host : Host) (cert : IssuedCert) (now : Int) (row : Host) : Host :=
  { row with
    certSerial := some cert.newSerial
    certExpiresAt := some cert.notAfter
    certRotatedAt := some now
    certRotationCount := some (host.certRotationCount.getD 0 + 1)
    lastReenrollAt := some now }

local instance : LawfulBEq Bytes := inferInstance

def resume (s : Server) (now : Int) (nonce : Bytes) (random : Nat) : Phase → Option (Server × Phase)
  | .selecting hostId signingPubkey =>
    match findKey Host.id s.hosts hostId with
    | none => some (s, .failed (.aborted "NOT_FOUND" "unknown host_id"))
    | some host =>
      if host.agentPubkey = signingPubkey then some (s, .closing hostId)
      else some (s, .failed (.aborted "PERMISSION_DENIED" "signing_pubkey mismatch"))
  | .closing hostId =>
    -- the nonce is random and was never drawn before
    if nonce ∈ s.challenged.map (fun put => put.2.nonce) then none
    else
      some ({ s with
        nonces := s.nonces.insert hostId ⟨nonce, now⟩
        challenged := (hostId, ⟨nonce, now⟩) :: s.challenged }, .answered nonce)
  | .loading request _ =>
    match findKey Host.id s.hosts request.hostId with
    | none => some (s, .failed (.aborted "NOT_FOUND" "unknown host_id"))
    | some host => some (s.authorise service request host now random)
  | .listing _ host cert at_ => some (s, .committing host cert (s.superseded host) at_)
  | .committing host cert revokes at_ =>
    if revokes.any fun serial => s.revoked.any fun row => row.serial = serial then
      some (s, .failed .raised)
    else
      some ({ s with
        hosts := s.hosts.map fun row =>
          if row.id = host.id then renewed host cert at_ row else row
        revoked := s.revoked ++
          revokes.toList.map fun serial => ⟨serial, host.id, at_, some "reenrolled"⟩ },
        .returned cert)
  | .answered _ | .returned _ | .failed _ => none

def step (s : Server) : Step → Option Server
  | .challenge hostId signingPubkey =>
    some { s with calls := s.calls ++ [.selecting hostId signingPubkey] }
  | .complete request now nowUnix =>
    let (allowed, recent) := allow service ((s.attempts.get? request.hostId).getD []) now
    some { s with
      attempts := s.attempts.insert request.hostId recent
      calls := s.calls ++
        [if allowed = false then .failed (.aborted "RESOURCE_EXHAUSTED" "reenroll rate limit")
          else if 60 < (nowUnix - request.ts).natAbs then
            .failed (.aborted "PERMISSION_DENIED" "ts skew exceeded")
          else .loading request nowUnix] }
  | .advance index now nonce random =>
    (s.calls[index]?).bind fun phase =>
      (s.resume service now nonce random phase).map fun (t, next) =>
        { t with calls := s.calls.set index next }
  | .fail index =>
    (s.calls[index]?).bind fun phase =>
      if phase.ended then none
      else some { s with calls := s.calls.set index (.failed .raised) }

/-- A nonce that a request uses up, with the times of its checks. -/
structure Use where
  request : CompleteRequest
  nowUnix : Int
  now : Int
  deriving DecidableEq, Repr

def uses (s : Server) : Step → Option Use
  | .advance index now _ _ =>
    (s.calls[index]?).bind fun phase =>
      match phase with
      | .loading request nowUnix =>
        (findKey Host.id s.hosts request.hostId).bind fun host =>
          if verifySignature service request.hostId request.nonce request.ts request.signature
                host.agentPubkey = true ∧
              (consume service (s.nonces.get? request.hostId) request.nonce now).1 = true then
            some ⟨request, nowUnix, now⟩
          else none
      | _ => none
  | _ => none

def issues (s : Server) : Step → Option (CompleteRequest × IssuedCert)
  | .advance index now nonce random =>
    (s.calls[index]?).bind fun phase =>
      match phase, s.resume service now nonce random phase with
      | .loading _ _, some (_, .listing request _ cert _) => some (request, cert)
      | _, _ => none
  | _ => none

end Server

end HlHelper.ReEnroll
