import HlHelper.Envelope
import HlHelper.Library.OrderedMap
import HlHelper.Library.Rows
import HlHelper.Library.Runs

/-! Host revocation, certificate rotation and re-enrolment, cut at their awaits, beside the
streams that check and register. The check and the registration of a stream have no
suspension between them, and neither have the two that `revoke` does in memory. -/

namespace HlHelper.Certificates

open HlHelper.Library

structure Host where
  id : String
  agentPubkey : Bytes
  certSerial : Option String
  status : String
  deriving DecidableEq, Repr

structure RevokedCert where
  serial : String
  hostId : String
  reason : Option String
  deriving DecidableEq, Repr

structure Certificate where
  hostId : String
  serial : String
  deriving DecidableEq, Repr

/-- `validate_csr`, and the serial number of what `issue_host_cert` returns for a CSR, a host
and a random number: none where it raises or returns no chain, serial and expiry. -/
structure Ca where
  validateCsr : Bytes → String → Bool
  issueHostCert : Bytes → String → Nat → Option String

/-- `allowed` is the answer of the rate limiter, and `random` what the CA draws. -/
structure RotationContext where
  hostId : String
  csrPem : Bytes
  signingPubkey : Bytes
  prevSerial : String
  allowed : Bool
  random : Nat
  deriving DecidableEq, Repr

/-- A request to `ReEnroll.Complete`, with the answers of the rate limiter, the clock check,
the signature check and the nonce cache. -/
structure Completion where
  hostId : String
  csrPem : Bytes
  allowed : Bool
  inTime : Bool
  signed : Bytes → Bool
  nonceValid : Bool
  random : Nat

inductive Kind where
  | revoke (hostId : String) (reason : Option String)
  | rotate (context : RotationContext)
  | complete (request : Completion)

def Kind.hostId : Kind → String
  | .revoke hostId _ => hostId
  | .rotate context => context.hostId
  | .complete request => request.hostId

inductive Failure where
  | hostNotFound (text : String)
  | hostAlreadyRevoked (text : String)
  | rateLimited (text : String)
  | policyDenied (text : String)
  | prevSerialMismatch (stored : Option String) (got : String)
  | csrInvalid
  | aborted (code text : String)
  /-- What the database, the audit chain or the CA raises, or a cancellation. -/
  | raised
  deriving DecidableEq, Repr

/-- Which statement a call waits for, and whether it has taken effect. -/
inductive Phase where
  | selecting
  | selected
  | inserting
  | inserted
  | updating
  | updated
  | auditing
  | audited
  | listing
  | listed
  | committing
  | returned
  | failed (failure : Failure)
  deriving DecidableEq, Repr

/-- `host` is the row that the call has read, `serial` the one that it revokes or has been
issued, and `prior` the revoked serials that `Complete` has read. -/
structure Call where
  kind : Kind
  phase : Phase
  host : Option Host
  serial : String
  prior : List String

/-- The dispatcher's state of a host, less its commands. -/
structure HostState where
  connected : Bool
  terminate : Bool
  deriving DecidableEq, Repr

structure Stream where
  certificate : Certificate
  live : Bool
  deriving DecidableEq, Repr

/-- The tables, then the certificates that were handed out, the hosts whose revocation was
committed and the serials that were superseded, then what a restart loses: the set of revoked
serials, the dispatcher's hosts, the streams and the calls. -/
structure Server where
  hosts : List Host
  revokedCerts : List RevokedCert
  certificates : List Certificate
  revokedHosts : List String
  superseded : List String
  revoked : List String
  dispatcher : OrderedMap String HostState
  streams : List Stream
  calls : List Call

inductive Step where
  | enroll (hostId serial : String) (agentPubkey : Bytes)
  | report (hostId status : String)
  | remove (hostId : String)
  | start (kind : Kind)
  | effect (index : Nat)
  | resume (index : Nat)
  | fail (index : Nat)
  | connect (certificate : Certificate)
  | serve (index : Nat)
  | disconnect (index : Nat)
  | restart

/-- The host of a revocation whose serial is chosen and not yet committed. -/
def Call.chose (call : Call) : Option String :=
  match call.kind, call.phase with
  | .revoke hostId _, .inserting | .revoke hostId _, .inserted | .revoke hostId _, .updating
  | .revoke hostId _, .updated | .revoke hostId _, .auditing | .revoke hostId _, .audited
  | .revoke hostId _, .committing => some hostId
  | _, _ => none

/-- The host of a revocation that has marked its serial in memory and is not over. -/
def Call.marks (call : Call) : Option String :=
  match call.kind, call.phase with
  | .revoke hostId _, .auditing | .revoke hostId _, .audited
  | .revoke hostId _, .committing => some hostId
  | _, _ => none

def Call.inserts (serial : String) (call : Call) : Bool :=
  call.chose.isSome && decide (call.phase ≠ .inserting) && decide (call.serial = serial)

def Call.updates (hostId : String) (call : Call) : Bool :=
  match call.kind, call.phase with
  | .revoke other _, .updated => decide (other = hostId)
  | _, _ => decide (call.marks = some hostId)

def Host.revokedSerial (host : Host) : String :=
  match host.certSerial with
  | some serial => if serial = "" then "unknown-" ++ host.id else serial
  | none => "unknown-" ++ host.id

namespace Server

def moved (s : Server) (index : Nat) (call : Call) : Server :=
  { s with calls := s.calls.set index call }

def stored (s : Server) (serial : String) : Bool := s.revokedCerts.any (·.serial = serial)

def locked (s : Server) (hostId : String) : Bool := s.calls.any (Call.updates hostId)

def state (s : Server) (hostId : String) : HostState :=
  (s.dispatcher.get? hostId).getD ⟨false, false⟩

def terminate (dispatcher : OrderedMap String HostState) (hostId : String) :
    OrderedMap String HostState :=
  match dispatcher.get? hostId with
  | none => dispatcher
  | some state =>
    if state.connected then dispatcher.insert hostId { state with terminate := true }
    else dispatcher

def unregister (dispatcher : OrderedMap String HostState) (hostId : String) :
    OrderedMap String HostState :=
  match dispatcher.get? hostId with
  | none => dispatcher
  | some state => dispatcher.insert hostId { state with connected := false }

def isRevoked (s : Server) (serial : String) : Bool := decide (serial ∈ s.revoked)

/-- A stream with the certificate passes the check and is registered. -/
def accepts (s : Server) (certificate : Certificate) : Bool :=
  !s.isRevoked certificate.serial && !(s.state certificate.hostId).connected

/-- The serial that the commit of a rotation or a re-enrolment stores as revoked. -/
def superseding (call : Call) : Option String :=
  match call.host.bind Host.certSerial with
  | none => none
  | some serial => if serial = "" ∨ serial ∈ call.prior then none else some serial

/-- The commit of a rotation or a re-enrolment finds its host, and not yet the serial that it
stores. -/
def renewable (s : Server) (call : Call) : Bool :=
  s.hosts.any (·.id = call.kind.hostId) && (superseding call).all (fun serial => !s.stored serial)

def renew (s : Server) (index : Nat) (call : Call) (reason : String) : Option Server :=
  if s.locked call.kind.hostId ∨
      ∃ serial ∈ superseding call, s.calls.any (Call.inserts serial) then none
  else if s.renewable call then
    some
      { s.moved index { call with phase := .returned } with
        hosts := s.hosts.map (fun host =>
          if host.id = call.kind.hostId then { host with certSerial := some call.serial }
          else host)
        revokedCerts := s.revokedCerts ++
          ((superseding call).map (fun serial =>
            (⟨serial, call.kind.hostId, some reason⟩ : RevokedCert))).toList
        certificates := s.certificates ++ [⟨call.kind.hostId, call.serial⟩]
        superseded := s.superseded ++ (call.host.bind Host.certSerial).toList }
  else some (s.moved index { call with phase := .failed .raised })

def effect (s : Server) (index : Nat) (call : Call) : Option Server :=
  match call.kind, call.phase with
  | kind, .selecting =>
    some (s.moved index
      { call with phase := .selected, host := findKey Host.id s.hosts kind.hostId })
  | .revoke _ _, .inserting =>
    if s.calls.any (Call.inserts call.serial) then none
    else if s.stored call.serial then
      some (s.moved index { call with phase := .failed .raised })
    else some (s.moved index { call with phase := .inserted })
  | .revoke hostId _, .updating =>
    if s.locked hostId then none
    else if s.hosts.any (·.id = hostId) then
      some (s.moved index { call with phase := .updated })
    else some (s.moved index { call with phase := .failed .raised })
  | .revoke _ _, .auditing => some (s.moved index { call with phase := .audited })
  | .revoke hostId reason, .committing =>
    some
      { s.moved index { call with phase := .returned } with
        hosts := s.hosts.map (fun host =>
          if host.id = hostId then { host with status := "revoked" } else host)
        revokedCerts := s.revokedCerts ++ [⟨call.serial, hostId, reason⟩]
        revokedHosts := s.revokedHosts ++ [hostId] }
  | .complete request, .listing =>
    some (s.moved index
      { call with
        phase := .listed
        prior := (s.revokedCerts.filter (·.hostId = request.hostId)).map RevokedCert.serial })
  | .rotate _, .committing => s.renew index call "rotated"
  | .complete _, .committing => s.renew index call "reenrolled"
  | _, _ => none

/-- The checks of `rotate` on the host's row. -/
def rotate (ca : Ca) (context : RotationContext) (host : Host) : Except Failure String :=
  if host.agentPubkey ≠ context.signingPubkey then .error (.policyDenied "signing_pubkey mismatch")
  else if host.certSerial.getD "" ≠ context.prevSerial then
    .error (.prevSerialMismatch host.certSerial context.prevSerial)
  else if !ca.validateCsr context.csrPem context.hostId then .error .csrInvalid
  else
    match ca.issueHostCert context.csrPem context.hostId context.random with
    | none => .error .raised
    | some serial => .ok serial

/-- The checks of `Complete` on the host's row. -/
def complete (ca : Ca) (request : Completion) (host : Host) : Except Failure String :=
  if !request.signed host.agentPubkey then
    .error (.aborted "PERMISSION_DENIED" "signature invalid")
  else if !request.nonceValid then
    .error (.aborted "PERMISSION_DENIED" "nonce invalid or consumed")
  else if !ca.validateCsr request.csrPem request.hostId then .error .csrInvalid
  else
    match ca.issueHostCert request.csrPem request.hostId request.random with
    | none => .error .raised
    | some serial => .ok serial

def resume (ca : Ca) (s : Server) (index : Nat) (call : Call) : Option Server :=
  let fails := fun failure => some (s.moved index { call with phase := .failed failure })
  match call.kind, call.phase with
  | .revoke hostId _, .selected =>
    match call.host with
    | none => fails (.hostNotFound ("host " ++ hostId ++ " not found"))
    | some host =>
      if host.status = "revoked" then
        fails (.hostAlreadyRevoked ("host " ++ hostId ++ " already revoked"))
      else some (s.moved index { call with phase := .inserting, serial := host.revokedSerial })
  | .revoke _ _, .inserted => some (s.moved index { call with phase := .updating })
  | .revoke hostId _, .updated =>
    some
      { s.moved index { call with phase := .auditing } with
        revoked := call.serial :: s.revoked
        dispatcher := terminate s.dispatcher hostId }
  | .revoke _ _, .audited => some (s.moved index { call with phase := .committing })
  | .rotate context, .selected =>
    match call.host with
    | none => fails (.policyDenied ("unknown host_id: " ++ context.hostId))
    | some host =>
      match rotate ca context host with
      | .error failure => fails failure
      | .ok serial => some (s.moved index { call with phase := .committing, serial := serial })
  | .complete request, .selected =>
    match call.host with
    | none => fails (.aborted "NOT_FOUND" "unknown host_id")
    | some host =>
      match complete ca request host with
      | .error failure => fails failure
      | .ok serial => some (s.moved index { call with phase := .listing, serial := serial })
  | .complete _, .listed => some (s.moved index { call with phase := .committing })
  | _, _ => none

def begins (kind : Kind) : Phase :=
  match kind with
  | .revoke _ _ => .selecting
  | .rotate context =>
    if context.allowed then .selecting
    else .failed (.rateLimited ("rate limit: host=" ++ context.hostId))
  | .complete request =>
    if !request.allowed then .failed (.aborted "RESOURCE_EXHAUSTED" "reenroll rate limit")
    else if !request.inTime then .failed (.aborted "PERMISSION_DENIED" "ts skew exceeded")
    else .selecting

/-- What the call awaits raises: its transaction is rolled back. -/
def fail (s : Server) (index : Nat) (call : Call) : Option Server :=
  match call.phase with
  | .returned | .failed _ => none
  | _ => some (s.moved index { call with phase := .failed .raised })

def close (s : Server) (index : Nat) (stream : Stream) : Server :=
  { s with
    streams := s.streams.set index { stream with live := false }
    dispatcher := unregister s.dispatcher stream.certificate.hostId }

def step (ca : Ca) (s : Server) : Step → Option Server
  | .enroll hostId serial agentPubkey =>
    if serial = "" ∨ s.certificates.any (fun certificate =>
        certificate.hostId = hostId || certificate.serial = serial) ∨
        s.stored serial ∨ serial ∈ s.revoked then none
    else
      some
        { s with
          hosts := s.hosts ++ [⟨hostId, agentPubkey, some serial, "offline"⟩]
          certificates := s.certificates ++ [⟨hostId, serial⟩] }
  | .report hostId status =>
    if s.locked hostId then none
    else
      some
        { s with
          hosts := s.hosts.map (fun host =>
            if host.id = hostId then { host with status := status } else host) }
  | .remove hostId =>
    if s.locked hostId then none else some { s with hosts := s.hosts.filter (·.id ≠ hostId) }
  | .start kind => some { s with calls := s.calls ++ [⟨kind, begins kind, none, "", []⟩] }
  | .effect index => (s.calls[index]?).bind (s.effect index)
  | .resume index => (s.calls[index]?).bind (s.resume ca index)
  | .fail index => (s.calls[index]?).bind (s.fail index)
  | .connect certificate =>
    if certificate ∉ s.certificates then none
    else if s.accepts certificate then
      some
        { s with
          streams := s.streams ++ [⟨certificate, true⟩]
          dispatcher := s.dispatcher.insert certificate.hostId
            { s.state certificate.hostId with connected := true } }
    else some s
  | .serve index =>
    (s.streams[index]?).bind (fun stream =>
      if !stream.live then none
      else if (s.state stream.certificate.hostId).terminate then some (s.close index stream)
      else some s)
  | .disconnect index =>
    (s.streams[index]?).bind (fun stream =>
      if !stream.live then none else some (s.close index stream))
  | .restart =>
    some
      { s with
        revoked := s.revokedCerts.map RevokedCert.serial
        dispatcher := OrderedMap.empty
        streams := []
        calls := [] }

def initial : Server := ⟨[], [], [], [], [], [], OrderedMap.empty, [], []⟩

end Server

/-- The serial is stored as revoked or superseded, or its revocation goes on. -/
def Server.Cut (s : Server) (serial : String) : Prop :=
  (∃ row ∈ s.revokedCerts, row.serial = serial) ∨
    ∃ call ∈ s.calls, call.marks.isSome ∧ call.serial = serial

def Server.CutHost (s : Server) (hostId : String) : Prop :=
  hostId ∈ s.revokedHosts ∨ ∃ call ∈ s.calls, call.marks = some hostId

/-- What holds of two moments of a run, the earlier one first. Streams that stay open are
those whose termination is not signalled. -/
structure Laws (s t : Server) : Prop where
  refused : ∀ hostId ∈ s.revokedHosts, ∀ certificate ∈ t.certificates,
    certificate.hostId = hostId → t.accepts certificate = false
  closing : ∀ hostId ∈ s.revokedHosts, ∀ stream ∈ t.streams, stream.live = true →
    stream.certificate.hostId = hostId → (t.state hostId).terminate = true
  unissued : ∀ hostId ∈ s.revokedHosts, ∀ certificate ∈ t.certificates,
    certificate.hostId = hostId → certificate ∈ s.certificates
  superseded : ∀ serial ∈ s.superseded, t.isRevoked serial = true
  only : ∀ serial, t.isRevoked serial = true → t.Cut serial
  signalled : ∀ hostId, (t.state hostId).terminate = true → t.CutHost hostId

/-- Between any two moments of the run old certificates are cut off, and no others. -/
def CutOff (ca : Ca) (first : Server) (steps : List Step) : Prop :=
  ∀ before between after s t, steps = before ++ between ++ after →
    run (Server.step ca) first before = some s → run (Server.step ca) s between = some t →
    Laws s t

/-- The step commits no rotation or re-enrolment, and no revocation fails that has marked its
serial in memory. -/
def Careful (s : Server) : Step → Prop
  | .effect index => ∀ call ∈ s.calls[index]?, call.phase = .committing →
      call.marks = none → s.renewable call = false
  | .fail index => ∀ call ∈ s.calls[index]?, call.marks = none
  | _ => True

instance (s : Server) : ∀ step, Decidable (Careful s step)
  | .effect index => inferInstanceAs (Decidable (∀ call ∈ s.calls[index]?, _ → _ → _))
  | .fail index => inferInstanceAs (Decidable (∀ call ∈ s.calls[index]?, _))
  | .enroll _ _ _ => .isTrue trivial
  | .report _ _ => .isTrue trivial
  | .remove _ => .isTrue trivial
  | .start _ => .isTrue trivial
  | .resume _ => .isTrue trivial
  | .connect _ => .isTrue trivial
  | .serve _ => .isTrue trivial
  | .disconnect _ => .isTrue trivial
  | .restart => .isTrue trivial

end HlHelper.Certificates
