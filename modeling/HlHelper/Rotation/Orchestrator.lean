import HlHelper.Keystore.Tls
import HlHelper.ReEnroll.Servicer

/-! `RotationOrchestrator.rotate` with its rate limiter, and the `issue_host_cert` that it calls.
The attempts of an agent to renew its certificate, and the messages between the two. Times are
microseconds. -/

namespace HlHelper.Rotation

open HlHelper.Library
open ReEnroll (Host RevokedCert)

structure Csr where
  signatureValid : Bool
  commonName : Option String
  publicKey : Bytes
  deriving DecidableEq, Repr

/-- `load_pem_x509_csr` with the text that it raises, and the base64 lines of the certificate that
the builder signs for a host, a key and a time to live with what it draws. -/
structure X509 where
  loadPemCsr : Bytes → Except String Csr
  sign : String → Bytes → Int → Nat → Bytes

structure Pem where
  lines : Bytes
  deriving DecidableEq, Repr

def Pem.text (pem : Pem) : Bytes :=
  Wire.utf8 "-----BEGIN CERTIFICATE-----\n" ++ pem.lines ++
    Wire.utf8 "-----END CERTIFICATE-----\n"

def issueHostCert (x509 : X509) (csrPem : Bytes) (hostId : String) (ttl : Int) (random : Nat) :
    Except String Pem :=
  if ttl ≤ 0 then .error "ttl must be positive"
  else
    match x509.loadPemCsr csrPem with
    | .error error => .error error
    | .ok csr =>
      if csr.signatureValid = false then .error "invalid csr signature"
      else .ok ⟨x509.sign hostId csr.publicKey ttl random⟩

/-- What a CA returns: the text of a certificate, or the three values that the tests' CA does. -/
inductive Issued where
  | pem (pem : Pem)
  | parts (chainPem : Bytes) (newSerial : String) (notAfter : Int)
  deriving DecidableEq, Repr

/-- `chain_pem, new_serial, not_after = issued`: a `bytes` object is a sequence of its bytes. -/
def Issued.unpack : Issued → Except String (Bytes × String × Int)
  | .parts chainPem newSerial notAfter => .ok (chainPem, newSerial, notAfter)
  | .pem _ => .error "too many values to unpack (expected 3)"

inductive CsrError where
  | malformed (text : String)
  | signatureInvalid
  | cnMismatch (expected : String) (got : Option String)
  | forwardSecrecy
  deriving DecidableEq, Repr

/-- `validate_csr`, with what it raises. -/
def validateCsr (x509 : X509) (csrPem : Bytes) (expectedCn : String)
    (currentTlsPubkey : Option Bytes) : Except CsrError Csr :=
  match x509.loadPemCsr csrPem with
  | .error error => .error (.malformed error)
  | .ok csr =>
    if csr.signatureValid = false then .error .signatureInvalid
    else if csr.commonName ≠ some expectedCn then .error (.cnMismatch expectedCn csr.commonName)
    else if currentTlsPubkey = some csr.publicKey then .error .forwardSecrecy
    else .ok csr

/-- `RotationRateLimiter.allow`. -/
def allow (window : Int) (last : OrderedMap String Int) (hostId : String) (now : Int) :
    Bool × OrderedMap String Int :=
  match last.get? hostId with
  | some before => if now - before < window then (false, last) else (true, last.insert hostId now)
  | none => (true, last.insert hostId now)

structure RotationContext where
  hostId : String
  csrPem : Bytes
  signingPubkey : Bytes
  prevSerial : String
  deriving DecidableEq, Repr

inductive RotateError where
  | rateLimited
  | policyDenied
  | csr (error : CsrError)
  /-- Raised by the CA, or by the assignment of what it returns. -/
  | value (text : String)
  /-- Raised by the database, or a cancellation. -/
  | raised
  deriving DecidableEq, Repr

/-- The await that `rotate` has come to. -/
inductive RotatePhase where
  | loading (context : RotationContext)
  | committing (context : RotationContext) (host : Host) (chainPem : Bytes) (newSerial : String)
      (notAfter now : Int)
  | returned (chainPem : Bytes) (newSerial : String) (notAfter : Int)
  | failed (error : RotateError)
  deriving DecidableEq, Repr

section

variable (x509 : X509) (ca : Bytes → String → Int → Nat → Except String Issued) (ttl : Int)

/-- `rotate` behind the row of the host. -/
def authorise (context : RotationContext) (host : Host) (now : Int) (random : Nat) : RotatePhase :=
  if host.agentPubkey ≠ context.signingPubkey then .failed .policyDenied
  else if host.certSerial.getD "" ≠ context.prevSerial then .failed .policyDenied
  else
    match validateCsr x509 context.csrPem context.hostId none with
    | .error error => .failed (.csr error)
    | .ok _ =>
      match (ca context.csrPem context.hostId ttl random).bind Issued.unpack with
      | .error text => .failed (.value text)
      | .ok (chainPem, newSerial, notAfter) =>
        .committing context host chainPem newSerial notAfter now

/-- The row of the host behind `rotate`. -/
def rotated (host : Host) (newSerial : String) (notAfter now : Int) (row : Host) : Host :=
  { row with
    certSerial := some newSerial
    certExpiresAt := some notAfter
    certRotatedAt := some now
    certRotationCount := some (host.certRotationCount.getD 0 + 1) }

/-- What becomes of a `rotate` when its await is over, with the tables. -/
def resume (hosts : List Host) (revoked : List RevokedCert) (now : Int) (random : Nat) :
    RotatePhase → Option (List Host × List RevokedCert × RotatePhase)
  | .loading context =>
    match findKey Host.id hosts context.hostId with
    | none => some (hosts, revoked, .failed .policyDenied)
    | some host => some (hosts, revoked, authorise x509 ca ttl context host now random)
  | .committing context host chainPem newSerial notAfter at_ =>
    let superseded := host.certSerial.filter fun old => old ≠ ""
    if superseded.any fun old => revoked.any fun row => row.serial = old then
      some (hosts, revoked, .failed .raised)
    else
      some (hosts.map fun row =>
          if row.id = host.id then rotated host newSerial notAfter at_ row else row,
        revoked ++ superseded.toList.map fun old =>
          ⟨old, context.hostId, at_, some "rotated"⟩,
        .returned chainPem newSerial notAfter)
  | .returned _ _ _ | .failed _ => none

end

/-- The keys and the libraries of the agent; `certInfo` gives the times and the serial of a
chain. -/
structure Agent where
  hostId : String
  signingPub : Bytes
  sign : Bytes → Bytes
  tls : Keystore.X509
  rootCa : Bytes
  certInfo : Bytes → Option (Int × Int × String)

structure Service where
  x509 : X509
  ca : Bytes → String → Int → Nat → Except String Issued
  window : Int
  ttl : Int
  repr : String → String
  sha : Sha256
  verify : Bytes → Bytes → Bytes → Bool
  nonceTtl : Int
  reenrollWindow : Int
  maxPerWindow : Nat
  agent : Agent

namespace Service

variable (service : Service)

def csrText : CsrError → String
  | .malformed text => "malformed CSR: " ++ text
  | .signatureInvalid => "CSR signature invalid"
  | .cnMismatch expected got =>
    "CN mismatch: expected " ++ service.repr expected ++ ", got " ++
      (got.map service.repr).getD "None"
  | .forwardSecrecy => "forward-secrecy: CSR pubkey matches current TLS pubkey"

def reenrolls : ReEnroll.Service where
  sha := service.sha
  verify := service.verify
  validateCsr csrPem expectedCn :=
    match validateCsr service.x509 csrPem expectedCn none with
    | .error error => some (service.csrText error)
    | .ok _ => none
  issueHostCert csrPem hostId _ random :=
    match (service.ca csrPem hostId service.ttl random).bind Issued.unpack with
    | .error _ => none
    | .ok (chainPem, newSerial, notAfter) => some ⟨chainPem, newSerial, notAfter⟩
  ttlDays := service.ttl / 86400000000
  nonceTtl := service.nonceTtl
  window := service.reenrollWindow
  maxPerWindow := service.maxPerWindow

end Service

/-- A `CertRotateRequest` in flight, with the attempt that has sent it. -/
structure Request where
  attempt : Nat
  csrPem : Bytes
  signingPubkey : Bytes
  prevSerial : String
  deriving DecidableEq, Repr

/-- A `CertIssueResponse`, with the attempt whose request it answers. -/
structure Response where
  attempt : Nat
  certChainPem : Bytes
  deriving DecidableEq, Repr

/-- A `rotate` of the server, with the attempt whose request it serves. -/
structure ServerCall where
  attempt : Nat
  phase : RotatePhase
  deriving DecidableEq, Repr

inductive AttemptPhase where
  | awaiting
  | done (chain : Bytes)
  | failed (reason : String)
  deriving DecidableEq, Repr

/-- A call of `RotateOnce` with the private key that it has generated. -/
structure Attempt where
  privPem : Bytes
  phase : AttemptPhase
  deriving DecidableEq, Repr

/-- A call of `ReEnroll` by `CheckAndRecover`; the index is that of its call at the server. -/
inductive RecoveryPhase where
  | challenging (index : Nat)
  | completing (index : Nat) (privPem : Bytes)
  | done (chain : Bytes)
  | failed
  deriving DecidableEq, Repr

structure Certificate where
  chain : Bytes
  key : Bytes
  deriving DecidableEq, Repr

/-- The server with its tables, what is in flight, and the agent. -/
structure World where
  server : ReEnroll.Server
  last : OrderedMap String Int
  rotations : List ServerCall
  requests : List Request
  responses : List Response
  /-- `certIssueCh`. -/
  channel : Option Response
  held : Certificate
  attempts : List Attempt
  recoveries : List RecoveryPhase
  clock : Int
  deriving DecidableEq

inductive Step where
  /-- `RotateOnce` up to its await; `error` is why it does not come to it. -/
  | rotateOnce (csrPem privPem : Bytes) (error : Option String) (now : Int)
  /-- A request reaches the server. -/
  | deliver (index : Nat) (now : Int)
  | advance (index : Nat) (now : Int) (random : Nat)
  | fail (index : Nat)
  | loseRequest (index : Nat)
  | loseResponse (index : Nat)
  /-- A response reaches the agent. -/
  | receive (index : Nat)
  /-- An attempt takes what is in the channel; `error` is what goes wrong with its files. -/
  | take (index : Nat) (error : Option String)
  | timeout (index : Nat)
  | checkAndRecover (now : Int)
  /-- The challenge is answered. -/
  | answer (index : Nat) (csrPem privPem : Bytes) (now ts nowUnix : Int)
  | complete (index : Nat) (error : Bool)
  | giveUp (index : Nat)
  /-- A step of the re-enrolment service, also for other senders. -/
  | serve (event : ReEnroll.Step)
  deriving DecidableEq, Repr

namespace World

def initial (hosts : List Host) (revoked : List RevokedCert) (held : Certificate) : World :=
  ⟨.initial hosts revoked, .empty, [], [], [], none, held, [], [], 0⟩

variable (service : Service)

def verifies (chain privPem : Bytes) : Bool :=
  service.agent.tls.keyPair chain privPem && service.agent.tls.verify chain service.agent.rootCa

def ended (w : World) (index : Nat) (attempt : Attempt) (phase : AttemptPhase) : World :=
  { w with attempts := w.attempts.set index { attempt with phase := phase } }

/-- `RotateOnce` up to its await. -/
def rotateOnce (w : World) (csrPem privPem : Bytes) (error : Option String) : World :=
  match service.agent.certInfo w.held.chain, error with
  | none, _ => { w with attempts := w.attempts ++ [⟨privPem, .failed "prev-serial"⟩] }
  | some _, some reason => { w with attempts := w.attempts ++ [⟨privPem, .failed reason⟩] }
  | some (_, _, prevSerial), none =>
    { w with
      requests := w.requests ++
        [⟨w.attempts.length, csrPem, service.agent.signingPub, prevSerial⟩]
      attempts := w.attempts ++ [⟨privPem, .awaiting⟩] }

def deliver (w : World) (request : Request) (index : Nat) (now : Int) : World :=
  let (allowed, last) := allow service.window w.last service.agent.hostId now
  { w with
    requests := w.requests.eraseIdx index
    last := last
    rotations := w.rotations ++ [⟨request.attempt,
      if allowed = false then .failed .rateLimited
      else .loading
        ⟨service.agent.hostId, request.csrPem, request.signingPubkey, request.prevSerial⟩⟩] }

/-- What `rotate` returns is sent. -/
def sends (attempt : Nat) : RotatePhase → List Response
  | .returned chainPem _ _ => [⟨attempt, chainPem⟩]
  | _ => []

def advance (w : World) (index : Nat) (rotation : ServerCall) (now : Int) (random : Nat) :
    Option World :=
  (resume service.x509 service.ca service.ttl w.server.hosts w.server.revoked now random
      rotation.phase).map fun (hosts, revoked, phase) =>
    { w with
      server := { w.server with hosts := hosts, revoked := revoked }
      rotations := w.rotations.set index { rotation with phase := phase }
      responses := w.responses ++ sends rotation.attempt phase }

/-- An attempt goes on with the response that it has taken. -/
def take (w : World) (index : Nat) (attempt : Attempt) (response : Response)
    (error : Option String) : World :=
  let w := { w with channel := none }
  match error with
  | some reason => w.ended index attempt (.failed reason)
  | none =>
    if verifies service response.certChainPem attempt.privPem then
      { w.ended index attempt (.done response.certChainPem) with
        held := ⟨response.certChainPem, attempt.privPem⟩ }
    else w.ended index attempt (.failed "verify")

/-- `CheckAndRecover` up to the answer to its challenge. -/
def checkAndRecover (w : World) (now : Int) : Option World :=
  match service.agent.certInfo w.held.chain with
  | none => some w
  | some (_, notAfter, _) =>
    if now < notAfter then some w
    else
      (w.server.step service.reenrolls
          (.challenge service.agent.hostId service.agent.signingPub)).map fun server =>
        { w with
          server := server
          recoveries := w.recoveries ++ [.challenging w.server.calls.length] }

def completeRequest (nonce csrPem : Bytes) (ts : Int) : ReEnroll.CompleteRequest :=
  ⟨service.agent.hostId, nonce, ts,
    service.agent.sign (ReEnroll.canonicalPayload service.reenrolls service.agent.hostId nonce ts),
    csrPem⟩

def answer (w : World) (index : Nat) (csrPem privPem : Bytes) (now ts nowUnix : Int) :
    Option World :=
  match w.recoveries[index]? with
  | some (.challenging call) =>
    match w.server.calls[call]? with
    | some (.answered nonce) =>
      (w.server.step service.reenrolls
          (.complete (completeRequest service nonce csrPem ts) now nowUnix)).map fun server =>
        { w with
          server := server
          recoveries := w.recoveries.set index (.completing w.server.calls.length privPem) }
    | _ => none
  | _ => none

def complete (w : World) (index : Nat) (error : Bool) : Option World :=
  match w.recoveries[index]? with
  | some (.completing call privPem) =>
    match w.server.calls[call]? with
    | some (.returned cert) =>
      if error = true ∨ verifies service cert.chainPem privPem = false then
        some { w with recoveries := w.recoveries.set index .failed }
      else
        some { w with
          recoveries := w.recoveries.set index (.done cert.chainPem)
          held := ⟨cert.chainPem, privPem⟩ }
    | _ => none
  | _ => none

def act (w : World) : Step → Option World
  | .rotateOnce csrPem privPem error _ => some (w.rotateOnce service csrPem privPem error)
  | .deliver index now =>
    (w.requests[index]?).map fun request => w.deliver service request index now
  | .advance index now random =>
    (w.rotations[index]?).bind fun rotation => w.advance service index rotation now random
  | .fail index =>
    (w.rotations[index]?).bind fun rotation =>
      match rotation.phase with
      | .returned _ _ _ | .failed _ => none
      | _ => some { w with
          rotations := w.rotations.set index { rotation with phase := .failed .raised } }
  | .loseRequest index => some { w with requests := w.requests.eraseIdx index }
  | .loseResponse index => some { w with responses := w.responses.eraseIdx index }
  | .receive index =>
    (w.responses[index]?).map fun response =>
      -- dropped where the channel is full
      { w with
        responses := w.responses.eraseIdx index
        channel := some (w.channel.getD response) }
  | .take index error =>
    (w.attempts[index]?).bind fun attempt =>
      match attempt.phase, w.channel with
      | .awaiting, some response => some (w.take service index attempt response error)
      | _, _ => none
  | .timeout index =>
    (w.attempts[index]?).bind fun attempt =>
      match attempt.phase with
      | .awaiting => some (w.ended index attempt (.failed "await-issue"))
      | _ => none
  | .checkAndRecover now => w.checkAndRecover service now
  | .answer index csrPem privPem now ts nowUnix =>
    w.answer service index csrPem privPem now ts nowUnix
  | .complete index error => w.complete service index error
  | .giveUp index =>
    match w.recoveries[index]? with
    | some (.challenging _) | some (.completing _ _) =>
      some { w with recoveries := w.recoveries.set index .failed }
    | _ => none
  | .serve event =>
    (w.server.step service.reenrolls event).map fun server => { w with server := server }

theorem giveUp_eq {w t : World} {index : Nat} (acted : w.act service (.giveUp index) = some t) :
    t = { w with recoveries := w.recoveries.set index .failed } := by
  simp only [act] at acted
  split at acted
  · exact (Option.some.inj acted).symm
  · exact (Option.some.inj acted).symm
  · cases acted

def time : Step → Option Int
  | .rotateOnce _ _ _ now | .deliver _ now | .advance _ now _ | .checkAndRecover now
  | .answer _ _ _ now _ _ => some now
  | _ => none

def step (w : World) (event : Step) : Option World :=
  (w.act service event).map fun t => { t with clock := (time event).getD w.clock }

end World

end HlHelper.Rotation
