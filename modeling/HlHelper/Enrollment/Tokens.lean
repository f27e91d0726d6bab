import HlHelper.Envelope
import HlHelper.Library.Rows
import HlHelper.Library.Runs
import HlHelper.Library.Wire

/-! `EnrollmentService` over a transactional database, cut at its awaits: each statement sees
what is committed when it takes effect, and a row that a transaction has written is locked
until the transaction ends. -/

namespace HlHelper.Enrollment

open HlHelper.Library

structure Token where
  id : String
  tokenHash : Bytes
  expiresAt : Int
  redeemedAt : Option Int
  redeemedHostId : Option String
  deriving DecidableEq, Repr

structure Host where
  id : String
  hostname : String
  agentPubkey : Bytes
  certSerial : String
  certExpiresAt : Int
  enrolledAt : Int
  status : String
  labels : List (String × String)
  deriving DecidableEq, Repr

structure Certificate where
  hostId : String
  serialNumber : Nat
  deriving DecidableEq, Repr

inductive PublicKey where
  | ed25519
  | ellipticCurve (curve : String)
  | other (typeName : String)
  deriving DecidableEq, Repr

structure Csr where
  publicKey : PublicKey
  signatureValid : Bool
  deriving DecidableEq, Repr

/-- The loaders of `x509`, with the texts of their exceptions. -/
structure X509 where
  loadPemCsr : Bytes → Except String Csr
  loadDerCsr : Bytes → Except String Csr

inductive EnrollmentError where
  | tokenNotFound (text : String)
  | tokenExpired (text : String)
  | tokenAlreadyRedeemed (text : String)
  | csrInvalid (text : String)
  /-- What the database or the signing backend raises, or a cancellation. -/
  | raised
  deriving DecidableEq, Repr

structure Service where
  sha : Sha256
  x509 : X509
  certTtl : Int

def Service.hashToken (service : Service) (token : String) : Bytes :=
  service.sha.sum (Wire.utf8 token)

/-- A call of `redeem`, with the host id and the serial number that it draws. -/
structure Redemption where
  tokenPlaintext : String
  csrPem : Bytes
  hostname : String
  agentPubkey : Bytes
  labels : List (String × String)
  hostId : String
  serialNumber : Nat
  deriving DecidableEq, Repr

def Service.validateCsr (service : Service) (body : Redemption) : Except EnrollmentError Unit :=
  if body.agentPubkey.length ≠ 32 then
    .error (.csrInvalid "agent_pubkey must be exactly 32 bytes")
  else
    match if [45, 45, 45, 45, 45].isPrefixOf body.csrPem then service.x509.loadPemCsr body.csrPem
      else service.x509.loadDerCsr body.csrPem with
    | .error text =>
      .error (.csrInvalid ("invalid CSR or pubkey validation failed: " ++ text))
    | .ok csr =>
      match csr.publicKey with
      | .ed25519 => .ok ()
      | .ellipticCurve curve =>
        if curve = "secp256r1" then .ok ()
        else .error (.csrInvalid ("EC CSR must use P-256 curve, got " ++ curve))
      | .other typeName =>
        .error (.csrInvalid ("CSR must contain Ed25519 or EC public key, got " ++ typeName))

def Service.issueHostCert (service : Service) (body : Redemption) : Option Certificate :=
  if service.certTtl ≤ 0 then none
  else
    match service.x509.loadPemCsr body.csrPem with
    | .error _ => none
    | .ok csr => if csr.signatureValid then some ⟨body.hostId, body.serialNumber⟩ else none

def hexSerial (serialNumber : Nat) : String := String.ofList (Nat.toDigits 16 serialNumber)

def Service.host (service : Service) (body : Redemption) (now : Int) : Host where
  id := body.hostId
  hostname := body.hostname
  agentPubkey := body.agentPubkey
  certSerial := hexSerial body.serialNumber
  certExpiresAt := now + service.certTtl
  enrolledAt := now
  status := "offline"
  labels := body.labels

inductive Kind where
  | redeem (body : Redemption)
  | revokePending (tokenId : String)
  deriving DecidableEq, Repr

/-- Which statement a call waits for, and whether it has taken effect. -/
inductive Phase where
  | selecting
  | selected
  | updating
  | claimed
  | lost
  | committing
  | deleting
  | returned
  | failed (error : EnrollmentError)
  deriving DecidableEq, Repr

/-- `row` is the row that the call has selected. -/
structure Call where
  kind : Kind
  now : Int
  phase : Phase
  row : Option Token
  deriving DecidableEq, Repr

/-- `certificates` are all that were signed, and `minted` the ids and hashes of all tokens
that were ever stored. -/
structure Registry where
  tokens : List Token
  hosts : List Host
  certificates : List Certificate
  minted : List (String × Bytes)
  now : Int
  calls : List Call

inductive Step where
  | mint (tokenId : String) (tokenPlaintext : String) (ttl : Int)
  | start (kind : Kind)
  | effect (index : Nat)
  | resume (index : Nat)
  | fail (index : Nat)
  | tick (elapsed : Nat)
  deriving DecidableEq, Repr

/-- The transaction of the call has claimed the token and is not over. -/
def Call.holds (service : Service) (hash : Bytes) (call : Call) : Bool :=
  match call.kind with
  | .redeem body =>
    decide (service.hashToken body.tokenPlaintext = hash) &&
      (decide (call.phase = .claimed) || decide (call.phase = .committing))
  | .revokePending _ => false

def Call.draws (hostId : String) (call : Call) : Bool :=
  match call.kind with
  | .redeem body => body.hostId = hostId
  | .revokePending _ => false

namespace Registry

def locked (service : Service) (s : Registry) (hash : Bytes) : Bool :=
  s.calls.any (Call.holds service hash)

def moved (s : Registry) (index : Nat) (call : Call) : Registry :=
  { s with calls := s.calls.set index call }

/-- Tokens and ids are random, and none is drawn twice. -/
def mint (service : Service) (s : Registry) (tokenId tokenPlaintext : String) (ttl : Int) :
    Option Registry :=
  let hash := service.hashToken tokenPlaintext
  if s.minted.any (fun token => token.1 = tokenId || token.2 = hash) then none
  else
    some
      { s with
        tokens := s.tokens ++ [⟨tokenId, hash, s.now + ttl, none, none⟩]
        minted := s.minted ++ [(tokenId, hash)] }

def start (s : Registry) (kind : Kind) : Option Registry :=
  let started := { s with calls := s.calls ++ [⟨kind, s.now, .selecting, none⟩] }
  match kind with
  | .redeem body => if s.calls.any (Call.draws body.hostId) then none else some started
  | .revokePending _ => some started

def effect (service : Service) (s : Registry) (index : Nat) (call : Call) : Option Registry :=
  match call.kind, call.phase with
  | .redeem body, .selecting =>
    some (s.moved index
      { call with
        phase := .selected
        row := findKey Token.tokenHash s.tokens (service.hashToken body.tokenPlaintext) })
  | .redeem body, .updating =>
    let hash := service.hashToken body.tokenPlaintext
    if s.locked service hash then none
    else if s.tokens.any (fun token =>
        token.tokenHash = hash && token.redeemedAt.isNone && call.now < token.expiresAt) then
      some (s.moved index { call with phase := .claimed })
    else some (s.moved index { call with phase := .lost })
  | .redeem body, .committing =>
    let hash := service.hashToken body.tokenPlaintext
    if s.hosts.any (·.id = body.hostId) then
      some (s.moved index { call with phase := .failed .raised })
    else
      some
        { s.moved index { call with phase := .returned } with
          tokens := s.tokens.map (fun token =>
            if token.tokenHash = hash then
              { token with redeemedAt := some call.now, redeemedHostId := some body.hostId }
            else token)
          hosts := s.hosts ++ [service.host body call.now] }
  | .revokePending tokenId, .selecting =>
    some (s.moved index
      { call with phase := .selected, row := findKey Token.id s.tokens tokenId })
  | .revokePending tokenId, .deleting =>
    if s.tokens.any (fun token =>
        token.id = tokenId && s.locked service token.tokenHash) then none
    else
      some
        { s.moved index { call with phase := .returned } with
          tokens := s.tokens.filter (fun token => token.id ≠ tokenId) }
  | _, _ => none

/-- The checks of `redeem` on the selected row and its signing of the CSR. -/
def sign (service : Service) (s : Registry) (index : Nat) (call : Call) (body : Redemption) :
    Registry :=
  let failed := fun error => s.moved index { call with phase := .failed error }
  match call.row with
  | none => failed (.tokenNotFound "enrollment token not found")
  | some token =>
    if token.expiresAt ≤ call.now then failed (.tokenExpired "enrollment token expired")
    else if token.redeemedAt.isSome then
      failed (.tokenAlreadyRedeemed "enrollment token already redeemed")
    else
      match service.validateCsr body with
      | .error error => failed error
      | .ok () =>
        match service.issueHostCert body with
        | none => failed (.csrInvalid "invalid CSR")
        | some certificate =>
          { s.moved index { call with phase := .updating } with
            certificates := s.certificates ++ [certificate] }

def resume (service : Service) (s : Registry) (index : Nat) (call : Call) : Option Registry :=
  match call.kind, call.phase with
  | .redeem body, .selected => some (s.sign service index call body)
  | .redeem _, .lost =>
    some (s.moved index
      { call with
        phase := .failed (.tokenAlreadyRedeemed "enrollment token already redeemed") })
  | .redeem _, .claimed => some (s.moved index { call with phase := .committing })
  | .revokePending tokenId, .selected =>
    match call.row with
    | none => some (s.moved index { call with phase := .failed (.tokenNotFound tokenId) })
    | some token =>
      if token.redeemedAt.isSome then
        some (s.moved index { call with phase := .failed (.tokenAlreadyRedeemed tokenId) })
      else some (s.moved index { call with phase := .deleting })
  | _, _ => none

/-- What the call awaits raises: its transaction is rolled back. -/
def fail (s : Registry) (index : Nat) (call : Call) : Option Registry :=
  match call.phase with
  | .returned | .failed _ => none
  | _ => some (s.moved index { call with phase := .failed .raised })

def step (service : Service) (s : Registry) : Step → Option Registry
  | .mint tokenId tokenPlaintext ttl => s.mint service tokenId tokenPlaintext ttl
  | .start kind => s.start kind
  | .effect index => (s.calls[index]?).bind (s.effect service index)
  | .resume index => (s.calls[index]?).bind (s.resume service index)
  | .fail index => (s.calls[index]?).bind (s.fail index)
  | .tick elapsed => some { s with now := s.now + elapsed }

def initial (now : Int) : Registry := ⟨[], [], [], [], now, []⟩

end Registry

def Call.Redeemed (body : Redemption) (call : Call) : Prop :=
  call.kind = .redeem body ∧ call.phase = .returned

def Call.Failed (body : Redemption) (call : Call) : Prop :=
  call.kind = .redeem body ∧ ∃ error, call.phase = .failed error

/-- What holds of two moments of a run, the earlier one first. -/
structure Laws (service : Service) (s t : Registry) : Prop where
  once : ∀ (first second : Nat) call other body others, t.calls[first]? = some call →
    t.calls[second]? = some other → call.Redeemed body → other.Redeemed others →
    body.tokenPlaintext = others.tokenPlaintext → first = second
  bound : ∀ call ∈ t.calls, ∀ body, call.Redeemed body →
    t.hosts.filter (·.id = body.hostId) = [service.host body call.now] ∧
    t.certificates.filter (·.hostId = body.hostId) = [⟨body.hostId, body.serialNumber⟩] ∧
    ∃ token ∈ t.tokens, token.tokenHash = service.hashToken body.tokenPlaintext ∧
      token.redeemedHostId = some body.hostId
  undone : ∀ call ∈ t.calls, ∀ body, call.Failed body →
    (∀ host ∈ t.hosts, host.id ≠ body.hostId) ∧
    ∀ token ∈ t.tokens, token.redeemedHostId ≠ some body.hostId
  revoked : ∀ call ∈ s.calls, ∀ tokenId, call.kind = .revokePending tokenId →
    call.phase = .returned → ∀ (index : Nat) other body, t.calls[index]? = some other →
    other.Redeemed body → (tokenId, service.hashToken body.tokenPlaintext) ∈ t.minted →
    s.calls[index]? = some other
  kept : ∀ token ∈ s.tokens, token.redeemedAt ≠ none → token ∈ t.tokens

/-- Between any two moments of the run the tokens are single use. -/
def SingleUse (service : Service) (first : Registry) (steps : List Step) : Prop :=
  ∀ before between after s t, steps = before ++ between ++ after →
    run (Registry.step service) first before = some s →
    run (Registry.step service) s between = some t → Laws service s t

def Call.deletes (call : Call) : Option String :=
  match call.kind, call.phase with
  | .revokePending tokenId, .deleting => some tokenId
  | _, _ => none

def Careful (s : Registry) : Step → Prop
  | .effect index => ∀ call ∈ s.calls[index]?, ∀ tokenId ∈ call.deletes,
      ∀ token ∈ s.tokens, token.id = tokenId → token.redeemedAt = none
  | _ => True

instance (s : Registry) : ∀ step, Decidable (Careful s step)
  | .effect index => inferInstanceAs (Decidable (∀ call ∈ s.calls[index]?, _))
  | .mint _ _ _ => .isTrue trivial
  | .start _ => .isTrue trivial
  | .resume _ => .isTrue trivial
  | .fail _ => .isTrue trivial
  | .tick _ => .isTrue trivial

end HlHelper.Enrollment
