import HlHelper.Envelope
import HlHelper.Library.OrderedMap
import HlHelper.Library.Runs
import HlHelper.Library.Wire

/-! `SessionService`, cut at its awaits: each database statement takes effect at once, some
time between its call and its return. A session is bound to a network class and a user agent. -/

namespace HlHelper.Auth

open HlHelper.Library

inductive Address where
  | v4 (bits : BitVec 32)
  | v6 (bits : BitVec 128)
  deriving DecidableEq, Repr

structure Network where
  address : Address
  prefixLength : Nat
  deriving DecidableEq, Repr

/-- The network of the given prefix length around an address. -/
def Address.network (address : Address) (prefixLength : Nat) : Network :=
  match address with
  | .v4 bits => ⟨.v4 (bits >>> (32 - prefixLength) <<< (32 - prefixLength)), prefixLength⟩
  | .v6 bits => ⟨.v6 (bits >>> (128 - prefixLength) <<< (128 - prefixLength)), prefixLength⟩

def Network.contains (network : Network) (address : Address) : Bool :=
  match network.address, address with
  | .v4 first, .v4 other =>
    first >>> (32 - network.prefixLength) = other >>> (32 - network.prefixLength)
  | .v6 first, .v6 other =>
    first >>> (128 - network.prefixLength) = other >>> (128 - network.prefixLength)
  | _, _ => false

/-- `ip_address`, `ip_network(text, strict=False)` and `str(network)`. -/
structure Ipaddress where
  ipAddress : String → Option Address
  ipNetwork : String → Option Network
  str : Network → String

structure RequestMeta where
  ip : String
  ua : String
  deriving DecidableEq, Repr

def RequestMeta.ipClass (ipaddress : Ipaddress) (request : RequestMeta) : String :=
  match ipaddress.ipAddress request.ip with
  | some (.v4 bits) => ipaddress.str ((Address.v4 bits).network 24)
  | some (.v6 bits) => ipaddress.str ((Address.v6 bits).network 48)
  | none => request.ip

def RequestMeta.uaFp (sha : Sha256) (request : RequestMeta) : Bytes :=
  sha.sum (Library.Wire.utf8 request.ua)

/-- A row of the sessions table. Times are in microseconds. -/
structure Session where
  id : String
  userId : String
  tokenHash : Bytes
  mfaLevel : String
  ipClass : String
  uaFp : Bytes
  issuedAt : Int
  expiresAt : Int
  lastUsedAt : Option Int
  revokedAt : Option Int
  deriving DecidableEq, Repr

def Session.validates (session : Session) (ipaddress : Ipaddress) (sha : Sha256)
    (request : RequestMeta) : Bool :=
  match ipaddress.ipAddress request.ip, ipaddress.ipNetwork session.ipClass with
  | some address, some network =>
    network.contains address && decide (request.uaFp sha = session.uaFp)
  | _, _ => false

def Session.lastUse (session : Session) : Int := session.lastUsedAt.getD session.issuedAt

structure Service where
  sha : Sha256
  ipaddress : Ipaddress
  idleTtl : Int
  absoluteTtl : Int
  cacheTtl : Int

def Service.hashToken (service : Service) (token : String) : Bytes :=
  service.sha.sum (Wire.utf8 token)

/-- `issue` comes with the random token and session id, and `revokeUser` is
`_revoke_user_sessions`, the handling of `rbac.binding_changed`. -/
inductive Kind where
  | issue (userId mfaLevel : String) (request : RequestMeta) (token sessionId : String)
  | lookup (token : String) (request : Option RequestMeta)
  | revoke (sessionId : String)
  | revokeUser (userId : String)
  deriving DecidableEq, Repr

/-- Which statement a call waits for, and whether it has taken effect. -/
inductive Phase where
  | selecting
  | selected
  | updating
  | updated
  | committing
  | committed
  | publishing
  | returned
  | failed
  deriving DecidableEq, Repr

/-- `now` is the local variable, `row` the session that a lookup goes on with, `found` the ids
of the rows that a revocation selected, and `result` what a lookup returned. `began` counts
the rows there were when the call started, and `touched` tells that a lookup has set the last
use of its session. -/
structure Call where
  kind : Kind
  now : Int
  began : Nat
  phase : Phase
  row : Option Session
  found : List String
  touched : Bool
  result : Option Session
  deriving DecidableEq, Repr

/-- The sessions table, the cache with the times at which its entries expire, the clock and
the calls so far. -/
structure Sessions where
  rows : List Session
  cache : OrderedMap Bytes (Session × Int)
  now : Int
  calls : List Call

inductive Step where
  | start (kind : Kind)
  | effect (index : Nat)
  | resume (index : Nat)
  | fail (index : Nat)
  | tick (elapsed : Nat)
  | evict (key : Bytes)
  deriving DecidableEq, Repr

/-- The checks of `lookup` on a cached or a stored session. -/
def Service.admits (service : Service) (session : Session) (now : Int)
    (request : Option RequestMeta) : Bool :=
  session.revokedAt.isNone && decide (now ≤ session.expiresAt) &&
    decide (now - session.lastUse ≤ service.idleTtl) &&
    request.all (session.validates service.ipaddress service.sha)

/-- The checks after which `lookup` also drops the cached session. -/
def Service.drops (service : Service) (session : Session) (now : Int) : Bool :=
  session.revokedAt.isSome || decide (session.expiresAt < now) ||
    decide (service.idleTtl < now - session.lastUse)

def Service.issued (service : Service) (now stored : Int) (userId mfaLevel : String)
    (request : RequestMeta) (token sessionId : String) : Session where
  id := sessionId
  userId := userId
  tokenHash := service.hashToken token
  mfaLevel := mfaLevel
  ipClass := request.ipClass service.ipaddress
  uaFp := request.uaFp service.sha
  issuedAt := stored
  expiresAt := now + service.absoluteTtl
  lastUsedAt := none
  revokedAt := none

/-- The loop of `revoke` over the cache, which ends at the first match. -/
def purgeSession (cache : OrderedMap Bytes (Session × Int)) (sessionId : String) :
    OrderedMap Bytes (Session × Int) :=
  ⟨cache.entries.eraseP (fun entry => entry.2.1.id = sessionId),
    cache.unique.sublist (List.eraseP_sublist.map Prod.fst)⟩

/-- The loop of `_revoke_user_sessions` over the cache. -/
def purgeUser (cache : OrderedMap Bytes (Session × Int)) (userId : String) :
    OrderedMap Bytes (Session × Int) :=
  ⟨cache.entries.filter (fun entry => entry.2.1.userId ≠ userId),
    cache.unique.sublist (List.filter_sublist.map Prod.fst)⟩

def dropExpired (cache : OrderedMap Bytes (Session × Int)) (now : Int) :
    OrderedMap Bytes (Session × Int) :=
  ⟨cache.entries.filter (fun entry => now < entry.2.2),
    cache.unique.sublist (List.filter_sublist.map Prod.fst)⟩

namespace Sessions

def push (s : Sessions) (call : Call) : Sessions := { s with calls := s.calls ++ [call] }

def moved (s : Sessions) (index : Nat) (call : Call) : Sessions :=
  { s with calls := s.calls.set index call }

def fresh (s : Sessions) (kind : Kind) (phase : Phase) : Call :=
  ⟨kind, s.now, s.rows.length, phase, none, [], false, none⟩

def start (service : Service) (s : Sessions) (kind : Kind) : Sessions :=
  match kind with
  | .issue _ _ _ _ _ => s.push (s.fresh kind .committing)
  | .lookup token request =>
    match s.cache.get? (service.hashToken token) with
    | none => s.push (s.fresh kind .selecting)
    | some (session, _) =>
      if service.admits session s.now request then
        s.push { s.fresh kind .updating with row := some session }
      else if service.drops session s.now then
        { s with cache := s.cache.erase (service.hashToken token) }.push
          (s.fresh kind .returned)
      else s.push (s.fresh kind .returned)
  | .revoke _ => s.push (s.fresh kind .selecting)
  | .revokeUser _ => s.push (s.fresh kind .selecting)

def effect (service : Service) (s : Sessions) (index : Nat) (call : Call) : Option Sessions :=
  match call.kind, call.phase with
  | .issue userId mfaLevel request token sessionId, .committing =>
    if s.rows.any (fun row => row.id = sessionId ∨ row.tokenHash = service.hashToken token) then
      some (s.moved index { call with phase := .failed })
    else
      some
        { s.moved index { call with phase := .committed } with
          rows := s.rows ++
            [service.issued call.now s.now userId mfaLevel request token sessionId] }
  | .lookup token _, .selecting =>
    some (s.moved index
      { call with
        phase := .selected
        row := s.rows.find? (fun row => row.tokenHash = service.hashToken token) })
  | .lookup _ _, .updating =>
    some
      { s.moved index { call with phase := .updated, touched := true } with
        rows := s.rows.map (fun row =>
          if call.row.any (fun used => used.id = row.id) then
            { row with lastUsedAt := some call.now }
          else row) }
  | .revoke sessionId, .selecting =>
    some (s.moved index
      { call with
        phase := .selected
        found := ((s.rows.find? (fun row => row.id = sessionId)).map Session.id).toList })
  | .revokeUser userId, .selecting =>
    some (s.moved index
      { call with
        phase := .selected
        found := (s.rows.filter (fun row => row.userId = userId)).map Session.id })
  | .revoke _, .committing | .revokeUser _, .committing =>
    some
      { s.moved index { call with phase := .committed } with
        rows := s.rows.map (fun row =>
          if row.id ∈ call.found then { row with revokedAt := some call.now } else row) }
  | _, _ => none

def resume (service : Service) (s : Sessions) (index : Nat) (call : Call) : Option Sessions :=
  match call.kind, call.phase with
  | .issue _ _ _ _ _, .committed => some (s.moved index { call with phase := .returned })
  | .lookup _ request, .selected =>
    if call.row.any (service.admits · call.now request) then
      some (s.moved index { call with phase := .updating })
    else some (s.moved index { call with phase := .returned })
  | .lookup token _, .updated =>
    match call.row with
    | none => none
    | some row =>
      some
        { s.moved index
            { call with
              phase := .returned
              result := some { row with lastUsedAt := some call.now } } with
          cache := (s.cache.erase (service.hashToken token)).insert
            (service.hashToken token)
            ({ row with lastUsedAt := some call.now }, s.now + service.cacheTtl) }
  | .revoke sessionId, .selected =>
    if call.found.isEmpty then
      some
        { s.moved index { call with phase := .publishing } with
          cache := purgeSession s.cache sessionId }
    else some (s.moved index { call with phase := .committing })
  | .revoke sessionId, .committed =>
    some
      { s.moved index { call with phase := .publishing } with
        cache := purgeSession s.cache sessionId }
  | .revoke _, .publishing => some (s.moved index { call with phase := .returned })
  | .revokeUser _, .selected => some (s.moved index { call with phase := .committing })
  | .revokeUser userId, .committed =>
    some
      { s.moved index { call with phase := .returned } with cache := purgeUser s.cache userId }
  | _, _ => none

/-- What the call awaits raises, or its task is cancelled. -/
def fail (s : Sessions) (index : Nat) (call : Call) : Option Sessions :=
  if call.phase = .returned ∨ call.phase = .failed then none
  else some (s.moved index { call with phase := .failed })

def step (service : Service) (s : Sessions) : Step → Option Sessions
  | .start kind => some (s.start service kind)
  | .effect index => (s.calls[index]?).bind (s.effect service index)
  | .resume index => (s.calls[index]?).bind (s.resume service index)
  | .fail index => (s.calls[index]?).bind (s.fail index)
  | .tick elapsed =>
    some { s with now := s.now + elapsed, cache := dropExpired s.cache (s.now + elapsed) }
  | .evict key => some { s with cache := s.cache.erase key }

def run (service : Service) (s : Sessions) (steps : List Step) : Option Sessions :=
  Library.run (Sessions.step service) s steps

def initial (now : Int) : Sessions := ⟨[], OrderedMap.empty, now, []⟩

end Sessions

def Kind.Revokes : Kind → Session → Prop
  | .revoke sessionId, row => row.id = sessionId
  | .revokeUser userId, row => row.userId = userId
  | _, _ => False

instance : ∀ (kind : Kind) (row : Session), Decidable (kind.Revokes row)
  | .issue _ _ _ _ _, _ => .isFalse id
  | .lookup _ _, _ => .isFalse id
  | .revoke sessionId, row => inferInstanceAs (Decidable (row.id = sessionId))
  | .revokeUser userId, row => inferInstanceAs (Decidable (row.userId = userId))

def Kind.Lookup : Kind → Prop
  | .lookup _ _ => True
  | _ => False

/-- The calls of `revoke` and `_revoke_user_sessions`. -/
def Kind.Revocation : Kind → Prop
  | .revoke _ => True
  | .revokeUser _ => True
  | _ => False

instance : ∀ kind : Kind, Decidable kind.Revocation
  | .issue _ _ _ _ _ => .isFalse id
  | .lookup _ _ => .isFalse id
  | .revoke _ => .isTrue trivial
  | .revokeUser _ => .isTrue trivial

/-- In the run, no lookup of a session's token that starts after a revocation of the session
has returned gets a session. The session was stored when the revocation began. -/
def RevocationsFinal (service : Service) (first : Sessions) (steps : List Step) : Prop :=
  ∀ before token request after s t, steps = before ++ .start (.lookup token request) :: after →
    first.run service before = some s → first.run service steps = some t →
    ∀ revocation ∈ s.calls, revocation.phase = .returned →
    ∀ row ∈ s.rows.take revocation.began, revocation.kind.Revokes row →
      row.tokenHash = service.hashToken token →
    ∀ call ∈ t.calls[s.calls.length]?, call.result = none

end HlHelper.Auth
