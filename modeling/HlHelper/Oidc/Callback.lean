import HlHelper.Library.OrderedMap
import HlHelper.Oidc.Provision
import HlHelper.Oidc.Tokens

/-! The sign-in flow of the server, one step for each await with the code behind it. -/

namespace HlHelper.Oidc

open HlHelper.Library

inductive Mode where
  | login | link
  deriving DecidableEq, Repr

structure StateRecord where
  providerId : String
  codeVerifier : String
  nonce : String
  redirectUri : String
  createdAt : ℚ
  mode : Mode
  userId : Option String
  deriving DecidableEq, Repr

/-- `OidcStateStore`, with the lifetime and the interval of its defaults. -/
structure StateStore where
  records : OrderedMap String StateRecord
  callCount : Nat
  deriving DecidableEq

namespace StateStore

def ttl : ℚ := 600

def gcEvery : Nat := 100

def gc (store : StateStore) (now : ℚ) : StateStore :=
  { store with
    records := ⟨store.records.entries.filter fun entry => ¬ ttl < now - entry.2.createdAt,
      store.records.unique.sublist (List.filter_sublist.map Prod.fst)⟩ }

def maybeGc (store : StateStore) (now : ℚ) : StateStore :=
  let counted := { store with callCount := store.callCount + 1 }
  if counted.callCount % gcEvery = 0 then counted.gc now else counted

def put (store : StateStore) (state : String) (record : StateRecord) (now : ℚ) :
    StateStore :=
  { store with records := store.records.insert state record }.maybeGc now

/-- What `consume` returns or raises, at the time of its check. -/
def consumed (store : StateStore) (state : String) (now : ℚ) : Except Failure StateRecord :=
  match store.records.get? state with
  | none => .error (.oidc "state_not_found")
  | some record =>
    if ttl < now - record.createdAt then .error (.oidc "state_expired") else .ok record

def consume (store : StateStore) (state : String) (gcAt : ℚ) : StateStore :=
  { store with records := store.records.erase state }.maybeGc gcAt

end StateStore

/-- Where the claims of a callback come from: a token with the key and the time of its checks, or
what the userinfo endpoint answered. -/
inductive ClaimSource where
  | idToken (token : Token) (jwk : Json) (checkedAt : ℚ)
  | userinfo (answer : Json)
  deriving Repr

structure Identity where
  provider : Provider
  source : ClaimSource
  claims : Json
  mapped : MappedClaims
  deriving Repr

inductive Answer where
  | session (userId : String)
  | linked
  | refused (failure : Failure)
  deriving Repr

inductive Stage where
  | selectProvider
  | exchange (provider : Provider)
  | fetchKeys (provider : Provider) (token : Token) (force : Bool)
  | fetchUserinfo (provider : Provider)
  | selectUser (identity : Identity) (userId : String)
  | selectLink (identity : Identity) (user : User)
  | insertLink (link : AccountLink)
  | commitLink (link : AccountLink)
  | provision (identity : Identity) (args : SignIn) (phase : Phase)
  | issue (identity : Identity) (args : SignIn) (user : User) (basis : Basis)
  | answered (answer : Answer)
  deriving Repr

def Stage.uncommitted : Stage → Uncommitted
  | .provision _ _ phase => phase.uncommitted
  | .commitLink link => ⟨[], [link], []⟩
  | _ => .none

structure Call where
  state : String
  record : StateRecord
  stage : Stage
  deriving Repr

structure Cached where
  value : Json
  fetchedAt : ℚ
  deriving Repr

/-- `drawn` holds the records of all states, `served` and `userinfos` what endpoints of providers
answered, and `created` the users that calls have inserted. -/
structure Server where
  db : Db
  states : StateStore
  jwksCache : List (String × Cached)
  calls : List Call
  drawn : List (String × StateRecord)
  served : List (String × Json)
  userinfos : List (String × Json)
  created : List (Nat × User)

inductive Reply where
  | failed (failure : Failure)
  | tokens (idToken accessToken : Option String)
  | document (body : Json)
  | row (draw : Draw)
  deriving Repr

inductive FlowStep where
  | start (providerId state codeVerifier nonce redirectUri : String) (createdAt gcAt : ℚ)
  | link (userId providerId state codeVerifier nonce redirectUri : String) (createdAt gcAt : ℚ)
  | callback (providerId state : String) (gcAt now : ℚ)
  | advance (index : Nat) (reply : Reply) (now : ℚ)
  deriving Repr

namespace Server

def initial (db : Db) : Server := ⟨db, ⟨.empty, 0⟩, [], [], [], [], [], []⟩

section Verification

variable (p : Primitives)

def jwksTtl : ℚ := 3600

def cachedJwks (s : Server) (provider : Provider) (now : ℚ) : Option Json :=
  (findKey Prod.fst s.jwksCache provider.id).bind fun entry =>
    if now - entry.2.fetchedAt < jwksTtl then some entry.2.value else none

def provision (identity : Identity) : Stage :=
  match identity.mapped.email with
  | none | some "" => .answered (.refused (.link "missing_email"))
  | some email =>
    match p.bind (identity.claims.field "sub") with
    | none => .answered (.refused .crash)
    | some sub =>
      .provision identity
        { providerId := identity.provider.id
          issuer := identity.provider.issuer
          sub := sub
          email := email
          emailVerified :=
            match identity.claims.field "email_verified" with
            | .bool true => true
            | _ => false
          displayName := identity.mapped.displayName
          groups := identity.mapped.groups }
        .selectLink

def withClaims (record : StateRecord) (provider : Provider) (source : ClaimSource) (claims : Json) :
    Stage :=
  let identity : Identity :=
    ⟨provider, source, claims, applyClaimMappings p.toPython claims provider.claimMappings⟩
  if (claims.field "sub").truthy = false then .answered (.refused (.oidc "missing_subject"))
  else
    match record.mode, record.userId with
    | .link, some userId =>
      if userId = "" then provision p identity else .selectUser identity userId
    | _, _ => provision p identity

def verify (record : StateRecord) (provider : Provider) (token : Token) (force : Bool) (jwks : Json)
    (now : ℚ) : Stage :=
  match selectJwk p jwks token.kid with
  | .error (.oidc message) =>
    if force then .answered (.refused (.oidc message)) else .fetchKeys provider token true
  | .error failure => .answered (.refused failure)
  | .ok jwk =>
    match verifyWith p provider record.nonce now token jwk with
    | .error failure => .answered (.refused failure)
    | .ok () => withClaims p record provider (.idToken token jwk now) token.payload

/-- The claims of a userinfo endpoint, with the `id` of GitHub for a missing `sub`. -/
def userinfoClaims (answer : Json) : Except Failure Json :=
  match answer with
  | .obj fields =>
    if answer.has "sub" then .ok answer
    else
      match answer.field "id" with
      | .null => .error (.oidc "missing_subject")
      | id => .ok (.obj (fields ++ [("sub", .str (p.text id))]))
  | _ => .error .crash

def exchanged (s : Server) (record : StateRecord) (provider : Provider) (now : ℚ)
    (idToken accessToken : Option String) : Stage :=
  match idToken with
  | some text =>
    match parseToken p text with
    | .error failure => .answered (.refused failure)
    | .ok token =>
      match s.cachedJwks provider now with
      | some jwks => verify p record provider token false jwks now
      | none => .fetchKeys provider token false
  | none =>
    if provider.oauth2Only = false then .answered (.refused (.oidc "no_id_token"))
    else
      match accessToken with
      | none | some "" => .answered (.refused (.oidc "no_access_token"))
      | some _ => .fetchUserinfo provider

end Verification

def provisioned (identity : Identity) (args : SignIn) : Phase → Stage
  | .returned user basis => .issue identity args user basis
  | .raised error => .answered (.refused ((error.message.map Failure.link).getD .crash))
  | phase => .provision identity args phase

def commits (index : Nat) : Phase → List (Nat × User)
  | .commit tx => if tx.unflushed = none ∧ tx.created = true then [(index, tx.user)] else []
  | _ => []

def others (s : Server) (index : Nat) : List Uncommitted :=
  (s.calls.eraseIdx index).map fun call => call.stage.uncommitted

def resume (p : Primitives) (providers : List Provider) (s : Server) (index : Nat) (call : Call)
    (now : ℚ) : Stage → Reply → Option (Server × Stage)
  | .answered _, _ => none
  | _, .failed failure => some (s, .answered (.refused failure))
  | .selectProvider, .row _ =>
    match findKey Provider.id providers call.record.providerId with
    | none => some (s, .answered (.refused (.status 404 "provider_not_found")))
    | some provider => some (s, .exchange provider)
  | .exchange provider, .tokens idToken accessToken =>
    some (s, exchanged p s call.record provider now idToken accessToken)
  | .fetchKeys provider token force, .document jwks =>
    some ({ s with
      jwksCache := (provider.id, ⟨jwks, now⟩) :: s.jwksCache
      served := (provider.id, jwks) :: s.served },
      verify p call.record provider token force jwks now)
  | .fetchUserinfo provider, .document answer =>
    some ({ s with userinfos := (provider.id, answer) :: s.userinfos },
      match userinfoClaims p answer with
      | .error failure => .answered (.refused failure)
      | .ok claims => withClaims p call.record provider (.userinfo answer) claims)
  | .selectUser identity userId, .row _ =>
    match findKey User.id s.db.users userId with
    | none => some (s, .answered (.refused (.status 404 "user_not_found")))
    | some user => some (s, .selectLink identity user)
  | .selectLink identity user, .row draw =>
    let subject := p.text (identity.claims.field "sub")
    match findKey AccountLink.key s.db.links (identity.provider.id, subject) with
    | some _ => some (s, .answered (.refused (.status 409 "already_linked")))
    | none =>
      some (s, .insertLink
        ⟨user.id, identity.provider.id, subject, identity.mapped.email, draw.now⟩)
  | .insertLink link, .row _ =>
    if s.db.links.any fun other => other.key = link.key then
      some (s, .answered (.refused .crash))
    else if (s.others index).any fun rows => rows.links.any fun other => other.key = link.key then
      none
    else some (s, .commitLink link)
  | .commitLink link, .row _ =>
    some ({ s with db := s.db.committed ⟨[], [link], []⟩ }, .answered .linked)
  | .provision identity args phase, .row draw =>
    (args.advance s.db (s.others index) draw phase).map fun (db, next) =>
      ({ s with db := db, created := commits index phase ++ s.created },
        provisioned identity args next)
  | .issue _ _ user _, .row _ => some (s, .answered (.session user.id))
  | _, _ => none

def begin (providers : List Provider) (s : Server) (state : String) (record : StateRecord)
    (gcAt : ℚ) : Option Server :=
  if (findKey Provider.id providers record.providerId).any Provider.enabled
      ∧ state ∉ s.drawn.map Prod.fst then
    some { s with
      states := s.states.put state record gcAt
      drawn := (state, record) :: s.drawn }
  else none

def step (p : Primitives) (providers : List Provider) (s : Server) : FlowStep → Option Server
  | .start providerId state codeVerifier nonce redirectUri createdAt gcAt =>
    s.begin providers state
      ⟨providerId, codeVerifier, nonce, redirectUri, createdAt, .login, none⟩ gcAt
  | .link userId providerId state codeVerifier nonce redirectUri createdAt gcAt =>
    s.begin providers state
      ⟨providerId, codeVerifier, nonce, redirectUri, createdAt, .link, some userId⟩ gcAt
  | .callback providerId state gcAt now =>
    let popped := { s with states := s.states.consume state gcAt }
    match s.states.consumed state now with
    | .error _ => some popped
    | .ok record =>
      if record.providerId = providerId then
        some { popped with calls := s.calls ++ [⟨state, record, .selectProvider⟩] }
      else some popped
  | .advance index reply now =>
    (s.calls[index]?).bind fun call =>
      (s.resume p providers index call now call.stage reply).map fun (t, stage) =>
        { t with calls := s.calls.set index { call with stage := stage } }

structure Use where
  providerId : String
  state : String
  record : StateRecord
  now : ℚ
  deriving DecidableEq, Repr

def uses (s : Server) : FlowStep → Option Use
  | .callback providerId state _ now =>
    match s.states.consumed state now with
    | .error _ => none
    | .ok record =>
      if record.providerId = providerId then some ⟨providerId, state, record, now⟩ else none
  | _ => none

structure Issued where
  index : Nat
  state : String
  record : StateRecord
  identity : Identity
  args : SignIn
  user : User
  basis : Basis
  deriving Repr

def issues (s : Server) : FlowStep → Option Issued
  | .advance index (.row _) _ =>
    (s.calls[index]?).bind fun call =>
      match call.stage with
      | .issue identity args user basis =>
        some ⟨index, call.state, call.record, identity, args, user, basis⟩
      | _ => none
  | _ => none

end Server

end HlHelper.Oidc
