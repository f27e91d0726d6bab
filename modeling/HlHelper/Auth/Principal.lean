import HlHelper.Auth.Lifetimes

/-! `current_principal` and the user API over the session service. -/

namespace HlHelper.Auth

open HlHelper.Library

structure User where
  id : String
  disabled : Bool
  deriving DecidableEq, Repr

/-- What `current_principal` reads of a request: headers, cookies and the peer. -/
structure Request where
  method : String
  authorization : Option String
  sessionCookie : Option String
  csrfCookie : Option String
  csrfHeader : Option String
  client : Option String
  userAgent : Option String
  deriving DecidableEq, Repr

inductive Source where
  | bearer
  | cookie
  deriving DecidableEq, Repr

def bearerMark : List Char := "Bearer ".toList

def tokenMark : List Char := "hls_".toList

namespace Request

def bearerToken (request : Request) : Option String :=
  let header := (request.authorization.getD "").toList
  let token := header.drop bearerMark.length
  if bearerMark.isPrefixOf header && tokenMark.isPrefixOf token then some (String.ofList token)
  else none

def extractToken (request : Request) : Option (String × Source) :=
  match request.bearerToken with
  | some token => some (token, .bearer)
  | none => (request.sessionCookie.filter (· ≠ "")).map (·, .cookie)

def changesState (request : Request) : Bool :=
  request.method ∈ ["POST", "PUT", "PATCH", "DELETE"]

def csrfMismatch (request : Request) : Bool :=
  match request.csrfCookie, request.csrfHeader with
  | some cookie, some header => cookie = "" || header = "" || cookie ≠ header
  | _, _ => true

def requestMeta (request : Request) : RequestMeta :=
  ⟨request.client.getD "unknown", request.userAgent.getD ""⟩

end Request

/-- `started` tells that there is an app state with a session service, and `foreignKeys` that
the database enforces foreign keys, which SQLite does not unless told. -/
structure App where
  service : Service
  started : Bool
  foreignKeys : Bool

/-- Where `current_principal` stands: awaiting a lookup with or without the request's data, or
finished. -/
inductive Stage where
  | bound (token : String) (lookup : Nat)
  | unbound (token : String) (lookup : Nat)
  | answered (principal : Option String)
  | forbidden
  | raised
  deriving DecidableEq, Repr

structure Attempt where
  request : Request
  stage : Stage
  deriving DecidableEq, Repr

structure World where
  sessions : Sessions
  users : List User
  attempts : List Attempt

inductive Move where
  | login (userId mfaLevel : String) (request : RequestMeta) (token sessionId : String)
  | service (step : Step)
  | addUser (user : User)
  | updateUser (userId : String) (disabled : Option Bool)
  | deleteUser (userId : String)
  | request (request : Request)
  | proceed (index : Nat)
  deriving DecidableEq, Repr

/-- The user for whom the call waits to insert a session. -/
def Call.inserting (call : Call) : Option String :=
  match call.kind, call.phase with
  | .issue userId _ _ _ _, .committing => some userId
  | _, _ => none

inductive Outcome where
  | pending
  | failed
  | back (session : Option Session)
  deriving DecidableEq, Repr

def Sessions.outcome (s : Sessions) (lookup : Nat) : Outcome :=
  match s.calls[lookup]? with
  | none => .pending
  | some call =>
    match call.phase with
    | .returned => .back call.result
    | .failed => .failed
    | _ => .pending

namespace World

def push (w : World) (request : Request) (stage : Stage) : World :=
  { w with attempts := w.attempts ++ [⟨request, stage⟩] }

def moved (w : World) (index : Nat) (attempt : Attempt) (stage : Stage) : World :=
  { w with attempts := w.attempts.set index { attempt with stage := stage } }

def lookup (app : App) (w : World) (token : String) (request : Option RequestMeta) : World :=
  { w with sessions := w.sessions.start app.service (.lookup token request) }

/-- `current_principal` up to its first await. -/
def begin (app : App) (w : World) (request : Request) : World :=
  match request.extractToken with
  | none => w.push request (.answered none)
  | some (token, source) =>
    if !app.started then w.push request (.answered none)
    else if source = .cookie && request.changesState && request.csrfMismatch then
      w.push request .forbidden
    else
      (w.push request (.bound token w.sessions.calls.length)).lookup app token
        (some request.requestMeta)

/-- `current_principal` goes on when its lookup is back. -/
def proceed (app : App) (w : World) (index : Nat) (attempt : Attempt) : Option World :=
  match attempt.stage with
  | .bound token lookup =>
    match w.sessions.outcome lookup with
    | .back (some session) => some (w.moved index attempt (.answered (some session.userId)))
    | .back none =>
      some ((w.moved index attempt (.unbound token w.sessions.calls.length)).lookup app token
        none)
    | .failed => some (w.moved index attempt .raised)
    | .pending => none
  | .unbound _ lookup =>
    match w.sessions.outcome lookup with
    | .back session =>
      some (w.moved index attempt (.answered (session.map Session.userId)))
    | .failed => some (w.moved index attempt .raised)
    | .pending => none
  | _ => none

/-- A session of a user who is not there is not inserted when foreign keys are enforced. -/
def checked (app : App) (w : World) : Step → Step
  | .effect index =>
    if app.foreignKeys ∧ ∃ call ∈ w.sessions.calls[index]?, ∃ userId ∈ call.inserting,
      ∀ user ∈ w.users, user.id ≠ userId then .fail index
    else .effect index
  | step => step

def step (app : App) (w : World) : Move → Option World
  | .login userId mfaLevel request token sessionId =>
    if w.users.any (·.id = userId) then
      some { w with
        sessions := w.sessions.start app.service
          (.issue userId mfaLevel request token sessionId) }
    else none
  | .service (.start (.issue _ _ _ _ _)) => none
  | .service step =>
    (w.sessions.step app.service (w.checked app step)).map ({ w with sessions := · })
  | .addUser user =>
    if w.users.any (·.id = user.id) then none else some { w with users := w.users ++ [user] }
  | .updateUser userId disabled =>
    some
      { w with
        users := w.users.map (fun user =>
          if user.id = userId then { user with disabled := disabled.getD user.disabled }
          else user) }
  | .deleteUser userId =>
    if app.foreignKeys && w.sessions.rows.any (·.userId = userId) then some w
    else some { w with users := w.users.filter (·.id ≠ userId) }
  | .request request => some (w.begin app request)
  | .proceed index => (w.attempts[index]?).bind (w.proceed app index)

def run (app : App) (w : World) (moves : List Move) : Option World :=
  Library.run (World.step app) w moves

def initial (now : Int) : World := ⟨.initial now, [], []⟩

def principal (w : World) (index : Nat) : Option String :=
  match (w.attempts[index]?).map Attempt.stage with
  | some (.answered principal) => principal
  | _ => none

end World

/-- The token is that of an unrevoked session of the user, within its lifetimes and bound to
the request's network and user agent, and the user exists and is not disabled. -/
def Entitled (app : App) (w : World) (token : String) (request : RequestMeta)
    (userId : String) : Prop :=
  (∃ row ∈ w.sessions.rows, row.tokenHash = app.service.hashToken token ∧ row.userId = userId ∧
    row.revokedAt = none ∧ w.sessions.now ≤ row.expiresAt ∧
    w.sessions.now - row.lastUse ≤ app.service.idleTtl ∧
    row.validates app.service.ipaddress app.service.sha request = true) ∧
  ∃ user ∈ w.users, user.id = userId ∧ user.disabled = false

/-- In the run, who is given a principal is entitled to it when the request begins or in the
end. -/
def AuthenticationSound (app : App) (first : World) (moves : List Move) : Prop :=
  ∀ before request after w v userId, moves = before ++ .request request :: after →
    first.run app before = some w → first.run app moves = some v →
    v.principal w.attempts.length = some userId →
    ∃ token source, request.extractToken = some (token, source) ∧
      (Entitled app w token request.requestMeta userId ∨
        Entitled app v token request.requestMeta userId)

def Unrevoked (s : Sessions) (session : Session) : Prop :=
  ∀ revocation ∈ s.calls, revocation.phase = .returned →
    ∀ row ∈ s.rows.take revocation.began, row.id = session.id → ¬ revocation.kind.Revokes row

/-- Between the times, a lookup found the session within its lifetimes and returned it. -/
def FoundAlive (service : Service) (calls : List Call) (session : Session)
    (since till : Int) : Prop :=
  ∃ call ∈ calls, (∃ found ∈ call.result, found.id = session.id) ∧
    since ≤ call.now ∧ call.now ≤ till ∧ call.now ≤ session.expiresAt ∧
    ∃ last, Used service calls session last ∧ call.now - last ≤ service.idleTtl

/-- In the run, a principal is given only for a session of its user that the request's token
belongs to, that no revocation had taken before the request began, and that was found within
its lifetimes since. -/
def PrincipalsAlive (app : App) (first : World) (moves : List Move) : Prop :=
  ∀ before request after w v userId, moves = before ++ .request request :: after →
    first.run app before = some w → first.run app moves = some v →
    v.principal w.attempts.length = some userId →
    (∃ token source row, request.extractToken = some (token, source) ∧
      row ∈ v.sessions.rows ∧ row.tokenHash = app.service.hashToken token ∧
      row.userId = userId ∧ Unrevoked w.sessions row ∧
      FoundAlive app.service v.sessions.calls row w.sessions.now v.sessions.now) ∧
    (app.foreignKeys = true → ∃ user ∈ v.users, user.id = userId)

end HlHelper.Auth
