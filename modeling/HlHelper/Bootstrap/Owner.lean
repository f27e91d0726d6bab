import HlHelper.Library.Rows
import HlHelper.Library.Runs
import HlHelper.Library.Slots
import HlHelper.Library.Wire
import HlHelper.Rbac.Engine

/-! `bootstrap_owner` over a transactional database, one step for each statement: it sees what is
committed when it takes effect, and a row that a transaction has written is locked until it ends.
Times are microseconds. -/

namespace HlHelper.Bootstrap

open HlHelper.Library
open Rbac (PrincipalType Scope Binding)

structure BootstrapToken where
  id : String
  tokenHash : Bytes
  expiresAt : Int
  consumedAt : Option Int
  deriving DecidableEq, Repr

inductive UserKind where
  | local | oidc
  deriving DecidableEq, Repr

structure User where
  id : String
  email : String
  kind : UserKind
  passwordHash : Option String
  deriving DecidableEq, Repr

structure Role where
  id : String
  name : String
  description : Option String
  builtIn : Bool
  permissions : List String
  deriving DecidableEq, Repr

structure Db where
  tokens : List BootstrapToken
  users : List User
  roles : List Role
  bindings : List Binding
  deriving DecidableEq, Repr

def bindingKey (b : Binding) : PrincipalType × String × String × Scope :=
  (b.principalType, b.principalId, b.roleId, b.scope)

structure BootstrapOwnerRequest where
  token : String
  email : String
  password : String
  deriving DecidableEq, Repr

structure Service where
  sha : Sha256
  /-- The complexity errors of a password, for an email. -/
  validatePassword : String → String → List String
  /-- The hash of a password, under a salt. -/
  hash : String → String → String

inductive BootstrapError where
  | status (code : Nat) (detail : String)
  /-- What the database raises, or a cancellation. -/
  | raised
  deriving DecidableEq, Repr

structure Creation where
  tokenHash : Bytes
  now : Int
  user : User
  role : Role
  newRole : Bool
  binding : Binding
  deriving DecidableEq, Repr

inductive Phase where
  | consume
  | selectToken
  | flushUser
  | selectRole (user : User)
  | flushRole (user : User)
  | flushBinding (user : User) (role : Role) (newRole : Bool)
  | commit (creation : Creation)
  | returned (user : User)
  | failed (error : BootstrapError)
  deriving DecidableEq, Repr

structure Call where
  email : String
  passwordHash : String
  tokenHash : Bytes
  now : Int
  phase : Phase
  deriving DecidableEq, Repr

structure Held where
  token : Option Bytes
  users : List User
  roles : List Role
  bindings : List Binding
  deriving DecidableEq, Repr

def Call.held (call : Call) : Held :=
  match call.phase with
  | .consume | .selectToken | .returned _ | .failed _ => ⟨none, [], [], []⟩
  | .flushUser => ⟨some call.tokenHash, [], [], []⟩
  | .selectRole user | .flushRole user => ⟨some call.tokenHash, [user], [], []⟩
  | .flushBinding user role newRole =>
    ⟨some call.tokenHash, [user], if newRole then [role] else [], []⟩
  | .commit c =>
    ⟨some call.tokenHash, [c.user], if c.newRole then [c.role] else [], [c.binding]⟩

/-- The `UPDATE` of the token and the rows of a transaction take effect. -/
def Db.created (db : Db) (c : Creation) : Db where
  tokens := db.tokens.map fun token =>
    if token.tokenHash = c.tokenHash then { token with consumedAt := some c.now } else token
  users := db.users ++ [c.user]
  roles := db.roles ++ if c.newRole then [c.role] else []
  bindings := db.bindings ++ [c.binding]

def Call.updates (call : Call) (token : BootstrapToken) : Bool :=
  token.tokenHash = call.tokenHash ∧ token.consumedAt = none ∧ call.now < token.expiresAt

def gone (db : Db) (call : Call) : BootstrapError :=
  match findKey BootstrapToken.tokenHash db.tokens call.tokenHash with
  | none => .status 410 "Token not found or invalid"
  | some token =>
    if token.expiresAt < call.now then .status 410 "Token expired"
    else if token.consumedAt ≠ none then .status 410 "Token already consumed"
    else .status 410 "Token not found or invalid"

/-- What becomes of an `INSERT` under unique keys: it raises, waits or is done. -/
def insert {α : Type} (clashes : α → Bool) (rows : List α) (held : List (List α))
    (done : Phase) : Option Phase :=
  if rows.any clashes then some (.failed .raised)
  else if held.any fun rows => rows.any clashes then none
  else some done

/-- A statement of a request, with what other transactions hold; none while it is blocked. Rows
that it inserts get the id that it draws. -/
def advance (db : Db) (others : List Held) (call : Call) (id : String) : Option (Db × Phase) :=
  match call.phase with
  | .consume =>
    if db.tokens.any call.updates then
      if others.any fun held => held.token = some call.tokenHash then none
      else some (db, .flushUser)
    else some (db, .selectToken)
  | .selectToken => some (db, .failed (gone db call))
  | .flushUser =>
    let user : User := ⟨id, call.email, .local, some call.passwordHash⟩
    (insert (fun other : User => other.id = user.id || other.email = user.email) db.users
      (others.map Held.users) (.selectRole user)).map fun phase => (db, phase)
  | .selectRole user =>
    match findKey Role.name db.roles "owner" with
    | some role => some (db, .flushBinding user role false)
    | none => some (db, .flushRole user)
  | .flushRole user =>
    let role : Role := ⟨id, "owner", some "Owner role (bootstrap fallback)", true, ["*"]⟩
    (insert (fun other : Role => other.id = role.id || other.name = role.name) db.roles
      (others.map Held.roles) (.flushBinding user role true)).map fun phase => (db, phase)
  | .flushBinding user role newRole =>
    let binding : Binding := ⟨id, .user, user.id, role.id, .global⟩
    (insert (fun other : Binding =>
        other.id = binding.id || bindingKey other = bindingKey binding) db.bindings
      (others.map Held.bindings)
      (.commit ⟨call.tokenHash, call.now, user, role, newRole, binding⟩)).map
        fun phase => (db, phase)
  | .commit c => some (db.created c, .returned c.user)
  | .returned _ | .failed _ => none

structure Server where
  db : Db
  calls : List Call
  deriving DecidableEq, Repr

inductive Step where
  | start (body : BootstrapOwnerRequest) (now : Int) (salt : String)
  | advance (index : Nat) (id : String)
  | fail (index : Nat)
  deriving DecidableEq, Repr

def Phase.ended : Phase → Bool
  | .returned _ | .failed _ => true
  | _ => false

namespace Server

variable (service : Service)

def begin (body : BootstrapOwnerRequest) (now : Int) (salt : String) : Call :=
  let errors := service.validatePassword body.password body.email
  { email := body.email
    passwordHash := service.hash body.password salt
    tokenHash := service.sha.sum (Wire.utf8 body.token)
    now := now
    phase :=
      if errors = [] then .consume
      else .failed (.status 400 ("Password too weak: " ++ ", ".intercalate errors)) }

def others (s : Server) (index : Nat) : List Held := (s.calls.eraseIdx index).map Call.held

def step (s : Server) : Step → Option Server
  | .start body now salt => some { s with calls := s.calls ++ [begin service body now salt] }
  | .advance index id =>
    (s.calls[index]?).bind fun call =>
      (Bootstrap.advance s.db (s.others index) call id).map fun (db, phase) =>
        ⟨db, s.calls.set index { call with phase := phase }⟩
  | .fail index =>
    (s.calls[index]?).bind fun call =>
      if call.phase.ended then none
      else some { s with calls := s.calls.set index { call with phase := .failed .raised } }

def creates (s : Server) : Step → Option (Nat × Creation)
  | .advance index _ =>
    (s.calls[index]?).bind fun call =>
      match call.phase with
      | .commit c => some (index, c)
      | _ => none
  | _ => none

end Server

end HlHelper.Bootstrap
