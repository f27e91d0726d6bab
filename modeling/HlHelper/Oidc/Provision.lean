import HlHelper.Library.Rows
import HlHelper.Library.Runs

/-! `jit_provision` over a transactional database, one step for each statement: it sees what is
committed when it takes effect, and a row that a transaction has inserted locks its unique keys
until the transaction ends. -/

namespace HlHelper.Oidc

open HlHelper.Library

inductive UserKind where
  | local | oidc
  deriving DecidableEq, Repr

structure User where
  id : String
  email : String
  displayName : Option String
  kind : UserKind
  oidcSubject : Option String
  oidcIssuer : Option String
  deriving DecidableEq, Repr

structure AccountLink where
  userId : String
  providerId : String
  subject : String
  email : Option String
  lastLoginAt : Int
  deriving DecidableEq, Repr

def AccountLink.key (link : AccountLink) : String × String := (link.providerId, link.subject)

structure Role where
  id : String
  name : String
  deriving DecidableEq, Repr

structure Binding where
  userId : String
  roleId : String
  deriving DecidableEq, Repr

structure Db where
  users : List User
  links : List AccountLink
  bindings : List Binding
  roles : List Role
  deriving DecidableEq, Repr

structure Uncommitted where
  users : List User
  links : List AccountLink
  bindings : List Binding
  deriving DecidableEq, Repr

def Uncommitted.none : Uncommitted := ⟨[], [], []⟩

/-- What `jit_provision` takes of the provider, the claims and the mapped claims. -/
structure SignIn where
  providerId : String
  issuer : String
  sub : String
  email : String
  emailVerified : Bool
  displayName : Option String
  groups : List String
  deriving DecidableEq, Repr

def SignIn.key (a : SignIn) : String × String := (a.providerId, a.sub)

inductive Pending where
  | link
  | binding (b : Binding)
  deriving DecidableEq, Repr

structure Tx where
  user : User
  created : Bool
  link : AccountLink
  unflushed : Option Pending
  linkIn : Bool
  bindings : List Binding
  deriving DecidableEq, Repr

def Tx.uncommitted (tx : Tx) : Uncommitted where
  users := if tx.created then [tx.user] else []
  links := if tx.linkIn then [tx.link] else []
  bindings := tx.bindings

inductive Basis where
  | linked | owner | created
  deriving DecidableEq, Repr

inductive ProvisionError where
  | emailNotVerified
  | linkUserMissing
  | integrity
  deriving DecidableEq, Repr

def ProvisionError.message : ProvisionError → Option String
  | .emailNotVerified => some "email_not_verified"
  | .linkUserMissing => some "link_user_missing"
  | .integrity => none

inductive Phase where
  | selectLink
  | selectLinkUser (link : AccountLink)
  | touch (link : AccountLink) (user : User)
  | selectUser
  | flushUser (user : User)
  | selectRole (tx : Tx) (group : String) (rest : List String)
  | selectBinding (tx : Tx) (role : Role) (rest : List String)
  | commit (tx : Tx)
  | selectAgain
  | selectAgainUser (link : AccountLink)
  | refresh (tx : Tx)
  | returned (user : User) (basis : Basis)
  | raised (error : ProvisionError)
  deriving DecidableEq, Repr

def Phase.uncommitted : Phase → Uncommitted
  | .selectRole tx _ _ | .selectBinding tx _ _ | .commit tx => tx.uncommitted
  | _ => .none

structure Draw where
  userId : String
  now : Int
  deriving DecidableEq, Repr

namespace SignIn

def newUser (a : SignIn) (draw : Draw) : User :=
  ⟨draw.userId, a.email, a.displayName, .oidc, some a.sub, some a.issuer⟩

/-- The session behind `session.add(link)`. -/
def begin (a : SignIn) (user : User) (created : Bool) (now : Int) : Tx where
  user := user
  created := created
  link := ⟨user.id, a.providerId, a.sub, some a.email, now⟩
  unflushed := some .link
  linkIn := false
  bindings := []

end SignIn

def Tx.next (tx : Tx) : List String → Phase
  | [] => .commit tx
  | group :: rest => .selectRole tx group rest

/-- What becomes of an `INSERT`. -/
inductive Inserted where
  | done (tx : Tx)
  | conflict
  | blocked
  deriving DecidableEq, Repr

/-- The flush of an object into a table where it may meet its unique keys. -/
def Tx.flush (tx : Tx) (db : Db) (others : List Uncommitted) : Pending → Inserted
  | .link =>
    if db.links.any fun link => link.key = tx.link.key then .conflict
    else if others.any fun other => other.links.any fun link => link.key = tx.link.key then
      .blocked
    else .done { tx with unflushed := none, linkIn := true }
  | .binding b =>
    if db.bindings.any fun other => other = b then .conflict
    else if others.any fun other => other.bindings.any fun same => same = b then .blocked
    else .done { tx with unflushed := none, bindings := tx.bindings ++ [b] }

def Db.committed (db : Db) (rows : Uncommitted) : Db :=
  { db with
    users := db.users ++ rows.users
    links := db.links ++ rows.links
    bindings := db.bindings ++ rows.bindings }

namespace SignIn

variable (a : SignIn)

def flushUser (db : Db) (others : List Uncommitted) (draw : Draw) (user : User) : Option Phase :=
  if db.users.any fun other => other.id = user.id || other.email = user.email then
    some (.raised .integrity)
  else if others.any fun rows =>
      rows.users.any fun other => other.id = user.id || other.email = user.email then none
  else some ((a.begin user true draw.now).next a.groups)

/-- A statement of one call, with what other transactions hold; none while it is blocked. -/
def advance (db : Db) (others : List Uncommitted) (draw : Draw) : Phase → Option (Db × Phase)
  | .selectLink =>
    match findKey AccountLink.key db.links a.key with
    | some link => some (db, .selectLinkUser link)
    | none => some (db, .selectUser)
  | .selectLinkUser link =>
    match findKey User.id db.users link.userId with
    | some user => some (db, .touch link user)
    | none => some (db, .raised .linkUserMissing)
  | .touch link user =>
    some
      ({ db with
        links := db.links.map fun row =>
          if row.key = link.key then
            { row with email := some a.email, lastLoginAt := draw.now }
          else row },
        .returned user .linked)
  | .selectUser =>
    match findKey User.email db.users a.email with
    | some user =>
      if a.emailVerified then some (db, (a.begin user false draw.now).next a.groups)
      else some (db, .raised .emailNotVerified)
    | none => some (db, .flushUser (a.newUser draw))
  | .flushUser user => (a.flushUser db others draw user).map fun phase => (db, phase)
  | .selectRole tx group rest =>
    match tx.unflushed with
    -- The select flushes the session first, outside of the handler of the commit.
    | some pending =>
      match tx.flush db others pending with
      | .done tx => some (db, .selectRole tx group rest)
      | .conflict => some (db, .raised .integrity)
      | .blocked => none
    | none =>
      match findKey Role.name db.roles group with
      | some role => some (db, .selectBinding tx role rest)
      | none => some (db, tx.next rest)
  | .selectBinding tx role rest =>
    let bound := (db.bindings ++ tx.bindings).any fun b => b = ⟨tx.user.id, role.id⟩
    let tx := if bound then tx else { tx with unflushed := some (.binding ⟨tx.user.id, role.id⟩) }
    some (db, tx.next rest)
  | .commit tx =>
    match tx.unflushed with
    | some pending =>
      match tx.flush db others pending with
      | .done tx => some (db, .commit tx)
      | .conflict => some (db, .selectAgain)
      | .blocked => none
    | none => some (db.committed tx.uncommitted, .refresh tx)
  | .selectAgain =>
    match findKey AccountLink.key db.links a.key with
    | some link => some (db, .selectAgainUser link)
    | none => some (db, .raised .integrity)
  | .selectAgainUser link =>
    match findKey User.id db.users link.userId with
    | some user => some (db, .returned user .linked)
    | none => some (db, .raised .linkUserMissing)
  | .refresh tx => some (db, .returned tx.user (if tx.created then .created else .owner))
  | .returned _ _ | .raised _ => none

end SignIn

end HlHelper.Oidc
