import HlHelper.Envelope
import HlHelper.Mfa.Totp

/-! The registration and assertion ceremonies of one user, one step for each await with the code
behind it. Times are microseconds. -/

namespace HlHelper.Mfa.WebAuthn

open HlHelper.Library

structure StoredChallenge where
  challenge : Bytes
  createdAt : Int
  name : String
  deriving DecidableEq, Repr

structure Credential where
  id : String
  credentialId : Bytes
  publicKey : Bytes
  signCount : Nat
  name : String
  lastUsedAt : Option Int
  flaggedAt : Option Int
  deriving DecidableEq, Repr

structure VerifiedRegistration where
  credentialId : Bytes
  publicKey : Bytes
  signCount : Nat
  deriving DecidableEq, Repr

/-- `py_webauthn` over the responses of clients. `signed` is whether the challenge, the origin, the
RP id and the signature are right. -/
structure PyWebauthn where
  verifyRegistration : Bytes → Bytes → Option VerifiedRegistration
  signed : Bytes → Bytes → Bytes → Bool
  credentialId : Bytes → Bytes
  counter : Bytes → Nat

def PyWebauthn.verifyAuthentication (lib : PyWebauthn) (response challenge publicKey : Bytes)
    (currentSignCount : Nat) : Option (Bytes × Nat) :=
  if lib.signed response challenge publicKey = false then none
  else if (0 < lib.counter response ∨ 0 < currentSignCount) ∧
      lib.counter response ≤ currentSignCount then none
  else some (lib.credentialId response, lib.counter response)

inductive Failure where
  | noChallenge
  | challengeExpired
  | invalidRegistration
  | signCountRegression (credential : String) (stored new : Nat)
  | database
  deriving DecidableEq, Repr

def Failure.message (userId : String) : Failure → Option String
  | .noChallenge => some ("No active WebAuthn challenge for user " ++ userId)
  | .challengeExpired => some ("WebAuthn challenge expired for user " ++ userId)
  | .signCountRegression credential stored new =>
    some ("sign_count regressed for credential " ++ credential ++ ": stored=" ++
      toString stored ++ " new=" ++ toString new)
  | .invalidRegistration | .database => none

structure Held where
  stored : StoredChallenge
  checkedAt : Int
  deriving DecidableEq, Repr

inductive Phase where
  | inserting (held : Held) (verified : VerifiedRegistration)
  | refreshing (held : Held)
  | selecting (held : Held)
  | updating (held : Held) (loaded : Credential) (newSignCount : Nat) (usedAt : Int)
  | flagging (loaded : Credential) (newSignCount : Nat) (flaggedAt : Int)
  | returned (success : Bool)
  | raised (failure : Failure)
  deriving DecidableEq, Repr

def Phase.held : Phase → Option Held
  | .inserting held _ | .refreshing held | .selecting held | .updating held _ _ _ => some held
  | .flagging _ _ _ | .returned _ | .raised _ => none

structure Call where
  response : Bytes
  phase : Phase
  deriving DecidableEq, Repr

/-- The slot of the user in the challenge store, and the challenges that have been drawn. -/
structure Server where
  slot : Option StoredChallenge
  drawn : List StoredChallenge
  rows : List Credential
  calls : List Call
  deriving DecidableEq, Repr

inductive Step where
  | registrationBegin (challenge : Bytes) (name : String) (now : Int)
  | assertionBegin (challenge : Bytes) (now : Int)
  | registrationFinish (response : Bytes) (now : Int)
  | insert (index : Nat) (id : String)
  | refresh (index : Nat)
  | assertionFinish (response : Bytes) (now : Int)
  | select (index : Nat) (now : Int)
  | commit (index : Nat)
  | fail (index : Nat)
  deriving DecidableEq, Repr

/-- `_get_challenge`, with what it leaves in the slot; the lifetime is five minutes. -/
def getChallenge (slot : Option StoredChallenge) (now : Int) :
    Except Failure StoredChallenge × Option StoredChallenge :=
  match slot with
  | none => (.error .noChallenge, none)
  | some stored =>
    if 5 * 60 * 1000000 < now - stored.createdAt then (.error .challengeExpired, none)
    else (.ok stored, some stored)

def matching (lib : PyWebauthn) (response challenge : Bytes) (rows : List Credential) :
    Option (Credential × Nat) :=
  rows.findSome? fun row =>
    match lib.verifyAuthentication response challenge row.publicKey row.signCount with
    | none => none
    | some (credentialId, newSignCount) =>
      if credentialId ≠ row.credentialId then none else some (row, newSignCount)

def answer (lib : PyWebauthn) (response : Bytes) (held : Held) (now : Int)
    (rows : List Credential) : Phase :=
  match matching lib response held.stored.challenge rows with
  | none => .returned false
  | some (row, newSignCount) =>
    if newSignCount < row.signCount then .flagging row newSignCount now
    else .updating held row newSignCount now

namespace Server

variable (lib : PyWebauthn)

def initial (rows : List Credential) : Server := ⟨none, [], rows, []⟩

def moved (s : Server) (index : Nat) (call : Call) (phase : Phase) : Server :=
  { s with calls := s.calls.set index { call with phase := phase } }

def begin (s : Server) (stored : StoredChallenge) : Option Server :=
  if stored.challenge ∈ s.drawn.map StoredChallenge.challenge then none
  else some { s with slot := some stored, drawn := s.drawn ++ [stored] }

def finish (s : Server) (response : Bytes) (now : Int) (next : Held → Phase) : Server :=
  match getChallenge s.slot now with
  | (.error failure, slot) =>
    { s with slot := slot, calls := s.calls ++ [⟨response, .raised failure⟩] }
  | (.ok stored, slot) =>
    { s with slot := slot, calls := s.calls ++ [⟨response, next ⟨stored, now⟩⟩] }

def afterRegistration (response : Bytes) (held : Held) : Phase :=
  match lib.verifyRegistration response held.stored.challenge with
  | none => .raised .invalidRegistration
  | some verified => .inserting held verified

def insert (s : Server) (index : Nat) (id : String) (call : Call) : Option Server :=
  match call.phase with
  | .inserting held verified =>
    if s.rows.any fun row => row.id = id || row.credentialId = verified.credentialId then
      some (s.moved index call (.raised .database))
    else
      some
        { s.moved index call (.refreshing held) with
          rows := s.rows ++ [⟨id, verified.credentialId, verified.publicKey,
            verified.signCount, held.stored.name, none, none⟩] }
  | _ => none

def refresh (s : Server) (index : Nat) (call : Call) : Option Server :=
  match call.phase with
  | .refreshing _ => some { s.moved index call (.returned true) with slot := none }
  | _ => none

def select (s : Server) (index : Nat) (now : Int) (call : Call) : Option Server :=
  match call.phase with
  | .selecting held => some (s.moved index call (answer lib call.response held now s.rows))
  | _ => none

def commit (s : Server) (index : Nat) (call : Call) : Option Server :=
  match call.phase with
  | .updating _ loaded newSignCount usedAt =>
    if s.rows.any fun row => row.id = loaded.id then
      some
        { s.moved index call (.returned true) with
          slot := none
          rows := s.rows.map fun row =>
            if row.id = loaded.id then
              { row with
                signCount := flush loaded.signCount newSignCount row.signCount
                lastUsedAt := some usedAt }
            else row }
    else some (s.moved index call (.raised .database))
  | .flagging loaded newSignCount flaggedAt =>
    if s.rows.any fun row => row.id = loaded.id then
      some
        { s.moved index call
            (.raised (.signCountRegression loaded.id loaded.signCount newSignCount)) with
          rows := s.rows.map fun row =>
            if row.id = loaded.id then { row with flaggedAt := some flaggedAt } else row }
    else some (s.moved index call (.raised .database))
  | _ => none

def fail (s : Server) (index : Nat) (call : Call) : Option Server :=
  match call.phase with
  | .returned _ | .raised _ => none
  | _ => some (s.moved index call (.raised .database))

def step (s : Server) : Step → Option Server
  | .registrationBegin challenge name now => s.begin ⟨challenge, now, name⟩
  | .assertionBegin challenge now => s.begin ⟨challenge, now, ""⟩
  | .registrationFinish response now =>
    some (s.finish response now (afterRegistration lib response))
  | .assertionFinish response now => some (s.finish response now .selecting)
  | .insert index id => (s.calls[index]?).bind (s.insert index id)
  | .refresh index => (s.calls[index]?).bind (s.refresh index)
  | .select index now => (s.calls[index]?).bind (s.select lib index now)
  | .commit index => (s.calls[index]?).bind (s.commit index)
  | .fail index => (s.calls[index]?).bind (s.fail index)

end Server

def succeeds (s : Server) : Step → Option Held
  | .refresh index =>
    (s.calls[index]?).bind fun call =>
      match call.phase with
      | .refreshing held => some held
      | _ => none
  | .commit index =>
    (s.calls[index]?).bind fun call =>
      match call.phase with
      | .updating held loaded _ _ =>
        if s.rows.any fun row => row.id = loaded.id then some held else none
      | _ => none
  | _ => none

end HlHelper.Mfa.WebAuthn
