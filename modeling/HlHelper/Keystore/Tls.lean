import HlHelper.Envelope
import HlHelper.Library.Files
import HlHelper.Library.Runs

/-! The TLS files of the agent's keystore under overlapping rotations and re-enrolments, one
step for each operation on a file. -/

namespace HlHelper.Keystore

open HlHelper.Library

/-- Names lead to files, and an open file stays the same one when it is renamed. -/
structure Disk where
  links : Files String Nat
  data : Nat → Bytes
  next : Nat

namespace Disk

def read (disk : Disk) (name : String) : Option Bytes := (disk.links name).map disk.data

def create (disk : Disk) (name : String) : Disk × Nat :=
  match disk.links name with
  | some file => ({ disk with data := Function.update disk.data file [] }, file)
  | none =>
    ({ links := disk.links.write name disk.next
       data := Function.update disk.data disk.next []
       next := disk.next + 1 }, disk.next)

def write (disk : Disk) (file : Nat) (content : Bytes) : Disk :=
  { disk with
    data := Function.update disk.data file (content ++ (disk.data file).drop content.length) }

def remove (disk : Disk) (name : String) : Disk :=
  { disk with links := disk.links.remove name }

def rename (disk : Disk) (source target : String) : Option Disk :=
  (disk.links.rename source target).map fun links => { disk with links := links }

end Disk

/-- `tls.X509KeyPair` with the check of the leaf's key, and the verification of a chain against
the pinned root. -/
structure X509 where
  keyPair : Bytes → Bytes → Bool
  verify : Bytes → Bytes → Bool

inductive Kind where
  | rotation | reenrolment
  deriving DecidableEq, Repr

/-- The operation that a call comes to next: of `StageTLS`, of `VerifyStagedTLS`, of
`RollbackStagedTLS` and of `CommitTLS`. -/
inductive Phase where
  | requesting
  | openChain (chain : Bytes)
  | writeChain (chain : Bytes) (file : Nat)
  | openKey
  | writeKey (file : Nat)
  | syncStaged
  | readChain
  | readKey (chain : Bytes)
  | readRoot (chain key : Bytes)
  | removeChain (error : String)
  | removeKey (error : String)
  | statChainNew
  | statKeyNew
  | statChain
  | backupChain
  | statKey
  | backupKey
  | commitChain
  | commitKey
  | syncCommitted
  | done
  | failed (error : String)
  deriving DecidableEq, Repr

/-- A rotation or a re-enrolment, with the private key that it has generated. -/
structure Call where
  kind : Kind
  privPem : Bytes
  phase : Phase
  deriving DecidableEq, Repr

/-- `verified` are the pairs that `VerifyStagedTLS` has accepted. -/
structure Agent where
  disk : Disk
  calls : List Call
  verified : List (Bytes × Bytes)

inductive Step where
  | start (kind : Kind) (privPem : Bytes)
  | issued (index : Nat) (chain : Bytes)
  | advance (index : Nat)
  | fail (index : Nat) (written : Bytes)
  | crash (torn : Option (Nat × Bytes))
  deriving DecidableEq, Repr

def Kind.error : Kind → String → String
  | .rotation, error => "rotate " ++ error
  | .reenrolment, error => error

namespace Agent

variable (x509 : X509)

def moved (a : Agent) (index : Nat) (call : Call) (phase : Phase) : Agent :=
  { a with calls := a.calls.set index { call with phase := phase } }

def onDisk (a : Agent) (disk : Disk) : Agent := { a with disk := disk }

/-- A rename and where the call goes then, or its error. -/
def renames (a : Agent) (index : Nat) (call : Call) (source target : String) (error : String)
    (next : Phase) : Agent :=
  match a.disk.rename source target with
  | none => a.moved index call (.failed (call.kind.error error))
  | some disk => (a.onDisk disk).moved index call next

def stat (a : Agent) (name : String) : Bool := (a.disk.links name).isSome

/-- The next operation of a call, where it does not fail of itself. -/
def advance (a : Agent) (index : Nat) (call : Call) : Option Agent :=
  match call.phase with
  | .requesting => none
  | .openChain chain =>
    let (disk, file) := a.disk.create "tls.crt.new"
    some ((a.onDisk disk).moved index call (.writeChain chain file))
  | .writeChain chain file =>
    some ((a.onDisk (a.disk.write file chain)).moved index call .openKey)
  | .openKey =>
    let (disk, file) := a.disk.create "tls.key.new"
    some ((a.onDisk disk).moved index call (.writeKey file))
  | .writeKey file =>
    some ((a.onDisk (a.disk.write file call.privPem)).moved index call .syncStaged)
  | .syncStaged => some (a.moved index call .readChain)
  | .readChain =>
    match a.disk.read "tls.crt.new" with
    | none => some (a.moved index call (.removeChain "verify: read staged chain"))
    | some chain => some (a.moved index call (.readKey chain))
  | .readKey chain =>
    match a.disk.read "tls.key.new" with
    | none => some (a.moved index call (.removeChain "verify: read staged key"))
    | some key => some (a.moved index call (.readRoot chain key))
  | .readRoot chain key =>
    if x509.keyPair chain key = false then
      some (a.moved index call (.removeChain "verify: staged chain+key parse"))
    else
      match a.disk.read "root.crt" with
      | none | some [] => some (a.moved index call (.removeChain "verify: no pinned root CA"))
      | some root =>
        if x509.verify chain root then
          some { a.moved index call .statChainNew with
            verified := a.verified ++ [(chain, key)] }
        else some (a.moved index call (.removeChain "verify: staged chain verify"))
  | .removeChain error =>
    some ((a.onDisk (a.disk.remove "tls.crt.new")).moved index call (.removeKey error))
  | .removeKey error =>
    some ((a.onDisk (a.disk.remove "tls.key.new")).moved index call
      (.failed (call.kind.error error)))
  | .statChainNew =>
    some (a.moved index call (if a.stat "tls.crt.new" then .statKeyNew
      else .failed (call.kind.error "commit: staged file missing tls.crt.new")))
  | .statKeyNew =>
    some (a.moved index call (if a.stat "tls.key.new" then .statChain
      else .failed (call.kind.error "commit: staged file missing tls.key.new")))
  | .statChain =>
    some (a.moved index call (if a.stat "tls.crt" then .backupChain else .statKey))
  | .backupChain =>
    some (a.renames index call "tls.crt" "tls.crt.prev" "commit: backup crt" .statKey)
  | .statKey => some (a.moved index call (if a.stat "tls.key" then .backupKey else .commitChain))
  | .backupKey =>
    some (a.renames index call "tls.key" "tls.key.prev" "commit: backup key" .commitChain)
  | .commitChain =>
    some (a.renames index call "tls.crt.new" "tls.crt" "commit: commit crt" .commitKey)
  | .commitKey =>
    some (a.renames index call "tls.key.new" "tls.key" "commit: commit key" .syncCommitted)
  | .syncCommitted => some (a.moved index call .done)
  | .done | .failed _ => none

/-- What a write that does not come to its end leaves behind. -/
def torn (a : Agent) (call : Call) (written : Bytes) : Agent :=
  match call.phase with
  | .writeChain _ file | .writeKey file => a.onDisk (a.disk.write file written)
  | _ => a

/-- The errors of `VerifyStagedTLS` lead to the rollback, which passes over its own. -/
def afterError (kind : Kind) : Phase → Option Phase
  | .done | .failed _ => none
  | .requesting => some (.failed (kind.error "request"))
  | .openChain _ | .writeChain _ _ | .openKey | .writeKey _ | .syncStaged =>
    some (.failed (kind.error "stage"))
  | .readChain | .readKey _ | .readRoot _ _ => some (.removeChain "verify")
  | .removeChain error | .removeKey error => some (.failed (kind.error error))
  -- A stat that does not find the file is no error there.
  | .statChain | .statKey => none
  | _ => some (.failed (kind.error "commit"))

/-- The next operation of a call fails; a write may have written something by then. -/
def fail (a : Agent) (index : Nat) (written : Bytes) (call : Call) : Option Agent :=
  (afterError call.kind call.phase).map fun phase =>
    (a.torn call written).moved index call phase

/-- The process ends and starts again with what is on the disk. -/
def crash (a : Agent) : Option (Nat × Bytes) → Agent
  | none => { a with calls := [] }
  | some (index, written) =>
    match a.calls[index]? with
    | none => { a with calls := [] }
    | some call => { a.torn call written with calls := [] }

def step (a : Agent) : Step → Option Agent
  | .start kind privPem => some { a with calls := a.calls ++ [⟨kind, privPem, .requesting⟩] }
  | .issued index chain =>
    (a.calls[index]?).bind fun call =>
      if call.phase = .requesting then some (a.moved index call (.openChain chain)) else none
  | .advance index => (a.calls[index]?).bind (a.advance x509 index)
  | .fail index written => (a.calls[index]?).bind (a.fail index written)
  | .crash torn => some (a.crash torn)

def enrolled (chain key root : Bytes) : Agent where
  disk :=
    { links := fun name =>
        if name = "tls.crt" then some 0
        else if name = "tls.key" then some 1
        else if name = "root.crt" then some 2
        else none
      data := fun file => if file = 0 then chain else if file = 1 then key else root
      next := 3 }
  calls := []
  verified := []

end Agent

end HlHelper.Keystore
