import HlHelper.Envelope
import HlHelper.Library.Files
import HlHelper.Library.Runs

/-! The file backend of the signing key, with rotations that may be cut off between and in their
operations on the files. Times are microseconds since the epoch. -/

namespace HlHelper.Signing

open HlHelper.Library

structure Ed25519 where
  publicKey : Bytes → Bytes
  sign : Bytes → Bytes → Bytes
  verify : Bytes → Bytes → Bytes → Bool
  verify_sign : ∀ key data, verify (publicKey key) data (sign key data) = true

/-- The names in the backend's directory. The name of a retired key is made from a time. -/
inductive FileName where
  | currentKey | currentKeyTmp | currentPub | grace
  | retired (ts : Int)
  deriving DecidableEq, Repr

structure RetiredAnchor where
  file : FileName
  expiresAt : Int
  deriving DecidableEq, Repr

/-- What a file loads as: a PEM text, the JSON of `grace.json`, or neither. -/
inductive Content where
  | privatePem (key : Bytes)
  | publicPem (key : Bytes)
  | graceJson (retired : List RetiredAnchor)
  | other (bytes : Bytes)
  deriving DecidableEq, Repr

abbrev Disk := Files FileName Content

def loadPrivate (disk : Disk) : Option Bytes :=
  match disk .currentKey with
  | some (.privatePem key) => some key
  | _ => none

/-- No entries where there is no file, and an error where it is not JSON. -/
def loadRetired (disk : Disk) : Option (List RetiredAnchor) :=
  match disk .grace with
  | none => some []
  | some (.graceJson retired) => some retired
  | some _ => none

structure FileBackend where
  current : Bytes
  retired : List RetiredAnchor
  deriving DecidableEq, Repr

namespace FileBackend

def load (disk : Disk) : Option FileBackend :=
  match loadPrivate disk, loadRetired disk with
  | some key, some retired => some ⟨key, retired⟩
  | _, _ => none

/-- What the object holds after `reload`, also where that raises. -/
def reload (backend : FileBackend) (disk : Disk) : FileBackend :=
  match loadPrivate disk with
  | none => backend
  | some key =>
    match loadRetired disk with
    | none => { backend with current := key }
    | some retired => ⟨key, retired⟩

def trustAnchors (backend : FileBackend) (disk : Disk) (now : Int) : Option (List Content) :=
  (disk .currentPub).map fun pub =>
    pub :: (backend.retired.filter (fun r => now < r.expiresAt)).filterMap (fun r => disk r.file)

end FileBackend

namespace Ed25519

variable (ed : Ed25519)

def anchors (anchor : Content) (data sig : Bytes) : Bool :=
  match anchor with
  | .publicPem key => ed.verify key data sig
  | _ => false

/-- `verify`, or its error where there is no public key to read. -/
def verifies (backend : FileBackend) (disk : Disk) (now : Int) (data sig : Bytes) : Option Bool :=
  (backend.trustAnchors disk now).map fun anchors =>
    anchors.any fun anchor => ed.anchors anchor data sig

def verifyWithPubkey (data sig : Bytes) : Content → Bool
  | .publicPem key => ed.verify key data sig
  | .other bytes => decide (bytes.length = 32) && ed.verify bytes data sig
  | .privatePem _ | .graceJson _ => false

end Ed25519

/-- The key that a rotation generates, and what it reads from the clock. -/
structure Rotation where
  ts : Int
  newKey : Bytes
  grace : Int
  expiryNow : Int
  gcNow : Int
  deriving DecidableEq, Repr

/-- What a `datetime` can hold. -/
def InRange (time : Int) : Prop := -62135596800000000 ≤ time ∧ time ≤ 253402300799999999

instance (time : Int) : Decidable (InRange time) := inferInstanceAs (Decidable (_ ∧ _))

namespace Rotation

def expires (r : Rotation) : Int := r.expiryNow + r.grace

def keyOps (ed : Ed25519) (r : Rotation) (pub : Content) : List (FileOp FileName Content) :=
  [.write (.retired r.ts) pub,
    .write .currentKeyTmp (.privatePem r.newKey),
    .rename .currentKeyTmp .currentKey,
    .write .currentPub (.publicPem (ed.publicKey r.newKey))]

def appended (r : Rotation) (old : List RetiredAnchor) : List RetiredAnchor :=
  old ++ [⟨.retired r.ts, r.expires⟩]

def kept (r : Rotation) (old : List RetiredAnchor) : List RetiredAnchor :=
  (r.appended old).filter fun entry => r.gcNow < entry.expiresAt

def stale (r : Rotation) (old : List RetiredAnchor) : List RetiredAnchor :=
  (r.appended old).filter fun entry => ¬ r.gcNow < entry.expiresAt

def graceOps (r : Rotation) (old : List RetiredAnchor) : List (FileOp FileName Content) :=
  (r.stale old).map (fun entry => .remove entry.file) ++ [.write .grace (.graceJson (r.kept old))]

/-- The operations of `rotate` on the files, and whether it comes to its reload. -/
def ops (ed : Ed25519) (r : Rotation) (disk : Disk) : List (FileOp FileName Content) × Bool :=
  match disk .currentPub with
  | none => ([], false)
  | some pub =>
    match (r.keyOps ed pub).foldl FileOp.apply disk .grace with
    | some (.graceJson old) =>
      -- The sum of the clock and the grace overflows.
      if InRange r.expires then (r.keyOps ed pub ++ r.graceOps old, true)
      else (r.keyOps ed pub, false)
    | _ => (r.keyOps ed pub, false)

end Rotation

/-- A rotation that stops behind this many operations, with what the next one has written; the
process ends there, or goes on behind an error. -/
structure Cut where
  done : Nat
  left : Option Content
  ends : Bool
  deriving DecidableEq, Repr

structure Checkpoint where
  message : Bytes
  signature : Bytes
  signingPubkey : Content
  deriving DecidableEq, Repr

structure System where
  disk : Disk
  running : Option FileBackend
  checkpoints : List Checkpoint

inductive Step where
  | rotate (r : Rotation) (cut : Option Cut)
  | reload
  | crash
  | start
  | checkpoint (message : Bytes)
  deriving DecidableEq, Repr

namespace System

variable (ed : Ed25519)

def bootstrap (key : Bytes) : System where
  disk := fun
    | .currentKey => some (.privatePem key)
    | .currentPub => some (.publicPem (ed.publicKey key))
    | .grace => some (.graceJson [])
    | .currentKeyTmp | .retired _ => none
  running := some ⟨key, []⟩
  checkpoints := []

def rotate (s : System) (r : Rotation) (backend : FileBackend) : Option Cut → System
  | none =>
    let disk := (r.ops ed s.disk).1.foldl FileOp.apply s.disk
    { s with
      disk := disk
      running := some (if (r.ops ed s.disk).2 then backend.reload disk else backend) }
  | some cut =>
    { s with
      disk := FileOp.cut (r.ops ed s.disk).1 cut.done cut.left s.disk
      running := if cut.ends then none else some backend }

def step (s : System) : Step → Option System
  | .rotate r cut => s.running.map fun backend => s.rotate ed r backend cut
  | .reload =>
    s.running.map fun backend => { s with running := some (backend.reload s.disk) }
  | .crash => some { s with running := none }
  | .start =>
    match s.running with
    | none => some { s with running := FileBackend.load s.disk }
    | some _ => none
  | .checkpoint message =>
    s.running.bind fun backend =>
      (s.disk .currentPub).map fun pub =>
        { s with
          checkpoints := s.checkpoints ++ [⟨message, ed.sign backend.current message, pub⟩] }

end System

end HlHelper.Signing
