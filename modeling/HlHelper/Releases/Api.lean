import HlHelper.Audit.Canonical
import HlHelper.Library.Files
import HlHelper.Library.Runs

/-! Uploads, yanks and downloads of agent releases, with what may fail between the file and the
row. -/

namespace HlHelper.Releases

open HlHelper.Library

inductive ReleaseChannel where
  | stable | beta | canary
  deriving DecidableEq, Repr

def ReleaseChannel.value : ReleaseChannel → String
  | .stable => "stable"
  | .beta => "beta"
  | .canary => "canary"

inductive ReleaseStatus where
  | staged | published | yanked
  deriving DecidableEq, Repr

structure Manifest where
  version : String
  channel : ReleaseChannel
  os : String
  arch : String
  sha256 : String
  size : Nat
  releasedAt : String
  minPrevVersion : String
  deriving DecidableEq, Repr

def makeManifest (manifest : Manifest) : Bytes :=
  Wire.utf8 (Audit.dumps (.obj
    [("version", .str manifest.version), ("channel", .str manifest.channel.value),
      ("os", .str manifest.os), ("arch", .str manifest.arch), ("sha256", .str manifest.sha256),
      ("size", .int manifest.size), ("released_at", .str manifest.releasedAt),
      ("min_prev_version", .str manifest.minPrevVersion)]))

structure AgentRelease where
  id : String
  version : String
  channel : ReleaseChannel
  os : String
  arch : String
  sha256 : String
  size : Nat
  manifestJson : Bytes
  manifestSig : Bytes
  status : ReleaseStatus
  yankedReason : Option String
  deriving DecidableEq, Repr

structure Form where
  binary : Bytes
  version : String
  channel : ReleaseChannel
  os : String
  arch : String
  minPrevVersion : Option String
  deriving DecidableEq, Repr

inductive Written where
  | mkdirFails
  | writeFails (left : Option Bytes)
  | chmodFails
  | signFails
  | signed (releasedAt : String)
  deriving DecidableEq, Repr

/-- What they leave in the target, where they have come to it. -/
def Written.left (data : Bytes) : Written → Option Bytes
  | .mkdirFails => none
  | .writeFails left => left
  | .chmodFails | .signFails | .signed _ => some data

inductive Phase where
  | inserting (releasedAt : String)
  | created (id : String)
  | failed
  deriving DecidableEq, Repr

def Written.phase : Written → Phase
  | .signed releasedAt => .inserting releasedAt
  | .mkdirFails | .writeFails _ | .chmodFails | .signFails => .failed

structure Upload where
  form : Form
  phase : Phase
  deriving DecidableEq, Repr

structure Server where
  files : Files Path Bytes
  releases : List AgentRelease
  uploads : List Upload

/-- `HL_AGENT_DIST_DIR`, and what is called of other modules. -/
structure Config where
  distDir : Option String
  sha256 : Sha256
  sign : Bytes → Bytes

inductive Step where
  | start (form : Form) (written : Written)
  | insert (index : Nat) (id : String) (refreshed : Bool)
  | fail (index : Nat)
  | yank (rid reason : String)
  deriving DecidableEq, Repr

namespace Config

def releaseDir (cfg : Config) : Path :=
  match cfg.distDir with
  | none | some "" => (Path.ofText "/var/lib/hl-helper/agent-dist").join "releases"
  | some base => (Path.ofText base).join "releases"

def binaryPath (cfg : Config) (version os arch : String) : Path :=
  ((cfg.releaseDir.join version).join (os ++ "-" ++ arch)).join "hl-agent"

def hexdigest (cfg : Config) (data : Bytes) : String := Audit.hex (cfg.sha256.sum data)

def manifest (cfg : Config) (form : Form) (releasedAt : String) : Manifest where
  version := form.version
  channel := form.channel
  os := form.os
  arch := form.arch
  sha256 := cfg.hexdigest form.binary
  size := form.binary.length
  releasedAt := releasedAt
  minPrevVersion := form.minPrevVersion.getD ""

def release (cfg : Config) (form : Form) (releasedAt id : String) : AgentRelease where
  id := id
  version := form.version
  channel := form.channel
  os := form.os
  arch := form.arch
  sha256 := cfg.hexdigest form.binary
  size := form.binary.length
  manifestJson := makeManifest (cfg.manifest form releasedAt)
  manifestSig := cfg.sign (makeManifest (cfg.manifest form releasedAt))
  status := .published
  yankedReason := none

def target (cfg : Config) (form : Form) : Path := cfg.binaryPath form.version form.os form.arch

def path (cfg : Config) (rel : AgentRelease) : Path := cfg.binaryPath rel.version rel.os rel.arch

end Config

/-- The primary key and the unique constraint on version, os and arch. -/
def AgentRelease.conflicts (rel other : AgentRelease) : Bool :=
  rel.id = other.id || (rel.version, rel.os, rel.arch) = (other.version, other.os, other.arch)

def AgentRelease.yanked (rid reason : String) (rel : AgentRelease) : AgentRelease :=
  if rel.id = rid then { rel with status := .yanked, yankedReason := some reason } else rel

inductive Response where
  | error (status : Nat) (detail : String)
  | stream (content : Bytes) (sha256 : String) (size : Nat)
  deriving DecidableEq, Repr

namespace Server

variable (cfg : Config)

def empty (files : Files Path Bytes) : Server := ⟨files, [], []⟩

def start (s : Server) (form : Form) (written : Written) : Server :=
  { s with
    files :=
      match written.left form.binary with
      | none => s.files
      | some content => s.files.write (cfg.target form) content
    uploads := s.uploads ++ [⟨form, written.phase⟩] }

def moved (s : Server) (index : Nat) (up : Upload) (phase : Phase) : Server :=
  { s with uploads := s.uploads.set index { up with phase := phase } }

/-- The commit of the row, and the refresh that the answer is made from. -/
def insert (s : Server) (index : Nat) (up : Upload) (releasedAt id : String) (refreshed : Bool) :
    Server :=
  let rel := cfg.release up.form releasedAt id
  if s.releases.any rel.conflicts then s.moved index up .failed
  else
    { s.moved index up (if refreshed then .created id else .failed) with
      releases := s.releases ++ [rel] }

def step (s : Server) : Step → Option Server
  | .start form written => some (s.start cfg form written)
  | .insert index id refreshed =>
    (s.uploads[index]?).bind fun up =>
      match up.phase with
      | .inserting releasedAt => some (s.insert cfg index up releasedAt id refreshed)
      | _ => none
  | .fail index =>
    (s.uploads[index]?).bind fun up =>
      match up.phase with
      | .inserting _ => some (s.moved index up .failed)
      | _ => none
  | .yank rid reason => some { s with releases := s.releases.map (.yanked rid reason) }

/-- `download_binary` with the claim `rid` of the token, where the token is valid. -/
def downloadBinary (s : Server) (rid : String) (token : Option (Option String)) : Response :=
  match token with
  | none => .error 401 "invalid download token"
  | some claim =>
    if claim ≠ some rid then .error 401 "token release mismatch"
    else
      match s.releases.find? (fun rel => rel.id = rid) with
      | none => .error 404 "Not Found"
      | some rel =>
        if rel.status = .yanked then .error 404 "Not Found"
        else
          match s.files (cfg.path rel) with
          | none => .error 410 "binary missing"
          | some content => .stream content rel.sha256 rel.size

end Server

end HlHelper.Releases
