import Mathlib.Algebra.GroupWithZero.Nat
import HlHelper.Audit.Chain
import HlHelper.Library.Files

/-! `Updater.Apply` with the outcome of each of its statements, and the updater that
`handleAgentUpdate` configures. -/

namespace HlHelper.Updates

open HlHelper.Library

structure Cmd where
  releaseId : String
  manifestJson : Bytes
  manifestSig : Bytes
  binaryUrl : String
  downloadToken : String
  expectedSha256 : String
  expectedSize : Int
  force : Bool
  deriving DecidableEq, Repr

structure Manifest where
  version : String
  channel : String
  os : String
  arch : String
  sha256 : String
  size : Int
  releasedAt : String
  minPrevVersion : String
  deriving DecidableEq, Repr

inductive ApplyError where
  | sigInvalid
  | manifestDecode (error : String)
  | alreadyOn (version : String)
  | download (error : String)
  | shaMismatch
  | sizeMismatch
  | backup (error : String)
  | swap (error : String)
  | noRelaunch
  | os (error : String)
  deriving DecidableEq, Repr

def ApplyError.message : ApplyError → String
  | .sigInvalid => "verify manifest: manifest signature invalid"
  | .manifestDecode error => "verify manifest: manifest decode: " ++ error
  | .alreadyOn version => "already on " ++ version
  | .download error => "download: " ++ error
  | .shaMismatch => "binary sha256 mismatch"
  | .sizeMismatch => "binary size mismatch"
  | .backup error => "backup current: " ++ error
  | .swap error => "swap: " ++ error
  | .noRelaunch => "no Relaunch func configured"
  | .os error => error

/-- The statements of `Apply` on the disk that may fail. -/
inductive Statement where
  | mkdirNew | statNew | openNew | removeNew | chmodNew | mkdirPrev | statInstall | backup
  | mkdirState | marker | swap
  deriving DecidableEq, Repr

/-- A failure, with what it leaves of the file that was being written, if it came to that. -/
structure Fault where
  error : String
  left : Option Bytes

inductive Response where
  | refused (error : String)
  | broken (written : Bytes) (error : String)
  | complete (body : Bytes)
  deriving DecidableEq, Repr

/-- A new process image, or the error of `Relaunch`. -/
inductive Launch where
  | replaced
  | returned (error : Option String)
  deriving DecidableEq, Repr

/-- What lies outside the code: `ed25519.Verify` on keys of the right length, `json.Unmarshal`
and `json.Marshal`, the server and the disk. -/
structure World where
  verify : Bytes → Bytes → Bytes → Bool
  unmarshal : Bytes → Except String Manifest
  marshalPending : String → Path → Bytes
  sha256 : Sha256
  get : String → String → Response
  fails : Statement → Option Fault
  exec : Path → Launch

structure Updater where
  stateDir : Path
  installPath : Path
  currentVer : String
  pinnedPub : Bytes
  relaunch : Option (Path → Launch)

inductive Outcome where
  | returned (error : Option ApplyError)
  | replaced
  | panicked (message : String)
  deriving DecidableEq, Repr

abbrev Disk := Files Path Bytes

/-- The statements behind one that may return an error. -/
def andThen (result : Option ApplyError × Disk) (next : Disk → Outcome × Disk) : Outcome × Disk :=
  match result with
  | (some error, disk) => (.returned (some error), disk)
  | (none, disk) => next disk

section Statements

variable (world : World)

def plain (statement : Statement) (disk : Disk) : Option ApplyError × Disk :=
  ((world.fails statement).map (fun fault => .os fault.error), disk)

def writing (statement : Statement) (error : String → ApplyError) (path : Path) (content : Bytes)
    (disk : Disk) : Option ApplyError × Disk :=
  match world.fails statement with
  | none => (none, disk.write path content)
  | some ⟨text, none⟩ => (some (error text), disk)
  | some ⟨text, some left⟩ => (some (error text), disk.write path left)

def download (url token : String) (dst : Path) (disk : Disk) : Option ApplyError × Disk :=
  match world.get url token with
  | .refused error => (some (.download error), disk)
  | .broken written error => (some (.download error), disk.write dst written)
  | .complete body => (none, disk.write dst body)

def verifyFile (path : Path) (expectedHex : String) (expectedSize : Int) (disk : Disk) :
    Option ApplyError :=
  match world.fails .statNew, disk path with
  | some fault, _ => some (.os fault.error)
  | none, none => some (.os "no such file or directory")
  | none, some content =>
    if 0 < expectedSize ∧ (content.length : Int) ≠ expectedSize then some .sizeMismatch
    else
      match world.fails .openNew with
      | some fault => some (.os fault.error)
      | none => if Audit.hex (world.sha256.sum content) ≠ expectedHex then some .shaMismatch
          else none

/-- A file that fails its check is removed, if that succeeds. -/
def checked (path : Path) (expectedHex : String) (expectedSize : Int) (disk : Disk) :
    Option ApplyError × Disk :=
  match verifyFile world path expectedHex expectedSize disk with
  | none => (none, disk)
  | some error => (some error, if (world.fails .removeNew).isSome then disk else disk.remove path)

/-- `copyFile`, which empties a file that it is to copy onto itself. -/
def backup (src dst : Path) (disk : Disk) : Option ApplyError × Disk :=
  match world.fails .statInstall, disk src with
  | none, some content =>
    writing world .backup .backup dst (if src = dst then [] else content) disk
  | _, _ => (none, disk)

def swap (newPath installPath : Path) (disk : Disk) : Option ApplyError × Disk :=
  match world.fails .swap, disk.rename newPath installPath with
  | some fault, _ => (some (.swap fault.error), disk)
  | none, none => (some (.swap "no such file or directory"), disk)
  | none, some swapped => (none, swapped)

end Statements

namespace Updater

variable (world : World) (u : Updater)

def newPath (version : String) : Path := (u.stateDir.descend version).descend "hl-agent.new"

def prevPath : Path := (u.stateDir.descend "_prev").descend "hl-agent.prev"

def pendingPath : Path := u.stateDir.descend ".pending"

/-- The last statements of `Apply`: the marker, the swap and the new process. -/
def install (manifest : Manifest) (disk : Disk) : Outcome × Disk :=
  andThen (plain world .mkdirState disk) fun disk =>
  andThen (writing world .marker .os u.pendingPath
    (world.marshalPending manifest.version u.prevPath) disk) fun disk =>
  andThen (swap world (u.newPath manifest.version) u.installPath disk) fun disk =>
  match u.relaunch with
  | none => (.returned (some .noRelaunch), disk)
  | some relaunch =>
    match relaunch u.installPath with
    | .replaced => (.replaced, disk)
    | .returned error => (.returned (error.map .os), disk)

/-- `Apply` behind the checks of the manifest. -/
def fetch (cmd : Cmd) (manifest : Manifest) (disk : Disk) : Outcome × Disk :=
  andThen (plain world .mkdirNew disk) fun disk =>
  andThen (download world cmd.binaryUrl cmd.downloadToken (u.newPath manifest.version) disk)
    fun disk =>
  andThen (checked world (u.newPath manifest.version) cmd.expectedSha256 cmd.expectedSize disk)
    fun disk =>
  andThen (plain world .chmodNew disk) fun disk =>
  andThen (plain world .mkdirPrev disk) fun disk =>
  andThen (backup world u.installPath u.prevPath disk) fun disk =>
  u.install world manifest disk

/-- `ed25519.Verify` panics on a key that is not 32 bytes long. -/
def apply (cmd : Cmd) (disk : Disk) : Outcome × Disk :=
  if u.pinnedPub.length ≠ 32 then
    (.panicked ("ed25519: bad public key length: " ++ toString u.pinnedPub.length), disk)
  else if world.verify u.pinnedPub cmd.manifestJson cmd.manifestSig = false then
    (.returned (some .sigInvalid), disk)
  else
    match world.unmarshal cmd.manifestJson with
    | .error error => (.returned (some (.manifestDecode error)), disk)
    | .ok manifest =>
      if cmd.force = false ∧ manifest.version = u.currentVer then
        (.returned (some (.alreadyOn manifest.version)), disk)
      else u.fetch world cmd manifest disk

end Updater

/-- The options of the client that `handleAgentUpdate` reads. -/
structure Options where
  stateDir : String
  agentVersion : String

/-- The updater of `handleAgentUpdate`, with the path of the executable; it sets no key. -/
def configure (world : World) (opts : Options) (installPath : Path) : Updater where
  stateDir :=
    (Path.ofText (if opts.stateDir = "" then "/var/lib/hl-agent" else opts.stateDir)).descend
      "updates"
  installPath := installPath
  currentVer := opts.agentVersion
  pinnedPub := []
  relaunch := some world.exec

/-- `int64(cmd.ExpectedSize)`. -/
def toInt64 (size : Nat) : Int := (size : Int).bmod (2 ^ 64)

def cmdOf : Payload → Option Cmd
  | .agentUpdate releaseId manifestJson manifestSig binaryUrl downloadToken expectedSha256
      expectedSize force =>
        some ⟨releaseId, manifestJson, manifestSig, binaryUrl, downloadToken, expectedSha256,
          toInt64 expectedSize, force⟩
  | _ => none

inductive UpdateStatus where
  | sigInvalid | shaMismatch | downloadFailed
  deriving DecidableEq, Repr

def mapErrToUpdateStatus : ApplyError → UpdateStatus
  | .sigInvalid => .sigInvalid
  | .shaMismatch | .sizeMismatch => .shaMismatch
  | _ => .downloadFailed

/-- What becomes of an update: nothing, a reported failure, a new process, or the end of the
agent, since nothing recovers the panic of its goroutine. -/
inductive Handled where
  | ignored
  | reported (status : UpdateStatus) (error : String)
  | returned
  | replaced
  | crashed (message : String)
  deriving DecidableEq, Repr

def handleAgentUpdate (world : World) (opts : Options) (executable : Option Path)
    (payload : Payload) (disk : Disk) : Handled × Disk :=
  match cmdOf payload, executable with
  | some cmd, some installPath =>
    match (configure world opts installPath).apply world cmd disk with
    | (.returned (some error), disk) =>
      (.reported (mapErrToUpdateStatus error) error.message, disk)
    | (.returned none, disk) => (.returned, disk)
    | (.replaced, disk) => (.replaced, disk)
    | (.panicked message, disk) => (.crashed message, disk)
  | _, _ => (.ignored, disk)

end HlHelper.Updates
