import HlHelper.Envelope
import HlHelper.Library.OrderedMap
import HlHelper.Secrets.Names
import Mathlib.Data.Char
import Mathlib.Data.List.Dedup
import Mathlib.Data.List.Lex
import Mathlib.Data.List.Sort

/-! `LocalEncryptedFileBackend` over a disk of files and directories. -/

namespace HlHelper.Secrets

open HlHelper.Library

/-- HKDF with the root key, and AES-GCM without associated data. -/
structure Aead where
  deriveKey : Name → Bytes
  encrypt : Bytes → Bytes → Bytes → Bytes
  decrypt : Bytes → Bytes → Bytes → Option Bytes
  decrypt_encrypt : ∀ key nonce value, decrypt key nonce (encrypt key nonce value) = some value

/-- `os.urandom(12)`. -/
structure Nonce where
  bytes : Bytes
  length : bytes.length = 12

/-- Everything below `.secrets`; the order of the files is that of `os.scandir`. -/
structure Disk where
  files : OrderedMap Location Bytes
  dirs : List Location
  deriving DecidableEq

inductive Error where
  | valueError
  | keyError
  | integrityError
  | osError
  deriving DecidableEq, Repr

inductive Result where
  | version (number : Nat)
  | value (content : Bytes)
  | versions (numbers : List Nat)
  | deleted
  | paths (names : List Name)
  | raised (error : Error)
  deriving DecidableEq, Repr

inductive Op where
  | put (path : Name) (value : Bytes) (nonce : Nonce)
  | get (path : Name) (version : Option Int)
  | versions (path : Name)
  | delete (path : Name) (version : Option Int)
  | enumeratePaths

namespace Disk

def empty : Disk := ⟨OrderedMap.empty, []⟩

def places (disk : Disk) : List Location := disk.files.keys ++ disk.dirs

def glob (disk : Disk) (path : Name) : List Location := disk.places.filter (captures path)

def versionOf (place : Location) : Option Nat :=
  place.getLast?.bind (fun name => (parseName name).map Prod.snd)

/-- The loop over the glob and the sort of `_get_next_version` and `versions`. -/
def found (disk : Disk) (path : Name) : List Nat :=
  ((disk.glob path).filterMap versionOf).insertionSort (· ≤ ·)

def nextVersion (disk : Disk) (path : Name) : Nat :=
  match (disk.found path).getLast? with
  | none => 1
  | some last => last + 1

/-- `unlink`, none for a directory or a missing file. -/
def unlink (disk : Disk) (place : Location) : Option Disk :=
  if place ∈ disk.files.keys then some { disk with files := disk.files.erase place } else none

def unlinkAll (disk : Disk) : List Location → Bool × Disk
  | [] => (true, disk)
  | place :: rest =>
    match disk.unlink place with
    | none => (false, disk)
    | some disk => disk.unlinkAll rest

/-- `files_with_versions` of `_cleanup_old_versions`, sorted. -/
def filesWithVersions (disk : Disk) (path : Name) : List (Location × Nat) :=
  ((disk.glob path).filterMap (fun place =>
    (versionOf place).map (fun version => (place, version)))).insertionSort
      (fun a b => a.2 ≤ b.2)

def cleanupOldVersions (disk : Disk) (path : Name) : Bool × Disk :=
  let files := disk.filesWithVersions path
  disk.unlinkAll ((files.take (files.length - 10)).map Prod.fst)

def parents (place : Location) : List Location := place.dropLast.inits.tail

/-- `mkdir(parents=True, exist_ok=True)` of the location's parent, none when a file is in
the way. -/
def makeParents (disk : Disk) (place : Location) : Option Disk :=
  if (parents place).any (· ∈ disk.files.keys) then none
  else some { disk with dirs := disk.dirs ++ (parents place).filter (· ∉ disk.dirs) }

def tmpOf (place : Location) : Location :=
  place.dropLast ++ [place.getLast?.getD [] ++ dotTmp]

/-- The write to the temporary file and its replacement of the file. -/
def writeFile (disk : Disk) (place : Location) (content : Bytes) : Bool × Disk :=
  if tmpOf place ∈ disk.dirs then (false, disk)
  else if place ∈ disk.dirs then
    (false, { disk with files := disk.files.insert (tmpOf place) content })
  else (true, { disk with files := (disk.files.erase (tmpOf place)).insert place content })

def enumeratePaths (disk : Disk) : List Name :=
  ((disk.places.filter capturesAny).filterMap (fun place =>
    place.getLast?.bind (fun name => (parseName name).map Prod.fst))).dedup.insertionSort (· ≤ ·)

end Disk

section Operations

variable (aead : Aead)

def payload (path : Name) (value : Bytes) (nonce : Nonce) : Bytes :=
  nonce.bytes ++ aead.encrypt (aead.deriveKey path) nonce.bytes value

def readVersion (disk : Disk) (path : Name) (version : Int) : Result :=
  match disk.files.get? (fileOf path version) with
  | none => .raised .osError
  | some blob =>
    match aead.decrypt (aead.deriveKey path) (blob.take 12) (blob.drop 12) with
    | none => .raised .integrityError
    | some value => .value value

def get (disk : Disk) (path : Name) (version : Option Int) : Result :=
  match (disk.found path).getLast? with
  | none => .raised .keyError
  | some last =>
    match version with
    | none => readVersion aead disk path last
    | some version =>
      if version ∈ (disk.found path).map Int.ofNat then readVersion aead disk path version
      else .raised .keyError

def put (disk : Disk) (path : Name) (value : Bytes) (nonce : Nonce) : Result × Disk :=
  let version := disk.nextVersion path
  let place := fileOf path version
  match disk.makeParents place with
  | none => (.raised .osError, disk)
  | some disk =>
    match disk.writeFile place (payload aead path value nonce) with
    | (false, disk) => (.raised .osError, disk)
    | (true, disk) =>
      match disk.cleanupOldVersions path with
      | (false, disk) => (.raised .osError, disk)
      | (true, disk) => (.version version, disk)

def versions (disk : Disk) (path : Name) : Result :=
  match disk.found path with
  | [] => .raised .keyError
  | numbers => .versions numbers

def delete (disk : Disk) (path : Name) (version : Option Int) : Result × Disk :=
  match version with
  | none =>
    match disk.unlinkAll (disk.glob path) with
    | (false, disk) => (.raised .osError, disk)
    | (true, disk) => (.deleted, disk)
  | some version =>
    if fileOf path version ∈ disk.places then
      match disk.unlink (fileOf path version) with
      | none => (.raised .osError, disk)
      | some disk => (.deleted, disk)
    else (.deleted, disk)

def Op.path? : Op → Option Name
  | .put path _ _ => some path
  | .get path _ => some path
  | .versions path => some path
  | .delete path _ => some path
  | .enumeratePaths => none

def perform (disk : Disk) : Op → Result × Disk
  | .put path value nonce => put aead disk path value nonce
  | .get path version => (get aead disk path version, disk)
  | .versions path => (versions disk path, disk)
  | .delete path version => delete disk path version
  | .enumeratePaths => (.paths disk.enumeratePaths, disk)

def Disk.step (disk : Disk) (op : Op) : Result × Disk :=
  if op.path?.all validatePath then perform aead disk op else (.raised .valueError, disk)

end Operations

/-- The version list of one path by itself, oldest first. -/
abbrev Retained := List (Nat × Bytes)

namespace Retained

def next (retained : Retained) : Nat :=
  match retained.getLast? with
  | none => 1
  | some last => last.1 + 1

def put (retained : Retained) (value : Bytes) : Retained :=
  let longer := retained ++ [(retained.next, value)]
  longer.drop (longer.length - 10)

def get (retained : Retained) : Option Int → Result
  | none =>
    match retained.getLast? with
    | none => .raised .keyError
    | some last => .value last.2
  | some version =>
    match retained.find? (fun held => (held.1 : Int) = version) with
    | none => .raised .keyError
    | some held => .value held.2

def versions (retained : Retained) : Result :=
  match retained.map Prod.fst with
  | [] => .raised .keyError
  | numbers => .versions numbers

def delete (retained : Retained) : Option Int → Retained
  | none => []
  | some version => retained.filter (fun held => (held.1 : Int) ≠ version)

end Retained

abbrev Lists := Name → Retained

def Lists.set (lists : Lists) (path : Name) (retained : Retained) : Lists :=
  fun other => if other = path then retained else lists other

def Lists.perform (lists : Lists) : Op → Lists
  | .put path value _ => lists.set path ((lists path).put value)
  | .delete path version => lists.set path ((lists path).delete version)
  | _ => lists

/-- What the version list of its path answers to an operation. -/
def Lists.Answers (lists : Lists) : Op → Result → Prop
  | .put path _ _, result => result = .version (lists path).next
  | .get path version, result => result = (lists path).get version
  | .versions path, result => result = (lists path).versions
  | .delete _ _, result => result = .deleted
  | .enumeratePaths, result => ∃ names, result = .paths names ∧ names.Pairwise (· < ·) ∧
      ∀ path, path ∈ names ↔ lists path ≠ []

/-- The store answers the operations as independent version lists do. -/
def Behaves (aead : Aead) : Lists → Disk → List Op → Prop
  | _, _, [] => True
  | lists, disk, op :: ops =>
    if op.path?.all validatePath then
      lists.Answers op (disk.step aead op).1 ∧
        Behaves aead (lists.perform op) (disk.step aead op).2 ops
    else (disk.step aead op).1 = .raised .valueError ∧
      Behaves aead lists (disk.step aead op).2 ops

def noLists : Lists := fun _ => []

end HlHelper.Secrets
