import HlHelper.Envelope
import HlHelper.Library.HashChain
import HlHelper.Library.Wire
import Mathlib.Data.List.Sort

/-! Entries, canonical bytes and Merkle roots of the audit log, as `chain.py` has
them. Times are UTC. -/

namespace HlHelper.Audit

/-- `datetime` in UTC. -/
structure Datetime where
  year : Nat
  month : Nat
  day : Nat
  hour : Nat
  minute : Nat
  second : Nat
  microsecond : Nat
  deriving DecidableEq, Repr, Inhabited

/-- JSON values of an entry's payload. A `float` is held as Python prints it. -/
inductive Value where
  | null
  | bool (b : Bool)
  | int (n : Int)
  | float (text : String)
  | str (s : String)
  | arr (items : List Value)
  | obj (fields : List (String × Value))
  deriving Inhabited

structure AuditEntry where
  sequence : Int
  timestamp : Datetime
  actor : String
  action : String
  subject : Option String
  payload : Value
  prevHash : Bytes
  entryHash : Bytes
  deriving Inhabited

structure AuditCheckpoint where
  coversSequence : Int
  merkleRoot : Bytes
  signature : Bytes
  signingPubkey : Bytes
  timestamp : Datetime
  deriving DecidableEq, Inhabited

/-- `b"\x00" * 32`. -/
def genesisHash : Bytes := List.replicate 32 0

/-- The digits of `n` in base 16, the given number of them. -/
def hexDigits : Nat → Nat → List Char
  | 0, _ => []
  | width + 1, n => hexDigits width (n / 16) ++ [Nat.digitChar (n % 16)]

def hex (content : Bytes) : String :=
  String.ofList (content.flatMap (fun byte => hexDigits 2 byte.toNat))

/-- A character in a string of `json.dumps`, which writes ASCII only. -/
def escape (c : Char) : List Char :=
  if c.toNat = 34 then "\\\"".toList
  else if c.toNat = 92 then "\\\\".toList
  else if c.toNat = 10 then "\\n".toList
  else if c.toNat = 13 then "\\r".toList
  else if c.toNat = 9 then "\\t".toList
  else if c.toNat = 12 then "\\f".toList
  else if c.toNat = 8 then "\\b".toList
  else if 32 ≤ c.toNat ∧ c.toNat ≤ 126 then [c]
  else if c.toNat < 65536 then "\\u".toList ++ hexDigits 4 c.toNat
  else
    -- beyond the basic plane Python writes a surrogate pair
    let rest := c.toNat - 65536
    "\\u".toList ++ hexDigits 4 (55296 + rest / 1024) ++
      ("\\u".toList ++ hexDigits 4 (56320 + rest % 1024))

def quote (s : String) : String :=
  "\"" ++ String.ofList (s.toList.flatMap escape) ++ "\""

/-- The members of an object in the order of `sort_keys=True`. -/
def objectText (members : List (String × String)) : String :=
  let sorted := members.insertionSort (fun first second => first.1 ≤ second.1)
  "\x7b" ++ ",".intercalate (sorted.map (fun member => quote member.1 ++ ":" ++ member.2)) ++ "\x7d"

mutual

def dumps : Value → String
  | .null => "null"
  | .bool b => if b then "true" else "false"
  | .int n => toString n
  | .float text => text
  | .str s => quote s
  | .arr items => "[" ++ ",".intercalate (dumpItems items) ++ "]"
  | .obj fields => objectText (dumpFields fields)

def dumpItems : List Value → List String
  | [] => []
  | item :: rest => dumps item :: dumpItems rest

def dumpFields : List (String × Value) → List (String × String)
  | [] => []
  | (key, value) :: rest => (key, dumps value) :: dumpFields rest

end

/-- `n` with leading zeros. -/
def padded (width n : Nat) : String :=
  let digits := toString n
  String.ofList (List.replicate (width - digits.length) '0') ++ digits

def isoformat (t : Datetime) : String :=
  padded 4 t.year ++ "-" ++ padded 2 t.month ++ "-" ++ padded 2 t.day ++ "T" ++
    padded 2 t.hour ++ ":" ++ padded 2 t.minute ++ ":" ++ padded 2 t.second ++
    (if t.microsecond = 0 then "" else "." ++ padded 6 t.microsecond) ++ "Z"

def canonicalEntryBytes (sequence : Int) (timestamp : Datetime) (actor action : String)
    (subject : Option String) (payload : Value) (prevHash : Bytes) : Bytes :=
  Library.Wire.utf8 (dumps (.obj [
    ("sequence", .int sequence),
    ("timestamp", .str (isoformat timestamp)),
    ("actor", .str actor),
    ("action", .str action),
    ("subject", (subject.map Value.str).getD .null),
    ("payload", payload),
    ("prev_hash", .str (hex prevHash))]))

section Hashes

variable (sha : Sha256)

def computeEntryHash (sequence : Int) (timestamp : Datetime) (actor action : String)
    (subject : Option String) (payload : Value) (prevHash : Bytes) : Bytes :=
  sha.sum (canonicalEntryBytes sequence timestamp actor action subject payload prevHash)

/-- The parent of two nodes, with the prefix `0x01`. -/
def parent (left right : Bytes) : Bytes := sha.sum (1 :: (left ++ right))

/-- The next level: an odd node at the end is paired with itself. -/
def nextLevel : List Bytes → List Bytes
  | [] => []
  | [last] => [parent sha last last]
  | left :: right :: rest => parent sha left right :: nextLevel rest

/-- The levels up to the root. Each is shorter than the one below, so there are no
more rounds than leaves. -/
def climb : Nat → List Bytes → Bytes
  | _, [] => genesisHash
  | _, [root] => root
  | 0, root :: _ => root
  | rounds + 1, level => climb rounds (nextLevel sha level)

/-- `merkle_root`: the leaves are hashed with the prefix `0x00`. -/
def merkleRoot (leaves : List Bytes) : Bytes :=
  climb sha leaves.length (leaves.map (fun leaf => sha.sum (0 :: leaf)))

theorem nextLevel_eq (level : List Bytes) :
    nextLevel sha level = Library.treeLevel (parent sha) level := by
  induction level using nextLevel.induct with
  | case1 => rfl
  | case2 last => rfl
  | case3 left right rest ih => rw [nextLevel, Library.treeLevel, ih]

theorem climb_pair (rounds : Nat) (left right : Bytes) (rest : List Bytes) :
    climb sha (rounds + 1) (left :: right :: rest) =
      climb sha rounds (nextLevel sha (left :: right :: rest)) := rfl

theorem climb_eq (rounds : Nat) (level : List Bytes) :
    climb sha rounds level = Library.treeRoot (parent sha) genesisHash rounds level := by
  induction rounds generalizing level with
  | zero => rcases level with _ | ⟨root, _ | ⟨next, rest⟩⟩ <;> rfl
  | succ rounds ih =>
    rcases level with _ | ⟨left, _ | ⟨right, rest⟩⟩
    · rfl
    · rfl
    · rw [climb_pair, ih, nextLevel_eq]
      rfl

end Hashes

example :
    dumps (.obj [("b", .arr [.null, .bool true]), ("a", .str "x\"\n")]) =
      "\x7b\"a\":\"x\\\"\\n\",\"b\":[null,true]\x7d" := by
  decide +kernel

end HlHelper.Audit
