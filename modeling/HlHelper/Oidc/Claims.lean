import HlHelper.Envelope
import Mathlib.Algebra.Order.Ring.Rat

/-! Claims as `json.loads` reads them, and their mappings. -/

namespace HlHelper.Oidc

inductive Number where
  | finite (value : ℚ)
  | posInf
  | negInf
  | nan
  deriving DecidableEq, Repr

namespace Number

/-- `<` of Python, which no NaN is part of. -/
def lt : Number → Number → Bool
  | .finite a, .finite b => a < b
  | .finite _, .posInf | .negInf, .finite _ | .negInf, .posInf => true
  | _, _ => false

def add : Number → ℚ → Number
  | .finite a, b => .finite (a + b)
  | x, _ => x

def same (x y : Number) : Bool := x ≠ .nan && x = y

end Number

inductive Json where
  | null
  | bool (b : Bool)
  | int (n : Int)
  | float (x : Number)
  | str (s : String)
  | arr (items : List Json)
  | obj (fields : List (String × Json))
  deriving Repr

namespace Json

/-- What arithmetic takes; a `bool` is an `int`. -/
def number? : Json → Option Number
  | .bool b => some (.finite (if b then 1 else 0))
  | .int n => some (.finite n)
  | .float x => some x
  | _ => none

def truthy : Json → Bool
  | .null => false
  | .bool b => b
  | .int n => n ≠ 0
  | .float x => x ≠ .finite 0
  | .str s => s ≠ ""
  | .arr items => ¬ items.isEmpty
  | .obj fields => ¬ fields.isEmpty

def isObj : Json → Bool
  | .obj _ => true
  | _ => false

/-- `key in value` of a `dict`. -/
def has (value : Json) (key : String) : Bool :=
  match value with
  | .obj fields => fields.any fun entry => entry.1 = key
  | _ => false

/-- `value.get(key)` of a `dict`. -/
def field (value : Json) (key : String) : Json :=
  match value with
  | .obj fields => ((fields.find? fun entry => entry.1 = key).map Prod.snd).getD .null
  | _ => .null

def len? : Json → Option Nat
  | .str s => some s.length
  | .arr items => some items.length
  | .obj fields => some fields.length
  | _ => none

mutual

/-- `==` of Python. -/
def same : Json → Json → Bool
  | .null, .null => true
  | .str s, .str t => s = t
  | .arr items, .arr others => sameItems items others
  | .obj fields, .obj others => fields.length = others.length && sameFields fields others
  | x, y =>
    match x.number?, y.number? with
    | some a, some b => a.same b
    | _, _ => false

def sameItems : List Json → List Json → Bool
  | [], [] => true
  | x :: xs, y :: ys => x.same y && sameItems xs ys
  | _, _ => false

def sameFields : List (String × Json) → List (String × Json) → Bool
  | [], _ => true
  | (key, x) :: xs, ys =>
    (ys.any fun other => other.1 = key && x.same other.2) && sameFields xs ys

end

end Json

/-- `str` of a value that is not a string is a parameter. -/
structure Python where
  str : Json → String

def Python.text (py : Python) : Json → String
  | .str s => s
  | value => py.str value

/-- The segments of a path behind a leading `$` or `$.`. -/
def segments (path : String) : List String :=
  let body :=
    match path.toList with
    | '$' :: '.' :: rest => rest
    | '$' :: rest => rest
    | whole => whole
  ((body.splitOn '.').map String.ofList).filter fun segment => segment ≠ ""

def walk : Json → List String → Json
  | cur, [] => cur
  | .obj fields, segment :: rest => walk (Json.field (.obj fields) segment) rest
  | _, _ :: _ => .null

def resolvePath (claims : Json) (path : String) : Json :=
  if path = "" then .null else walk claims (segments path)

def coerceGroups (py : Python) : Json → List String
  | .str s => [s]
  | .arr items =>
    items.filterMap fun item =>
      match item with
      | .null => none
      | item => some (py.text item)
  | _ => []

structure MappedClaims where
  email : Option String
  displayName : Option String
  groups : List String
  deriving DecidableEq, Repr

/-- The claim behind the path that a mapping gives, or behind its default. -/
def mappedClaim (claims mappings : Json) (key fallback : String) : Option String :=
  let path := mappings.field key
  match if path.truthy then path else .str fallback with
  | .str path =>
    match resolvePath claims path with
    | .str s => some s
    | _ => none
  | _ => none

def groupPaths (mappings : Json) : List String :=
  match mappings.field "groups" with
  | .str path => [path]
  | .arr items =>
    items.filterMap fun item =>
      match item with
      | .str path => some path
      | _ => none
  | _ => []

def applyClaimMappings (py : Python) (claims mappings : Json) : MappedClaims where
  email := mappedClaim claims mappings "email" "email"
  displayName := mappedClaim claims mappings "display_name" "name"
  groups := ((groupPaths mappings).flatMap fun path =>
    coerceGroups py (resolvePath claims path)).eraseDups

end HlHelper.Oidc
