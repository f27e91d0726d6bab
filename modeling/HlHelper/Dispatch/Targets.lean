import HlHelper.Dispatch.Payload
import Mathlib.Data.List.Dedup
import Mathlib.Data.List.Sort

/-! `resolve_targets`: the hosts of a selector, each once and sorted. -/

namespace HlHelper.Dispatch

open HlHelper.Library

abbrev Uuid := Nat

inductive GroupId where
  | text (value : String)
  | uuid (value : Uuid)
  deriving DecidableEq, Repr

inductive Selector where
  | group (groupId : GroupId) (includeSubgroups : Bool)
  | tag (key value : String)
  | hostList (hostIds : List HostId)
  | mixed (selectors : List Selector)
  | unknown (typeName : String)

structure Host where
  id : HostId
  labels : Option (List (String × Json))

structure Group where
  id : Uuid
  parentId : Option Uuid
  deriving DecidableEq, Repr

structure GroupMembership where
  groupId : Uuid
  hostId : HostId
  deriving DecidableEq, Repr

structure Fleet where
  hosts : List Host
  groups : List Group
  memberships : List GroupMembership

def hexDigit (c : Char) : Option Nat :=
  if '0' ≤ c ∧ c ≤ '9' then some (c.toNat - '0'.toNat)
  else if 'a' ≤ c ∧ c ≤ 'f' then some (c.toNat - 'a'.toNat + 10)
  else if 'A' ≤ c ∧ c ≤ 'F' then some (c.toNat - 'A'.toNat + 10)
  else none

/-- The zeros of the other scripts; the nine digits after each follow it (Unicode 15). -/
def scriptZeros : List Nat :=
  [0x660, 0x6f0, 0x7c0, 0x966, 0x9e6, 0xa66, 0xae6, 0xb66, 0xbe6, 0xc66, 0xce6, 0xd66, 0xde6,
    0xe50, 0xed0, 0xf20, 0x1040, 0x1090, 0x17e0, 0x1810, 0x1946, 0x19d0, 0x1a80, 0x1a90, 0x1b50,
    0x1bb0, 0x1c40, 0x1c50, 0xa620, 0xa8d0, 0xa900, 0xa9d0, 0xa9f0, 0xaa50, 0xabf0, 0xff10,
    0x104a0, 0x10d30, 0x11066, 0x110f0, 0x11136, 0x111d0, 0x112f0, 0x11450, 0x114d0, 0x11650,
    0x116c0, 0x11730, 0x118e0, 0x11950, 0x11c50, 0x11d50, 0x11da0, 0x11f50, 0x16a60, 0x16ac0,
    0x16b50, 0x1d7ce, 0x1d7d8, 0x1d7e2, 0x1d7ec, 0x1d7f6, 0x1e140, 0x1e2f0, 0x1e4f0, 0x1e950,
    0x1fbf0]

def scriptSpaces : List Nat :=
  [0x85, 0xa0, 0x1680, 0x2028, 0x2029, 0x202f, 0x205f, 0x3000] ++ List.range' 0x2000 11

/-- `int` reads every decimal digit and every space of Unicode as the ASCII one. -/
def toAscii (c : Char) : Char :=
  if c.toNat < 127 then c
  else if c.toNat ∈ scriptSpaces then ' '
  else
    match scriptZeros.find? (fun first => first ≤ c.toNat ∧ c.toNat < first + 10) with
    | some first => Nat.digitChar (c.toNat - first)
    | none => '?'

def isAsciiSpace (c : Char) : Bool := c = ' ' ∨ 9 ≤ c.toNat ∧ c.toNat ≤ 13

def strip (outer : Char → Bool) (text : List Char) : List Char :=
  ((text.dropWhile outer).reverse.dropWhile outer).reverse

def afterBase : List Char → List Char
  | '0' :: 'x' :: '_' :: rest => rest
  | '0' :: 'X' :: '_' :: rest => rest
  | '0' :: 'x' :: rest => rest
  | '0' :: 'X' :: rest => rest
  | digits => digits

/-- The digits behind the first one; a single underscore may stand before each. -/
def moreDigits : Nat → List Char → Option Nat
  | value, [] => some value
  | value, '_' :: c :: rest =>
    (hexDigit c).bind (fun digit => moreDigits (16 * value + digit) rest)
  | value, c :: rest => (hexDigit c).bind (fun digit => moreDigits (16 * value + digit) rest)

/-- `int(hex, 16)` of a text without a minus sign. -/
def intBase16 (hex : List Char) : Option Nat :=
  let bare := strip isAsciiSpace (hex.map toAscii)
  let unsigned := if bare.head? = some '+' then bare.tail else bare
  match afterBase unsigned with
  | [] => none
  | c :: rest => (hexDigit c).bind (fun digit => moreDigits digit rest)

def isBrace (c : Char) : Bool := c = '{' ∨ c = '}'

/-- `UUID(text)`: the URN prefix, outer braces and all hyphens go, and `int` reads the 32
characters that are left. -/
def parseUuid (text : String) : Except DispatchError Uuid :=
  let bare := ((text.replace "urn:" "").replace "uuid:" "").toList
  let hex := (strip isBrace bare).filter (· ≠ '-')
  if hex.length = 32 then
    match intBase16 hex with
    | some value => .ok value
    | none => .error (.valueError "invalid literal for int() with base 16")
  else .error (.valueError "badly formed hexadecimal UUID string")

def uuidText (id : Uuid) : String :=
  let digits := Nat.toDigits 16 id
  let padded := List.replicate (32 - digits.length) '0' ++ digits
  String.ofList (padded.take 8 ++ '-' :: (padded.drop 8).take 4 ++ '-' :: (padded.drop 12).take 4 ++
    '-' :: (padded.drop 16).take 4 ++ '-' :: padded.drop 20)

def GroupId.resolve : GroupId → Except DispatchError Uuid
  | .text value => parseUuid value
  | .uuid value => .ok value

def GroupId.toText : GroupId → String
  | .text value => value
  | .uuid value => uuidText value

def subgroups (groups : List Group) (frontier : List Uuid) : List Uuid :=
  (groups.filter (fun group => ∃ parent ∈ group.parentId, parent ∈ frontier)).map Group.id

/-- The breadth-first loop of `_expand_group`. Each pass finds a new group, so there
are no more passes than groups. -/
def expandLoop (groups : List Group) : Nat → List Uuid → List Uuid → List Uuid
  | 0, out, _ => out
  | fuel + 1, out, frontier =>
    let new := ((subgroups groups frontier).dedup).filter (· ∉ out)
    if new = [] then out else expandLoop groups fuel (out ++ new) new

def expandGroup (groups : List Group) (groupId : Uuid) (includeSubgroups : Bool) : List Uuid :=
  if includeSubgroups then expandLoop groups (groups.length + 1) [groupId] [groupId] else [groupId]

/-- `sorted(set(rows))`. -/
def sortedSet (rows : List HostId) : List HostId := rows.dedup.insertionSort (· ≤ ·)

def hasLabel (key value : String) (host : Host) : Bool :=
  match host.labels.bind (fun labels => labels.find? (fun label => label.1 = key)) with
  | some (_, .str found) => found = value
  | _ => false

mutual

def resolveTargets (fleet : Fleet) : Selector → Except DispatchError (List HostId)
  | .hostList hostIds => .ok (sortedSet ((fleet.hosts.map Host.id).filter (· ∈ hostIds)))
  | .group groupId includeSubgroups =>
    groupId.resolve.map fun id =>
      let groupIds := expandGroup fleet.groups id includeSubgroups
      sortedSet ((fleet.memberships.filter (fun row => row.groupId ∈ groupIds)).map
        GroupMembership.hostId)
  | .tag key value => .ok (sortedSet ((fleet.hosts.filter (hasLabel key value)).map Host.id))
  | .mixed selectors => (resolveAll fleet selectors).map sortedSet
  | .unknown typeName => .error (.typeError ("unknown selector: " ++ typeName))

def resolveAll (fleet : Fleet) : List Selector → Except DispatchError (List HostId)
  | [] => .ok []
  | child :: rest =>
    (resolveTargets fleet child).bind fun hosts =>
      (resolveAll fleet rest).map (fun others => hosts ++ others)

end

mutual

def selectorToDict : Selector → Except DispatchError Json
  | .hostList hostIds => .ok (.obj [("host_ids", .arr (hostIds.map .str))])
  | .group groupId includeSubgroups =>
    .ok (.obj [("group_id", .str groupId.toText), ("include_subgroups", .bool includeSubgroups)])
  | .tag key value => .ok (.obj [("tag", .obj [("key", .str key), ("value", .str value)])])
  | .mixed selectors =>
    (selectorsToDicts selectors).map (fun dicts => .obj [("selectors", .arr dicts)])
  | .unknown typeName => .error (.typeError ("unsupported selector type: " ++ typeName))

def selectorsToDicts : List Selector → Except DispatchError (List Json)
  | [] => .ok []
  | child :: rest =>
    (selectorToDict child).bind fun dict =>
      (selectorsToDicts rest).map (fun dicts => dict :: dicts)

end

theorem mem_sortedSet {rows : List HostId} {hostId : HostId} :
    hostId ∈ sortedSet rows ↔ hostId ∈ rows := by
  rw [sortedSet, (List.perm_insertionSort _ _).mem_iff, List.mem_dedup]

theorem nodup_sortedSet (rows : List HostId) : (sortedSet rows).Nodup :=
  (List.perm_insertionSort _ _).nodup_iff.mpr (List.nodup_dedup rows)

theorem resolveTargets_nodup {fleet : Fleet} {selector : Selector} {hosts : List HostId}
    (resolved : resolveTargets fleet selector = .ok hosts) : hosts.Nodup := by
  cases selector with
  | hostList hostIds =>
    rw [resolveTargets] at resolved
    exact Except.ok.inj resolved ▸ nodup_sortedSet _
  | tag key value =>
    rw [resolveTargets] at resolved
    exact Except.ok.inj resolved ▸ nodup_sortedSet _
  | group groupId includeSubgroups =>
    rw [resolveTargets] at resolved
    obtain ⟨_, _, rfl⟩ := map_eq_ok.mp resolved
    exact nodup_sortedSet _
  | mixed selectors =>
    rw [resolveTargets] at resolved
    obtain ⟨_, _, rfl⟩ := map_eq_ok.mp resolved
    exact nodup_sortedSet _
  | unknown typeName =>
    rw [resolveTargets] at resolved
    cases resolved

theorem mem_subgroups {groups : List Group} {frontier : List Uuid} {id : Uuid} :
    id ∈ subgroups groups frontier ↔
      ∃ group ∈ groups, group.id = id ∧ ∃ parent ∈ group.parentId, parent ∈ frontier := by
  simp only [subgroups, List.mem_map, List.mem_filter, decide_eq_true_eq]
  constructor
  · rintro ⟨group, ⟨member, child⟩, same⟩
    exact ⟨group, member, same, child⟩
  · rintro ⟨group, member, same, child⟩
    exact ⟨group, ⟨member, child⟩, same⟩

/-- The groups of the table that the loop has not reached yet. -/
def unreached (groups : List Group) (out : List Uuid) : List Group :=
  groups.filter (fun group => group.id ∉ out)

theorem unreached_lt {groups : List Group} {out new : List Uuid}
    (found : ∃ group ∈ groups, group.id ∈ new ∧ group.id ∉ out) :
    (unreached groups (out ++ new)).length < (unreached groups out).length := by
  obtain ⟨group, member, reached, fresh⟩ := found
  have smaller : unreached groups (out ++ new) =
      (unreached groups out).filter (fun group => group.id ∉ new) := by
    simp [unreached, List.filter_filter, Bool.and_comm]
  rw [smaller]
  refine List.length_filter_lt_length_iff_exists.mpr ⟨group, ?_, by simpa using reached⟩
  simpa [unreached] using ⟨member, fresh⟩

theorem expandLoop_closed {groups : List Group} {fuel : Nat} {out frontier : List Uuid}
    (enough : (unreached groups out).length < fuel)
    (explored : ∀ id ∈ subgroups groups out, id ∈ out ∨ id ∈ subgroups groups frontier) :
    ∀ id ∈ subgroups groups (expandLoop groups fuel out frontier),
      id ∈ expandLoop groups fuel out frontier := by
  induction fuel generalizing out frontier with
  | zero => exact absurd enough (Nat.not_lt_zero _)
  | succ fuel ih =>
    rw [expandLoop]
    have mem_new : ∀ id, id ∈ ((subgroups groups frontier).dedup).filter (· ∉ out) ↔
        id ∈ subgroups groups frontier ∧ id ∉ out := by simp
    split
    · next nothing =>
      intro id child
      refine (explored id child).elim (fun member => member) (fun found => ?_)
      by_contra fresh
      have new := (mem_new id).mpr ⟨found, fresh⟩
      rw [nothing] at new
      cases new
    · next something =>
      obtain ⟨id, new⟩ := List.exists_mem_of_ne_nil _ something
      obtain ⟨found, fresh⟩ := (mem_new id).mp new
      obtain ⟨group, member, rfl, _⟩ := mem_subgroups.mp found
      have fewer := unreached_lt ⟨group, member, new, fresh⟩
      refine ih (by omega) (fun other child => ?_)
      obtain ⟨group', member', rfl, parent, is_parent, inside⟩ := mem_subgroups.mp child
      rcases List.mem_append.mp inside with old | just_now
      · have from_old := mem_subgroups.mpr ⟨group', member', rfl, parent, is_parent, old⟩
        rcases explored group'.id from_old with reached | front
        · exact .inl (List.mem_append_left _ reached)
        · by_cases known : group'.id ∈ out
          · exact .inl (List.mem_append_left _ known)
          · exact .inl (List.mem_append_right _ ((mem_new _).mpr ⟨front, known⟩))
      · exact .inr (mem_subgroups.mpr ⟨group', member', rfl, parent, is_parent, just_now⟩)

theorem expandGroup_closed (groups : List Group) (groupId : Uuid) :
    ∀ id ∈ subgroups groups (expandGroup groups groupId true),
      id ∈ expandGroup groups groupId true := by
  refine expandLoop_closed ?_ (fun _ child => .inr child)
  exact Nat.lt_succ_of_le (List.length_filter_le _ _)

end HlHelper.Dispatch
