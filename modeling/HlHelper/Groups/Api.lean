import HlHelper.Groups.Ids
import HlHelper.Library.Rows

/-! `create_group` and `update_group`, one step for each statement of the database, and the
cycle check between them. -/

namespace HlHelper.Groups

open Dispatch (truthy)
open HlHelper.Library

structure Group where
  id : Uuid
  name : String
  parentId : Option Uuid
  description : Option String
  deriving DecidableEq, Repr

structure GroupCreate where
  name : String
  parentId : Option String
  description : Option String
  deriving DecidableEq, Repr

/-- The outer `none` is a field that the request does not set. -/
structure GroupUpdate where
  name : Option (Option String)
  parentId : Option (Option String)
  description : Option (Option String)
  deriving DecidableEq, Repr

structure GroupOut where
  id : String
  name : String
  parentId : Option String
  description : Option String
  deriving DecidableEq, Repr

def Group.toOut (group : Group) : GroupOut :=
  ⟨str group.id, group.name, group.parentId.map str, group.description⟩

def parentOf (groups : List Group) (id : Uuid) : Option Uuid :=
  (findKey Group.id groups id).bind Group.parentId

section CycleCheck

variable (uuids : UuidReader) (groupId : String)

/-- Where the loop of `_would_create_cycle` stands: it has an answer, or reads a parent next. -/
inductive Walk where
  | ended (cycle : Bool)
  | selects (id : Uuid) (seen : List String)
  deriving DecidableEq, Repr

def walk : Option String → List String → Walk
  | none, _ => .ended false
  | some cur, seen =>
    if cur ∈ seen then .ended false
    else if cur = groupId then .ended true
    else
      match uuids.parse cur with
      | none => .ended false
      | some id => .selects id (cur :: seen)

def climb (newParentId : String) : Walk :=
  if newParentId = groupId then .ended true else walk uuids groupId (some newParentId) []

def loop (groups : List Group) : Nat → Walk → Option Bool
  | _, .ended cycle => some cycle
  | 0, .selects _ _ => none
  | fuel + 1, .selects id seen =>
    loop groups fuel (walk uuids groupId ((parentOf groups id).map str) seen)

/-- `_would_create_cycle` on a table that stands still; it reads each parent at most once. -/
def wouldCreateCycle (groups : List Group) : Option String → Option Bool
  | none => some false
  | some newParentId =>
    loop uuids groupId groups (groups.length + 1) (climb uuids groupId newParentId)

end CycleCheck

inductive Request where
  | create (fresh : Uuid) (body : GroupCreate)
  | update (groupId : String) (body : GroupUpdate)
  deriving DecidableEq, Repr

/-- What a commit writes: a new row, or the columns that differ from the row as it was loaded. -/
inductive Write where
  | insert (group : Group)
  | update (id : Uuid) (parentId : Option (Option Uuid)) (name : Option String)
      (description : Option (Option String))
  deriving DecidableEq, Repr

def Write.id : Write → Uuid
  | .insert group => group.id
  | .update id _ _ _ => id

def Write.parent : Write → Option Uuid
  | .insert group => group.parentId
  | .update _ parentId _ _ => parentId.join

inductive Phase where
  | loading (id : Uuid)
  | climbing (loaded : Group) (newParentId : String) (id : Uuid) (seen : List String)
  | finding (parent : Uuid) (write : Write)
  | committing (write : Write)
  | refreshing (id : Uuid)
  | returned (out : GroupOut)
  | failed (status : Nat) (detail : String)
  deriving DecidableEq, Repr

/-- A request under way, with the rows that its cycle check has read. -/
structure Call where
  request : Request
  phase : Phase
  read : List (Uuid × Option Uuid)
  deriving DecidableEq, Repr

structure Server where
  groups : List Group
  calls : List Call
  deriving DecidableEq, Repr

inductive Step where
  | start (request : Request)
  | advance (index : Nat)
  | fail (index : Nat)
  deriving DecidableEq, Repr

section Requests

variable (uuids : UuidReader)

def begins : Request → Phase
  | .create fresh body =>
    match truthy body.parentId with
    | none => .committing (.insert ⟨fresh, body.name, none, body.description⟩)
    | some text =>
      match uuids.parse text with
      | none => .failed 400 ("invalid_uuid: " ++ text)
      | some parent =>
        .finding parent (.insert ⟨fresh, body.name, some parent, body.description⟩)
  | .update groupId _ =>
    match uuids.parse groupId with
    | none => .failed 400 ("invalid_uuid: " ++ groupId)
    | some id => .loading id

/-- A column is written when its value is another than the loaded one. -/
def changed {α : Type} [DecidableEq α] (loaded new : α) : Option α :=
  if new = loaded then none else some new

def edits (loaded : Group) (parentId : Option (Option Uuid)) (body : GroupUpdate) : Write :=
  .update loaded.id (parentId.bind (changed loaded.parentId))
    (body.name.join.bind (changed loaded.name))
    (body.description.bind (changed loaded.description))

def climbed (loaded : Group) (newParentId : String) (body : GroupUpdate) : Walk → Phase
  | .ended true => .failed 400 "circular_reference_detected"
  | .ended false =>
    match uuids.parse newParentId with
    | none => .failed 400 ("invalid_uuid: " ++ newParentId)
    | some parent => .finding parent (edits loaded (some (some parent)) body)
  | .selects id seen => .climbing loaded newParentId id seen

def loaded (groupId : String) (body : GroupUpdate) : Option Group → Phase
  | none => .failed 404 "Group not found"
  | some group =>
    match body.parentId with
    | none => .committing (edits group none body)
    | some none => .committing (edits group (some none) body)
    | some (some newParentId) =>
      climbed uuids group newParentId body (climb uuids groupId newParentId)

end Requests

/-- The table after a commit; none where a primary key or a name is taken. -/
def Write.apply (groups : List Group) : Write → Option (List Group)
  | .insert group =>
    if group.id ∈ groups.map Group.id ∨ group.name ∈ groups.map Group.name then none
    else some (groups ++ [group])
  | .update id parentId name description =>
    if ∃ group ∈ groups, group.id ≠ id ∧ name = some group.name then none
    else some (groups.map (fun group =>
      if group.id = id then
        { group with
          parentId := parentId.getD group.parentId
          name := name.getD group.name
          description := description.getD group.description }
      else group))

namespace Server

def initial : Server := ⟨[], []⟩

def moved (s : Server) (index : Nat) (call : Call) : Server :=
  { s with calls := s.calls.set index call }

/-- A statement of the database with the code behind it, up to the next one. -/
def advance (uuids : UuidReader) (s : Server) (index : Nat) (call : Call) : Option Server :=
  match call.request, call.phase with
  | .update groupId body, .loading id =>
    some (s.moved index
      { call with phase := loaded uuids groupId body (findKey Group.id s.groups id) })
  | .update groupId body, .climbing group newParentId id seen =>
    some (s.moved index
      { call with
        phase := climbed uuids group newParentId body
          (walk uuids groupId ((parentOf s.groups id).map str) seen)
        read := (id, parentOf s.groups id) :: call.read })
  | _, .finding parent write =>
    match findKey Group.id s.groups parent with
    | none => some (s.moved index { call with phase := .failed 404 "Parent group not found" })
    | some _ => some (s.moved index { call with phase := .committing write })
  | _, .committing write =>
    match write.apply s.groups with
    | none =>
      some (s.moved index
        { call with phase := .failed 409 "Group with this name already exists" })
    | some groups =>
      some { s.moved index { call with phase := .refreshing write.id } with groups := groups }
  | _, .refreshing id =>
    (findKey Group.id s.groups id).map fun group =>
      s.moved index { call with phase := .returned group.toOut }
  | _, _ => none

/-- Any statement may raise, and nothing is written then. -/
def fail (s : Server) (index : Nat) (call : Call) : Option Server :=
  match call.phase with
  | .returned _ | .failed _ _ => none
  | _ => some (s.moved index { call with phase := .failed 500 "Internal Server Error" })

def step (uuids : UuidReader) (s : Server) : Step → Option Server
  | .start request => some { s with calls := s.calls ++ [⟨request, begins uuids request, []⟩] }
  | .advance index => (s.calls[index]?).bind (s.advance uuids index)
  | .fail index => (s.calls[index]?).bind (s.fail index)

end Server

end HlHelper.Groups
