import HlHelper.Library.Keyset
import HlHelper.Library.Runs
import HlHelper.Oidc.Claims

/-! Cursor pagination. The text of a cursor, the base64 of its JSON, stands for the two values in
it. -/

namespace HlHelper.Pagination

open HlHelper.Library
open Oidc (Json)

/-- A sort column of the database: what the JSON of a value is, a datetime's being its
`isoformat()`, and how the values of the column compare with a JSON value in a statement, if that
is not refused. `<` and `>` refuse `None`. -/
structure Column (V : Type) where
  json : V → Json
  compared : Json → Option (V → Ordering)
  compared_null : compared .null = none

structure Row (V I : Type) where
  sortValue : Option V
  id : I
  deriving DecidableEq, Repr

structure Cursor (I : Type) where
  sortValue : Json
  lastId : I

structure Page (V I : Type) where
  items : List (Row V I)
  nextCursor : Option (Cursor I)

variable {V I : Type} [LinearOrder V] [LinearOrder I]

/-- `a < b`, or `a > b`. -/
def precedes {T : Type} [LinearOrder T] (descending : Bool) (a b : T) : Prop :=
  if descending then b < a else a < b

instance {T : Type} [LinearOrder T] (descending : Bool) (a b : T) :
    Decidable (precedes descending a b) :=
  inferInstanceAs (Decidable (if descending then b < a else a < b))

/-- How a statement orders: which way, and where `NULL` comes that way. -/
structure Direction where
  descending : Bool
  nullsFirst : Bool
  deriving DecidableEq, Repr

def Row.before (direction : Direction) (a b : Row V I) : Prop :=
  match a.sortValue, b.sortValue with
  | none, none => precedes direction.descending a.id b.id
  | none, some _ => direction.nullsFirst = true
  | some _, none => direction.nullsFirst = false
  | some v, some w =>
    precedes direction.descending v w ∨ v = w ∧ precedes direction.descending a.id b.id

instance (direction : Direction) : DecidableRel (@Row.before V I _ _ direction)
  | ⟨none, a⟩, ⟨none, b⟩ => inferInstanceAs (Decidable (precedes direction.descending a b))
  | ⟨none, _⟩, ⟨some _, _⟩ => inferInstanceAs (Decidable (direction.nullsFirst = true))
  | ⟨some _, _⟩, ⟨none, _⟩ => inferInstanceAs (Decidable (direction.nullsFirst = false))
  | ⟨some v, a⟩, ⟨some w, b⟩ =>
    inferInstanceAs (Decidable (precedes direction.descending v w ∨
      v = w ∧ precedes direction.descending a b))

/-- The predicate of a cursor, true of a row; a comparison with `NULL` is not. -/
def Row.behind (direction : Direction) (compared : V → Ordering) (lastId : I) (row : Row V I) :
    Prop :=
  ∃ v ∈ row.sortValue,
    compared v = (if direction.descending then .lt else .gt) ∨
      compared v = .eq ∧ precedes direction.descending lastId row.id

omit [LinearOrder V] in
instance (direction : Direction) (compared : V → Ordering) (lastId : I) (row : Row V I) :
    Decidable (row.behind direction compared lastId) :=
  inferInstanceAs (Decidable (∃ _ ∈ _, _))

variable (column : Column V) (direction : Direction)

def Column.cursor (row : Row V I) : Cursor I :=
  ⟨(row.sortValue.map column.json).getD .null, row.id⟩

/-- The rows of the statement with a cursor, none where it raises. -/
def applyCursor (table : List (Row V I)) (cursor : Option (Cursor I)) (limit : Nat) :
    Option (List (Row V I)) :=
  match cursor with
  | none => some ((Keyset.ordered (Row.before direction) table).take (limit + 1))
  | some cursor =>
    (column.compared cursor.sortValue).map fun compared =>
      (Keyset.ordered (Row.before direction)
        (table.filter (Row.behind direction compared cursor.lastId ·))).take (limit + 1)

def buildPage (rows : List (Row V I)) (limit : Nat) : Page V I :=
  if limit < rows.length then
    let kept := rows.take limit
    ⟨kept, kept.getLast?.map column.cursor⟩
  else ⟨rows, none⟩

def request (limit : Nat) (table : List (Row V I)) (cursor : Option (Cursor I)) :
    Option (Page V I) :=
  (applyCursor column direction table cursor limit).map (buildPage column · limit)

/-- Pages from a cursor on, until there is no next one; none if one raises or there are more. -/
def follow (limit : Nat) (table : List (Row V I)) :
    Nat → Option (Cursor I) → Option (List (List (Row V I)))
  | 0, _ => none
  | fuel + 1, cursor =>
    (request column direction limit table cursor).bind fun page =>
      match page.nextCursor with
      | none => some [page.items]
      | some next => (follow limit table fuel (some next)).map (page.items :: ·)

/-- What a caller has seen of a table that changes, and the cursor for the next page. -/
structure Reading (V I : Type) where
  seen : List (Row V I)
  cursor : Option (Cursor I)
  finished : Bool

namespace Reading

def start : Reading V I := ⟨[], none, false⟩

/-- The next page, of the table as it is then; none where it raises or there is none. -/
def step (limit : Nat) (reading : Reading V I) (table : List (Row V I)) :
    Option (Reading V I) :=
  if reading.finished then none
  else
    (request column direction limit table reading.cursor).map fun page =>
      ⟨reading.seen ++ page.items, page.nextCursor, page.nextCursor.isNone⟩

end Reading

end HlHelper.Pagination
