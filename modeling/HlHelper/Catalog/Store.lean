import HlHelper.Library.Batches
import HlHelper.Library.OrderedMap

/-! The advisory catalogue: `upsert_advisories` and `apply_scores`, in batches that are committed
one by one. A JSON column is written only when it is assigned. -/

namespace HlHelper.Catalog

open HlHelper.Library

/-- What a feed says of an advisory, in columns that every upsert assigns. -/
structure Content where
  aliases : List String
  summary : String
  descriptionMd : Option String
  severity : String
  cvssV3 : Option String
  cvssV4 : Option String
  published : Option Int
  modified : Option Int
  refs : List String
  deriving DecidableEq, Repr

structure FeedAffected where
  ecosystem : String
  package : String
  introduced : Option String
  fixed : Option String
  rangeKind : String
  deriving DecidableEq, Repr

structure FeedAdvisory where
  id : String
  content : Content
  affected : List FeedAffected
  deriving DecidableEq, Repr

/-- EPSS numbers, as Python prints them, and KEV flags. -/
inductive Score where
  | number (text : String)
  | flag (b : Bool)
  deriving DecidableEq, Repr

structure Advisory where
  content : Content
  sources : List String
  epss : Option Score
  kev : Score
  createdAt : Int
  updatedAt : Int
  deriving DecidableEq, Repr

structure AffectedPackage where
  advisoryId : String
  affected : FeedAffected
  deriving DecidableEq, Repr

/-- The two tables; advisories are found by their primary key. -/
structure Tables where
  advisories : OrderedMap String Advisory
  affected : List AffectedPackage
  deriving DecidableEq

/-- The database: the order in which it returns the rows of a query without `ORDER BY`. -/
structure Engine where
  select : List (String × Advisory) → List (String × Advisory)
  select_perm : ∀ rows, (select rows).Perm rows

/-- A session's rows, with the `sources` lists of loaded advisories that were changed in place. -/
structure Session where
  tables : Tables
  inPlace : OrderedMap String (List String)
  inserted : Nat
  updated : Nat

/-- The batches of a call, which has none where the size is negative. -/
def batchesOf {α : Type} (batchSize : Int) (items : List α) : List (List α) :=
  if 0 < batchSize then batches batchSize.toNat items else []

namespace FeedAdvisory

/-- The new row of an advisory; one reading of the clock stands for all of a call. -/
def row (item : FeedAdvisory) (source : String) (now : Int) : Advisory where
  content := item.content
  sources := [source]
  epss := none
  kev := .flag false
  createdAt := now
  updatedAt := now

/-- What becomes of a row that exists: its JSON column `sources` is not assigned. -/
def update (item : FeedAdvisory) (now : Int) (adv : Advisory) : Advisory :=
  { adv with content := item.content, updatedAt := now }

def packages (item : FeedAdvisory) : List AffectedPackage := item.affected.map (⟨item.id, ·⟩)

end FeedAdvisory

/-- The rows of the other advisories, and those of the item. -/
def replaceAffected (affected : List AffectedPackage) (item : FeedAdvisory) :
    List AffectedPackage :=
  affected.filter (fun pkg => pkg.advisoryId ≠ item.id) ++ item.packages

namespace Session

/-- One item of `upsert_advisories`; the deletion flushes what the session holds. -/
def upsert (source : String) (now : Int) (s : Session) (item : FeedAdvisory) : Session :=
  let affected := replaceAffected s.tables.affected item
  match s.tables.advisories.get? item.id with
  | none => { s with
      tables := ⟨s.tables.advisories.insert item.id (item.row source now), affected⟩
      inserted := s.inserted + 1 }
  | some adv =>
    let sources := (s.inPlace.get? item.id).getD adv.sources
    { s with
      tables := ⟨s.tables.advisories.insert item.id (item.update now adv), affected⟩
      inPlace :=
        if source ∈ sources then s.inPlace
        else s.inPlace.insert item.id (sources ++ [source])
      updated := s.updated + 1 }

/-- A batch in a session of its own; the commit writes no list that was changed in place. -/
def upsertBatch (source : String) (now : Int) (s : Session) (chunk : List FeedAdvisory) : Session :=
  { chunk.foldl (upsert source now) { s with inPlace := .empty } with inPlace := .empty }

end Session

/-- `upsert_advisories`, which returns the numbers of rows inserted and updated. -/
def upsertAdvisories (tables : Tables) (items : List FeedAdvisory) (source : String)
    (batchSize now : Int) : Except String (Nat × Nat) × Tables :=
  if batchSize = 0 then (.error "range() arg 3 must not be zero", tables)
  else
    let s := (batchesOf batchSize items).foldl (Session.upsertBatch source now)
      ⟨tables, .empty, 0, 0⟩
    (.ok (s.inserted, s.updated), s.tables)

inductive ScoreKind where
  | epss
  | kev
  deriving DecidableEq, Repr

def ScoreKind.set (kind : ScoreKind) (score : Score) (adv : Advisory) : Advisory :=
  match kind with
  | .epss => { adv with epss := some score }
  | .kev => { adv with kev := score }

/-- The keys under which scores are found for an advisory. -/
def indexKeys (row : String × Advisory) : List String :=
  row.1 :: row.2.content.aliases.filter (· ≠ "")

def aliasIndex (rows : List (String × Advisory)) : OrderedMap String (List String) :=
  rows.foldl (fun index row =>
    (indexKeys row).foldl (fun index key => index.appendTo key row.1) index) .empty

/-- The score of each advisory that is to be updated: a later key wins. -/
def resolve (index : OrderedMap String (List String)) (scores : OrderedMap String Score) :
    OrderedMap String Score :=
  scores.entries.foldl (fun resolved entry =>
    ((index.get? entry.1).getD []).foldl (fun resolved id => resolved.insert id entry.2) resolved)
      .empty

def byVal (chunk : List (String × Score)) : OrderedMap Score (List String) :=
  chunk.foldl (fun groups entry => groups.appendTo entry.2 entry.1) .empty

/-- One `UPDATE`, and the number of rows that it matches. -/
def updateIds (kind : ScoreKind) (state : Tables × Nat) (group : Score × List String) :
    Tables × Nat :=
  ({ state.1 with advisories := state.1.advisories.mapValues fun id adv =>
      if id ∈ group.2 then kind.set group.1 adv else adv },
    state.2 + (state.1.advisories.keys.filter (· ∈ group.2)).length)

/-- `apply_scores` of a kind that it knows. -/
def applyScores (engine : Engine) (tables : Tables) (scores : OrderedMap String Score)
    (kind : ScoreKind) (batchSize : Int) : Except String Nat × Tables :=
  if scores.entries.isEmpty then (.ok 0, tables)
  else
    let index := aliasIndex (engine.select tables.advisories.entries)
    let resolved := resolve index scores
    if resolved.entries.isEmpty then (.ok 0, tables)
    else if batchSize = 0 then (.error "range() arg 3 must not be zero", tables)
    else
      let state := (batchesOf batchSize resolved.entries).foldl (fun state chunk =>
        (byVal chunk).entries.foldl (updateIds kind) state) (tables, 0)
      (.ok state.2, state.1)

inductive Call where
  | upsert (items : List FeedAdvisory) (source : String) (batchSize now : Int)
  | applyScores (scores : OrderedMap String Score) (kind : ScoreKind) (batchSize : Int)

namespace Tables

def empty : Tables := ⟨.empty, []⟩

/-- What a call leaves in the catalogue, whether it returns or raises. -/
def call (engine : Engine) (tables : Tables) : Call → Tables
  | .upsert items source batchSize now =>
    (upsertAdvisories tables items source batchSize now).2
  | .applyScores scores kind batchSize => (applyScores engine tables scores kind batchSize).2

def run (engine : Engine) (calls : List Call) : Tables := calls.foldl (call engine) empty

end Tables

end HlHelper.Catalog
