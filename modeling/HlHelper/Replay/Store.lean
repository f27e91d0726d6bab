import HlHelper.Envelope
import HlHelper.Library.OrderedMap
import HlHelper.Library.Rows
import Mathlib.Data.Rat.Floor
import Mathlib.Data.Int.Log
import Mathlib.Data.List.Sort

/-! `PersistentReplayStore.accept` with its two tables, its transaction and the statement at which
the database may raise. Datetimes are microseconds since the epoch. -/

namespace HlHelper.Replay

open HlHelper.Library

inductive ReplayError where
  | clockSkew
  | expiredCommand
  | sequenceRegression
  | duplicateNonce
  | overflow
  | naive
  | database
  deriving DecidableEq, Repr

/-- `PersistentReplayStore` with the arguments of its constructor. -/
structure Settings where
  nonceWindow : Int
  skewToleranceS : Int
  maxForwardGap : Int
  deriving DecidableEq, Repr

def Settings.defaults : Settings := ⟨1024, 60, 0⟩

section Time

/-- The first and the last microsecond of a `datetime`. -/
def minDatetime : Int := -62135596800000000
def maxDatetime : Int := 253402300799999999

def datetime (micros : Int) : Except ReplayError Int :=
  if minDatetime ≤ micros ∧ micros ≤ maxDatetime then .ok micros else .error .overflow

/-- `Timestamp.ToDatetime` of nanoseconds since the epoch. -/
def toDatetime (nanos : Int) : Except ReplayError Int := datetime (nanos / 1000)

def roundEven (q : ℚ) : Int :=
  if q - ⌊q⌋ < 1 / 2 ∨ q - ⌊q⌋ = 1 / 2 ∧ ⌊q⌋ % 2 = 0 then ⌊q⌋ else ⌊q⌋ + 1

/-- The double nearest to `q`, whose exponent is in range. -/
def double (q : ℚ) : ℚ :=
  let ulp : ℚ := 2 ^ (Int.log 2 |q| - 52)
  roundEven (q / ulp) * ulp

def truncate (q : ℚ) : Int := if 0 ≤ q then ⌊q⌋ else ⌈q⌉

def seenAt (now : Int) : Int := truncate (double (double (now / 1000000) * 1000000))

end Time

structure SeenNonce where
  rowid : Nat
  hostId : HostId
  nonce : Bytes
  seenAt : Int
  deriving DecidableEq, Repr

def SeenNonce.key (row : SeenNonce) : HostId × Bytes := (row.hostId, row.nonce)

/-- The table `seen_nonce` in the order of its rowids, with its primary key. -/
structure Nonces where
  rows : List SeenNonce
  keyed : (rows.map SeenNonce.key).Nodup
  ordered : rows.Pairwise (fun first second => first.rowid < second.rowid)
  deriving DecidableEq

namespace Nonces

def empty : Nonces := ⟨[], List.nodup_nil, List.Pairwise.nil⟩

def hostRows (n : Nonces) (hostId : HostId) : List SeenNonce :=
  n.rows.filter (fun row => row.hostId = hostId)

/-- SQLite gives a new row the rowid after the largest. -/
def nextRowid (n : Nonces) : Nat := (n.rows.map SeenNonce.rowid).foldr max 0 + 1

theorem rowid_lt_next (n : Nonces) {row : SeenNonce} (member : row ∈ n.rows) :
    row.rowid < n.nextRowid := by
  have bounded : ∀ rows : List SeenNonce, row ∈ rows →
      row.rowid ≤ (rows.map SeenNonce.rowid).foldr max 0 := by
    intro rows member
    induction rows with
    | nil => cases member
    | cons first rest ih =>
      rw [List.map_cons, List.foldr_cons]
      rcases List.mem_cons.mp member with rfl | later
      · exact le_max_left _ _
      · exact (ih later).trans (le_max_right _ _)
  exact Nat.lt_succ_of_le (bounded n.rows member)

def insert (n : Nonces) (hostId : HostId) (nonce : Bytes) (seenAt : Int)
    (fresh : (hostId, nonce) ∉ n.rows.map SeenNonce.key) : Nonces where
  rows := n.rows ++ [⟨n.nextRowid, hostId, nonce, seenAt⟩]
  keyed := by
    apply @unique_append _ _ SeenNonce.key n.rows
      (some ⟨n.nextRowid, hostId, nonce, seenAt⟩) n.keyed
    intro row new
    rw [← Option.some.inj new]
    exact fresh
  ordered := by
    refine List.pairwise_append.mpr ⟨n.ordered, List.pairwise_singleton _ _, ?_⟩
    intro row member new single
    rw [List.mem_singleton.mp single]
    exact n.rowid_lt_next member

/-- `ORDER BY seen_at DESC, rowid DESC`. -/
def Ahead (first second : SeenNonce) : Prop :=
  second.seenAt < first.seenAt ∨
    second.seenAt = first.seenAt ∧ second.rowid ≤ first.rowid

instance : DecidableRel Ahead := fun _ _ => inferInstanceAs (Decidable (_ ∨ _))

/-- `LIMIT`, which a negative number turns off. -/
def limit {α : Type*} (count : Int) (rows : List α) : List α :=
  if count < 0 then rows else rows.take count.toNat

def newest (n : Nonces) (hostId : HostId) (window : Int) : List SeenNonce :=
  limit window ((n.hostRows hostId).insertionSort Ahead)

def trim (n : Nonces) (hostId : HostId) (window : Int) : Nonces where
  rows := n.rows.filter fun row =>
    !(row.hostId = hostId ∧ row.key ∉ (n.newest hostId window).map SeenNonce.key)
  keyed := n.keyed.sublist (List.filter_sublist.map _)
  ordered := n.ordered.sublist List.filter_sublist

end Nonces

structure Db where
  hostSequence : OrderedMap HostId Nat
  seenNonce : Nonces

def Db.empty : Db := ⟨.empty, .empty⟩

/-- A connection: what is committed, and the copy that an open transaction works on. -/
structure Conn where
  db : Db
  working : Option Db

namespace Conn

def opened (db : Db) : Conn := ⟨db, none⟩

def beginImmediate (conn : Conn) : Conn := { conn with working := some conn.db }
def rollback (conn : Conn) : Conn := { conn with working := none }
def commit (conn : Conn) : Conn := ⟨conn.working.getD conn.db, none⟩

end Conn

/-- The statements of a transaction, each of which the database may refuse. -/
inductive Statement where
  | beginImmediate
  | selectSequence
  | selectNonce
  | upsertSequence
  | insertNonce
  | trim
  | commit
  deriving DecidableEq, Repr

/-- A call with its clock, which may have no zone, and the statement that raises, if any. -/
structure Call where
  env : CommandEnvelope
  now : Option Int
  fault : Option Statement
  deriving DecidableEq, Repr

def Call.execute (call : Call) (statement : Statement) : Except ReplayError Unit :=
  if call.fault = some statement then .error .database else .ok ()

def bindInteger (n : Int) : Except ReplayError Unit :=
  if -9223372036854775808 ≤ n ∧ n ≤ 9223372036854775807 then .ok () else .error .overflow

section Accept

variable (c : Settings)

def Call.aware (call : Call) : Except ReplayError Int := call.now.elim (.error .naive) .ok

def checkIssued (call : Call) : Except ReplayError Unit :=
  match call.env.issuedAt with
  | none => .ok ()
  | some issued => do
      let issuedAt ← toDatetime issued
      let now ← call.aware
      let maxFuture ← datetime (now + c.skewToleranceS * 1000000)
      if maxFuture < issuedAt then throw .clockSkew

/-- The checks ahead of the transaction; an absent expiry reads as the epoch. -/
def precheck (call : Call) : Except ReplayError Int := do
  let expiresAt ← toDatetime (call.env.expiresAt.getD 0)
  checkIssued c call
  let now ← call.aware
  if expiresAt ≤ now then throw .expiredCommand
  return now

/-- The sequence is new to the host and not too far ahead; the first one may be any. -/
def checkSequence (row : Option Nat) (sequence : Nat) : Except ReplayError Unit :=
  if sequence ≤ row.getD 0 then .error .sequenceRegression
  else if 0 < c.maxForwardGap ∧ row.isSome ∧ c.maxForwardGap < sequence - row.getD 0 then
    .error .sequenceRegression
  else .ok ()

/-- The upsert of the sequence, the insertion of the nonce and the trim. -/
def record (call : Call) (now : Int) (db : Db)
    (unseen : (call.env.hostId, call.env.nonce) ∉ db.seenNonce.rows.map SeenNonce.key) :
    Except ReplayError Db := do
  call.execute .upsertSequence
  bindInteger call.env.sequence
  call.execute .insertNonce
  call.execute .trim
  bindInteger c.nonceWindow
  return {
    hostSequence := db.hostSequence.insert call.env.hostId call.env.sequence
    seenNonce := (db.seenNonce.insert call.env.hostId call.env.nonce (seenAt now) unseen).trim
      call.env.hostId c.nonceWindow }

def body (call : Call) (now : Int) (db : Db) : Except ReplayError Db := do
  call.execute .selectSequence
  checkSequence c (db.hostSequence.get? call.env.hostId) call.env.sequence
  call.execute .selectNonce
  if seen : (call.env.hostId, call.env.nonce) ∈ db.seenNonce.rows.map SeenNonce.key then
    .error .duplicateNonce
  else record c call now db seen

/-- Every exit but the last is behind a `ROLLBACK`. -/
def accept (conn : Conn) (call : Call) : Except ReplayError Unit × Conn :=
  match precheck c call with
  | .error e => (.error e, conn)
  | .ok now =>
    match call.execute .beginImmediate with
    | .error e => (.error e, conn.rollback)
    | .ok () =>
      let conn := conn.beginImmediate
      match body c call now (conn.working.getD conn.db) with
      | .error e => (.error e, conn.rollback)
      | .ok db =>
        let conn := { conn with working := some db }
        match call.execute .commit with
        | .error e => (.error e, conn.rollback)
        | .ok () => (.ok (), conn.commit)

end Accept

end HlHelper.Replay
