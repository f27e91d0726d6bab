import HlHelper.Envelope
import HlHelper.Library.BigEndian
import HlHelper.Library.Bucket
import HlHelper.Library.Runs

/-! The encrypted outbox of `outbox.go`: two buckets of a bbolt file, and the id
counter of the process that has the file open. Transactions are atomic. Entry encryption and
digests are those of `outbox_chain.go`. -/

set_option linter.dupNamespace false

namespace HlHelper.Outbox

open HlHelper.Library

/-- AES-256-GCM under the outbox key: what was sealed opens under the same nonce
and the same additional data. -/
structure Aead where
  sealText : Bytes → Bytes → Bytes → Bytes
  openText : Bytes → Bytes → Bytes → Option Bytes
  openText_sealText : ∀ nonce plaintext aad,
    openText nonce (sealText nonce plaintext aad) aad = some plaintext

inductive Error where
  | chainBroken
  | chainTruncated
  | missingPrevHash (id : Nat)
  | blobTooShort
  deriving DecidableEq, Repr

def nonceLen : Nat := 12

structure Nonce where
  bytes : Bytes
  length_bytes : bytes.length = nonceLen

def putUint64 (id : Nat) : Bytes := BigEndian.put 8 id

def uint64 (key : Bytes) : Nat := BigEndian.get key

def zeroHash : Bytes := List.replicate 32 0

def entryDigest (sha : Sha256) (id : Nat) (blob : Bytes) : Bytes :=
  sha.sum (putUint64 id ++ blob)

def chainInput (id : Nat) (blob prevChainTip : Bytes) : Bytes :=
  putUint64 id ++ blob ++ prevChainTip

def computeChainTip (sha : Sha256) (id : Nat) (blob prevChainTip : Bytes) : Bytes :=
  sha.sum (chainInput id blob prevChainTip)

def aad (id : Nat) (prevHash : Bytes) : Bytes :=
  putUint64 id ++ (prevHash.take 32 ++ List.replicate (32 - prevHash.length) 0)

def encryptEntry (aead : Aead) (nonce : Nonce) (id : Nat) (prevHash payload : Bytes) : Bytes :=
  nonce.bytes ++ aead.sealText nonce.bytes payload (aad id prevHash)

def decryptEntry (aead : Aead) (id : Nat) (prevHash blob : Bytes) : Except Error Bytes :=
  if blob.length < nonceLen then .error .blobTooShort
  else
    match aead.openText (blob.take nonceLen) (blob.drop nonceLen) (aad id prevHash) with
    | none => .error .chainBroken
    | some plaintext => .ok plaintext

@[simp] theorem length_putUint64 (id : Nat) : (putUint64 id).length = 8 :=
  BigEndian.length_put 8 id

theorem uint64_putUint64 {id : Nat} (fits : id < 2 ^ 64) : uint64 (putUint64 id) = id :=
  BigEndian.get_put_of_lt (by simpa using fits)

theorem putUint64_uint64 {key : Bytes} (width : key.length = 8) : putUint64 (uint64 key) = key := by
  have back := BigEndian.put_get key
  rwa [width] at back

theorem uint64_lt {key : Bytes} (width : key.length = 8) : uint64 key < 2 ^ 64 := by
  have bound := BigEndian.get_lt key
  rw [width] at bound
  simpa [uint64] using bound

theorem putUint64_injective {first second : Nat} (left : first < 2 ^ 64) (right : second < 2 ^ 64)
    (same : putUint64 first = putUint64 second) : first = second := by
  rw [← uint64_putUint64 left, ← uint64_putUint64 right, same]

theorem putUint64_lt {first second : Nat} (bound : second < 2 ^ 64) (less : first < second) :
    putUint64 first < putUint64 second :=
  BigEndian.put_lt_put (by simpa using bound) less

theorem length_entryDigest (sha : Sha256) (id : Nat) (blob : Bytes) :
    (entryDigest sha id blob).length = 32 := sha.length_sum _

theorem length_computeChainTip (sha : Sha256) (id : Nat) (blob prevChainTip : Bytes) :
    (computeChainTip sha id blob prevChainTip).length = 32 := sha.length_sum _

theorem chainInput_injective {id other : Nat} {blob record tip tail : Bytes} (left : id < 2 ^ 64)
    (right : other < 2 ^ 64) (width : tip.length = tail.length)
    (same : chainInput id blob tip = chainInput other record tail) :
    id = other ∧ blob = record ∧ tip = tail := by
  have ends := List.append_inj_right' same width
  have fronts := List.append_inj_left' same width
  obtain ⟨keys, blobs⟩ := List.append_inj fronts (by simp)
  exact ⟨putUint64_injective left right keys, blobs, ends⟩

theorem decryptEntry_encryptEntry (aead : Aead) (nonce : Nonce) (id : Nat)
    (prevHash payload : Bytes) :
    decryptEntry aead id prevHash (encryptEntry aead nonce id prevHash payload) = .ok payload := by
  have front : (encryptEntry aead nonce id prevHash payload).take nonceLen = nonce.bytes := by
    rw [encryptEntry, ← nonce.length_bytes, List.take_left]
  have back : (encryptEntry aead nonce id prevHash payload).drop nonceLen =
      aead.sealText nonce.bytes payload (aad id prevHash) := by
    rw [encryptEntry, ← nonce.length_bytes, List.drop_left]
  have long : ¬ (encryptEntry aead nonce id prevHash payload).length < nonceLen := by
    rw [encryptEntry, List.length_append, nonce.length_bytes]
    omega
  rw [decryptEntry, if_neg long, front, back, aead.openText_sealText]

/-- A cipher that is evaluated: the additional data in front of the plaintext. -/
def Aead.plain : Aead where
  sealText := fun _ plaintext aad => aad ++ plaintext
  openText := fun _ ciphertext aad =>
    if ciphertext.take aad.length = aad then some (ciphertext.drop aad.length) else none
  openText_sealText := fun _ _ _ => by simp

def zeroNonce : Nonce := ⟨List.replicate nonceLen 0, rfl⟩

abbrev DbBucket := Bucket Bytes Bytes

structure Db where
  outbox : DbBucket
  metaBucket : DbBucket
  deriving DecidableEq, Inhabited

structure Options where
  maxBytes : Int
  maxEntries : Int
  deriving DecidableEq, Repr

/-- `Outbox`. `nextID` is a `uint64`. -/
structure Outbox where
  db : Db
  opts : Options
  nextID : Nat
  deriving DecidableEq

structure Entry where
  id : Nat
  payload : Bytes
  deriving DecidableEq, Repr

/-- `"last_id"`. -/
def lastIDKey : Bytes := [108, 97, 115, 116, 95, 105, 100]

/-- `"chain_tip"`. -/
def chainTipKey : Bytes := [99, 104, 97, 105, 110, 95, 116, 105, 112]

/-- `"prev:"`. -/
def prevTag : Bytes := [112, 114, 101, 118, 58]

/-- `"acked:"`. -/
def ackedTag : Bytes := [97, 99, 107, 101, 100, 58]

/-- The persisted `last_id`, 0 when it is missing or not of 8 bytes. -/
def lastID (db : Db) : Nat :=
  match db.metaBucket.get? lastIDKey with
  | none => 0
  | some lastIDBytes => if lastIDBytes.length = 8 then uint64 lastIDBytes else 0

def maxID (db : Db) : Nat :=
  match db.outbox.last? with
  | none => 0
  | some (key, _) => if key.length = 8 then uint64 key else 0

/-- `init`: the id counter of a process that opens the file. -/
def init (db : Db) : Except Error Nat :=
  if 0 < lastID db ∧ 0 < maxID db ∧ maxID db < lastID db then .error .chainTruncated
  else
    let nextID := if 0 < maxID db then (maxID db + 1) % 2 ^ 64 else 0
    .ok (if nextID = 0 then 1 else nextID)

/-- One round of `enforceCapTx`: the oldest entry moves to the acked records. -/
def evict (db : Db) (key value : Bytes) : Db where
  outbox := db.outbox.delete key
  metaBucket :=
    (if key.length = 8 then db.metaBucket.put (ackedTag ++ key) value else db.metaBucket).delete
      (prevTag ++ key)

def WithinCaps (opts : Options) (db : Db) : Prop :=
  db.outbox.entries.length ≤ opts.maxEntries ∧
    ((db.outbox.entries.map (fun entry => entry.2.length)).sum : Nat) ≤ opts.maxBytes

instance (opts : Options) (db : Db) : Decidable (WithinCaps opts db) :=
  inferInstanceAs (Decidable (_ ∧ _))

/-- The loop of `enforceCapTx`. Each round takes an entry away, so there are no
more rounds than entries. -/
def enforceCapLoop (opts : Options) : Nat → Db → Db
  | 0, db => db
  | rounds + 1, db =>
    if WithinCaps opts db then db
    else
      match db.outbox.first? with
      | none => db
      | some (key, value) => enforceCapLoop opts rounds (evict db key value)

def enforceCapTx (opts : Options) (db : Db) : Db :=
  enforceCapLoop opts db.outbox.entries.length db

def lastDigest (sha : Sha256) (db : Db) : Bytes :=
  match db.outbox.last? with
  | none => zeroHash
  | some (lastKey, lastVal) =>
    if lastKey.length = 8 then entryDigest sha (uint64 lastKey) lastVal else zeroHash

section Operations

variable (sha : Sha256) (aead : Aead)

def newBlob (o : Outbox) (nonce : Nonce) (payload : Bytes) : Bytes :=
  encryptEntry aead nonce o.nextID (lastDigest sha o.db) payload

def insertTx (o : Outbox) (nonce : Nonce) (payload : Bytes) : Db :=
  let keyBuf := putUint64 o.nextID
  let prevHash := lastDigest sha o.db
  let blob := newBlob sha aead o nonce payload
  let prevChainTip := (o.db.metaBucket.get? chainTipKey).getD zeroHash
  { outbox := o.db.outbox.put keyBuf blob
    metaBucket :=
      ((o.db.metaBucket.put (prevTag ++ keyBuf) prevHash).put chainTipKey
        (computeChainTip sha o.nextID blob prevChainTip)).put lastIDKey keyBuf }

def append (o : Outbox) (nonce : Nonce) (payload : Bytes) : Outbox × Nat :=
  ({ o with
      db := enforceCapTx o.opts (insertTx sha aead o nonce payload)
      nextID := (o.nextID + 1) % 2 ^ 64 }, o.nextID)

/-- An `Append` that fails after it drew its id: the transaction is rolled back
and the counter is not. -/
def appendFails (o : Outbox) : Outbox := { o with nextID := (o.nextID + 1) % 2 ^ 64 }

def peekLoop (db : Db) : List (Bytes × Bytes) → Nat → Except Error (List Entry)
  | [], _ => .ok []
  | _ :: _, 0 => .ok []
  | (key, value) :: rest, count + 1 =>
    if key.length ≠ 8 then peekLoop db rest (count + 1)
    else
      match db.metaBucket.get? (prevTag ++ key) with
      | none => .error (.missingPrevHash (uint64 key))
      | some prevHash =>
        if prevHash.length ≠ 32 then .error (.missingPrevHash (uint64 key))
        else do
          let payload ← decryptEntry aead (uint64 key) prevHash value
          let entries ← peekLoop db rest count
          return ⟨uint64 key, payload⟩ :: entries

def peek (db : Db) (n : Int) : Except Error (List Entry) :=
  peekLoop aead db db.outbox.entries n.toNat

end Operations

def ack (db : Db) (id : Nat) : Db :=
  let keyBuf := putUint64 id
  { outbox := db.outbox.delete keyBuf
    metaBucket :=
      (match db.outbox.get? keyBuf with
      | none => db.metaBucket
      | some blob => db.metaBucket.put (ackedTag ++ keyBuf) blob).delete (prevTag ++ keyBuf) }

def len (db : Db) : Nat := db.outbox.entries.length

/-- A file with a process that has it open, or that `Open` refused. -/
inductive Handle where
  | opened (o : Outbox)
  | refused (db : Db) (error : Error)
  deriving DecidableEq

def Handle.db : Handle → Db
  | .opened o => o.db
  | .refused db _ => db

/-- `Open` of a file that has its buckets. -/
def openDb (db : Db) (opts : Options) : Handle :=
  match init db with
  | .ok nextID => .opened ⟨db, opts, nextID⟩
  | .error error => .refused db error

def created (opts : Options) : Handle := openDb default opts

def someCaps : Options := ⟨1000, 10⟩

/-- Calls of the API. `reopen` is `Close`, or the end of the process, and `Open`. -/
inductive Event where
  | append (payload : Bytes) (nonce : Nonce)
  | appendFails
  | ack (id : UInt64)
  | reopen (opts : Options)

def step (sha : Sha256) (aead : Aead) : Handle → Event → Option Handle
  | .opened o, .append payload nonce => some (.opened (append sha aead o nonce payload).1)
  | .opened o, .appendFails => some (.opened (appendFails o))
  | .opened o, .ack id => some (.opened { o with db := ack o.db id.toNat })
  | .opened o, .reopen opts => some (openDb o.db opts)
  | .refused db _, .reopen opts => some (openDb db opts)
  | .refused _ _, _ => none

end HlHelper.Outbox
