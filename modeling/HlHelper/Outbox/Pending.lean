import HlHelper.Library.Fifo
import HlHelper.Outbox.Store

/-! What waits in an outbox, and the bounded queue that it refines. -/

namespace HlHelper.Outbox

open HlHelper.Library

structure Sealed where
  payload : Bytes
  blob : Bytes
  deriving DecidableEq

def Sealed.size (item : Sealed) : Nat := item.blob.length

def limitsOf (opts : Options) : Limits := ⟨opts.maxEntries, opts.maxBytes⟩

/-! The keys of the meta bucket are apart. -/

@[simp] theorem tags_apart : ackedTag ≠ prevTag := by decide

@[simp] theorem prevTag_ne_ackedTag (a b : Bytes) : prevTag ++ a ≠ ackedTag ++ b := by
  simp [prevTag, ackedTag]

@[simp] theorem ackedTag_ne_prevTag (a b : Bytes) : ackedTag ++ a ≠ prevTag ++ b := by
  simp [prevTag, ackedTag]

@[simp] theorem prevTag_ne_chainTipKey (a : Bytes) : prevTag ++ a ≠ chainTipKey := by
  simp [prevTag, chainTipKey]

@[simp] theorem prevTag_ne_lastIDKey (a : Bytes) : prevTag ++ a ≠ lastIDKey := by
  simp [prevTag, lastIDKey]

@[simp] theorem ackedTag_ne_chainTipKey (a : Bytes) : ackedTag ++ a ≠ chainTipKey := by
  simp [ackedTag, chainTipKey]

@[simp] theorem ackedTag_ne_lastIDKey (a : Bytes) : ackedTag ++ a ≠ lastIDKey := by
  simp [ackedTag, lastIDKey]

@[simp] theorem chainTipKey_ne_lastIDKey : chainTipKey ≠ lastIDKey := by decide

/-! Evictions and acknowledgements write only under the two tags. -/

theorem meta_evict (db : Db) (key value : Bytes) {other : Bytes}
    (notPrev : ∀ a, prevTag ++ a ≠ other) (notAcked : ∀ a, ackedTag ++ a ≠ other) :
    (evict db key value).metaBucket.get? other = db.metaBucket.get? other := by
  unfold evict
  split <;> simp [Bucket.get?_delete, Bucket.get?_put, (notPrev key).symm, (notAcked key).symm]

theorem meta_enforceCapLoop (opts : Options) (rounds : Nat) (db : Db) {other : Bytes}
    (notPrev : ∀ a, prevTag ++ a ≠ other) (notAcked : ∀ a, ackedTag ++ a ≠ other) :
    (enforceCapLoop opts rounds db).metaBucket.get? other = db.metaBucket.get? other := by
  induction rounds generalizing db with
  | zero => rfl
  | succ rounds ih =>
    unfold enforceCapLoop
    split
    · rfl
    · split
      · rfl
      · rw [ih, meta_evict db _ _ notPrev notAcked]

theorem meta_ack (db : Db) (id : Nat) {other : Bytes} (notPrev : ∀ a, prevTag ++ a ≠ other)
    (notAcked : ∀ a, ackedTag ++ a ≠ other) :
    (ack db id).metaBucket.get? other = db.metaBucket.get? other := by
  have prev := (notPrev (putUint64 id)).symm
  have acked := (notAcked (putUint64 id)).symm
  cases present : db.outbox.get? (putUint64 id) with
  | none => simp [ack, present, Bucket.get?_delete, prev]
  | some blob => simp [ack, present, Bucket.get?_delete, Bucket.get?_put, prev, acked]

theorem lastID_congr {db other : Db}
    (same : db.metaBucket.get? lastIDKey = other.metaBucket.get? lastIDKey) :
    lastID db = lastID other := by
  rw [lastID, lastID, same]

@[simp] theorem lastID_ack (db : Db) (id : Nat) : lastID (ack db id) = lastID db :=
  lastID_congr (meta_ack db id prevTag_ne_lastIDKey ackedTag_ne_lastIDKey)

theorem lastID_append (sha : Sha256) (aead : Aead) {o : Outbox} (nonce : Nonce) (payload : Bytes)
    (bound : o.nextID < 2 ^ 64) : lastID (append sha aead o nonce payload).1.db = o.nextID := by
  have kept : lastID (append sha aead o nonce payload).1.db =
      lastID (insertTx sha aead o nonce payload) :=
    lastID_congr (meta_enforceCapLoop _ _ _ prevTag_ne_lastIDKey ackedTag_ne_lastIDKey)
  rw [kept]
  simp [lastID, insertTx, Bucket.get?_put, uint64_putUint64 bound]

def Readable (aead : Aead) (db : Db) (id : Nat) (item : Sealed) : Prop :=
  ∃ prevHash, db.metaBucket.get? (prevTag ++ putUint64 id) = some prevHash ∧
    prevHash.length = 32 ∧ decryptEntry aead id prevHash item.blob = .ok item.payload

structure Represents (aead : Aead) (db : Db) (items : List (Nat × Sealed)) : Prop where
  entries : db.outbox.entries = items.map (fun item => (putUint64 item.1, item.2.blob))
  bounded : ∀ item ∈ items, item.1 < 2 ^ 64
  readable : ∀ item ∈ items, Readable aead db item.1 item.2

variable {sha : Sha256} {aead : Aead}

namespace Represents

variable {db : Db} {items : List (Nat × Sealed)}

theorem increasing (held : Represents aead db items) :
    items.Pairwise (fun first second => first.1 < second.1) := by
  have sorted := db.outbox.sorted
  rw [held.entries, List.pairwise_map] at sorted
  apply sorted.imp_of_mem
  intro first second inside _ less
  by_contra above
  rcases Nat.lt_or_eq_of_le (Nat.le_of_not_lt above) with more | same
  · exact Std.lt_irrefl (Std.lt_trans less (putUint64_lt (held.bounded first inside) more))
  · rw [same] at less
    exact Std.lt_irrefl less

theorem empty : Represents aead default [] where
  entries := rfl
  bounded := by simp
  readable := by simp

theorem len_eq (held : Represents aead db items) : len db = items.length := by
  rw [len, held.entries, List.length_map]

theorem peekLoop_eq (bounded : ∀ item ∈ items, item.1 < 2 ^ 64)
    (readable : ∀ item ∈ items, Readable aead db item.1 item.2) (count : Nat) :
    peekLoop aead db (items.map (fun item => (putUint64 item.1, item.2.blob))) count =
      .ok ((items.take count).map (fun item => ⟨item.1, item.2.payload⟩)) := by
  induction items generalizing count with
  | nil => simp [peekLoop]
  | cons item rest ih =>
    cases count with
    | zero => rfl
    | succ count =>
      obtain ⟨prevHash, found, width, opened⟩ := readable item List.mem_cons_self
      have back := uint64_putUint64 (bounded item List.mem_cons_self)
      have later := ih (fun other inside => bounded other (List.mem_cons_of_mem _ inside))
        (fun other inside => readable other (List.mem_cons_of_mem _ inside)) count
      simp only [List.map_cons, peekLoop, length_putUint64, found, width, back, opened, later,
        ne_eq, not_true_eq_false, if_false, List.take_succ_cons]
      rfl

theorem peek_eq (held : Represents aead db items) (n : Int) :
    peek aead db n = .ok ((items.take n.toNat).map (fun item => ⟨item.1, item.2.payload⟩)) := by
  rw [peek, held.entries]
  exact peekLoop_eq held.bounded held.readable n.toNat

theorem withinCaps_iff (held : Represents aead db items) (opts : Options) :
    WithinCaps opts db ↔ Fifo.Fits Sealed.size (limitsOf opts) items := by
  rw [WithinCaps, held.entries, Fifo.Fits]
  simp [List.map_map, Function.comp_def, Sealed.size, limitsOf]

end Represents

theorem readable_evict {db : Db} {id other : Nat} {blob : Bytes} {item : Sealed}
    (left : id < 2 ^ 64) (right : other < 2 ^ 64) (apart : other ≠ id)
    (readable : Readable aead db other item) :
    Readable aead (evict db (putUint64 id) blob) other item := by
  obtain ⟨prevHash, found, rest⟩ := readable
  have keys : putUint64 other ≠ putUint64 id := by
    intro same
    exact apart (putUint64_injective right left same)
  refine ⟨prevHash, ?_, rest⟩
  simp [evict, Bucket.get?_delete, Bucket.get?_put, keys, found]

theorem represents_evict {db : Db} {item : Nat × Sealed} {rest : List (Nat × Sealed)}
    (held : Represents aead db (item :: rest)) :
    Represents aead (evict db (putUint64 item.1) item.2.blob) rest := by
  have ordered := List.pairwise_cons.mp held.increasing
  have small := held.bounded item List.mem_cons_self
  constructor
  · exact Bucket.entries_delete_head held.entries
  · intro other inside
    exact held.bounded other (List.mem_cons_of_mem _ inside)
  · intro other inside
    have member : other ∈ item :: rest := List.mem_cons_of_mem _ inside
    apply readable_evict small (held.bounded other member)
    · exact (Nat.ne_of_lt (ordered.1 other inside)).symm
    · exact held.readable other member

theorem represents_enforceCapLoop {opts : Options} {rounds : Nat} {db : Db}
    {items : List (Nat × Sealed)} (enough : items.length ≤ rounds)
    (held : Represents aead db items) :
    Represents aead (enforceCapLoop opts rounds db)
      (Fifo.trim Sealed.size (limitsOf opts) items) := by
  induction rounds generalizing db items with
  | zero =>
    obtain rfl := List.length_eq_zero_iff.mp (Nat.le_zero.mp enough)
    exact held
  | succ rounds ih =>
    cases items with
    | nil =>
      have none : db.outbox.first? = none := by simp [Bucket.first?, held.entries]
      simpa [enforceCapLoop, none, Fifo.trim] using held
    | cons item rest =>
      have first : db.outbox.first? = some (putUint64 item.1, item.2.blob) := by
        simp [Bucket.first?, held.entries]
      by_cases fits : WithinCaps opts db
      · rw [enforceCapLoop, if_pos fits, Fifo.trim, if_pos ((held.withinCaps_iff opts).mp fits)]
        exact held
      · rw [enforceCapLoop, if_neg fits, first, Fifo.trim,
          if_neg (mt (held.withinCaps_iff opts).mpr fits)]
        exact ih (by simpa using enough) (represents_evict held)

/-- `enforceCapTx` evicts the oldest entries until the rest is within the caps. -/
theorem represents_enforceCapTx {opts : Options} {db : Db} {items : List (Nat × Sealed)}
    (held : Represents aead db items) :
    Represents aead (enforceCapTx opts db) (Fifo.trim Sealed.size (limitsOf opts) items) := by
  have enough : items.length ≤ db.outbox.entries.length := by simp [held.entries]
  exact represents_enforceCapLoop enough held

theorem represents_insertTx {o : Outbox} {items : List (Nat × Sealed)} (nonce : Nonce)
    (payload : Bytes) (held : Represents aead o.db items) (bound : o.nextID < 2 ^ 64)
    (newest : ∀ item ∈ items, item.1 < o.nextID) :
    Represents aead (insertTx sha aead o nonce payload)
      (items ++ [(o.nextID, ⟨payload, newBlob sha aead o nonce payload⟩)]) := by
  have largest : ∀ entry ∈ o.db.outbox.entries, entry.1 < putUint64 o.nextID := by
    intro entry member
    rw [held.entries] at member
    obtain ⟨item, inside, rfl⟩ := List.mem_map.mp member
    exact putUint64_lt bound (newest item inside)
  constructor
  · rw [insertTx, Bucket.entries_put_last largest, held.entries, List.map_append]
    rfl
  · intro item inside
    rcases List.mem_append.mp inside with old | new
    · exact held.bounded item old
    · rw [List.mem_singleton.mp new]
      exact bound
  · intro item inside
    rcases List.mem_append.mp inside with old | new
    · obtain ⟨prevHash, found, rest⟩ := held.readable item old
      have keys : putUint64 item.1 ≠ putUint64 o.nextID := by
        intro same
        have equal := putUint64_injective (held.bounded item old) bound same
        exact Nat.ne_of_lt (newest item old) equal
      refine ⟨prevHash, ?_, rest⟩
      simp [insertTx, Bucket.get?_put, keys, found]
    · rw [List.mem_singleton.mp new]
      refine ⟨lastDigest sha o.db, ?_, ?_, ?_⟩
      · simp [insertTx, Bucket.get?_put]
      · unfold lastDigest
        split
        · rfl
        · split
          · exact length_entryDigest _ _ _
          · rfl
      · exact decryptEntry_encryptEntry aead nonce o.nextID _ payload

theorem represents_append {o : Outbox} {items : List (Nat × Sealed)} (nonce : Nonce)
    (payload : Bytes) (held : Represents aead o.db items) (bound : o.nextID < 2 ^ 64)
    (newest : ∀ item ∈ items, item.1 < o.nextID) :
    Represents aead (append sha aead o nonce payload).1.db
      (Fifo.trim Sealed.size (limitsOf o.opts)
        (items ++ [(o.nextID, ⟨payload, newBlob sha aead o nonce payload⟩)])) :=
  represents_enforceCapTx (represents_insertTx nonce payload held bound newest)

theorem represents_ack {db : Db} {items : List (Nat × Sealed)} {id : Nat} (bound : id < 2 ^ 64)
    (held : Represents aead db items) :
    Represents aead (ack db id) (items.filter (fun item => item.1 ≠ id)) := by
  constructor
  · rw [ack, Bucket.entries_delete, held.entries, List.filter_map]
    congr 1
    apply List.filter_congr
    intro item inside
    have small := held.bounded item inside
    have keys : putUint64 item.1 = putUint64 id ↔ item.1 = id :=
      ⟨putUint64_injective small bound, congrArg putUint64⟩
    simp [keys]
  · intro item inside
    exact held.bounded item (List.mem_filter.mp inside).1
  · intro item inside
    obtain ⟨member, other⟩ := List.mem_filter.mp inside
    obtain ⟨prevHash, found, rest⟩ := held.readable item member
    have keys : putUint64 item.1 ≠ putUint64 id := by
      intro same
      have equal := putUint64_injective (held.bounded item member) bound same
      exact absurd equal (by simpa using other)
    refine ⟨prevHash, ?_, rest⟩
    cases present : db.outbox.get? (putUint64 id) with
    | none => simp [ack, present, Bucket.get?_delete, keys, found]
    | some blob => simp [ack, present, Bucket.get?_delete, Bucket.get?_put, keys, found]

end HlHelper.Outbox
