import HlHelper.Outbox.Verify

/-! Runs through the API whose contents pass `Verify`: the chain stays linear as
long as each `Append` draws the id after the persisted one and `Open` does not
take an acknowledged newest entry for a lost one. -/

namespace HlHelper.Outbox

open HlHelper.Library

/-! The maps that `Verify` builds are the buckets read by key. -/

theorem assigned_eq_get? {b : DbBucket} {parse : Bytes × Bytes → Option (Nat × Bytes)}
    {key : Bytes} {id : Nat} (own : ∀ value, parse (key, value) = some (id, value))
    (only : ∀ entry pair, parse entry = some pair → pair.1 = id → entry = (key, pair.2)) :
    assigned (b.entries.filterMap parse) id = b.get? key := by
  apply Option.ext
  intro value
  rw [Bucket.get?_eq_some_iff]
  constructor
  · intro found
    obtain ⟨pair, inside, rfl⟩ := Option.map_eq_some_iff.mp found
    obtain ⟨member, same⟩ := findKey_some inside
    obtain ⟨entry, held, parsed⟩ := List.mem_filterMap.mp (List.mem_reverse.mp member)
    rwa [only entry pair parsed same] at held
  · intro member
    have listed : (id, value) ∈ (b.entries.filterMap parse).reverse :=
      List.mem_reverse.mpr (List.mem_filterMap.mpr ⟨_, member, own value⟩)
    cases found : findKey Prod.fst (b.entries.filterMap parse).reverse id with
    | none => exact absurd (List.mem_map.mpr ⟨_, listed, rfl⟩) (findKey_none.mp found)
    | some pair =>
      obtain ⟨inside, same⟩ := findKey_some found
      obtain ⟨entry, held, parsed⟩ := List.mem_filterMap.mp (List.mem_reverse.mp inside)
      rw [only entry pair parsed same] at held
      have first := Bucket.get?_eq_some_iff.mpr held
      have second := Bucket.get?_eq_some_iff.mpr member
      rw [assigned, found, ← second, first]
      rfl

theorem presentEntries_eq (db : Db) {id : Nat} (small : id < 2 ^ 64) :
    presentEntries db id = db.outbox.get? (putUint64 id) := by
  apply assigned_eq_get?
  · intro value
    simp [presentEntry, uint64_putUint64 small]
  · intro entry pair parsed same
    unfold presentEntry at parsed
    split at parsed
    · next width =>
      cases parsed
      rw [← same, putUint64_uint64 width]
    · cases parsed

theorem ackedDigests_eq (db : Db) {id : Nat} (small : id < 2 ^ 64) :
    ackedDigests db id = db.metaBucket.get? (ackedTag ++ putUint64 id) := by
  apply assigned_eq_get?
  · intro value
    have front : (ackedTag ++ putUint64 id).take 6 = ackedTag := List.take_left' rfl
    have back : (ackedTag ++ putUint64 id).drop 6 = putUint64 id := List.drop_left' rfl
    have long : 6 < (ackedTag ++ putUint64 id).length := by simp [ackedTag]
    simp only [ackedDigest, front, back, long, length_putUint64, uint64_putUint64 small, and_self,
      if_true]
  · intro entry pair parsed same
    unfold ackedDigest at parsed
    split at parsed
    · next shape =>
      cases parsed
      rw [← same, putUint64_uint64 shape.2.2, ← shape.2.1, List.take_append_drop]
    · cases parsed

theorem recorded_eq (db : Db) {id : Nat} (small : id < 2 ^ 64) :
    recorded db id = (db.outbox.get? (putUint64 id)).or
      (db.metaBucket.get? (ackedTag ++ putUint64 id)) := by
  rw [recorded, presentEntries_eq db small, ackedDigests_eq db small]

/-! Moving an entry to the acked records keeps what is recorded. -/

theorem recorded_evict {db : Db} {id other : Nat} {blob : Bytes}
    (present : db.outbox.get? (putUint64 id) = some blob) (small : id < 2 ^ 64)
    (otherSmall : other < 2 ^ 64) :
    recorded (evict db (putUint64 id) blob) other = recorded db other := by
  rw [recorded_eq _ otherSmall, recorded_eq _ otherSmall]
  by_cases same : other = id
  · subst same
    simp [evict, Bucket.get?_delete, Bucket.get?_put, present]
  · have keys : putUint64 other ≠ putUint64 id := by
      intro equal
      exact same (putUint64_injective otherSmall small equal)
    simp [evict, Bucket.get?_delete, Bucket.get?_put, keys]

theorem recorded_ack (db : Db) {id other : Nat} (small : id < 2 ^ 64)
    (otherSmall : other < 2 ^ 64) : recorded (ack db id) other = recorded db other := by
  rw [recorded_eq _ otherSmall, recorded_eq _ otherSmall]
  by_cases same : other = id
  · subst same
    cases present : db.outbox.get? (putUint64 other) with
    | none => simp [ack, present, Bucket.get?_delete]
    | some blob => simp [ack, present, Bucket.get?_delete, Bucket.get?_put]
  · have keys : putUint64 other ≠ putUint64 id := by
      intro equal
      exact same (putUint64_injective otherSmall small equal)
    cases present : db.outbox.get? (putUint64 id) with
    | none => simp [ack, present, Bucket.get?_delete, keys]
    | some blob => simp [ack, present, Bucket.get?_delete, Bucket.get?_put, keys]

/-- Contents that the API can leave: what is present can be read, every id up to
the persisted one is recorded, and the tip is the digest along the records. -/
structure Chained (sha : Sha256) (aead : Aead) (db : Db) : Prop where
  present : ∃ items, Represents aead db items ∧ ∀ item ∈ items, item.1 ≤ lastID db
  bound : lastID db < 2 ^ 64 - 1
  complete : ∀ i, i < lastID db → (recorded db (1 + i)).isSome
  tip : (db.metaBucket.get? chainTipKey).getD zeroHash =
    chainTip (computeChainTip sha) 1 zeroHash (records db)

variable {sha : Sha256} {aead : Aead}

theorem records_congr {db other : Db} (bound : lastID db < 2 ^ 64 - 1)
    (last : lastID other = lastID db)
    (same : ∀ id, id < 2 ^ 64 → recorded other id = recorded db id) :
    records other = records db := by
  rw [records, records, last]
  apply List.map_congr_left
  intro i inside
  have small := List.mem_range.mp inside
  rw [same (1 + i) (by omega)]

theorem Chained.of_same {db other : Db} (chained : Chained sha aead db)
    (present : ∃ items, Represents aead other items ∧ ∀ item ∈ items, item.1 ≤ lastID db)
    (last : other.metaBucket.get? lastIDKey = db.metaBucket.get? lastIDKey)
    (tip : other.metaBucket.get? chainTipKey = db.metaBucket.get? chainTipKey)
    (same : ∀ id, id < 2 ^ 64 → recorded other id = recorded db id) : Chained sha aead other := by
  have lastID_eq : lastID other = lastID db := lastID_congr last
  have bound := chained.bound
  constructor
  · rwa [lastID_eq]
  · rwa [lastID_eq]
  · intro i small
    rw [same (1 + i) (by omega)]
    exact chained.complete i (by omega)
  · rw [tip, chained.tip, records_congr bound lastID_eq same]

theorem chained_default : Chained sha aead default where
  present := ⟨[], Represents.empty, by simp⟩
  bound := by decide
  complete := by
    intro i small
    have none : lastID default = 0 := rfl
    omega
  tip := rfl

theorem chained_ack {db : Db} {id : Nat} (small : id < 2 ^ 64) (chained : Chained sha aead db) :
    Chained sha aead (ack db id) := by
  obtain ⟨items, held, below⟩ := chained.present
  apply chained.of_same
  · refine ⟨_, represents_ack small held, ?_⟩
    intro item inside
    exact below item (List.mem_filter.mp inside).1
  · exact meta_ack db id prevTag_ne_lastIDKey ackedTag_ne_lastIDKey
  · exact meta_ack db id prevTag_ne_chainTipKey ackedTag_ne_chainTipKey
  · intro other otherSmall
    exact recorded_ack db small otherSmall

theorem chained_evict {db : Db} {key blob : Bytes} (chained : Chained sha aead db)
    (first : db.outbox.first? = some (key, blob)) : Chained sha aead (evict db key blob) := by
  obtain ⟨items, held, below⟩ := chained.present
  cases items with
  | nil => simp [Bucket.first?, held.entries] at first
  | cons item rest =>
    have head : (putUint64 item.1, item.2.blob) = (key, blob) := by
      simpa [Bucket.first?, held.entries] using first
    cases head
    have small := held.bounded item List.mem_cons_self
    have present : db.outbox.get? (putUint64 item.1) = some item.2.blob := by
      rw [Bucket.get?_eq_some_iff, held.entries]
      exact List.mem_cons_self
    apply chained.of_same
    · refine ⟨rest, represents_evict held, ?_⟩
      intro other inside
      exact below other (List.mem_cons_of_mem _ inside)
    · exact meta_evict db _ _ prevTag_ne_lastIDKey ackedTag_ne_lastIDKey
    · exact meta_evict db _ _ prevTag_ne_chainTipKey ackedTag_ne_chainTipKey
    · intro other otherSmall
      exact recorded_evict present small otherSmall

theorem chained_enforceCapLoop {opts : Options} {rounds : Nat} {db : Db}
    (chained : Chained sha aead db) : Chained sha aead (enforceCapLoop opts rounds db) := by
  induction rounds generalizing db with
  | zero => exact chained
  | succ rounds ih =>
    unfold enforceCapLoop
    split
    · exact chained
    · split
      · exact chained
      · next first => exact ih (chained_evict chained first)

section Append

variable {o : Outbox} {nonce : Nonce} {payload : Bytes}

theorem recorded_insertTx {id : Nat} (small : id < 2 ^ 64) (bound : o.nextID < 2 ^ 64) :
    recorded (insertTx sha aead o nonce payload) id =
      if id = o.nextID then some (newBlob sha aead o nonce payload) else recorded o.db id := by
  rw [recorded_eq _ small, recorded_eq _ small]
  split
  · next same =>
    subst same
    simp [insertTx, Bucket.get?_put]
  · next different =>
    have keys : putUint64 id ≠ putUint64 o.nextID := by
      intro equal
      exact different (putUint64_injective small bound equal)
    simp [insertTx, Bucket.get?_put, keys]

theorem records_insertTx (next : o.nextID = lastID o.db + 1) (bound : o.nextID < 2 ^ 64) :
    lastID (insertTx sha aead o nonce payload) = o.nextID ∧
      records (insertTx sha aead o nonce payload) =
        records o.db ++ [newBlob sha aead o nonce payload] := by
  have last : lastID (insertTx sha aead o nonce payload) = o.nextID := by
    simp [lastID, insertTx, Bucket.get?_put, uint64_putUint64 bound]
  refine ⟨last, ?_⟩
  have newest : recorded (insertTx sha aead o nonce payload) (1 + lastID o.db) =
      some (newBlob sha aead o nonce payload) := by
    rw [recorded_insertTx (by omega) bound, if_pos (by omega)]
  rw [records, last, next, List.range_succ, List.map_append, List.map_singleton, newest, records]
  congr 1
  apply List.map_congr_left
  intro i inside
  have small := List.mem_range.mp inside
  rw [recorded_insertTx (by omega) bound, if_neg (by omega)]

theorem chained_insertTx (chained : Chained sha aead o.db) (next : o.nextID = lastID o.db + 1)
    (bound : o.nextID < 2 ^ 64 - 1) : Chained sha aead (insertTx sha aead o nonce payload) := by
  have fits : o.nextID < 2 ^ 64 := by omega
  obtain ⟨items, held, below⟩ := chained.present
  obtain ⟨last, more⟩ := @records_insertTx sha aead o nonce payload next fits
  constructor
  · have newest : ∀ item ∈ items, item.1 < o.nextID := by
      intro item inside
      have old := below item inside
      omega
    refine ⟨_, represents_insertTx nonce payload held fits newest, ?_⟩
    intro item inside
    rw [last]
    rcases List.mem_append.mp inside with old | new
    · exact (newest item old).le
    · rw [List.mem_singleton.mp new]
  · rwa [last]
  · intro i small
    rw [recorded_insertTx (by omega) fits]
    split
    · rfl
    · exact chained.complete i (by omega)
  · have width : (records o.db).length = lastID o.db := by simp [records]
    have tip : (insertTx sha aead o nonce payload).metaBucket.get? chainTipKey =
        some (computeChainTip sha o.nextID (newBlob sha aead o nonce payload)
          ((o.db.metaBucket.get? chainTipKey).getD zeroHash)) := by
      simp [insertTx, Bucket.get?_put]
    calc ((insertTx sha aead o nonce payload).metaBucket.get? chainTipKey).getD zeroHash
        = computeChainTip sha o.nextID (newBlob sha aead o nonce payload)
            (chainTip (computeChainTip sha) 1 zeroHash (records o.db)) := by
          rw [tip, Option.getD_some, chained.tip]
      _ = chainTip (computeChainTip sha) 1 zeroHash
            (records (insertTx sha aead o nonce payload)) := by
          rw [more, chainTip_append, width, next, Nat.add_comm 1]
          rfl

theorem chained_append (chained : Chained sha aead o.db) (next : o.nextID = lastID o.db + 1)
    (bound : o.nextID < 2 ^ 64 - 1) : Chained sha aead (append sha aead o nonce payload).1.db :=
  chained_enforceCapLoop (chained_insertTx chained next bound)

end Append

theorem verifyLoop_complete {db : Db} {last id : Nat} {tip : Bytes} {blobs : List Bytes}
    (bound : last < 2 ^ 64 - 1) (count : id + blobs.length = last + 1)
    (found : ∀ i (h : i < blobs.length), recorded db (id + i) = some blobs[i])
    (checked : ∀ i, i ≤ last → Checked aead db i) :
    verifyLoop sha aead db last (blobs.length + 1) id tip =
      some (.ok (chainTip (computeChainTip sha) id tip blobs)) := by
  induction blobs generalizing id tip with
  | nil =>
    apply verifyLoop_succ_eq_ok.mpr
    exact .inl ⟨by simp only [List.length_nil] at count; omega, rfl⟩
  | cons blob rest ih =>
    simp only [List.length_cons] at count
    apply verifyLoop_succ_eq_ok.mpr
    refine .inr ⟨by omega, blob, found 0 (by simp), checked id (by omega), ?_⟩
    rw [Nat.mod_eq_of_lt (by omega), chainTip]
    apply ih (by omega)
    intro i small
    have later := found (i + 1) (by simpa using small)
    rw [← Nat.add_assoc, Nat.add_right_comm] at later
    exact later

theorem checked_of_represents {db : Db} {items : List (Nat × Sealed)} {id : Nat}
    (held : Represents aead db items) (small : id < 2 ^ 64) : Checked aead db id := by
  intro entry found
  rw [presentEntries_eq db small, Bucket.get?_eq_some_iff, held.entries] at found
  obtain ⟨item, inside, same⟩ := List.mem_map.mp found
  obtain ⟨keys, rfl⟩ := Prod.mk.injEq .. ▸ same
  obtain rfl := putUint64_injective (held.bounded item inside) small keys
  obtain ⟨prevHash, stored, width, opened⟩ := held.readable item inside
  exact ⟨prevHash, item.2.payload, stored, width, opened⟩

theorem checkTip_eq_ok {db : Db} {tip : Bytes}
    (same : (db.metaBucket.get? chainTipKey).getD zeroHash = tip) : checkTip db tip = .ok () := by
  unfold checkTip
  split
  · rfl
  · next stored =>
    rw [stored, Option.getD_some] at same
    simp [same]

theorem Chained.passes {db : Db} (chained : Chained sha aead db) : Passes sha aead db := by
  obtain ⟨items, held, -⟩ := chained.present
  have bound := chained.bound
  refine ⟨(records db).length + 1, ?_⟩
  unfold verify
  split
  · rfl
  · have width : (records db).length = lastID db := by simp [records]
    have walk := @verifyLoop_complete sha aead db _ _ zeroHash _
      bound (by omega : 1 + (records db).length = lastID db + 1)
      (by
        intro i small
        obtain ⟨blob, found⟩ := Option.isSome_iff_exists.mp (chained.complete i (by omega))
        simp [records, found])
      (fun i small => checked_of_represents held (by omega))
    rw [walk]
    exact congrArg some (checkTip_eq_ok chained.tip)

/-- `Append` draws the id after the persisted one, and `Open` finds the entries
gone or the newest one present. -/
def Contiguous : Handle → Event → Prop
  | .opened o, .append _ _ => o.nextID = lastID o.db + 1 ∧ o.nextID < 2 ^ 64 - 1
  | h, .reopen _ => maxID h.db = 0 ∨ lastID h.db ≤ maxID h.db
  | _, _ => True

instance : ∀ h event, Decidable (Contiguous h event)
  | .opened o, .append _ _ =>
    inferInstanceAs (Decidable (o.nextID = lastID o.db + 1 ∧ o.nextID < 2 ^ 64 - 1))
  | .opened o, .reopen _ => inferInstanceAs (Decidable (maxID o.db = 0 ∨ lastID o.db ≤ maxID o.db))
  | .refused db _, .reopen _ => inferInstanceAs (Decidable (maxID db = 0 ∨ lastID db ≤ maxID db))
  | .opened _, .appendFails => isTrue trivial
  | .opened _, .ack _ => isTrue trivial
  | .refused _ _, .append _ _ => isTrue trivial
  | .refused _ _, .appendFails => isTrue trivial
  | .refused _ _, .ack _ => isTrue trivial

def OpenAndChained (sha : Sha256) (aead : Aead) (h : Handle) : Prop :=
  ∃ o, h = .opened o ∧ Chained sha aead o.db

theorem openDb_chained {db : Db} {opts : Options} (newest : maxID db = 0 ∨ lastID db ≤ maxID db)
    (chained : Chained sha aead db) : OpenAndChained sha aead (openDb db opts) := by
  have opens : ¬ (0 < lastID db ∧ 0 < maxID db ∧ maxID db < lastID db) := by omega
  unfold openDb init
  rw [if_neg opens]
  exact ⟨_, rfl, chained⟩

theorem chained_step {h t : Handle} {event : Event} (start : OpenAndChained sha aead h)
    (contiguous : Contiguous h event) (stepped : step sha aead h event = some t) :
    OpenAndChained sha aead t := by
  obtain ⟨o, rfl, chained⟩ := start
  cases event with
  | append payload nonce =>
    cases stepped
    exact ⟨_, rfl, chained_append chained contiguous.1 contiguous.2⟩
  | appendFails =>
    cases stepped
    exact ⟨_, rfl, chained⟩
  | ack id =>
    cases stepped
    exact ⟨_, rfl, chained_ack id.toNat_lt chained⟩
  | reopen opts =>
    cases stepped
    exact openDb_chained contiguous chained

/-- In every contiguous run each `Open` succeeds and `Verify` returns nil. -/
theorem contiguous_runs_verify (sha : Sha256) (aead : Aead) (opts : Options)
    (events : List Event) (h : Handle)
    (reached : run (step sha aead) (created opts) events = some h)
    (met : Meets (step sha aead) Contiguous (created opts) events) :
    ∃ o, h = .opened o ∧ Passes sha aead o.db := by
  have start : OpenAndChained sha aead (created opts) :=
    openDb_chained (.inl rfl) chained_default
  obtain ⟨o, opened, chained⟩ :=
    run_keeps (fun _ _ _ start contiguous stepped => chained_step start contiguous stepped)
      start reached met
  exact ⟨o, opened, chained.passes⟩

theorem contiguous_run_verifies_reopened :
    ∃ o, run (step .head .plain) (created someCaps)
        [.append [1] zeroNonce, .append [2] zeroNonce, .ack 1, .reopen someCaps] =
          some (.opened o) ∧ Passes .head .plain o.db := by
  obtain ⟨o, opened, passes⟩ := contiguous_runs_verify .head .plain someCaps
    [.append [1] zeroNonce, .append [2] zeroNonce, .ack 1, .reopen someCaps] _ rfl (by decide)
  exact ⟨o, congrArg some opened, passes⟩

/-- Acknowledging the newest entry before an older one makes the next `Open` fail,
and a failed `Append` makes `Verify` fail after the next one. -/
theorem open_and_verify_fail :
    (∃ db, run (step .head .plain) (created someCaps)
      [.append [1] zeroNonce, .append [2] zeroNonce, .ack 2, .reopen someCaps] =
        some (.refused db .chainTruncated)) ∧
    (∃ o, run (step .head .plain) (created someCaps)
      [.appendFails, .append [1] zeroNonce] = some (.opened o) ∧
        verify .head .plain o.db 3 = some (.error .chainTruncated)) := by
  refine ⟨⟨_, rfl⟩, _, rfl, ?_⟩
  decide

end HlHelper.Outbox
