import HlHelper.Library.HashChain
import HlHelper.Outbox.Pending

/-! `Verify` of `outbox.go`, and what two contents that pass it have in common. -/

namespace HlHelper.Outbox

open HlHelper.Library

/-- A Go map after the assignments: the last one to a key counts. -/
def assigned (pairs : List (Nat × Bytes)) (id : Nat) : Option Bytes :=
  (findKey Prod.fst pairs.reverse id).map Prod.snd

def presentEntry (entry : Bytes × Bytes) : Option (Nat × Bytes) :=
  if entry.1.length = 8 then some (uint64 entry.1, entry.2) else none

def presentEntries (db : Db) : Nat → Option Bytes :=
  assigned (db.outbox.entries.filterMap presentEntry)

def ackedDigest (entry : Bytes × Bytes) : Option (Nat × Bytes) :=
  if 6 < entry.1.length ∧ entry.1.take 6 = ackedTag ∧ (entry.1.drop 6).length = 8 then
    some (uint64 (entry.1.drop 6), entry.2)
  else none

def ackedDigests (db : Db) : Nat → Option Bytes :=
  assigned (db.metaBucket.entries.filterMap ackedDigest)

section Walk

variable (sha : Sha256) (aead : Aead) (db : Db)

/-- The loop from `id` to `lastID`, of at most `rounds` rounds. The counter is a
`uint64`, which is never above the largest `lastID`. -/
def verifyLoop (lastID : Nat) : Nat → Nat → Bytes → Option (Except Error Bytes)
  | 0, _, _ => none
  | rounds + 1, id, prevChainTip =>
    if lastID < id then some (.ok prevChainTip)
    else
      match presentEntries db id with
      | some entry =>
        match db.metaBucket.get? (prevTag ++ putUint64 id) with
        | none => some (.error (.missingPrevHash id))
        | some prevHash =>
          if prevHash.length ≠ 32 then some (.error (.missingPrevHash id))
          else
            match decryptEntry aead id prevHash entry with
            | .error _ => some (.error .chainBroken)
            | .ok _ =>
              verifyLoop lastID rounds ((id + 1) % 2 ^ 64)
                (computeChainTip sha id entry prevChainTip)
      | none =>
        match ackedDigests db id with
        | some storedBlob =>
          verifyLoop lastID rounds ((id + 1) % 2 ^ 64)
            (computeChainTip sha id storedBlob prevChainTip)
        | none => some (.error .chainTruncated)

/-- The comparison with the stored tip, which is skipped without one of 32 bytes. -/
def checkTip (prevChainTip : Bytes) : Except Error Unit :=
  match db.metaBucket.get? chainTipKey with
  | none => .ok ()
  | some metaChainTip =>
    if metaChainTip.length = 32 ∧ prevChainTip ≠ metaChainTip then .error .chainBroken
    else .ok ()

/-- `Verify` with a bound on the rounds; without a result when they do not suffice. -/
def verify (rounds : Nat) : Option (Except Error Unit) :=
  if lastID db = 0 then some (.ok ())
  else
    match verifyLoop sha aead db (lastID db) rounds 1 zeroHash with
    | none => none
    | some (.error error) => some (.error error)
    | some (.ok prevChainTip) => some (checkTip db prevChainTip)

/-- `Verify` returns nil. -/
def Passes : Prop := ∃ rounds, verify sha aead db rounds = some (.ok ())

end Walk

/-- The blob recorded for an id: of the entry if it is present, else the acked one. -/
def recorded (db : Db) (id : Nat) : Option Bytes := (presentEntries db id).or (ackedDigests db id)

def Checked (aead : Aead) (db : Db) (id : Nat) : Prop :=
  ∀ entry, presentEntries db id = some entry → ∃ prevHash payload,
    db.metaBucket.get? (prevTag ++ putUint64 id) = some prevHash ∧ prevHash.length = 32 ∧
      decryptEntry aead id prevHash entry = .ok payload

variable {sha : Sha256} {aead : Aead} {db : Db}

theorem verifyLoop_succ_eq_ok {last rounds id : Nat} {tip out : Bytes} :
    verifyLoop sha aead db last (rounds + 1) id tip = some (.ok out) ↔
      (last < id ∧ tip = out) ∨
        (id ≤ last ∧ ∃ blob, recorded db id = some blob ∧ Checked aead db id ∧
          verifyLoop sha aead db last rounds ((id + 1) % 2 ^ 64)
            (computeChainTip sha id blob tip) = some (.ok out)) := by
  by_cases beyond : last < id
  · have notWithin : ¬ id ≤ last := Nat.not_le_of_lt beyond
    simp [verifyLoop, beyond, notWithin]
  · have within : id ≤ last := Nat.le_of_not_lt beyond
    rw [verifyLoop, if_neg beyond]
    simp only [beyond, false_and, false_or, within, true_and]
    cases present : presentEntries db id with
    | none =>
      have unchecked : Checked aead db id := by
        intro entry found
        rw [present] at found
        cases found
      cases acked : ackedDigests db id with
      | none => simp [recorded, present, acked]
      | some blob => simp [recorded, present, acked, unchecked]
    | some entry =>
      have record : recorded db id = some entry := by simp [recorded, present]
      simp only [record, Option.some.injEq, exists_eq_left', Checked, present,
        forall_eq']
      cases found : db.metaBucket.get? (prevTag ++ putUint64 id) with
      | none => simp
      | some prevHash =>
        by_cases width : prevHash.length = 32
        · cases opened : decryptEntry aead id prevHash entry with
          | error error => simp [width, opened]
          | ok payload => simp [width, opened]
        · simp [width]

theorem verifyLoop_overflow {rounds id : Nat} {tip out : Bytes} (small : id < 2 ^ 64) :
    verifyLoop sha aead db (2 ^ 64 - 1) rounds id tip ≠ some (.ok out) := by
  induction rounds generalizing id tip with
  | zero => simp [verifyLoop]
  | succ rounds ih =>
    intro passed
    rcases verifyLoop_succ_eq_ok.mp passed with ⟨beyond, -⟩ | ⟨-, blob, -, -, later⟩
    · omega
    · exact ih (Nat.mod_lt _ (by decide)) later

theorem verifyLoop_sound {last rounds id : Nat} {tip out : Bytes} (bound : last < 2 ^ 64 - 1)
    (start : id ≤ last + 1)
    (passed : verifyLoop sha aead db last rounds id tip = some (.ok out)) :
    ∃ blobs : List Bytes, id + blobs.length = last + 1 ∧
      (∀ i (h : i < blobs.length), recorded db (id + i) = some blobs[i]) ∧
      chainTip (computeChainTip sha) id tip blobs = out := by
  induction rounds generalizing id tip with
  | zero => cases passed
  | succ rounds ih =>
    rcases verifyLoop_succ_eq_ok.mp passed with ⟨beyond, rfl⟩ | ⟨within, blob, record, -, later⟩
    · refine ⟨[], ?_, ?_, rfl⟩
      · simp only [List.length_nil]
        omega
      · intro i h
        cases h
    · rw [Nat.mod_eq_of_lt (by omega)] at later
      obtain ⟨blobs, count, records, tips⟩ := ih (by omega) later
      refine ⟨blob :: blobs, ?_, ?_, tips⟩
      · simp only [List.length_cons]
        omega
      · intro i h
        cases i with
        | zero => exact record
        | succ i =>
          have found := records i (by simpa using h)
          rw [Nat.add_right_comm] at found
          exact found

def records (db : Db) : List Bytes :=
  (List.range (lastID db)).map (fun i => (recorded db (1 + i)).getD [])

def hashed (sha : Sha256) (db : Db) : List Bytes :=
  (chainInputs (computeChainTip sha) 1 zeroHash (records db)).map
    (fun input => chainInput input.1 input.2.1 input.2.2)

theorem records_eq {blobs : List Bytes} (count : blobs.length = lastID db)
    (found : ∀ i (h : i < blobs.length), recorded db (1 + i) = some blobs[i]) :
    records db = blobs := by
  apply List.ext_getElem
  · simp [records, count]
  · intro i _ inside
    simp [records, found i inside]

/-- `Verify` passes on an empty history, or when every id is recorded and the
digests along the records end in the stored tip. -/
theorem passes_sound (passes : Passes sha aead db) :
    (∀ i, i < lastID db → (recorded db (1 + i)).isSome) ∧ lastID db < 2 ^ 64 - 1 ∧
      (0 < lastID db → ∀ tip, db.metaBucket.get? chainTipKey = some tip → tip.length = 32 →
        chainTip (computeChainTip sha) 1 zeroHash (records db) = tip) := by
  obtain ⟨rounds, passed⟩ := passes
  have fits : lastID db < 2 ^ 64 := by
    unfold lastID
    split
    · decide
    · split
      · next width => exact uint64_lt width
      · decide
  by_cases none : lastID db = 0
  · simp [none]
  · rw [verify, if_neg none] at passed
    cases walk : verifyLoop sha aead db (lastID db) rounds 1 zeroHash with
    | none => simp [walk] at passed
    | some result =>
      cases result with
      | error error => simp [walk] at passed
      | ok out =>
        have bound : lastID db < 2 ^ 64 - 1 := by
          by_contra largest
          have all : lastID db = 2 ^ 64 - 1 := by omega
          rw [all] at walk
          exact verifyLoop_overflow (by decide) walk
        obtain ⟨blobs, count, found, tips⟩ := verifyLoop_sound bound (by omega) walk
        have length : blobs.length = lastID db := by omega
        have same := records_eq length found
        refine ⟨?_, bound, ?_⟩
        · intro i small
          rw [found i (by omega)]
          rfl
        · intro _ tip stored width
          simp only [walk, checkTip, stored, width, true_and, Option.some.injEq] at passed
          by_contra different
          rw [same, tips] at different
          rw [if_pos different] at passed
          cases passed

theorem chainInputs_shape {position : Nat} {tip : Bytes} {blobs : List Bytes}
    (width : tip.length = 32) :
    ∀ input ∈ chainInputs (computeChainTip sha) position tip blobs,
      input.1 < position + blobs.length ∧ input.2.2.length = 32 := by
  induction blobs generalizing position tip with
  | nil => simp [chainInputs]
  | cons blob rest ih =>
    intro input member
    rw [chainInputs, List.mem_cons] at member
    rw [List.length_cons]
    rcases member with rfl | later
    · exact ⟨by dsimp only; omega, width⟩
    · have shape := ih (length_computeChainTip sha position blob tip) input later
      exact ⟨by omega, shape.2⟩

theorem records_determined {other : Db} (count : lastID db = lastID other)
    (bound : lastID db < 2 ^ 64 - 1)
    (collisionFree : ∀ a ∈ hashed sha db, ∀ b ∈ hashed sha other, sha.sum a = sha.sum b → a = b)
    (same : chainTip (computeChainTip sha) 1 zeroHash (records db) =
      chainTip (computeChainTip sha) 1 zeroHash (records other)) :
    records db = records other := by
  have left : (records db).length = lastID db := by simp [records]
  have right : (records other).length = lastID other := by simp [records]
  apply chainTip_injective (computeChainTip sha) (by rw [left, right, count]) _ same
  intro a inside b within digests
  obtain ⟨firstSmall, firstWidth⟩ := chainInputs_shape (by rfl) a inside
  obtain ⟨secondSmall, secondWidth⟩ := chainInputs_shape (by rfl) b within
  have strings := collisionFree _ (List.mem_map.mpr ⟨a, inside, rfl⟩) _
    (List.mem_map.mpr ⟨b, within, rfl⟩) digests
  obtain ⟨ids, blobs, tips⟩ := chainInput_injective (by omega) (by omega)
    (firstWidth.trans secondWidth.symm) strings
  exact Prod.ext ids (Prod.ext blobs tips)

/-- Two contents that pass `Verify` under one key with the same `last_id` and the
same `chain_tip` have the same blob recorded for every id. -/
theorem verify_determines_records (sha : Sha256) (aead : Aead) (db other : Db)
    (lastIDBytes tip : Bytes) (idWidth : lastIDBytes.length = 8) (tipWidth : tip.length = 32)
    (firstID : db.metaBucket.get? lastIDKey = some lastIDBytes)
    (secondID : other.metaBucket.get? lastIDKey = some lastIDBytes)
    (firstTip : db.metaBucket.get? chainTipKey = some tip)
    (secondTip : other.metaBucket.get? chainTipKey = some tip)
    (collisionFree : ∀ a ∈ hashed sha db, ∀ b ∈ hashed sha other, sha.sum a = sha.sum b → a = b)
    (passes : Passes sha aead db) (passesToo : Passes sha aead other) :
    ∀ id, 1 ≤ id → id ≤ uint64 lastIDBytes →
      ∃ blob, recorded db id = some blob ∧ recorded other id = some blob := by
  have first : lastID db = uint64 lastIDBytes := by simp [lastID, firstID, idWidth]
  have second : lastID other = uint64 lastIDBytes := by simp [lastID, secondID, idWidth]
  obtain ⟨found, bound, tips⟩ := passes_sound passes
  obtain ⟨foundToo, -, tipsToo⟩ := passes_sound passesToo
  intro id low high
  have some : 0 < lastID db := by omega
  have same : records db = records other := by
    apply records_determined (first.trans second.symm) bound collisionFree
    rw [tips some tip firstTip tipWidth, tipsToo (by omega) tip secondTip tipWidth]
  obtain ⟨blob, record⟩ := Option.isSome_iff_exists.mp (found (id - 1) (by omega))
  obtain ⟨blobToo, recordToo⟩ := Option.isSome_iff_exists.mp (foundToo (id - 1) (by omega))
  have entry : (records db)[id - 1]? = (records other)[id - 1]? := by rw [same]
  have position : 1 + (id - 1) = id := by omega
  have small : id - 1 < lastID db := by omega
  have smallToo : id - 1 < lastID other := by omega
  simp only [records, List.getElem?_map, List.getElem?_range small,
    List.getElem?_range smallToo, Option.map_some, record, recordToo, Option.getD_some,
    Option.some.injEq] at entry
  rw [position] at record recordToo
  exact ⟨blob, record, by rw [recordToo, entry]⟩

theorem verify_determines_record_of_acked :
    let db := (append .head .plain ⟨default, someCaps, 1⟩ zeroNonce [1]).1.db
    ∃ blob, recorded db 1 = some blob ∧ recorded (ack db 1) 1 = some blob :=
  verify_determines_records .head .plain
    (append .head .plain ⟨default, someCaps, 1⟩ zeroNonce [1]).1.db
    (ack (append .head .plain ⟨default, someCaps, 1⟩ zeroNonce [1]).1.db 1)
    (putUint64 1) _ (by decide) (by decide) (by decide) (by decide) rfl (by decide) (by decide)
    ⟨3, by decide⟩ ⟨3, by decide⟩ 1 (by decide) (by decide)

/-- A pending entry that becomes an acked one, and another record behind a present entry. -/
theorem lost_entry_passes :
    let db := (append .head .plain ⟨default, someCaps, 1⟩ zeroNonce [1]).1.db
    let forged := fun record : Bytes =>
      { db with metaBucket := db.metaBucket.put (ackedTag ++ putUint64 1) record }
    (∀ other ∈ [db, ack db 1, forged [7], forged [8]], Passes .head .plain other ∧
        other.metaBucket.get? lastIDKey = db.metaBucket.get? lastIDKey ∧
        other.metaBucket.get? chainTipKey = db.metaBucket.get? chainTipKey) ∧
      (db.outbox.get? (putUint64 1)).isSome ∧ (ack db 1).outbox.get? (putUint64 1) = none ∧
      (forged [7]).metaBucket.get? (ackedTag ++ putUint64 1) ≠
        (forged [8]).metaBucket.get? (ackedTag ++ putUint64 1) := by
  refine ⟨List.forall_mem_cons.mpr ⟨⟨⟨3, by decide⟩, rfl, rfl⟩, List.forall_mem_cons.mpr
    ⟨⟨⟨3, by decide⟩, by decide⟩, List.forall_mem_cons.mpr ⟨⟨⟨3, by decide⟩, by decide⟩,
      List.forall_mem_singleton.mpr ⟨⟨3, by decide⟩, by decide⟩⟩⟩⟩, by decide⟩

end HlHelper.Outbox
