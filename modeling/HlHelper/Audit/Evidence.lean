import HlHelper.Audit.Canonical
import HlHelper.Audit.InMemory

/-! Two verified lists of entries with one head hash hold the same entries, and two of one
checkpoint the same hashes of entries. -/

namespace HlHelper.Audit

open HlHelper.Library

def AuditEntry.canonicalBytes (entry : AuditEntry) : Bytes :=
  canonicalEntryBytes entry.sequence entry.timestamp entry.actor entry.action entry.subject
    entry.payload entry.prevHash

/-- Entries that say the same; payloads are compared as `dict`s. -/
structure AuditEntry.Same (first second : AuditEntry) : Prop where
  sequence : first.sequence = second.sequence
  timestamp : first.timestamp = second.timestamp
  actor : first.actor = second.actor
  action : first.action = second.action
  subject : first.subject = second.subject
  payload : first.payload.Same second.payload
  prevHash : first.prevHash = second.prevHash
  entryHash : first.entryHash = second.entryHash

variable {sha : Sha256}

theorem verifyEntries_eq_ok {i : Nat} {previous : Bytes} {entries : List AuditEntry} :
    verifyEntries sha i previous entries = .ok () ↔
      Linked AuditEntry.entryHash AuditEntry.prevHash previous entries ∧
        ∀ entry ∈ entries, entry.entryHash = sha.sum entry.canonicalBytes := by
  induction entries generalizing i previous with
  | nil => simp [verifyEntries, Linked]
  | cons entry rest ih =>
    rw [verifyEntries, Linked, List.forall_mem_cons]
    split
    · next unlinked => simp [unlinked]
    · next linked =>
      split
      · next edited =>
        have other : entry.entryHash ≠ sha.sum entry.canonicalBytes :=
          fun same => edited same.symm
        simp [other]
      · next hashed =>
        have same : entry.entryHash = sha.sum entry.canonicalBytes :=
          (not_not.mp hashed).symm
        rw [ih]
        simp [not_not.mp linked, same]

theorem same_of_canonicalBytes {first second : AuditEntry} (printed : first.payload.FloatsPrinted)
    (printedToo : second.payload.FloatsPrinted)
    (hashed : first.entryHash = sha.sum first.canonicalBytes)
    (hashedToo : second.entryHash = sha.sum second.canonicalBytes)
    (bytes : first.canonicalBytes = second.canonicalBytes) : first.Same second := by
  obtain ⟨sequence, timestamp, actor, action, subject, payload, prevHash⟩ :=
    canonicalEntryBytes_injective printed printedToo bytes
  exact ⟨sequence, timestamp, actor, action, subject, payload, prevHash, by
    rw [hashed, hashedToo, bytes]⟩

/-- Lists that both pass the verification and have the same head hash are equal entry by
entry, unless two hashed entries collide or one hashes to the genesis. -/
theorem verified_lists_same (sha : Sha256) (first second : List AuditEntry)
    (printed : ∀ entry ∈ first ++ second, entry.payload.FloatsPrinted)
    (collisionFree : ∀ a ∈ first, ∀ b ∈ second,
      sha.sum a.canonicalBytes = sha.sum b.canonicalBytes → a.canonicalBytes = b.canonicalBytes)
    (nonzero : ∀ entry ∈ first ++ second, sha.sum entry.canonicalBytes ≠ genesisHash)
    (passes : verifyEntries sha 0 genesisHash first = .ok ())
    (passesToo : verifyEntries sha 0 genesisHash second = .ok ())
    (heads : headHash genesisHash first = headHash genesisHash second) :
    List.Forall₂ AuditEntry.Same first second := by
  obtain ⟨linked, hashed⟩ := verifyEntries_eq_ok.mp passes
  obtain ⟨linkedToo, hashedToo⟩ := verifyEntries_eq_ok.mp passesToo
  refine linked_determined linked linkedToo ?_ ?_ ?_ heads
  · intro a inside b insideToo digests
    rw [hashed a inside, hashedToo b insideToo] at digests
    have same := same_of_canonicalBytes (printed a (List.mem_append_left _ inside))
      (printed b (List.mem_append_right _ insideToo)) (hashed a inside) (hashedToo b insideToo)
      (collisionFree a inside b insideToo digests)
    exact ⟨same, same.prevHash⟩
  · intro a inside
    rw [hashed a inside]
    exact nonzero a (List.mem_append_left _ inside)
  · intro b inside
    rw [hashedToo b inside]
    exact nonzero b (List.mem_append_right _ inside)

/-- An entry whose payload has its keys in one order or the other. -/
def reordered (swap : Bool) : AuditEntry :=
  let fields : List (String × Value) := [("risk", .str "high"), ("load", .float "0.5")]
  nextEntry .head none
    ⟨"operator", "task.created", none, .obj (if swap then fields.reverse else fields),
      ⟨2026, 1, 2, 3, 4, 5, 0⟩⟩

theorem reordered_verifies (swap : Bool) :
    verifyEntries .head 0 genesisHash [reordered swap] = .ok () := by
  refine verifyEntries_eq_ok.mpr ⟨⟨rfl, trivial⟩, fun entry member => ?_⟩
  rw [List.mem_singleton.mp member]
  rfl

theorem reordered_payloads_same :
    List.Forall₂ AuditEntry.Same [reordered false] [reordered true] := by
  have half : FloatText "0.5" := by decide
  have bytes : (reordered false).canonicalBytes = (reordered true).canonicalBytes := by
    decide +kernel
  have nonzero : Sha256.head.sum (reordered true).canonicalBytes ≠ genesisHash := by
    decide +kernel
  apply verified_lists_same .head
  · intro entry member
    rcases List.mem_pair.mp member with rfl | rfl
    · exact ⟨trivial, half, trivial⟩
    · exact ⟨half, trivial, trivial⟩
  · intro a member b memberToo _
    rw [List.mem_singleton.mp member, List.mem_singleton.mp memberToo, bytes]
  · intro entry member
    rcases List.mem_pair.mp member with rfl | rfl
    · rw [bytes]
      exact nonzero
    · exact nonzero
  · exact reordered_verifies false
  · exact reordered_verifies true
  · exact congrArg Sha256.head.sum bytes

section Roots

/-- The strings that `merkle_root` hashes. -/
def merkleInputs (sha : Sha256) (leaves : List Bytes) : List Bytes :=
  leaves.map (0 :: ·) ++
    (treePairs (parent sha) leaves.length (leaves.map fun leaf => sha.sum (0 :: leaf))).map
      fun pair => 1 :: (pair.1 ++ pair.2)

/-- The hashes of the entries that a checkpoint covers. -/
def AuditChain.covered (chain : AuditChain) (checkpoint : Checkpoint) : List Bytes :=
  (sliceTo chain.entries (checkpoint.sequence + 1)).map AuditEntry.entryHash

variable {backend : SigningBackend} {chain other : AuditChain} {checkpoint second : Checkpoint}

theorem length_leaf {leaves : List Bytes} :
    ∀ digest ∈ leaves.map fun leaf => sha.sum (0 :: leaf), digest.length = 32 := by
  intro digest inside
  obtain ⟨leaf, -, rfl⟩ := List.mem_map.mp inside
  exact sha.length_sum _

theorem pairs_apart {leaves others : List Bytes}
    (collisionFree : ∀ a ∈ merkleInputs sha leaves, ∀ b ∈ merkleInputs sha others,
      sha.sum a = sha.sum b → a = b) :
    ∀ a ∈ treePairs (parent sha) leaves.length (leaves.map fun leaf => sha.sum (0 :: leaf)),
    ∀ b ∈ treePairs (parent sha) others.length (others.map fun leaf => sha.sum (0 :: leaf)),
      parent sha a.1 a.2 = parent sha b.1 b.2 → a = b := by
  intro a inside b within digests
  have parents : ∀ left right, (parent sha left right).length = 32 := fun _ _ => sha.length_sum _
  have wide := (forall_treePairs parents length_leaf a inside).1
  have wideToo := (forall_treePairs parents length_leaf b within).1
  have strings := collisionFree _ (List.mem_append_right _ (List.mem_map.mpr ⟨a, inside, rfl⟩))
    _ (List.mem_append_right _ (List.mem_map.mpr ⟨b, within, rfl⟩)) digests
  have halves := List.append_inj (List.cons.inj strings).2 (wide.trans wideToo.symm)
  exact Prod.ext halves.1 halves.2

theorem merkleRoot_injective {leaves others : List Bytes} (width : leaves.length = others.length)
    (collisionFree : ∀ a ∈ merkleInputs sha leaves, ∀ b ∈ merkleInputs sha others,
      sha.sum a = sha.sum b → a = b)
    (same : merkleRoot sha leaves = merkleRoot sha others) : leaves = others := by
  have apart := pairs_apart collisionFree
  rw [merkleRoot, merkleRoot, climb_eq, climb_eq, ← width] at same
  rw [← width] at apart
  have digests := treeRoot_injective (by simpa using width) (by simp) apart same
  refine List.ext_getElem width fun i inside within => ?_
  have hashed : sha.sum (0 :: leaves[i]) = sha.sum (0 :: others[i]) := by
    simpa [inside, within] using congrArg (·[i]?) digests
  have strings := collisionFree _
    (List.mem_append_left _ (List.mem_map.mpr ⟨_, List.getElem_mem inside, rfl⟩)) _
    (List.mem_append_left _ (List.mem_map.mpr ⟨_, List.getElem_mem within, rfl⟩)) hashed
  exact (List.cons.inj strings).2

theorem good_of_verify (verified : chain.verify sha backend = .ok ())
    (inside : checkpoint ∈ chain.checkpoints) :
    goodCheckpoint sha backend chain.entries checkpoint.content := by
  have checked := @judged_verifyCheckpoints sha backend chain.entries 0 chain.checkpoints
  rw [AuditChain.verify] at verified
  cases entries : AuditChain.verifyEntries sha 0 genesisHash chain.entries with
  | error found =>
    rw [entries] at verified
    cases verified
  | ok _ =>
    rw [entries] at verified
    have accepted : AuditChain.verifyCheckpoints sha backend chain.entries 0 chain.checkpoints =
        .ok () := verified
    rw [accepted] at checked
    rcases checked with ⟨_, all⟩ | ⟨_, refused | ⟨large, _⟩⟩
    · exact all _ (List.mem_map.mpr ⟨checkpoint, inside, rfl⟩)
    · cases refused
    · cases large

theorem length_covered (fits : Fits checkpoint.sequence)
    (inside : checkpoint.sequence < chain.entries.length) :
    (chain.covered checkpoint).length = checkpoint.sequence.toNat + 1 := by
  unfold AuditChain.covered
  rw [sliceTo_of_fits fits, List.length_map, List.length_take]
  unfold Fits at fits
  omega

theorem signedMessage_inj {first last : Int} {root tip : Bytes} (fits : Fits first)
    (fitsToo : Fits last) (same : signedMessage first root = signedMessage last tip) :
    first = last ∧ root = tip := by
  obtain ⟨positive, small⟩ := fits
  obtain ⟨positiveToo, smallToo⟩ := fitsToo
  obtain ⟨sequences, roots⟩ := List.append_inj same (by simp)
  have read := congrArg BigEndian.get sequences
  rw [BigEndian.get_put_of_lt (by omega), BigEndian.get_put_of_lt (by omega)] at read
  exact ⟨by omega, roots⟩

theorem covered_eq (verified : chain.verify sha backend = .ok ())
    (verifiedToo : other.verify sha backend = .ok ()) (inside : checkpoint ∈ chain.checkpoints)
    (within : second ∈ other.checkpoints)
    (collisionFree : ∀ a ∈ merkleInputs sha (chain.covered checkpoint),
      ∀ b ∈ merkleInputs sha (other.covered second), sha.sum a = sha.sum b → a = b)
    (same : signedMessage checkpoint.sequence checkpoint.merkleRoot =
      signedMessage second.sequence second.merkleRoot) :
    chain.covered checkpoint = other.covered second := by
  obtain ⟨long, root, fits, -⟩ := good_of_verify verified inside
  obtain ⟨longToo, rootToo, fitsToo, -⟩ := good_of_verify verifiedToo within
  obtain ⟨sequences, roots⟩ := signedMessage_inj fits fitsToo same
  apply merkleRoot_injective
  · rw [length_covered fits long, length_covered fitsToo longToo]
    exact congrArg (·.toNat + 1) sequences
  · exact collisionFree
  · calc
      merkleRoot sha (chain.covered checkpoint) = checkpoint.merkleRoot := root
      _ = second.merkleRoot := roots
      _ = merkleRoot sha (other.covered second) := rootToo.symm

end Roots

/-- Without a collision a root binds leaves of one number. In two verified chains, checkpoints of
one signed message cover entries of the same hashes; so do those of one signature, when it verifies
for no second message. -/
theorem checkpoint_binds_entries (sha : Sha256) (backend : SigningBackend) :
    (∀ leaves others : List Bytes, leaves.length = others.length →
      (∀ a ∈ merkleInputs sha leaves, ∀ b ∈ merkleInputs sha others,
        sha.sum a = sha.sum b → a = b) →
      merkleRoot sha leaves = merkleRoot sha others → leaves = others) ∧
    ∀ chain other : AuditChain, ∀ checkpoint ∈ chain.checkpoints, ∀ second ∈ other.checkpoints,
      chain.verify sha backend = .ok () → other.verify sha backend = .ok () →
      (∀ a ∈ merkleInputs sha (chain.covered checkpoint),
        ∀ b ∈ merkleInputs sha (other.covered second), sha.sum a = sha.sum b → a = b) →
      (signedMessage checkpoint.sequence checkpoint.merkleRoot =
          signedMessage second.sequence second.merkleRoot →
        chain.covered checkpoint = other.covered second) ∧
      (checkpoint.signature = second.signature → checkpoint.signingPubkey = second.signingPubkey →
        (∀ message twin,
          backend.verifyWithPubkey message checkpoint.signature checkpoint.signingPubkey = true →
          backend.verifyWithPubkey twin checkpoint.signature checkpoint.signingPubkey = true →
          message = twin) →
        chain.covered checkpoint = other.covered second) := by
  refine ⟨fun _ _ => merkleRoot_injective, ?_⟩
  intro chain other checkpoint inside second within verified verifiedToo collisionFree
  have bound := covered_eq verified verifiedToo inside within collisionFree
  refine ⟨bound, fun signatures keys single => bound (single _ _ ?_ ?_)⟩
  · exact (good_of_verify verified inside).2.2.2
  · rw [signatures, keys]
    exact (good_of_verify verifiedToo within).2.2.2

def firstCheckpoint : Checkpoint :=
  AuditChain.checkpointOver .head plainBackend [] default [misplaced 0 genesisHash]

/-- A chain of one entry or of two, with a checkpoint over the first. -/
def grown (longer : Bool) : AuditChain :=
  let first := misplaced 0 genesisHash
  ⟨if longer then [first, misplaced 1 first.entryHash] else [first], [firstCheckpoint]⟩

theorem first_leaf_and_checkpoint_bound :
    merkleRoot .head [[1], [2], [3]] ≠ merkleRoot .head [[4], [2], [3]] ∧
      (grown false).covered firstCheckpoint = (grown true).covered firstCheckpoint := by
  obtain ⟨leaves, chains⟩ := checkpoint_binds_entries .head plainBackend
  constructor
  · intro same
    have equal := leaves [[1], [2], [3]] [[4], [2], [3]] rfl (by decide +kernel) same
    exact absurd equal (by decide)
  · refine (chains (grown false) (grown true) _ List.mem_cons_self _ List.mem_cons_self ?_ ?_
      ?_).1 rfl
    · decide +kernel
    · decide +kernel
    · intro a inside b within _
      have one : ∀ string ∈ merkleInputs .head ((grown false).covered firstCheckpoint),
          string = 0 :: (misplaced 0 genesisHash).entryHash := by decide +kernel
      have same : merkleInputs .head ((grown true).covered firstCheckpoint) =
          merkleInputs .head ((grown false).covered firstCheckpoint) := by decide +kernel
      rw [one a inside, one b (same ▸ within)]

end HlHelper.Audit
