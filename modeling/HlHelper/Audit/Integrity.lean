import HlHelper.Audit.SqlChain

/-! The committed audit log is one chain whatever the schedule of the sessions. -/

namespace HlHelper.Audit

open HlHelper.Library

section Chained

variable (sha : Sha256)

/-- The entries continue a chain of `n` entries that ends in the given hash. -/
def Chained : Int → Bytes → List AuditEntry → Prop
  | _, _, [] => True
  | n, previous, entry :: rest =>
    (entry.sequence = n ∧ entry.prevHash = previous ∧ entry.entryHash = entryHash sha entry) ∧
      Chained (n + 1) entry.entryHash rest

def headHash (previous : Bytes) (entries : List AuditEntry) : Bytes :=
  (entries.getLast?.map AuditEntry.entryHash).getD previous

variable {sha} {n : Int} {previous : Bytes} {entries more : List AuditEntry}

theorem headHash_cons (entry : AuditEntry) :
    headHash previous (entry :: entries) = headHash entry.entryHash entries := by
  cases entries with
  | nil => rfl
  | cons other rest => simp [headHash, List.getLast?_cons]

theorem chained_append :
    Chained sha n previous (entries ++ more) ↔
      Chained sha n previous entries ∧
        Chained sha (n + entries.length) (headHash previous entries) more := by
  induction entries generalizing n previous with
  | nil => simp [Chained, headHash]
  | cons entry rest ih =>
    have shift : n + 1 + rest.length = n + ↑(rest.length + 1) := by omega
    rw [List.cons_append, Chained, ih, Chained, headHash_cons, List.length_cons, shift]
    exact and_assoc.symm

theorem Chained.sequences (chained : Chained sha n previous entries) :
    entries.map AuditEntry.sequence =
      (List.range entries.length).map fun i : Nat => n + (i : Int) := by
  induction entries generalizing n previous with
  | nil => rfl
  | cons entry rest ih =>
    rw [List.map_cons, List.length_cons, List.range_succ_eq_map, List.map_cons, List.map_map,
      chained.1.1, ih chained.2]
    simp [Function.comp_def, Int.add_assoc, Int.add_comm 1]

theorem Chained.increasing (chained : Chained sha n previous entries) :
    entries.Pairwise (fun first second => first.sequence < second.sequence) := by
  have ordered : (entries.map AuditEntry.sequence).Pairwise (fun a b => a < b) := by
    rw [chained.sequences]
    exact List.pairwise_lt_range.map _ fun a b less => by omega
  exact List.pairwise_map.mp ordered

theorem Chained.mem_sequences (chained : Chained sha n previous entries) {sequence : Int} :
    sequence ∈ entries.map AuditEntry.sequence ↔ n ≤ sequence ∧ sequence < n + entries.length := by
  rw [chained.sequences, List.mem_map]
  constructor
  · rintro ⟨i, inside, rfl⟩
    have bound := List.mem_range.mp inside
    omega
  · intro ⟨lower, upper⟩
    exact ⟨(sequence - n).toNat, List.mem_range.mpr (by omega), by omega⟩

theorem latest_eq_getLast?
    (increasing : entries.Pairwise (fun first second => first.sequence < second.sequence)) :
    latest entries = entries.getLast? := by
  rcases List.eq_nil_or_concat entries with rfl | ⟨front, last, rfl⟩
  · rfl
  · rw [List.concat_eq_append] at increasing ⊢
    rw [latest, List.argmax_concat, ← latest, List.getLast?_concat]
    cases newest : latest front with
    | none => rfl
    | some entry =>
      have less := (List.pairwise_append.mp increasing).2.2 entry (List.argmax_mem newest) last
        List.mem_cons_self
      simp [less]

theorem ascending_eq
    (increasing : entries.Pairwise (fun first second => first.sequence < second.sequence)) :
    ascending entries = entries :=
  (increasing.imp Int.le_of_lt).insertionSort_eq

theorem Chained.nextEntry (chained : Chained sha 0 genesisHash entries) (args : Args) :
    (nextEntry sha (latest entries) args).sequence = entries.length ∧
      Chained sha 0 genesisHash (entries ++ [nextEntry sha (latest entries) args]) := by
  have sequence : (Audit.nextEntry sha (latest entries) args).sequence = entries.length := by
    rw [latest_eq_getLast? chained.increasing]
    rcases List.eq_nil_or_concat entries with rfl | ⟨front, last, rfl⟩
    · rfl
    · rw [List.concat_eq_append] at chained ⊢
      have tail := (chained_append.mp chained).2
      simp [Audit.nextEntry, tail.1.1]
  refine ⟨sequence, chained_append.mpr ⟨chained, ⟨?_, ?_, ?_⟩, trivial⟩⟩
  · rw [sequence, Int.zero_add]
  · rw [latest_eq_getLast? chained.increasing]
    rfl
  · rfl

end Chained

/-- The checkpoint covers the entries up to its sequence, and its signature is good. -/
structure Covers (sha : Sha256) (backend : SigningBackend) (entries : List AuditEntry)
    (checkpoint : AuditCheckpoint) : Prop where
  fits : Fits checkpoint.coversSequence
  inside : checkpoint.coversSequence < entries.length
  root : checkpoint.merkleRoot = merkleRoot sha
    ((entries.take (checkpoint.coversSequence.toNat + 1)).map AuditEntry.entryHash)
  signed : backend.verifyWithPubkey
    (signedMessage checkpoint.coversSequence checkpoint.merkleRoot) checkpoint.signature
    checkpoint.signingPubkey = true

variable {sha : Sha256} {backend : SigningBackend} {interval : Int}

variable {entries : List AuditEntry}

theorem Covers.append {checkpoint : AuditCheckpoint}
    (covers : Covers sha backend entries checkpoint) (more : List AuditEntry) :
    Covers sha backend (entries ++ more) checkpoint where
  __ := covers
  inside := by
    have inside := covers.inside
    rw [List.length_append]
    omega
  root := by
    have inside := covers.inside
    have fits := covers.fits
    unfold Fits at fits
    rw [List.take_append_of_le_length (by omega)]
    exact covers.root

theorem covers_checkpointOf {head : AuditEntry} (chained : Chained sha 0 genesisHash entries)
    (newest : latest entries = some head) (fits : Fits head.sequence) (pubkey : Bytes)
    (time : Datetime) :
    Covers sha backend entries (checkpointOf sha backend pubkey time entries head) := by
  rw [latest_eq_getLast? chained.increasing] at newest
  obtain ⟨front, rfl⟩ := List.getLast?_eq_some_iff.mp newest
  have tail := (chained_append.mp chained).2
  have sequence : head.sequence = front.length := by
    rw [tail.1.1, Int.zero_add]
  refine ⟨fits, ?_, ?_, ?_⟩
  · simp [checkpointOf, sequence]
  · have whole : (front ++ [head]).take (head.sequence.toNat + 1) = front ++ [head] := by
      apply List.take_of_length_le
      simp [sequence]
    simp only [checkpointOf, whole, ascending_eq chained.increasing]
  · exact backend.verify_sign pubkey _

section World

variable {ω : Type} {w next : World ω} {i j : SessionId}

theorem own_discard (w : World ω) (i j : SessionId) :
    (w.discard i).own j = if j = i then [] else w.own j := by
  simp only [World.own, World.discard, List.filter_filter]
  split
  · next same =>
    subst same
    rw [List.filter_eq_nil_iff.mpr (by simp), List.map_nil]
  · next different =>
    congr 1
    apply List.filter_congr
    intro write _
    by_cases mine : write.1 = j
    · simp [mine, different]
    · simp [mine]

theorem ownEntries_discard (w : World ω) (i j : SessionId) :
    (w.discard i).ownEntries j = if j = i then [] else w.ownEntries j := by
  rw [World.ownEntries, own_discard]
  split <;> rfl

theorem ownEntries_add (w : World ω) (i j : SessionId) (write : Write ω) :
    (w.add i write).ownEntries j =
      w.ownEntries j ++ if j = i then write.asEntry.toList else [] := by
  rw [World.ownEntries, World.ownEntries, World.own, World.own, World.add, List.filter_append,
    List.map_append, List.filterMap_append]
  congr 1
  by_cases same : j = i
  · subst same
    cases found : write.asEntry <;> simp [found]
  · have other : i ≠ j := fun equal => same equal.symm
    simp [same, other]

theorem uncommitted_add (w : World ω) (i : SessionId) (write : Write ω) :
    (w.add i write).uncommitted = w.uncommitted ++ write.asEntry.toList := by
  rw [World.uncommitted, World.uncommitted, World.add, List.map_append, List.filterMap_append]
  cases found : write.asEntry <;> simp [found]

theorem filterMap_filter_of_kept {α β : Type} {f : α → Option β} {p : α → Bool} {l : List α}
    (kept : ∀ x ∈ l, f x ≠ none → p x = true) : (l.filter p).filterMap f = l.filterMap f := by
  rw [List.filterMap_filter]
  apply List.filterMap_congr
  intro x member
  cases value : f x with
  | none => simp
  | some y => simp [kept x member (by simp [value])]

def Holder (w : World ω) (owner : SessionId) : Prop :=
  ∀ write ∈ w.pending, write.2.asEntry ≠ none → write.1 = owner

theorem uncommitted_eq (w : World ω) :
    w.uncommitted = w.pending.filterMap (fun write => write.2.asEntry) := by
  rw [World.uncommitted, List.filterMap_map]
  rfl

theorem ownEntries_eq (w : World ω) (i : SessionId) :
    w.ownEntries i =
      (w.pending.filter (fun write => write.1 = i)).filterMap (fun write => write.2.asEntry) := by
  rw [World.ownEntries, World.own, List.filterMap_map]
  rfl

variable {owner : SessionId}

theorem Holder.own (holder : Holder w owner) : w.ownEntries owner = w.uncommitted := by
  rw [ownEntries_eq, uncommitted_eq]
  apply filterMap_filter_of_kept
  intro write member some
  simpa using holder write member some

theorem Holder.other (holder : Holder w owner) (different : j ≠ owner) : w.ownEntries j = [] := by
  rw [ownEntries_eq, List.filterMap_eq_nil_iff]
  intro write member
  obtain ⟨inside, mine⟩ := List.mem_filter.mp member
  by_contra some
  have same : write.1 = j := by simpa using mine
  exact different (same.symm.trans (holder write inside some))

theorem Holder.eq_uncommitted (holder : Holder w owner) (some : w.ownEntries i ≠ []) :
    w.ownEntries i = w.uncommitted := by
  by_cases mine : i = owner
  · rw [mine]
    exact holder.own
  · exact absurd (holder.other mine) some

theorem holder_of_uncommitted_nil (none : w.uncommitted = []) (owner : SessionId) :
    Holder w owner := by
  rw [uncommitted_eq, List.filterMap_eq_nil_iff] at none
  intro write member some
  exact absurd (none write member) some

theorem Holder.of_own (holder : Holder w owner) (whole : w.ownEntries i = w.uncommitted) :
    Holder w i := by
  by_cases mine : i = owner
  · rw [mine]
    exact holder
  · exact holder_of_uncommitted_nil (whole.symm.trans (holder.other mine)) i

theorem Holder.others_empty (holder : Holder w owner) (some : w.ownEntries i ≠ [])
    (different : j ≠ i) : w.ownEntries j = [] := by
  by_cases mine : i = owner
  · subst mine
    exact holder.other different
  · exact absurd (holder.other mine) some

theorem Holder.discard (holder : Holder w owner) (i : SessionId) : Holder (w.discard i) owner := by
  intro write member
  exact holder write (List.mem_filter.mp member).1

theorem uncommitted_discard (holder : Holder w owner) (i : SessionId) :
    (w.discard i).uncommitted = if w.ownEntries i = [] then w.uncommitted else [] := by
  by_cases mine : i = owner
  · subst mine
    rw [← (holder.discard i).own, ownEntries_discard, if_pos rfl, holder.own]
    split
    · next empty => exact empty.symm
    · rfl
  · rw [if_pos (holder.other mine), ← (holder.discard i).own, ownEntries_discard,
      if_neg (Ne.symm mine), holder.own]

/-- The committed entries with the uncommitted ones form one chain; a session that
holds entries has seen all committed ones; what a session is about to insert
follows what it has read; checkpoints cover the entries before them. -/
structure Sound (sha : Sha256) (backend : SigningBackend) (w : World ω) : Prop where
  chained : Chained sha 0 genesisHash (w.entries ++ w.uncommitted)
  holder : ∃ owner, Holder w owner
  seen_le : ∀ i, w.seen i ≤ w.entries.length
  current : ∀ i, w.ownEntries i ≠ [] → w.seen i = w.entries.length
  prepared : ∀ i args entry retried, w.pc i = .ready args entry retried →
    ∃ k, k ≤ w.seen i ∧ (w.ownEntries i ≠ [] → k = w.entries.length) ∧
      entry = nextEntry sha (latest (w.view i k)) args
  flushed : ∀ i entry, w.pc i = .flushed entry → w.ownEntries i ≠ []
  covered : ∀ checkpoint ∈ w.checkpoints, Covers sha backend w.entries checkpoint
  pendingCovered : ∀ write ∈ w.pending, ∀ checkpoint, write.2.asCheckpoint = some checkpoint →
    w.ownEntries write.1 ≠ [] ∧
      Covers sha backend (w.entries ++ w.ownEntries write.1) checkpoint

theorem sound_empty : Sound sha backend (World.empty : World ω) where
  chained := trivial
  holder := ⟨0, by simp [Holder, World.empty]⟩
  seen_le := fun _ => Nat.le_refl 0
  current := fun _ some => absurd rfl some
  prepared := fun _ _ _ _ ready => nomatch ready
  flushed := fun _ _ flushed => nomatch flushed
  covered := fun _ member => nomatch member
  pendingCovered := fun _ member => nomatch member

theorem Sound.committed (sound : Sound sha backend w) : Chained sha 0 genesisHash w.entries :=
  (chained_append.mp sound.chained).1

theorem Sound.view_eq (sound : Sound sha backend w) (some : w.ownEntries i ≠ []) :
    w.view i w.entries.length = w.entries ++ w.uncommitted := by
  obtain ⟨owner, holder⟩ := sound.holder
  rw [World.view, List.take_length, holder.eq_uncommitted some]

theorem Sound.view_chained (sound : Sound sha backend w) {k : Nat}
    (all : w.ownEntries i ≠ [] → k = w.entries.length) :
    Chained sha 0 genesisHash (w.view i k) := by
  by_cases none : w.ownEntries i = []
  · rw [World.view, none, List.append_nil]
    have whole := sound.committed
    rw [← List.take_append_drop k w.entries] at whole
    exact (chained_append.mp whole).1
  · rw [all none, sound.view_eq none]
    exact sound.chained

theorem moveTo_pc {pc stop : Pc} (there : (w.moveTo i pc).pc j = stop) :
    j = i ∧ pc = stop ∨ j ≠ i ∧ w.pc j = stop := by
  by_cases same : j = i
  · subst same
    simp only [World.moveTo, Function.update_self] at there
    exact .inl ⟨rfl, there⟩
  · simp only [World.moveTo, Function.update_of_ne same] at there
    exact .inr ⟨same, there⟩

section

variable (sound : Sound sha backend w)
include sound

theorem Sound.moveTo {pc : Pc} (prepared : ∀ args entry retried, pc = .ready args entry retried →
      ∃ k, k ≤ w.seen i ∧ (w.ownEntries i ≠ [] → k = w.entries.length) ∧
        entry = nextEntry sha (latest (w.view i k)) args)
    (flushed : ∀ entry, pc = .flushed entry → w.ownEntries i ≠ []) :
    Sound sha backend (w.moveTo i pc) where
  __ := sound
  prepared := by
    intro j args entry retried ready
    rcases moveTo_pc ready with ⟨same, new⟩ | ⟨_, old⟩
    · rw [same]
      exact prepared args entry retried new
    · exact sound.prepared j args entry retried old
  flushed := by
    intro j entry done
    rcases moveTo_pc done with ⟨same, new⟩ | ⟨_, old⟩
    · rw [same]
      exact flushed entry new
    · exact sound.flushed j entry old

theorem Sound.see {k : Nat} (readable : w.Readable i k) :
    Sound sha backend { w with seen := Function.update w.seen i k } where
  __ := sound
  seen_le := by
    intro j
    by_cases same : j = i
    · subst same
      simpa using readable.2
    · simpa [Function.update_of_ne same] using sound.seen_le j
  current := by
    intro j some
    by_cases same : j = i
    · subst same
      have all := sound.current j some
      obtain ⟨lower, upper⟩ := readable
      simp only [Function.update_self]
      omega
    · simpa [Function.update_of_ne same] using sound.current j some
  prepared := by
    intro j args entry retried ready
    obtain ⟨seen, bound, all, shape⟩ := sound.prepared j args entry retried ready
    refine ⟨seen, ?_, all, shape⟩
    by_cases same : j = i
    · subst same
      simpa using Nat.le_trans bound readable.1
    · simpa [Function.update_of_ne same] using bound

theorem Sound.readLast {k : Nat} (readable : w.Readable i k) (args : Args) (retried : Bool) :
    Sound sha backend (w.readLast sha i k args retried) := by
  have seen := sound.see readable
  apply seen.moveTo
  · intro others entry again ready
    cases ready
    refine ⟨k, by simp, ?_, rfl⟩
    intro some
    simpa using seen.current i some
  · nofun

theorem Sound.prepared_kept {after : World ω} {j : Nat} (own : after.ownEntries j = w.ownEntries j)
    (entries : after.entries = w.entries) (seen : after.seen j = w.seen j) {args : Args}
    {entry : AuditEntry} {retried : Bool} (ready : w.pc j = .ready args entry retried) :
    ∃ k, k ≤ after.seen j ∧ (after.ownEntries j ≠ [] → k = after.entries.length) ∧
      entry = nextEntry sha (latest (after.view j k)) args := by
  obtain ⟨k, bound, all, shape⟩ := sound.prepared j args entry retried ready
  refine ⟨k, seen ▸ bound, ?_, ?_⟩
  · rw [own, entries]
    exact all
  · rw [World.view, own, entries]
    exact shape

theorem Sound.discard (unready : ∀ args entry retried, w.pc i ≠ .ready args entry retried)
    (unflushed : ∀ entry, w.pc i ≠ .flushed entry) : Sound sha backend (w.discard i) := by
  obtain ⟨owner, holder⟩ := sound.holder
  have kept : ∀ j, j ≠ i → (w.discard i).ownEntries j = w.ownEntries j := by
    intro j different
    rw [ownEntries_discard, if_neg different]
  constructor
  · rw [uncommitted_discard holder]
    split
    · exact sound.chained
    · rw [List.append_nil]
      exact sound.committed
  · exact ⟨owner, holder.discard i⟩
  · exact sound.seen_le
  · intro j some
    rw [ownEntries_discard] at some
    split at some
    · exact absurd rfl some
    · exact sound.current j some
  · intro j args entry retried ready
    have different : j ≠ i := by
      rintro rfl
      exact unready args entry retried ready
    exact sound.prepared_kept (kept j different) rfl rfl ready
  · intro j entry done
    have different : j ≠ i := by
      rintro rfl
      exact unflushed entry done
    rw [kept j different]
    exact sound.flushed j entry done
  · exact sound.covered
  · intro write member checkpoint shape
    obtain ⟨inside, different⟩ := List.mem_filter.mp member
    rw [kept write.1 (by simpa using different)]
    exact sound.pendingCovered write inside checkpoint shape

theorem Sound.leave {pc : Pc} (unready : ∀ args entry retried, pc ≠ .ready args entry retried)
    (unflushed : ∀ entry, pc ≠ .flushed entry) : Sound sha backend ((w.discard i).moveTo i pc) := by
  have place : (w.moveTo i pc).pc i = pc := Function.update_self ..
  have moved : Sound sha backend (w.moveTo i pc) :=
    sound.moveTo (fun args entry retried same => absurd same (unready args entry retried))
      (fun entry same => absurd same (unflushed entry))
  exact moved.discard (place.symm ▸ unready) (place.symm ▸ unflushed)

theorem Sound.add {write : Write ω}
    (unready : ∀ args entry retried, w.pc i ≠ .ready args entry retried)
    (whole : write.asEntry ≠ none →
      w.seen i = w.entries.length ∧ w.ownEntries i = w.uncommitted)
    (chained : Chained sha 0 genesisHash (w.entries ++ (w.uncommitted ++ write.asEntry.toList)))
    (covers : ∀ checkpoint, write.asCheckpoint = some checkpoint →
      w.ownEntries i ≠ [] ∧ Covers sha backend (w.entries ++ w.ownEntries i) checkpoint) :
    Sound sha backend (w.add i write) := by
  have others : ∀ j, j ≠ i → (w.add i write).ownEntries j = w.ownEntries j := by
    intro j different
    rw [ownEntries_add, if_neg different, List.append_nil]
  constructor
  · rw [uncommitted_add]
    exact chained
  · obtain ⟨owner, holder⟩ := sound.holder
    by_cases entryless : write.asEntry = none
    · refine ⟨owner, ?_⟩
      intro row member isEntry
      rcases List.mem_append.mp member with earlier | new
      · exact holder row earlier isEntry
      · obtain rfl := List.mem_singleton.mp new
        exact absurd entryless isEntry
    · refine ⟨i, ?_⟩
      intro row member isEntry
      rcases List.mem_append.mp member with earlier | new
      · exact (holder.of_own (whole entryless).2) row earlier isEntry
      · obtain rfl := List.mem_singleton.mp new
        rfl
  · exact sound.seen_le
  · intro j some
    by_cases same : j = i
    · subst same
      by_cases entryless : write.asEntry = none
      · rw [ownEntries_add, if_pos rfl, entryless, Option.toList_none, List.append_nil] at some
        exact sound.current j some
      · exact (whole entryless).1
    · rw [others j same] at some
      exact sound.current j some
  · intro j args entry retried ready
    have different : j ≠ i := by
      rintro rfl
      exact unready args entry retried ready
    exact sound.prepared_kept (others j different) rfl rfl ready
  · intro j entry done
    have some := sound.flushed j entry done
    rw [ownEntries_add]
    exact List.append_ne_nil_of_left_ne_nil some _
  · exact sound.covered
  · intro row member checkpoint shape
    have before : w.ownEntries row.1 ≠ [] ∧
        Covers sha backend (w.entries ++ w.ownEntries row.1) checkpoint := by
      rcases List.mem_append.mp member with earlier | new
      · exact sound.pendingCovered row earlier checkpoint shape
      · obtain rfl := List.mem_singleton.mp new
        exact covers checkpoint shape
    rw [ownEntries_add, ← List.append_assoc]
    exact ⟨List.append_ne_nil_of_left_ne_nil before.1 _, before.2.append _⟩

theorem Sound.reads_whole {args : Args} {entry : AuditEntry} {retried : Bool}
    (ready : w.pc i = .ready args entry retried)
    (committed : entry.sequence ∉ w.entries.map AuditEntry.sequence)
    (flushed : entry.sequence ∉ w.uncommitted.map AuditEntry.sequence) :
    w.seen i = w.entries.length ∧ w.ownEntries i = w.uncommitted ∧
      Chained sha 0 genesisHash (w.entries ++ (w.uncommitted ++ [entry])) := by
  obtain ⟨k, bound, all, rfl⟩ := sound.prepared i args entry retried ready
  have limit := sound.seen_le i
  obtain ⟨sequence, chained⟩ := (sound.view_chained all).nextEntry args
  obtain ⟨owner, holder⟩ := sound.holder
  rw [sequence, sound.committed.mem_sequences] at committed
  rw [sequence, (chained_append.mp sound.chained).2.mem_sequences] at flushed
  by_cases none : w.ownEntries i = []
  · have length : (w.view i k).length = k := by
      rw [World.view, none, List.append_nil, List.length_take]
      omega
    have last : k = w.entries.length := by omega
    have empty : w.uncommitted = [] := by
      rw [← List.length_eq_zero_iff]
      omega
    refine ⟨by omega, none.trans empty.symm, ?_⟩
    rw [World.view, none, List.append_nil, last, List.take_length] at chained
    rw [World.view, none, List.append_nil, last, List.take_length, empty]
    exact chained
  · rw [all none, sound.view_eq none, List.append_assoc] at chained
    rw [all none, sound.view_eq none]
    exact ⟨sound.current i none, holder.eq_uncommitted none, chained⟩

end

theorem mem_own {write : Write ω} : write ∈ w.own i ↔ (i, write) ∈ w.pending := by
  rw [World.own, List.mem_map]
  constructor
  · rintro ⟨row, member, rfl⟩
    obtain ⟨inside, mine⟩ := List.mem_filter.mp member
    obtain rfl : row.1 = i := by simpa using mine
    exact inside
  · intro member
    exact ⟨(i, write), List.mem_filter.mpr ⟨member, by simp⟩, rfl⟩

theorem commit_entries (w : World ω) (i : SessionId) :
    (w.commit i).entries = w.entries ++ w.ownEntries i := rfl

theorem Sound.commit (sound : Sound sha backend w) (idle : w.pc i = .idle) :
    Sound sha backend (w.commit i) := by
  obtain ⟨owner, holder⟩ := sound.holder
  have rest : ∀ j, (w.commit i).ownEntries j = if j = i then [] else w.ownEntries j :=
    ownEntries_discard w i
  -- another session that holds entries means that this one has none to commit
  have alone : ∀ j, j ≠ i → w.ownEntries j ≠ [] → (w.commit i).entries = w.entries := by
    intro j different some
    rw [commit_entries, holder.others_empty some (Ne.symm different), List.append_nil]
  constructor
  · rw [commit_entries, show (w.commit i).uncommitted = (w.discard i).uncommitted from rfl,
      uncommitted_discard holder]
    split
    · next none =>
      rw [none, List.append_nil]
      exact sound.chained
    · next some =>
      rw [holder.eq_uncommitted some, List.append_nil]
      exact sound.chained
  · exact ⟨owner, holder.discard i⟩
  · intro j
    rw [commit_entries, List.length_append]
    exact Nat.le_add_right_of_le (sound.seen_le j)
  · intro j some
    rw [rest j] at some
    split at some
    · exact absurd rfl some
    · next different =>
      rw [alone j different some]
      exact sound.current j some
  · intro j args entry retried ready
    have different : j ≠ i := by
      rintro rfl
      exact absurd (idle.symm.trans ready) (by simp)
    obtain ⟨k, bound, all, shape⟩ := sound.prepared j args entry retried ready
    have inside := Nat.le_trans bound (sound.seen_le j)
    refine ⟨k, bound, ?_, ?_⟩
    · rw [rest j, if_neg different]
      intro some
      rw [alone j different some]
      exact all some
    · rw [World.view, rest j, if_neg different, commit_entries,
        List.take_append_of_le_length inside]
      exact shape
  · intro j entry done
    have different : j ≠ i := by
      rintro rfl
      exact absurd (idle.symm.trans done) (by simp)
    rw [rest j, if_neg different]
    exact sound.flushed j entry done
  · intro checkpoint member
    rcases List.mem_append.mp member with earlier | new
    · exact (sound.covered checkpoint earlier).append _
    · obtain ⟨write, mine, shape⟩ := List.mem_filterMap.mp new
      exact (sound.pendingCovered (i, write) (mem_own.mp mine) checkpoint shape).2
  · intro write member checkpoint shape
    obtain ⟨inside, mine⟩ := List.mem_filter.mp member
    have different : write.1 ≠ i := by simpa using mine
    have before := sound.pendingCovered write inside checkpoint shape
    rw [rest write.1, if_neg different, alone write.1 different before.1]
    exact before

end World

section Steps

variable {ω : Type} {w next : World ω}

theorem Sound.insert (sound : Sound sha backend w) {i : SessionId} {args : Args}
    {entry : AuditEntry} {retried : Bool} (ready : w.pc i = .ready args entry retried)
    (fresh : entry.sequence ∉ w.entries.map AuditEntry.sequence)
    (free : entry.sequence ∉ w.uncommitted.map AuditEntry.sequence) :
    Sound sha backend ((w.add i (.entry entry)).moveTo i (afterFlush interval entry)) := by
  obtain ⟨seen, own, chained⟩ := sound.reads_whole ready fresh free
  have waiting : Sound sha backend (w.moveTo i .idle) := sound.moveTo nofun nofun
  have added : Sound sha backend ((w.moveTo i .idle).add i (.entry entry)) :=
    waiting.add (by simp [World.moveTo]) (fun _ => ⟨seen, own⟩) chained nofun
  have moved : Sound sha backend
      (((w.moveTo i .idle).add i (.entry entry)).moveTo i (afterFlush interval entry)) := by
    apply added.moveTo
    · intro args head retried ready
      unfold afterFlush at ready
      split_ifs at ready
    · intro head _
      rw [ownEntries_add, if_pos rfl]
      simp [Write.asEntry]
  simpa [World.moveTo, World.add] using moved

theorem Sound.checkpoint (sound : Sound sha backend w) {i : SessionId} {k : Nat}
    {entry head : AuditEntry} (flushed : w.pc i = .flushed entry) (readable : w.Readable i k)
    (newest : latest (w.view i k) = some head) (fits : Fits head.sequence) (pubkey : Bytes)
    (time : Datetime) :
    Sound sha backend (({ w with seen := Function.update w.seen i k }.add i
      (.checkpoint (checkpointOf sha backend pubkey time (w.view i k) head))).moveTo i
        (.returned entry)) := by
  have some := sound.flushed i entry flushed
  have all : k = w.entries.length := by
    have current := sound.current i some
    obtain ⟨lower, upper⟩ := readable
    omega
  have whole : w.view i k = w.entries ++ w.ownEntries i := by
    rw [World.view, all, List.take_length]
  have chained := sound.view_chained (i := i) (fun _ => all)
  have added : Sound sha backend ({ w with seen := Function.update w.seen i k }.add i
      (.checkpoint (checkpointOf sha backend pubkey time (w.view i k) head))) := by
    apply (sound.see readable).add
    · intro args others again ready
      exact absurd (flushed.symm.trans ready) (by simp)
    · simp [Write.asEntry]
    · simpa [Write.asEntry, World.uncommitted] using sound.chained
    · intro checkpoint shape
      cases shape
      have covers := @covers_checkpointOf _ backend _ _ chained newest fits pubkey time
      rw [whole] at covers ⊢
      exact ⟨some, covers⟩
  exact added.moveTo nofun nofun

theorem step_sound (sound : Sound sha backend w) {event : Event ω}
    (stepped : step sha backend interval w event = some next) : Sound sha backend next := by
  cases stepped_of_step stepped with
  | read idle readable => exact sound.readLast readable _ false
  | conflict ready taken =>
    apply sound.leave
    · intro others head again
      split <;> simp
    · intro head
      split <;> simp
  | insert ready fresh free => exact sound.insert ready fresh free
  | readAgain retry readable => exact sound.readLast readable _ true
  | checkpoint flushed readable newest fits =>
    exact sound.checkpoint flushed readable newest fits _ _
  | uncheckpointed flushed => exact sound.moveTo nofun nofun
  | fail => exact sound.moveTo nofun nofun
  | resume => exact sound.moveTo nofun nofun
  | write idle =>
    apply sound.add
    · intro args entry retried ready
      exact absurd (idle.symm.trans ready) (by simp)
    · simp [Write.asEntry]
    · simpa [Write.asEntry] using sound.chained
    · nofun
  | commit idle => exact sound.commit idle
  | rollback => exact sound.leave nofun nofun

theorem run_sound {events : List (Event ω)}
    (reached : run (step sha backend interval) World.empty events = some w) :
    Sound sha backend w := by
  apply run_preserves _ sound_empty reached
  intro before event after sound stepped
  exact step_sound sound stepped

theorem verifyEntries_chained {n : Int} {previous : Bytes}
    (chained : Chained sha n previous entries) (i : Nat) :
    verifyEntries sha i previous entries = .ok () := by
  induction entries generalizing n previous i with
  | nil => rfl
  | cons entry rest ih =>
    obtain ⟨⟨_, linked, hashed⟩, tail⟩ := chained
    simp only [verifyEntries, linked, ← hashed, ne_eq, not_true_eq_false, if_false]
    exact ih tail (i + 1)

theorem sliceTo_of_fits {sequence : Int} (fits : Fits sequence) :
    sliceTo entries (sequence + 1) = entries.take (sequence.toNat + 1) := by
  unfold Fits at fits
  rw [sliceTo, if_pos (by omega)]
  congr 1
  omega

theorem verifyCheckpoint_covers {checkpoint : AuditCheckpoint}
    (covers : Covers sha backend entries checkpoint) :
    verifyCheckpoint sha backend entries checkpoint = .ok () := by
  have inside := covers.inside
  rw [verifyCheckpoint, if_neg (by omega)]
  simp only [sliceTo_of_fits covers.fits, ← covers.root, covers.fits, covers.signed, ne_eq,
    not_true_eq_false, if_false, if_true]

theorem Sound.verify (sound : Sound sha backend w) :
    verify sha backend w.entries w.checkpoints = .ok () := by
  have accepts : ∀ checkpoints : List AuditCheckpoint, checkpoints ⊆ w.checkpoints →
      checkpoints.forM (verifyCheckpoint sha backend w.entries) = .ok () := by
    intro checkpoints inside
    induction checkpoints with
    | nil => rfl
    | cons checkpoint rest ih =>
      obtain ⟨here, others⟩ := List.cons_subset.mp inside
      rw [List.forM, verifyCheckpoint_covers (sound.covered checkpoint here)]
      exact ih others
  rw [Audit.verify, ascending_eq sound.committed.increasing,
    verifyEntries_chained sound.committed]
  exact accepts _ (List.perm_insertionSort _ _).subset

theorem Chained.prevHash {n : Int} {previous : Bytes} (chained : Chained sha n previous entries)
    {i : Nat} {entry : AuditEntry} (found : entries[i]? = some entry) :
    entry.prevHash = headHash previous (entries.take i) := by
  obtain ⟨bound, rfl⟩ := List.getElem?_eq_some_iff.mp found
  have parts := chained
  rw [← List.take_append_drop i entries, List.drop_eq_getElem_cons bound] at parts
  exact (chained_append.mp parts).2.1.2.1

/-- The committed log after any schedule of any number of sessions: sequences without
gap or duplicate, every entry linked to its predecessor, every checkpoint the root of
the entries up to its sequence, and `verify` succeeds. -/
theorem committed_log_verifies {events : List (Event ω)}
    (reached : run (step sha backend interval) World.empty events = some w) :
    w.entries.map AuditEntry.sequence =
        (List.range w.entries.length).map (fun i : Nat => (i : Int)) ∧
      (∀ entry, w.entries[0]? = some entry → entry.prevHash = genesisHash) ∧
      (∀ i entry after, w.entries[i]? = some entry → w.entries[i + 1]? = some after →
        after.prevHash = entry.entryHash) ∧
      (∀ checkpoint ∈ w.checkpoints, Fits checkpoint.coversSequence ∧
        checkpoint.coversSequence < w.entries.length ∧
        checkpoint.merkleRoot = merkleRoot sha
          ((w.entries.take (checkpoint.coversSequence.toNat + 1)).map AuditEntry.entryHash)) ∧
      verify sha backend w.entries w.checkpoints = .ok () := by
  have sound := run_sound reached
  have chained := sound.committed
  refine ⟨?_, ?_, ?_, ?_, sound.verify⟩
  · simpa using chained.sequences
  · intro entry first
    exact chained.prevHash first
  · intro i entry after found follows
    rw [chained.prevHash follows, headHash, List.take_add_one, found]
    simp
  · intro checkpoint member
    have covers := sound.covered checkpoint member
    exact ⟨covers.fits, covers.inside, covers.root⟩

/-- Two sessions read the empty log, the second meets the first one's entry, retries
and takes a checkpoint. -/
def conflictSchedule : List (Event Unit) :=
  let args : Args := ⟨"operator", "task.created", none, .obj [], ⟨2026, 1, 2, 3, 4, 5, 0⟩⟩
  [.read 0 0 args, .read 1 0 args, .flush 0, .resume 0, .commit 0, .flush 1, .readAgain 1 1,
    .flush 1, .checkpoint 1 1 [7] args.timestamp, .resume 1, .commit 1]

def plainBackend : SigningBackend where
  sign pubkey data := pubkey ++ data
  verifyWithPubkey data signature pubkey := decide (signature = pubkey ++ data)
  verify_sign := by simp

theorem committed_log_verifies_after_conflict :
    ∃ w : World Unit, (w.entries.length = 2 ∧ w.checkpoints.length = 1) ∧
      verify Sha256.head plainBackend w.entries w.checkpoints = .ok () := by
  have runs : ((run (step Sha256.head plainBackend 2) World.empty conflictSchedule).map
      (fun w => (w.entries.length, w.checkpoints.length))) = some (2, 1) := by
    decide +kernel
  obtain ⟨w, reached, lengths⟩ := Option.map_eq_some_iff.mp runs
  exact ⟨w, Prod.mk.inj lengths, (committed_log_verifies reached).2.2.2.2⟩

end Steps

end HlHelper.Audit
