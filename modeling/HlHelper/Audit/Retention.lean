import HlHelper.Audit.Integrity

/-! `RetentionSweeper` of `retention.py` between any schedules of appends. -/

namespace HlHelper.Audit

open HlHelper.Library

namespace Datetime

def isLeap (year : Nat) : Bool := year % 4 = 0 ∧ (year % 100 ≠ 0 ∨ year % 400 = 0)

def daysBeforeMonth (month : Nat) : Nat :=
  [0, 0, 31, 59, 90, 120, 151, 181, 212, 243, 273, 304, 334].getD month 0

/-- `toordinal`: January 1 of year 1 is day 1. -/
def toOrdinal (t : Datetime) : Nat :=
  let past := t.year - 1
  past * 365 + past / 4 - past / 100 + past / 400 + daysBeforeMonth t.month +
    (if isLeap t.year ∧ 2 < t.month then 1 else 0) + t.day

def microsecondsPerDay : Nat := 24 * 60 * 60 * 1000000

def instant (t : Datetime) : Int :=
  t.toOrdinal * microsecondsPerDay + ((t.hour * 60 + t.minute) * 60 + t.second) * 1000000 +
    t.microsecond

end Datetime

structure Log where
  entries : List AuditEntry
  checkpoints : List AuditCheckpoint

/-- A call of `sweep` with the retention of its sweeper. The checkpoint is signed with the
given key at the given time; without these, `force_checkpoint` raises. -/
structure Sweep where
  retentionDays : Int
  now : Datetime
  signer : Option (Bytes × Datetime)

/-- `now - timedelta(days=retention_days)`, none before `datetime.min`. -/
def Sweep.cutoff (sweep : Sweep) : Option Int :=
  let cutoff := sweep.now.instant - sweep.retentionDays * Datetime.microsecondsPerDay
  if cutoff < Datetime.microsecondsPerDay then none else some cutoff

def AuditEntry.before (cutoff : Int) (entry : AuditEntry) : Bool :=
  entry.timestamp.instant < cutoff

namespace Log

variable (sha : Sha256) (backend : SigningBackend)

/-- `select(func.max(AuditEntry.sequence)).where(AuditEntry.timestamp < cutoff)`. -/
def boundarySeq (log : Log) (cutoff : Int) : Option Int :=
  ((log.entries.filter (AuditEntry.before cutoff)).map AuditEntry.sequence).max?

/-- `force_checkpoint`, none when it raises. -/
def forceCheckpoint (log : Log) (signer : Option (Bytes × Datetime)) : Option Log :=
  match latest log.entries, signer with
  | some head, some (pubkey, time) =>
    if Fits head.sequence then
      some { log with
        checkpoints := log.checkpoints ++
          [checkpointOf sha backend pubkey time log.entries head] }
    else none
  | _, _ => none

/-- `sweep`: the log it leaves and the count it returns, none for an `OverflowError`. -/
def sweep (log : Log) (sweep : Sweep) : Log × Option Nat :=
  if sweep.retentionDays ≤ 0 then (log, some 0)
  else
    match sweep.cutoff with
    | none => (log, none)
    | some cutoff =>
      match log.boundarySeq cutoff with
      | none => (log, some 0)
      | some _ =>
        match log.forceCheckpoint sha backend sweep.signer with
        | none => (log, some 0)
        | some covered =>
          ({ covered with
              entries := covered.entries.filter (fun entry => !entry.before cutoff) },
            some (covered.entries.filter (AuditEntry.before cutoff)).length)

/-- The sweep finds an entry before its cutoff, and can checkpoint the log. -/
def Outdated (log : Log) (sweep : Sweep) : Prop :=
  0 < sweep.retentionDays ∧ sweep.signer.isSome ∧
    (∀ head ∈ latest log.entries, Fits head.sequence) ∧
    ∃ cutoff ∈ sweep.cutoff, ∃ entry ∈ log.entries, entry.before cutoff

end Log

/-- The log with the last entry that was ever written to it. -/
structure History where
  log : Log
  last : Option AuditEntry

inductive Activity (ω : Type) where
  | appends (schedule : List (Event ω))
  | sweep (sweep : Sweep)

def World.of {ω : Type} (log : Log) : World ω :=
  ⟨log.entries, log.checkpoints, [], [], fun _ => 0, fun _ => .idle⟩

namespace History

def empty : History := ⟨⟨[], []⟩, none⟩

section Step

variable (sha : Sha256) (backend : SigningBackend) (interval : Int) {ω : Type}

def step (history : History) : Activity ω → Option History
  | .appends schedule =>
    (run (Audit.step sha backend interval) (World.of history.log) schedule).map fun w =>
      { log := ⟨w.entries, w.checkpoints⟩
        last := (w.entries.drop history.log.entries.length).getLast?.or history.last }
  | .sweep sweep => some { history with log := (history.log.sweep sha backend sweep).1 }

end Step

/-- The entries go on from the last one, by sequence and by hash. -/
def Continues (sha : Sha256) (last : Option AuditEntry) (entries : List AuditEntry) : Prop :=
  Chained sha ((last.map (fun entry => entry.sequence + 1)).getD 0)
    ((last.map AuditEntry.entryHash).getD genesisHash) entries

section Lasting

variable (sha : Sha256) (backend : SigningBackend) (interval : Int) {ω : Type}

def Verifies (history : History) : Prop :=
  verify sha backend history.log.entries history.log.checkpoints = .ok ()

/-- Every state from `history` on verifies, and every append goes on from the last
entry that was written before it. -/
def Lasting : History → List (Activity ω) → Prop
  | history, [] => Verifies sha backend history
  | history, activity :: rest =>
    Verifies sha backend history ∧
      ∀ next, step sha backend interval history activity = some next →
        (∀ schedule, activity = .appends schedule →
          Continues sha history.last (next.log.entries.drop history.log.entries.length)) ∧
        Lasting next rest

def Retained (history : History) : Activity ω → Prop
  | .appends _ => True
  | .sweep sweep => ¬ history.log.Outdated sweep

end Lasting

end History

variable {sha : Sha256} {backend : SigningBackend} {interval : Int} {ω : Type}

theorem sound_of {log : Log} (chained : Chained sha 0 genesisHash log.entries)
    (covered : ∀ checkpoint ∈ log.checkpoints, Covers sha backend log.entries checkpoint) :
    Sound sha backend (World.of log : World ω) where
  chained := by simpa [World.of, World.uncommitted] using chained
  holder := ⟨0, by simp [Holder, World.of]⟩
  seen_le := fun _ => Nat.zero_le _
  current := fun _ some => absurd rfl some
  prepared := fun _ _ _ _ ready => nomatch ready
  flushed := fun _ _ flushed => nomatch flushed
  covered := covered
  pendingCovered := fun _ member => nomatch member

theorem step_entries {w next : World ω} {event : Event ω}
    (stepped : Audit.step sha backend interval w event = some next) :
    w.entries <+: next.entries := by
  cases stepped_of_step stepped with
  | commit idle => exact List.prefix_append _ _
  | _ => exact List.prefix_rfl

theorem run_entries {w next : World ω} {schedule : List (Event ω)}
    (reached : run (Audit.step sha backend interval) w schedule = some next) :
    w.entries <+: next.entries := by
  have keep : ∀ (before : World ω) event after, w.entries <+: before.entries →
      Audit.step sha backend interval before event = some after → w.entries <+: after.entries := by
    intro before event after kept stepped
    exact kept.trans (step_entries stepped)
  exact run_preserves keep List.prefix_rfl reached

theorem forM_eq_ok {check : AuditCheckpoint → Except VerifyError Unit}
    {checkpoints : List AuditCheckpoint} :
    forM checkpoints check = .ok () ↔ ∀ checkpoint ∈ checkpoints, check checkpoint = .ok () := by
  induction checkpoints with
  | nil => simp [pure, Except.pure]
  | cons checkpoint rest ih =>
    rw [List.forM_cons, List.forall_mem_cons, ← ih]
    cases check checkpoint <;> simp [bind, Except.bind]

theorem verify_eq_ok {entries : List AuditEntry} {checkpoints : List AuditCheckpoint} :
    verify sha backend entries checkpoints = .ok () ↔
      verifyEntries sha 0 genesisHash (ascending entries) = .ok () ∧
        ∀ checkpoint ∈ checkpoints,
          verifyCheckpoint sha backend (ascending entries) checkpoint = .ok () := by
  have same : ∀ checkpoint, checkpoint ∈ checkpoints.insertionSort
      (fun first second => first.coversSequence ≤ second.coversSequence) ↔
        checkpoint ∈ checkpoints :=
    fun checkpoint => (List.perm_insertionSort _ _).mem_iff
  simp only [verify, List.forM_eq_forM]
  cases verifyEntries sha 0 genesisHash (ascending entries) with
  | error error => simp [bind, Except.bind]
  | ok done =>
    simp only [bind, Except.bind, true_and]
    rw [forM_eq_ok]
    exact forall_congr' fun checkpoint => by rw [same]

namespace Log

theorem boundarySeq_eq_none {log : Log} {cutoff : Int} :
    log.boundarySeq cutoff = none ↔ ∀ entry ∈ log.entries, ¬ entry.before cutoff := by
  simp [boundarySeq, List.filter_eq_nil_iff]

theorem latest_of_mem {entries : List AuditEntry} {entry : AuditEntry} (member : entry ∈ entries) :
    ∃ head, latest entries = some head := by
  cases newest : latest entries with
  | none =>
    rw [latest, List.argmax_eq_none] at newest
    simp [newest] at member
  | some head => exact ⟨head, rfl⟩

theorem forceCheckpoint_eq_some {log covered : Log} {signer : Option (Bytes × Datetime)} :
    log.forceCheckpoint sha backend signer = some covered ↔
      ∃ head pubkey time, latest log.entries = some head ∧ signer = some (pubkey, time) ∧
        Fits head.sequence ∧
        covered = { log with
          checkpoints := log.checkpoints ++
            [checkpointOf sha backend pubkey time log.entries head] } := by
  unfold forceCheckpoint
  split
  · next head pubkey time newest =>
    split
    · next fits =>
      constructor
      · rintro ⟨⟩
        exact ⟨head, pubkey, time, newest, rfl, fits, rfl⟩
      · rintro ⟨other, _, _, found, signed, -, rfl⟩
        obtain rfl := Option.some.inj (newest.symm.trans found)
        cases signed
        rfl
    · next large =>
      simp only [reduceCtorEq, false_iff, not_exists]
      rintro other _ _ ⟨found, -, fits, -⟩
      obtain rfl := Option.some.inj (newest.symm.trans found)
      exact large fits
  · next absent =>
    simp only [reduceCtorEq, false_iff, not_exists]
    rintro head pubkey time ⟨newest, signed, -⟩
    exact absent head pubkey time newest signed

theorem sweep_cases (log : Log) (sweep : Sweep) :
    (¬ log.Outdated sweep ∧ (log.sweep sha backend sweep).1 = log) ∨
      (log.Outdated sweep ∧ ∃ cutoff head pubkey time,
        latest log.entries = some head ∧ (∃ entry ∈ log.entries, entry.before cutoff) ∧
        (log.sweep sha backend sweep).1 =
          { entries := log.entries.filter (fun entry => !entry.before cutoff)
            checkpoints := log.checkpoints ++
              [checkpointOf sha backend pubkey time log.entries head] }) := by
  unfold Log.sweep
  split
  · next retaining => exact .inl ⟨fun outdated => absurd outdated.1 (by omega), rfl⟩
  · next positive =>
    split
    · next cut =>
      refine .inl ⟨?_, rfl⟩
      rintro ⟨-, -, -, cutoff, found, -⟩
      simp [cut] at found
    · next cutoff cut =>
      split
      · next young =>
        refine .inl ⟨?_, rfl⟩
        rintro ⟨-, -, -, other, found, entry, member, old⟩
        obtain rfl : cutoff = other := by simpa [cut] using found
        exact boundarySeq_eq_none.mp young entry member old
      · next sequence boundary =>
        have old : ∃ entry ∈ log.entries, entry.before cutoff := by
          by_contra none_
          simp only [not_exists, not_and] at none_
          simp [boundarySeq_eq_none.mpr none_] at boundary
        split
        · next failed =>
          refine .inl ⟨?_, rfl⟩
          rintro ⟨-, signs, fits, -⟩
          obtain ⟨⟨pubkey, time⟩, signed⟩ := Option.isSome_iff_exists.mp signs
          obtain ⟨entry, member, -⟩ := old
          obtain ⟨head, newest⟩ := latest_of_mem member
          rw [forceCheckpoint_eq_some.mpr
            ⟨head, pubkey, time, newest, signed, fits head newest, rfl⟩] at failed
          cases failed
        · next covered forced =>
          obtain ⟨head, pubkey, time, newest, signed, fits, rfl⟩ :=
            forceCheckpoint_eq_some.mp forced
          refine .inr ⟨⟨by omega, by simp [signed], ?_, cutoff, cut, old⟩,
            cutoff, head, pubkey, time, newest, old, rfl⟩
          intro other found
          obtain rfl : head = other := by simpa [newest] using found
          exact fits

theorem deleted_unverifiable {entries : List AuditEntry} {checkpoints : List AuditCheckpoint}
    {cutoff : Int} {head : AuditEntry} (chained : Chained sha 0 genesisHash entries)
    (newest : latest entries = some head) (old : ∃ entry ∈ entries, entry.before cutoff)
    (pubkey : Bytes) (time : Datetime) :
    verify sha backend (entries.filter (fun entry => !entry.before cutoff))
      (checkpoints ++ [checkpointOf sha backend pubkey time entries head]) ≠ .ok () := by
  intro accepted
  have last : head.sequence + 1 = entries.length := by
    rw [latest_eq_getLast? chained.increasing] at newest
    obtain ⟨front, rfl⟩ := List.getLast?_eq_some_iff.mp newest
    have tail := (chained_append.mp chained).2
    simp [tail.1.1]
  have fewer : (entries.filter (fun entry => !entry.before cutoff)).length < entries.length := by
    apply List.length_filter_lt_length_iff_exists.mpr
    obtain ⟨entry, member, before⟩ := old
    exact ⟨entry, member, by simp [before]⟩
  have checked := (verify_eq_ok.mp accepted).2
    (checkpointOf sha backend pubkey time entries head) (by simp)
  rw [verifyCheckpoint, if_pos] at checked
  · cases checked
  · have length := (List.perm_insertionSort
      (fun first second : AuditEntry => first.sequence ≤ second.sequence)
      (entries.filter (fun entry => !entry.before cutoff))).length_eq
    simp only [ascending, length, checkpointOf]
    omega

end Log

namespace History

structure Intact (sha : Sha256) (backend : SigningBackend) (history : History) : Prop where
  chained : Chained sha 0 genesisHash history.log.entries
  covered : ∀ checkpoint ∈ history.log.checkpoints,
    Covers sha backend history.log.entries checkpoint
  last : history.last = history.log.entries.getLast?

theorem intact_empty : Intact sha backend empty := ⟨trivial, nofun, rfl⟩

variable {history next : History}

theorem Intact.verifies (intact : Intact sha backend history) : Verifies sha backend history :=
  (@sound_of _ _ Unit _ intact.chained intact.covered).verify

theorem nextSequence_eq {entries : List AuditEntry} (chained : Chained sha 0 genesisHash entries) :
    (entries.getLast?.map (fun entry => entry.sequence + 1)).getD 0 =
      0 + (entries.length : Int) := by
  rcases List.eq_nil_or_concat entries with rfl | ⟨front, last, rfl⟩
  · rfl
  · rw [List.concat_eq_append] at chained ⊢
    have tail := (chained_append.mp chained).2
    simp [tail.1.1]

theorem Lasting.verifies {activities : List (Activity ω)}
    (lasting : Lasting sha backend interval history activities) :
    Verifies sha backend history := by
  cases activities with
  | nil => exact lasting
  | cons activity rest => exact lasting.1

theorem Intact.appends (intact : Intact sha backend history) {schedule : List (Event ω)}
    (stepped : step sha backend interval history (.appends schedule) = some next) :
    Intact sha backend next ∧
      Continues sha history.last (next.log.entries.drop history.log.entries.length) := by
  obtain ⟨w, reached, rfl⟩ := Option.map_eq_some_iff.mp stepped
  have sound : Sound sha backend w := by
    apply run_preserves _ (sound_of intact.chained intact.covered) reached
    intro before event after sound stepped
    exact step_sound sound stepped
  obtain ⟨added, longer⟩ := run_entries reached
  have split : w.entries = history.log.entries ++ added := longer.symm
  have rest : w.entries.drop history.log.entries.length = added := by simp [split]
  have chained := sound.committed
  refine ⟨⟨chained, sound.covered, ?_⟩, ?_⟩
  · rw [rest, intact.last, split, List.getLast?_append]
  · rw [split] at chained
    have tail := (chained_append.mp chained).2
    rw [Continues, rest, intact.last, nextSequence_eq intact.chained]
    exact tail

theorem lasting_iff_retained {activities : List (Activity ω)}
    (intact : Intact sha backend history) :
    Lasting sha backend interval history activities ↔
      Meets (step sha backend interval) Retained history activities := by
  induction activities generalizing history with
  | nil => exact iff_of_true intact.verifies trivial
  | cons activity rest ih =>
    rw [Lasting, Meets]
    cases activity with
    | appends schedule =>
      constructor
      · rintro ⟨-, later⟩
        exact ⟨trivial, fun next stepped =>
          (ih (intact.appends stepped).1).mp (later next stepped).2⟩
      · rintro ⟨-, later⟩
        refine ⟨intact.verifies, fun next stepped => ?_⟩
        obtain ⟨kept, continues⟩ := intact.appends stepped
        exact ⟨fun _ _ => continues, (ih kept).mpr (later next stepped)⟩
    | sweep sweep =>
      rcases @Log.sweep_cases sha backend history.log sweep with
        ⟨retained, same⟩ | ⟨outdated, cutoff, head, pubkey, time, newest, old, left⟩
      · have stays : step sha backend interval history (.sweep sweep : Activity ω) =
            some history := by simp [step, same]
        constructor
        · rintro ⟨-, later⟩
          refine ⟨retained, fun next stepped => ?_⟩
          obtain rfl := Option.some.inj (stays.symm.trans stepped)
          exact (ih intact).mp (later history stays).2
        · rintro ⟨-, later⟩
          refine ⟨intact.verifies, fun next stepped => ?_⟩
          obtain rfl := Option.some.inj (stays.symm.trans stepped)
          exact ⟨nofun, (ih intact).mpr (later history stays)⟩
      · refine iff_of_false ?_ (fun met => met.1 outdated)
        rintro ⟨-, later⟩
        have broken := (later _ rfl).2.verifies
        rw [Verifies, left] at broken
        exact Log.deleted_unverifiable intact.chained newest old pubkey time broken

/-- From the empty log on, every state verifies and every append goes on from the last
entry written, exactly when no sweep finds something to delete. -/
theorem lasting_iff_no_sweep_deletes (sha : Sha256) (backend : SigningBackend) (interval : Int)
    (activities : List (Activity ω)) :
    Lasting sha backend interval empty activities ↔
      Meets (step sha backend interval) Retained empty activities :=
  lasting_iff_retained intact_empty

theorem Lasting.reaches {activities : List (Activity ω)} {reached : History}
    (lasting : Lasting sha backend interval history activities)
    (runs : run (step sha backend interval) history activities = some reached) :
    Verifies sha backend reached := by
  induction activities generalizing history with
  | nil =>
    obtain rfl : history = reached := by simpa [run] using runs
    exact lasting
  | cons activity rest ih =>
    obtain ⟨next, stepped, later⟩ := run_cons_eq_some.mp runs
    exact ih (lasting.2 next stepped).2 later

def agedLog : List (Activity Unit) :=
  let args : Args := ⟨"operator", "task.created", none, .obj [], ⟨2026, 1, 2, 3, 4, 5, 0⟩⟩
  let now : Datetime := ⟨2026, 3, 2, 3, 4, 5, 0⟩
  [.appends [.read 0 0 args, .flush 0, .resume 0, .commit 0], .sweep ⟨7, now, some ([7], now)⟩]

theorem swept_log_fails_verification :
    ¬ Lasting Sha256.head plainBackend 100 empty agedLog := by
  intro lasting
  have runs : ((run (step Sha256.head plainBackend 100) empty agedLog).map
      (fun history => verify Sha256.head plainBackend history.log.entries
        history.log.checkpoints)) = some (.error (.exceedsEntries 0)) := by
    decide +kernel
  obtain ⟨reached, found, broken⟩ := Option.map_eq_some_iff.mp runs
  have accepted : Verifies Sha256.head plainBackend reached := lasting.reaches found
  rw [Verifies, broken] at accepted
  cases accepted

end History

end HlHelper.Audit
