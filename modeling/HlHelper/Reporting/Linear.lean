import Mathlib.Data.List.Chain
import HlHelper.Reporting.Numbering

/-! The results of an agent form one chain, with increasing sequence numbers, as long as
each is numbered from what was saved for the one before it. -/

namespace HlHelper.Reporting

open Library Outbox Results

variable {setting : Setting} {n t : Numbering}

/-- A file holds the value of the queued result it was last saved for, and is missing or
empty if it was not saved or is being saved. -/
structure Saved (value : ResultEnvelope → Bytes) (log : List (Nat × ResultEnvelope))
    (content : Option Bytes) (of : Option Nat) : Prop where
  written : ∀ nth, of = some nth →
    ∃ entry, log[nth]? = some entry ∧ content = some (value entry.2)
  blank : of = none → content = none ∨ content = some []

def seqValue (env : ResultEnvelope) : Bytes := putUint64 (env.sequence + 1)

def Execution.seqToSave : Execution → Option (Nat × Nat)
  | .queued nth seq _ | .seqTruncated nth seq _ => some (nth, seq)
  | .running _ _ | .seqSaved _ _ | .hashTruncated _ _ => none

def Execution.hashToSave : Execution → Option (Nat × Bytes)
  | .queued nth _ newHash | .seqTruncated nth _ newHash | .seqSaved nth newHash
  | .hashTruncated nth newHash => some (nth, newHash)
  | .running _ _ => none

section Log

variable {value : ResultEnvelope → Bytes} {log : List (Nat × ResultEnvelope)}
  {entry new : Nat × ResultEnvelope} {nth : Nat}

theorem getElem?_extend (found : log[nth]? = some entry) : (log ++ [new])[nth]? = some entry := by
  obtain ⟨bound, _⟩ := List.getElem?_eq_some_iff.mp found
  rw [List.getElem?_append_left bound]
  exact found

theorem getElem?_last : (log ++ [new])[log.length]? = some new := by
  simp

theorem Saved.extend {content : Option Bytes} {of : Option Nat}
    (saved : Saved value log content of) : Saved value (log ++ [new]) content of where
  written := by
    intro nth last
    obtain ⟨entry, found, holds⟩ := saved.written nth last
    exact ⟨entry, getElem?_extend found, holds⟩
  blank := saved.blank

theorem Saved.missing : Saved value log none none where
  written := by
    intro nth same
    cases same
  blank := fun _ => .inl rfl

theorem Saved.truncated : Saved value log (some []) none where
  written := nofun
  blank := fun _ => .inr rfl

theorem Saved.rewritten (found : log[nth]? = some entry) :
    Saved value log (some (value entry.2)) (some nth) where
  written := by
    intro other same
    cases same
    exact ⟨entry, found, rfl⟩
  blank := nofun

end Log

theorem exclusive_extend {log : List (Nat × ResultEnvelope)} {i j : Nat} {c : Counters}
    {env : ResultEnvelope} (loaded : c.loadedAt ≤ log.length)
    (exclusive : Exclusive (log ++ [(j, env)]) i c) : j = i := by
  rw [Exclusive, List.drop_append_of_le_length loaded] at exclusive
  exact exclusive (j, env) (by simp)

theorem update_eq_some {α : Type} {f : Nat → Option α} {i j : Nat} {v : Option α} {x : α} :
    Function.update f i v j = some x ↔ j = i ∧ v = some x ∨ j ≠ i ∧ f j = some x := by
  by_cases same : j = i
  · subst same
    simp
  · simp [same]

theorem newest_eq_some {nth : Nat} (newest : n.newest = some nth) : n.log.length = nth + 1 := by
  unfold Numbering.newest at newest
  split at newest
  · cases newest
  · next length =>
    cases newest
    exact length

theorem newest_eq_none (newest : n.newest = none) : n.log = [] := by
  unfold Numbering.newest at newest
  split at newest
  · next length => exact List.length_eq_zero_iff.mp length
  · cases newest

section Sequences

structure SeqCounters (log : List (Nat × ResultEnvelope)) (i : Nat) (c : Counters) : Prop where
  positive : 1 ≤ c.seq
  loaded : c.loadedAt ≤ log.length
  above : c.seqCurrent = true → Exclusive log i c → ∀ entry ∈ log, entry.2.sequence < c.seq

structure SeqSound (n : Numbering) : Prop where
  increasing : n.log.Pairwise (fun first second => first.2.sequence < second.2.sequence)
  range : ∀ entry ∈ n.log, 1 ≤ entry.2.sequence ∧ entry.2.sequence < 2 ^ 64 - 1
  file : Saved seqValue n.log n.files.seq n.files.seqOf
  saving : ∀ e x nth seq, n.executions e = some x → x.seqToSave = some (nth, seq) →
    ∃ entry, n.log[nth]? = some entry ∧ entry.2.sequence = seq
  counters : ∀ i c, n.counters i = some c → SeqCounters n.log i c

theorem start_seqSound : SeqSound Numbering.start := by
  constructor
  · exact List.Pairwise.nil
  · intro entry member
    cases member
  · exact Saved.missing
  · intro e x nth seq found
    cases found
  · intro i c found
    cases found

section

variable (sound : SeqSound n)
include sound

theorem loadResultSequence_written {nth : Nat} (last : n.files.seqOf = some nth) :
    ∃ entry, n.log[nth]? = some entry ∧
      loadResultSequence n.files = entry.2.sequence + 1 := by
  obtain ⟨entry, found, holds⟩ := sound.file.written nth last
  have range := sound.range entry (List.mem_of_getElem? found)
  refine ⟨entry, found, ?_⟩
  have back : uint64 (putUint64 (entry.2.sequence + 1)) = entry.2.sequence + 1 :=
    uint64_putUint64 (by omega)
  simp [loadResultSequence, holds, seqValue, back, length_putUint64]

theorem loadResultSequence_blank (unsaved : n.files.seqOf = none) :
    loadResultSequence n.files = 1 := by
  rcases sound.file.blank unsaved with missing | empty
  · simp [loadResultSequence, missing]
  · simp [loadResultSequence, empty]

theorem one_le_loadResultSequence : 1 ≤ loadResultSequence n.files := by
  cases of : n.files.seqOf with
  | none => exact (loadResultSequence_blank sound of).ge
  | some nth =>
    obtain ⟨entry, _, loaded⟩ := loadResultSequence_written sound of
    omega

theorem le_newest {nth : Nat} {last entry : Nat × ResultEnvelope} (newest : n.newest = some nth)
    (found : n.log[nth]? = some last) (member : entry ∈ n.log) :
    entry.2.sequence ≤ last.2.sequence := by
  have length := newest_eq_some newest
  obtain ⟨bound, rfl⟩ := List.getElem?_eq_some_iff.mp found
  obtain ⟨k, small, rfl⟩ := List.getElem_of_mem member
  rcases Nat.lt_or_eq_of_le (Nat.le_of_lt_succ (length ▸ small)) with before | same
  · exact (List.pairwise_iff_getElem.mp sound.increasing k nth small bound before).le
  · subst same
    exact Nat.le_refl _

/-- The persisted number is above every queued one exactly when it was saved last for
the newest of them. -/
theorem persisted_above_iff : (∀ entry ∈ n.log, entry.2.sequence < loadResultSequence n.files) ↔
      n.files.seqOf = n.newest := by
  constructor
  · intro above
    cases newest : n.newest with
    | none =>
      cases of : n.files.seqOf with
      | none => rfl
      | some nth =>
        obtain ⟨entry, found, _⟩ := sound.file.written nth of
        simp [newest_eq_none newest] at found
    | some last =>
      have length := newest_eq_some newest
      have bound : last < n.log.length := by omega
      have top := above n.log[last] (List.getElem_mem bound)
      have positive := (sound.range n.log[last] (List.getElem_mem bound)).1
      cases of : n.files.seqOf with
      | none =>
        rw [loadResultSequence_blank sound of] at top
        omega
      | some nth =>
        obtain ⟨entry, found, loaded⟩ := loadResultSequence_written sound of
        obtain ⟨small, rfl⟩ := List.getElem?_eq_some_iff.mp found
        rcases Nat.lt_or_eq_of_le (Nat.le_of_lt_succ (length ▸ small)) with before | same
        · have less :=
            List.pairwise_iff_getElem.mp sound.increasing nth last small bound before
          omega
        · rw [same]
  · intro current entry member
    cases newest : n.newest with
    | none => simp [newest_eq_none newest] at member
    | some nth =>
      obtain ⟨last, found, loaded⟩ := loadResultSequence_written sound (current.trans newest)
      have most := le_newest sound newest found member
      omega

theorem load_seqCounters (i : Nat) : SeqCounters n.log i n.load where
  positive := one_le_loadResultSequence sound
  loaded := Nat.le_refl _
  above := by
    intro current _
    exact (persisted_above_iff sound).mpr (of_decide_eq_true current)

theorem SeqSound.moveTo {e : Nat} {next : Option Execution} {files : Files}
    (file : Saved seqValue n.log files.seq files.seqOf)
    (saving : ∀ x nth seq, next = some x → x.seqToSave = some (nth, seq) →
      ∃ entry, n.log[nth]? = some entry ∧ entry.2.sequence = seq) :
    SeqSound (n.moveTo e next files) := by
  refine ⟨sound.increasing, sound.range, file, ?_, sound.counters⟩
  intro other x nth seq found
  rcases update_eq_some.mp found with ⟨rfl, new⟩ | ⟨_, old⟩
  · exact saving x nth seq new
  · exact sound.saving other x nth seq old

theorem queue_seqSound {e i : Nat} {c : Counters} {env : ResultEnvelope} {newHash : Bytes}
    (loaded : n.counters i = some c) (number : env.sequence = c.seq) (bound : c.seq < 2 ^ 64 - 1)
    (current : c.seqCurrent = true) (exclusive : Exclusive n.log i c) :
    SeqSound (n.queue e i c env newHash) := by
  have good := sound.counters i c loaded
  have above := good.above current exclusive
  have next : (c.seq + 1) % 2 ^ 64 = c.seq + 1 := Nat.mod_eq_of_lt (by omega)
  constructor
  · apply List.pairwise_append.mpr
    refine ⟨sound.increasing, List.pairwise_singleton _ _, ?_⟩
    intro entry old new member
    rw [List.mem_singleton.mp member, number]
    exact above entry old
  · intro entry member
    rcases List.mem_append.mp member with old | new
    · exact sound.range entry old
    · rw [List.mem_singleton.mp new, number]
      exact ⟨good.positive, bound⟩
  · exact sound.file.extend
  · intro other x nth seq found toSave
    rcases update_eq_some.mp found with ⟨rfl, new⟩ | ⟨_, old⟩
    · cases new
      cases toSave
      exact ⟨_, getElem?_last, number⟩
    · obtain ⟨entry, present, equal⟩ := sound.saving other x nth seq old toSave
      exact ⟨entry, getElem?_extend present, equal⟩
  · intro j d found
    rcases update_eq_some.mp found with ⟨rfl, new⟩ | ⟨different, old⟩
    · cases new
      constructor
      · rw [next]
        exact Nat.le_succ_of_le good.positive
      · rw [Numbering.queue, List.length_append]
        exact Nat.le_add_right_of_le good.loaded
      · intro _ _ entry member
        rw [next]
        rcases List.mem_append.mp member with old | new
        · exact Nat.lt_succ_of_lt (above entry old)
        · rw [List.mem_singleton.mp new, number]
          exact Nat.lt_succ_self _
    · have other := sound.counters j d old
      constructor
      · exact other.positive
      · rw [Numbering.queue, List.length_append]
        exact Nat.le_add_right_of_le other.loaded
      · intro _ shared
        exact absurd (exclusive_extend other.loaded shared).symm different

theorem skip_seqSound {e i : Nat} {c : Counters} (loaded : n.counters i = some c)
    (bound : c.seq < 2 ^ 64 - 1) : SeqSound (n.skip e i c) := by
  have good := sound.counters i c loaded
  have next : (c.seq + 1) % 2 ^ 64 = c.seq + 1 := Nat.mod_eq_of_lt (by omega)
  refine { sound with saving := ?_, counters := ?_ }
  · intro other x nth seq found
    rcases update_eq_some.mp found with ⟨_, gone⟩ | ⟨_, old⟩
    · cases gone
    · exact sound.saving other x nth seq old
  · intro j d found
    rcases update_eq_some.mp found with ⟨rfl, new⟩ | ⟨_, old⟩
    · cases new
      constructor
      · rw [next]
        exact Nat.le_succ_of_le good.positive
      · exact good.loaded
      · intro current exclusive entry member
        rw [next]
        exact Nat.lt_succ_of_lt (good.above current exclusive entry member)
    · exact sound.counters j d old

theorem SeqSound.numberSaved {e : Nat} {next : Option Execution} {files : Files}
    (file : Saved seqValue n.log files.seq files.seqOf)
    (done : ∀ x, next = some x → x.seqToSave = none) : SeqSound (n.moveTo e next files) := by
  apply sound.moveTo file
  intro x nth seq moved toSave
  rw [done x moved] at toSave
  cases toSave

theorem step_seqSound {event : LocalEvent} (orderly : n.SeqOrderly event)
    (stepped : n.step setting event = some t) : SeqSound t := by
  have saved : ∀ (nth : Nat) (newHash : Bytes) (x : Execution),
      some (Execution.seqSaved nth newHash) = some x → x.seqToSave = none := by
    intro nth newHash x same
    cases same
    rfl
  cases numbered_of_step stepped with
  | connect =>
    refine { sound with counters := ?_ }
    intro j c loaded
    rcases update_eq_some.mp loaded with ⟨rfl, new⟩ | ⟨_, old⟩
    · cases new
      exact load_seqCounters sound j
    · exact sound.counters j c old
  | command =>
    apply sound.numberSaved sound.file
    intro x same
    cases same
    rfl
  | finish claimed loaded =>
    obtain ⟨bound, current, exclusive⟩ := orderly _ claimed
    exact queue_seqSound sound loaded rfl bound current exclusive
  | fail claimed loaded => exact skip_seqSound sound loaded (orderly _ claimed)
  | truncateSeq found =>
    apply sound.moveTo Saved.truncated
    intro x k s same shape
    cases same
    exact sound.saving _ _ k s found shape
  | keepSeq found => exact sound.numberSaved sound.file (saved _ _)
  | @saveSeq e nth seq newHash found =>
    obtain ⟨entry, present, equal⟩ := sound.saving e _ nth seq found rfl
    have range := sound.range entry (List.mem_of_getElem? present)
    have next : (seq + 1) % 2 ^ 64 = entry.2.sequence + 1 := by
      rw [equal]
      exact Nat.mod_eq_of_lt (by omega)
    apply sound.numberSaved ?_ (saved _ _)
    rw [next]
    exact Saved.rewritten present
  | unsavedSeq found => exact sound.numberSaved sound.file (saved _ _)
  | truncateHash found =>
    apply SeqSound.numberSaved sound
    · exact sound.file
    · intro x same
      cases same
      rfl
  | saveHash found =>
    apply SeqSound.numberSaved sound
    · exact sound.file
    · nofun
  | keepHash | unsavedHash => exact sound.numberSaved sound.file nofun
  | crash => exact { sound with saving := nofun, counters := nofun }

end

end Sequences

section Hashes

variable (setting : Setting)

def hashValue (env : ResultEnvelope) : Bytes :=
  canonicalResultHash setting.sha setting.proto env

/-- The hash that the result after the given ones has to name. -/
def tip (log : List (Nat × ResultEnvelope)) : Bytes :=
  (log.getLast?.map (fun entry => hashValue setting entry.2)).getD zeroHash

/-- Each result names the hash of the one before it, and the first one zeros. -/
structure Linked (log : List (Nat × ResultEnvelope)) : Prop where
  first : ∀ entry ∈ log.head?, entry.2.prevResultHash = zeroHash
  chained : log.IsChain (fun prev next => next.2.prevResultHash = hashValue setting prev.2)

variable {setting}

theorem Linked.extend {log : List (Nat × ResultEnvelope)} {new : Nat × ResultEnvelope}
    (linked : Linked setting log) (names : new.2.prevResultHash = tip setting log) :
    Linked setting (log ++ [new]) := by
  constructor
  · intro entry head
    cases log with
    | nil =>
      cases head
      exact names
    | cons other rest => exact linked.first entry head
  · apply List.isChain_append.mpr
    refine ⟨linked.chained, List.isChain_singleton _, ?_⟩
    intro last newest entry same
    cases same
    rw [names, tip, Option.mem_def.mp newest]
    rfl

structure HashCounters (setting : Setting) (log : List (Nat × ResultEnvelope)) (i : Nat)
    (c : Counters) : Prop where
  loaded : c.loadedAt ≤ log.length
  newest : c.hashCurrent = true → Exclusive log i c → c.prevHash = tip setting log

structure HashSound (setting : Setting) (n : Numbering) : Prop where
  linked : Linked setting n.log
  file : Saved (hashValue setting) n.log n.files.prevHash n.files.hashOf
  saving : ∀ e x nth newHash, n.executions e = some x → x.hashToSave = some (nth, newHash) →
    ∃ entry, n.log[nth]? = some entry ∧ hashValue setting entry.2 = newHash
  counters : ∀ i c, n.counters i = some c → HashCounters setting n.log i c

theorem start_hashSound : HashSound setting Numbering.start := by
  constructor
  · refine ⟨?_, List.isChain_nil⟩
    intro entry head
    cases head
  · exact Saved.missing
  · intro e x nth newHash found
    cases found
  · intro i c found
    cases found

section

variable (sound : HashSound setting n)
include sound

theorem load_hashCounters (i : Nat) : HashCounters setting n.log i n.load where
  loaded := Nat.le_refl _
  newest := by
    intro current _
    have of : n.files.hashOf = n.newest := of_decide_eq_true current
    change (loadResultPrevHash n.files).getD zeroHash = tip setting n.log
    cases newest : n.newest with
    | none =>
      rw [newest_eq_none newest]
      rcases sound.file.blank (of.trans newest) with missing | empty
      · simp [loadResultPrevHash, missing, tip]
      · simp [loadResultPrevHash, empty, tip]
    | some nth =>
      obtain ⟨entry, found, holds⟩ := sound.file.written nth (of.trans newest)
      have last : n.log.getLast? = some entry := by
        rw [List.getLast?_eq_getElem?, newest_eq_some newest]
        exact found
      have width : (hashValue setting entry.2).length = 32 := setting.sha.length_sum _
      simp [loadResultPrevHash, holds, width, tip, last]

theorem HashSound.moveTo {e : Nat} {next : Option Execution} {files : Files}
    (file : Saved (hashValue setting) n.log files.prevHash files.hashOf)
    (saving : ∀ x nth newHash, next = some x → x.hashToSave = some (nth, newHash) →
      ∃ entry, n.log[nth]? = some entry ∧ hashValue setting entry.2 = newHash) :
    HashSound setting (n.moveTo e next files) := by
  refine ⟨sound.linked, file, ?_, sound.counters⟩
  intro other x nth newHash found
  rcases update_eq_some.mp found with ⟨rfl, new⟩ | ⟨_, old⟩
  · exact saving x nth newHash new
  · exact sound.saving other x nth newHash old

theorem HashSound.carry {e : Nat} {before after : Execution} {files : Files}
    (found : n.executions e = some before)
    (file : Saved (hashValue setting) n.log files.prevHash files.hashOf)
    (same : after.hashToSave = before.hashToSave) :
    HashSound setting (n.moveTo e (some after) files) := by
  apply sound.moveTo file
  intro x nth newHash moved toSave
  cases moved
  exact sound.saving e before nth newHash found (same.symm.trans toSave)

theorem queue_hashSound {e i : Nat} {c : Counters} {env : ResultEnvelope}
    (loaded : n.counters i = some c) (names : env.prevResultHash = c.prevHash)
    (current : c.hashCurrent = true) (exclusive : Exclusive n.log i c) :
    HashSound setting (n.queue e i c env (hashValue setting env)) := by
  have good := sound.counters i c loaded
  constructor
  · exact sound.linked.extend (names.trans (good.newest current exclusive))
  · exact sound.file.extend
  · intro other x nth newHash found toSave
    rcases update_eq_some.mp found with ⟨rfl, new⟩ | ⟨_, old⟩
    · cases new
      cases toSave
      exact ⟨_, getElem?_last, rfl⟩
    · obtain ⟨entry, present, equal⟩ := sound.saving other x nth newHash old toSave
      exact ⟨entry, getElem?_extend present, equal⟩
  · intro j d found
    rcases update_eq_some.mp found with ⟨rfl, new⟩ | ⟨different, old⟩
    · cases new
      constructor
      · rw [Numbering.queue, List.length_append]
        exact Nat.le_add_right_of_le good.loaded
      · intro _ _
        simp [tip, Numbering.queue]
    · have other := sound.counters j d old
      constructor
      · rw [Numbering.queue, List.length_append]
        exact Nat.le_add_right_of_le other.loaded
      · intro _ shared
        exact absurd (exclusive_extend other.loaded shared).symm different

theorem skip_hashSound {e i : Nat} {c : Counters} (loaded : n.counters i = some c) :
    HashSound setting (n.skip e i c) := by
  have good := sound.counters i c loaded
  refine { sound with saving := ?_, counters := ?_ }
  · intro other x nth newHash found
    rcases update_eq_some.mp found with ⟨_, gone⟩ | ⟨_, old⟩
    · cases gone
    · exact sound.saving other x nth newHash old
  · intro j d found
    rcases update_eq_some.mp found with ⟨rfl, new⟩ | ⟨_, old⟩
    · cases new
      exact ⟨good.loaded, good.newest⟩
    · exact sound.counters j d old

theorem step_hashSound {event : LocalEvent} (orderly : n.HashOrderly event)
    (stepped : n.step setting event = some t) : HashSound setting t := by
  cases numbered_of_step stepped with
  | connect =>
    refine { sound with counters := ?_ }
    intro j c loaded
    rcases update_eq_some.mp loaded with ⟨rfl, new⟩ | ⟨_, old⟩
    · cases new
      exact load_hashCounters sound j
    · exact sound.counters j c old
  | command =>
    apply sound.moveTo sound.file
    intro x nth newHash same
    cases same
    nofun
  | finish claimed loaded =>
    obtain ⟨current, exclusive⟩ := orderly _ claimed
    exact queue_hashSound sound loaded rfl current exclusive
  | fail claimed loaded => exact skip_hashSound sound loaded
  | truncateSeq found => exact sound.carry found sound.file rfl
  | keepSeq found => exact sound.carry found sound.file rfl
  | saveSeq found => exact sound.carry found sound.file rfl
  | unsavedSeq found => exact sound.carry found sound.file rfl
  | truncateHash found => exact sound.carry found Saved.truncated rfl
  | @saveHash e nth newHash found =>
    obtain ⟨entry, present, equal⟩ := sound.saving e _ nth newHash found rfl
    apply HashSound.moveTo sound
    · rw [← equal]
      exact Saved.rewritten present
    · nofun
  | keepHash | unsavedHash => exact sound.moveTo sound.file nofun
  | crash => exact { sound with saving := nofun, counters := nofun }

end

end Hashes

/-- In every run in which each result is numbered from what was saved for the one before
it, the queued results have increasing sequence numbers and each names the hash of the one
before it, and the persisted number is above them as soon as it is saved for the newest. -/
theorem results_form_chain (setting : Setting) (events : List LocalEvent) (n : Numbering)
    (reached : run (Numbering.step setting) .start events = some n)
    (met : Meets (Numbering.step setting)
      (fun n event => n.SeqOrderly event ∧ n.HashOrderly event) .start events) :
    n.log.Pairwise (fun first second => first.2.sequence < second.2.sequence) ∧
      Linked setting n.log ∧
      ((∀ entry ∈ n.log, entry.2.sequence < loadResultSequence n.files) ↔
        n.files.seqOf = n.newest) := by
  have sound : SeqSound n ∧ HashSound setting n := by
    apply run_keeps ?_ ⟨start_seqSound, start_hashSound⟩ reached met
    intro before event after sound orderly stepped
    constructor
    · exact step_seqSound sound.1 orderly.1 stepped
    · exact step_hashSound sound.2 orderly.2 stepped
  exact ⟨sound.1.increasing, sound.2.linked, persisted_above_iff sound.1⟩

/-- An agent with short keys, for runs that are evaluated. -/
def oneAgent : Setting := ⟨.head, Results.Wire.protobuf, .plain, [], "h1"⟩

/-- Two executions on one stream that finish in the other order, a failure, saves, an end
of the process and a new stream. -/
def orderlyRun : List LocalEvent :=
  [.connect 0, .command 0 0 "c1", .command 1 0 "c2", .command 2 0 "c3",
    .finish 1 default ⟨0, 0⟩ ⟨1, 0⟩ 0, .fail 2 true, .finish 0 default ⟨0, 0⟩ ⟨2, 0⟩ 0,
    .openSeq 1 true, .writeSeq 1 true, .openSeq 0 true, .writeSeq 0 true, .openHash 1 true,
    .openHash 0 true, .writeHash 1 true, .writeHash 0 true, .crash,
    .connect 1, .command 0 1 "c4", .finish 0 default ⟨3, 0⟩ ⟨4, 0⟩ 0]

theorem orderly_run_forms_chain :
    ∃ n, run (Numbering.step oneAgent) .start orderlyRun = some n ∧
      n.log.Pairwise (fun first second => first.2.sequence < second.2.sequence) ∧
      Linked oneAgent n.log := by
  have finishes : (run (Numbering.step oneAgent) .start orderlyRun).isSome = true := by decide
  obtain ⟨n, reached⟩ := Option.isSome_iff_exists.mp finishes
  have chain := results_form_chain oneAgent orderlyRun n reached (by decide)
  exact ⟨n, reached, chain.1, chain.2.1⟩

/-- A stream that ends while one of its executions still runs, and the next stream: both
executions claim the same number. -/
theorem reconnect_repeats_sequence :
    ∃ n, run (Numbering.step oneAgent) .start
        [.connect 0, .command 0 0 "c1", .connect 1, .command 1 1 "c2",
          .finish 1 default ⟨0, 0⟩ ⟨1, 0⟩ 0, .finish 0 default ⟨0, 0⟩ ⟨2, 0⟩ 0] = some n ∧
      n.log.map (fun entry => entry.2.sequence) = [1, 1] ∧
      ¬ n.log.Pairwise (fun first second => first.2.sequence < second.2.sequence) := by
  refine ⟨_, rfl, rfl, ?_⟩
  decide

end HlHelper.Reporting
