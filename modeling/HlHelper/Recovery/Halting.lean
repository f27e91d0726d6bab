import HlHelper.Library.Slots
import HlHelper.Recovery.States

/-! Runs in which no save is lost: the file counts the failed rotations, and HALTED is final. -/

namespace HlHelper.Recovery

open HlHelper.Library

namespace Agent

def count (a : Agent) : Int := (loadState a.file).consecutiveFailures

def Halted (a : Agent) : Prop := (loadState a.file).phase = .halted

instance : DecidablePred Halted := fun _ => inferInstanceAs (Decidable (_ = _))

end Agent

/-- The failed rotations since a call succeeded last, from `start` on. -/
def failuresSince (start : Int) (log : List Entry) : Int :=
  log.foldl (fun failures entry =>
    match entry with
    | .failed => failures + 1
    | .succeeded => 0
    | _ => failures) start

def startedCall : Entry → Option Nat
  | .started call => some call
  | _ => none

def attempts (log : List Entry) : List Nat := log.filterMap startedCall

/-- What the state file is for, of an agent whose file was `file` at first. -/
structure HaltSafe (file : StateFile) (a : Agent) : Prop where
  refused : .refused ∈ a.log → a.Halted
  counted : a.count = failuresSince (loadState file).consecutiveFailures a.log
  normal : ∀ before entry after, a.log = before ++ entry :: after →
    ∀ call, entry = .recorded call .normal →
      (attempts before).getLast? = some call ∧ .committed call ∈ before

/-- The agent halts for good: no attempt is started and no other phase recorded. -/
def StaysHalted (events : List Event) (file : StateFile) (a : Agent) : Prop :=
  ∀ before after b, events = before ++ after → run Agent.step (.initial file) before = some b →
    b.Halted → a.Halted ∧ attempts a.log = attempts b.log

/-- Loads read the file; a save is made, on the file as its call has last seen it; a call that
starts an attempt finds no HALTED file; the counter does not wrap; the text of a refusal tells its
code. -/
def Orderly (a : Agent) : Event → Prop
  | .rotateOnce _ read | .checkAndRecover .expired read => read = true ∧ ¬ a.Halted
  | .checkAndRecover (.missing _) read => read = true
  | .checkAndRecover .valid _ | .rotated _ none => True
  | .rotated index (some _) =>
    ∀ call ∈ a.calls[index]?, call.st.consecutiveFailures ≠ 2 ^ 63 - 1
  | .reEnrolled _ error read => ∀ e ∈ error,
      (e.Refused → isPermanentReEnrollFailure e) ∧ (isPermanentReEnrollFailure e → read = true)
  | .save index ok => ok = true ∧ ∀ call ∈ a.calls[index]?, call.seen = a.saves

instance : ∀ a event, Decidable (Orderly a event)
  | _, .rotateOnce _ _ | _, .checkAndRecover .expired _ => inferInstanceAs (Decidable (_ ∧ _))
  | _, .checkAndRecover (.missing _) _ => inferInstanceAs (Decidable (_ = _))
  | _, .checkAndRecover .valid _ | _, .rotated _ none => inferInstanceAs (Decidable True)
  | _, .rotated _ (some _) => inferInstanceAs (Decidable (∀ _ ∈ _, _))
  | _, .reEnrolled _ none _ => isTrue (fun _ member => nomatch member)
  | _, .reEnrolled _ (some error) read => decidable_of_iff
      ((error.Refused → isPermanentReEnrollFailure error) ∧
        (isPermanentReEnrollFailure error → read = true))
      (by simp [Orderly])
  | _, .save _ _ => inferInstanceAs (Decidable (_ ∧ ∀ _ ∈ _, _))

/-- What a call that has seen the file as it is holds of it. -/
def Call.Current (file : StateFile) (log : List Entry) (index : Nat) (call : Call) : Prop :=
  match call.point with
  | .saveRotating | .saveRecovering =>
    call.st.phase ≠ .normal ∧ call.st.phase ≠ .halted ∧
      call.st.consecutiveFailures = (loadState file).consecutiveFailures ∧
      (loadState file).phase ≠ .halted
  | .rotate | .reEnroll =>
    call.st.consecutiveFailures = (loadState file).consecutiveFailures ∧
      (loadState file).phase ≠ .halted ∧ (attempts log).getLast? = some index
  | .saveFailed =>
    call.st.phase = .rotateBackoff ∧
      call.st.consecutiveFailures = (loadState file).consecutiveFailures + 1 ∧
      (loadState file).phase ≠ .halted
  | .saveRotated | .saveRecovered =>
    call.st.phase = .normal ∧ call.st.consecutiveFailures = 0 ∧
      (loadState file).phase ≠ .halted ∧ (attempts log).getLast? = some index ∧
      .committed index ∈ log
  | .saveHalted _ =>
    call.st.phase = .halted ∧
      call.st.consecutiveFailures = (loadState file).consecutiveFailures
  | .returned => True

structure Sound (file : StateFile) (a : Agent) : Prop extends HaltSafe file a where
  known : ∀ (index : Nat) call, a.calls[index]? = some call → call.seen ≤ a.saves
  current : ∀ (index : Nat) call, a.calls[index]? = some call → call.seen = a.saves →
    call.Current a.file a.log index

variable {file : StateFile} {a b : Agent} {event : Event}

theorem sound_initial (file : StateFile) : Sound file (.initial file) where
  refused := fun member => (List.not_mem_nil member).elim
  counted := rfl
  normal := by
    intro before entry after split
    cases before <;> cases split
  known := by
    intro index call there
    cases there
  current := by
    intro index call there
    cases there

theorem attempts_append (log more : List Entry) :
    attempts (log ++ more) = attempts log ++ attempts more := List.filterMap_append

theorem failuresSince_append (start : Int) (log more : List Entry) :
    failuresSince start (log ++ more) = failuresSince (failuresSince start log) more :=
  List.foldl_append

theorem Call.Current.grow {call : Call} {index : Nat} {log more : List Entry}
    (current : call.Current file log index) (quiet : attempts more = []) :
    call.Current file (log ++ more) index := by
  have same : attempts (log ++ more) = attempts log := by
    rw [attempts_append, quiet, List.append_nil]
  unfold Call.Current at current ⊢
  rw [same]
  split
  all_goals simp_all

/-- A step that neither saves nor starts an attempt: the log may grow, and one call may change
or come. -/
structure Quiet (a b : Agent) (more : List Entry) : Prop where
  file : b.file = a.file
  saves : b.saves = a.saves
  log : b.log = a.log ++ more
  started : attempts more = []
  counted : ∀ failures, failuresSince failures more = failures
  recorded : ∀ call phase, .recorded call phase ∉ more
  calls : ∀ (index : Nat) (call : Call), b.calls[index]? = some call → a.calls[index]? = some call ∨
    call.seen ≤ a.saves ∧ (call.seen = a.saves → call.Current a.file b.log index)

theorem Sound.quiet {more : List Entry} (sound : Sound file a) (quiet : Quiet a b more)
    (refused : .refused ∈ more → a.Halted) : Sound file b := by
  have halted : b.Halted ↔ a.Halted := by
    unfold Agent.Halted
    rw [quiet.file]
  refine ⟨⟨?_, ?_, ?_⟩, ?_, ?_⟩
  · intro member
    rw [quiet.log] at member
    rw [halted]
    rcases List.mem_append.mp member with old | new
    · exact sound.refused old
    · exact refused new
  · rw [quiet.log, failuresSince_append, quiet.counted, ← sound.counted, Agent.count, Agent.count,
      quiet.file]
  · rw [quiet.log]
    apply forall_splits_append sound.normal
    rintro before entry after rfl call rfl
    exact absurd (List.mem_append_right _ List.mem_cons_self) (quiet.recorded call .normal)
  · intro index call there
    rw [quiet.saves]
    rcases quiet.calls index call there with old | ⟨seen, _⟩
    · exact sound.known index call old
    · exact seen
  · intro index call there seen
    rw [quiet.saves] at seen
    rw [quiet.file]
    rcases quiet.calls index call there with old | ⟨_, current⟩
    · rw [quiet.log]
      exact (sound.current index call old seen).grow quiet.started
    · exact current seen

theorem quiet_enter {point : Point} {st : RotatorState}
    (current : (⟨point, st, a.saves⟩ : Call).Current a.file a.log a.calls.length) :
    Quiet a (a.enter point st) [] := by
  refine ⟨rfl, rfl, (List.append_nil _).symm, rfl, fun _ => rfl, fun _ _ => List.not_mem_nil, ?_⟩
  intro index call there
  rcases lt_or_ge index a.calls.length with old | new
  · left
    rwa [Agent.enter, List.getElem?_append_left old] at there
  · obtain ⟨rfl, rfl⟩ := getElem?_concat_of_le there new
    exact .inr ⟨le_rfl, fun _ => current⟩

theorem quiet_set {index : Nat} {call : Call} {more : List Entry}
    (started : attempts more = []) (counted : ∀ failures, failuresSince failures more = failures)
    (recorded : ∀ call phase, .recorded call phase ∉ more) (seen : call.seen ≤ a.saves)
    (current : call.seen = a.saves → call.Current a.file (a.log ++ more) index) :
    Quiet a { a with calls := a.calls.set index call, log := a.log ++ more } more := by
  refine ⟨rfl, rfl, rfl, started, counted, recorded, ?_⟩
  intro other found there
  rcases getElem?_set_cases there with ⟨old, _⟩ | ⟨rfl, rfl⟩
  · exact .inl old
  · exact .inr ⟨seen, current⟩

def Agent.recorded (a : Agent) (index : Nat) (call : Call) (point : Point)
    (entries : List Entry) : Agent where
  file := .present call.st
  saves := a.saves + 1
  calls := a.calls.set index ⟨point, call.st, a.saves + 1⟩
  log := a.log ++ .recorded index call.st.phase :: entries

theorem Sound.record (sound : Sound file a) {index : Nat} {call : Call} {point : Point}
    {entries : List Entry} (records : ∀ other phase, .recorded other phase ∉ entries)
    (counted : failuresSince a.count entries = call.st.consecutiveFailures)
    (halted : a.Halted ∨ .refused ∈ entries → call.st.phase = .halted)
    (normal : call.st.phase = .normal →
      (attempts a.log).getLast? = some index ∧ .committed index ∈ a.log)
    (current : (⟨point, call.st, a.saves + 1⟩ : Call).Current (.present call.st)
      (a.log ++ .recorded index call.st.phase :: entries) index) :
    Sound file (a.recorded index call point entries) := by
  refine ⟨⟨?_, ?_, ?_⟩, ?_, ?_⟩
  · intro member
    apply halted
    rcases List.mem_append.mp member with old | new
    · exact .inl (sound.refused old)
    · rcases List.mem_cons.mp new with record | entry
      · cases record
      · exact .inr entry
  · calc
      _ = call.st.consecutiveFailures := rfl
      _ = failuresSince a.count entries := counted.symm
      _ = failuresSince (failuresSince (loadState file).consecutiveFailures a.log)
            (.recorded index call.st.phase :: entries) := by rw [← sound.counted]; rfl
      _ = _ := (failuresSince_append _ _ _).symm
  · apply forall_splits_append sound.normal
    intro before entry after split other record
    cases before with
    | nil =>
      obtain ⟨first, -⟩ := List.cons.inj split
      obtain ⟨rfl, phase⟩ := Entry.recorded.inj (first.trans record)
      rw [List.append_nil]
      exact normal phase
    | cons first before =>
      obtain ⟨-, inside⟩ := List.cons.inj split
      subst record
      refine absurd ?_ (records other .normal)
      rw [inside]
      exact List.mem_append_right _ List.mem_cons_self
  · intro other found here
    rcases getElem?_set_cases here with ⟨old, _⟩ | ⟨_, rfl⟩
    · exact (sound.known other found old).trans (Nat.le_succ _)
    · exact le_rfl
  · intro other found here seen
    rcases getElem?_set_cases here with ⟨old, _⟩ | ⟨rfl, rfl⟩
    · have := sound.known other found old
      rw [seen] at this
      exact absurd this (Nat.not_succ_le_self _)
    · exact current

theorem attempts_started (log : List Entry) (index : Nat) (phase : Phase) :
    (attempts (log ++ [.recorded index phase, .started index])).getLast? = some index := by
  rw [attempts_append]
  exact List.getLast?_concat

theorem Sound.recordRunning (sound : Sound file a) {index : Nat} {call : Call} {point : Point}
    {entries : List Entry} (running : (loadState a.file).phase ≠ .halted)
    (plain : ∀ entry ∈ entries, entry ≠ .refused ∧ ∀ other phase, entry ≠ .recorded other phase)
    (counted : failuresSince a.count entries = call.st.consecutiveFailures)
    (normal : call.st.phase = .normal →
      (attempts a.log).getLast? = some index ∧ .committed index ∈ a.log)
    (current : (⟨point, call.st, a.saves + 1⟩ : Call).Current (.present call.st)
      (a.log ++ .recorded index call.st.phase :: entries) index) :
    Sound file (a.recorded index call point entries) ∧
      (a.Halted → (a.recorded index call point entries).Halted ∧
        attempts (a.recorded index call point entries).log = attempts a.log) := by
  refine ⟨sound.record ?_ counted ?_ normal current, fun halted => absurd halted running⟩
  · intro other phase member
    exact (plain _ member).2 other phase rfl
  · rintro (halted | refusal)
    · exact absurd halted running
    · exact absurd rfl (plain _ refusal).1

theorem Sound.save (sound : Sound file a) {index : Nat} {call : Call}
    (there : a.calls[index]? = some call) (seen : call.seen = a.saves)
    (saved : a.saveAt index call true = some b) :
    Sound file b ∧ (a.Halted → b.Halted ∧ attempts b.log = attempts a.log) := by
  have current := sound.current index call there seen
  obtain ⟨⟨point, entries⟩, goes, rfl⟩ := Option.map_eq_some_iff.mp saved
  change Sound file (a.recorded index call point entries) ∧
    (a.Halted → (a.recorded index call point entries).Halted ∧
      attempts (a.recorded index call point entries).log = attempts a.log)
  unfold Call.Current at current
  cases place : call.point with
  | saveRotating | saveRecovering =>
    rw [place] at goes current
    cases goes
    obtain ⟨notNormal, notHalted, count, running⟩ := current
    refine sound.recordRunning running (by simp) count.symm ?_ ?_
    · exact fun normal => absurd normal notNormal
    · exact ⟨rfl, notHalted, attempts_started _ _ _⟩
  | saveFailed =>
    rw [place] at goes current
    cases goes
    obtain ⟨phase, count, running⟩ := current
    refine sound.recordRunning running (by simp) count.symm ?_ trivial
    intro normal
    cases phase.symm.trans normal
  | saveRotated | saveRecovered =>
    rw [place] at goes current
    cases goes
    obtain ⟨phase, count, running, last, committed⟩ := current
    exact sound.recordRunning running (by simp) count.symm (fun _ => ⟨last, committed⟩) trivial
  | saveHalted refused =>
    rw [place] at goes current
    cases goes
    obtain ⟨phase, count⟩ := current
    refine ⟨sound.record ?_ ?_ (fun _ => phase) ?_ trivial, fun _ => ⟨phase, ?_⟩⟩
    · cases refused <;> simp
    · cases refused <;> exact count.symm
    · intro normal
      cases phase.symm.trans normal
    · rw [Agent.recorded, attempts_append]
      cases refused <;> exact List.append_nil _
  | rotate | reEnroll | returned =>
    rw [place] at goes
    cases goes

theorem quiet_set_only {index : Nat} {call : Call} (seen : call.seen ≤ a.saves)
    (current : call.seen = a.saves → call.Current a.file a.log index) :
    Quiet a { a with calls := a.calls.set index call } [] := by
  have quiet := @quiet_set a index call [] rfl (fun _ => rfl) (fun _ _ => List.not_mem_nil) seen
    (by rwa [List.append_nil])
  rwa [List.append_nil] at quiet

theorem Sound.commits (sound : Sound file a) {index : Nat} {call new : Call}
    (there : a.calls[index]? = some call) (place : call.point = .rotate ∨ call.point = .reEnroll)
    (point : new.point = .saveRotated ∨ new.point = .saveRecovered) (seen : new.seen = call.seen)
    (normal : new.st.phase = .normal) (cleared : new.st.consecutiveFailures = 0) :
    Sound file { a with calls := a.calls.set index new, log := a.log ++ [.committed index] } ∧
      (a.Halted → a.Halted ∧ attempts (a.log ++ [.committed index]) = attempts a.log) := by
  have unstarted : attempts (a.log ++ [.committed index]) = attempts a.log :=
    (attempts_append _ _).trans (List.append_nil _)
  have known : new.seen ≤ a.saves := seen ▸ sound.known index call there
  refine ⟨sound.quiet (quiet_set rfl (fun _ => rfl) (by simp) known ?_) (by simp),
    fun halted => ⟨halted, unstarted⟩⟩
  intro last
  have current := sound.current index call there (seen ▸ last)
  have started : (loadState a.file).phase ≠ .halted ∧ (attempts a.log).getLast? = some index := by
    unfold Call.Current at current
    rcases place with place | place <;> rw [place] at current <;> exact current.2
  have committed : .committed index ∈ a.log ++ [.committed index] :=
    List.mem_append_right _ (List.mem_singleton_self _)
  unfold Call.Current
  rw [unstarted]
  rcases point with point | point <;> rw [point] <;>
    exact ⟨normal, cleared, started.1, started.2, committed⟩

theorem Sound.rotated (sound : Sound file a) {index : Nat} {call : Call}
    (there : a.calls[index]? = some call) (place : call.point = .rotate) {error : Option String}
    (orderly : Orderly a (.rotated index error)) :
    Sound file (a.rotatedAt index call error) ∧ (a.Halted →
      (a.rotatedAt index call error).Halted ∧
        attempts (a.rotatedAt index call error).log = attempts a.log) := by
  have known := sound.known index call there
  have current := sound.current index call there
  unfold Call.Current at current
  rw [place] at current
  cases error with
  | some error =>
    refine ⟨sound.quiet (quiet_set_only known ?_) (by simp), fun halted => ⟨halted, rfl⟩⟩
    intro seen
    obtain ⟨count, running, _⟩ := current seen
    have next : Agent.increment call.st.consecutiveFailures = call.st.consecutiveFailures + 1 :=
      if_neg (orderly call there)
    exact ⟨rfl, next.trans (congrArg (· + 1) count), running⟩
  | none => exact sound.commits there (.inl place) (.inl rfl) rfl rfl rfl

theorem reEnrolledAt_permanent {error : ReEnrollError}
    (permanent : isPermanentReEnrollFailure error) (index : Nat) (call : Call) (read : Bool) :
    a.reEnrolledAt index call read (some error) = { a with
      calls := a.calls.set index ⟨.saveHalted (decide error.Refused),
        a.halting read "reenroll-permanent" error.text, a.saves⟩ } := by
  simp only [Agent.reEnrolledAt, if_pos permanent]

theorem reEnrolledAt_transient {error : ReEnrollError}
    (transient : ¬ isPermanentReEnrollFailure error) (unrefused : ¬ error.Refused)
    (index : Nat) (call : Call) (read : Bool) :
    a.reEnrolledAt index call read (some error) = { a with
      calls := a.calls.set index ⟨.returned, call.st, call.seen⟩, log := a.log ++ [] } := by
  simp only [Agent.reEnrolledAt, if_neg transient, if_neg unrefused]

theorem Sound.reEnrolled (sound : Sound file a) {index : Nat} {call : Call}
    (there : a.calls[index]? = some call) (place : call.point = .reEnroll)
    {error : Option ReEnrollError} {read : Bool}
    (orderly : Orderly a (.reEnrolled index error read)) :
    Sound file (a.reEnrolledAt index call read error) ∧ (a.Halted →
      (a.reEnrolledAt index call read error).Halted ∧
        attempts (a.reEnrolledAt index call read error).log = attempts a.log) := by
  have known := sound.known index call there
  have current := sound.current index call there
  unfold Call.Current at current
  rw [place] at current
  cases error with
  | some error =>
    obtain ⟨recognised, reads⟩ := orderly error rfl
    by_cases permanent : isPermanentReEnrollFailure error = true
    · rw [reEnrolledAt_permanent permanent]
      obtain rfl := reads permanent
      refine ⟨sound.quiet (quiet_set_only le_rfl fun _ => ⟨rfl, rfl⟩) (by simp),
        fun halted => ⟨halted, rfl⟩⟩
    · have unrefused : ¬ error.Refused := fun refusal => permanent (recognised refusal)
      rw [reEnrolledAt_transient permanent unrefused]
      refine ⟨sound.quiet (quiet_set rfl (fun _ => rfl) (by simp) known fun _ => trivial)
        (by simp), fun halted => ⟨halted, ?_⟩⟩
      exact (attempts_append _ _).trans (List.append_nil _)
  | none => exact sound.commits there (.inr place) (.inr rfl) rfl rfl rfl

theorem Sound.step (sound : Sound file a) (orderly : Orderly a event)
    (stepped : a.step event = some b) :
    Sound file b ∧ (a.Halted → b.Halted ∧ attempts b.log = attempts a.log) := by
  cases event with
  | rotateOnce now read =>
    cases stepped
    obtain ⟨rfl, running⟩ := orderly
    have quiet := @quiet_enter a .saveRotating
      { a.load true with phase := .rotating, lastAttemptAt := some now }
      ⟨by simp, by simp, rfl, running⟩
    exact ⟨sound.quiet quiet (by simp), fun halted => absurd halted running⟩
  | checkAndRecover cert read =>
    cases cert with
    | missing error =>
      cases stepped
      obtain rfl : read = true := orderly
      have quiet := @quiet_enter a (.saveHalted false) (a.halting true "no-cert" error)
        ⟨rfl, rfl⟩
      exact ⟨sound.quiet quiet (by simp), fun halted => ⟨halted, rfl⟩⟩
    | valid =>
      cases stepped
      exact ⟨sound, fun halted => ⟨halted, rfl⟩⟩
    | expired =>
      cases stepped
      obtain ⟨rfl, running⟩ := orderly
      have quiet := @quiet_enter a .saveRecovering
        { a.load true with phase := .recovering } ⟨by simp, by simp, rfl, running⟩
      exact ⟨sound.quiet quiet (by simp), fun halted => absurd halted running⟩
  | rotated index error =>
    obtain ⟨call, there, goes⟩ := Option.bind_eq_some_iff.mp stepped
    split at goes
    · next place =>
      cases goes
      exact sound.rotated there place orderly
    · cases goes
  | reEnrolled index error read =>
    obtain ⟨call, there, goes⟩ := Option.bind_eq_some_iff.mp stepped
    split at goes
    · next place =>
      cases goes
      exact sound.reEnrolled there place orderly
    · cases goes
  | save index ok =>
    obtain ⟨call, there, goes⟩ := Option.bind_eq_some_iff.mp stepped
    obtain ⟨rfl, seen⟩ := orderly
    exact sound.save there (seen call there) goes

/-- In every orderly run refusals halt the agent, HALTED is final, the file counts the failed
rotations, and NORMAL is recorded by the last attempt once it has committed. -/
theorem halted_recovery_kept {events : List Event}
    (reached : run Agent.step (.initial file) events = some a)
    (met : Meets Agent.step Orderly (.initial file) events) :
    HaltSafe file a ∧ StaysHalted events file a := by
  have keep : ∀ s event t, Sound file s → Orderly s event → s.step event = some t →
      Sound file t := fun s event t sound orderly stepped => (sound.step orderly stepped).1
  have sound := run_keeps keep (sound_initial file) reached met
  refine ⟨sound.toHaltSafe, ?_⟩
  rintro before after b rfl between halted
  obtain ⟨first, second⟩ := meets_append between met
  have later : run Agent.step b after = some a := by
    rw [run_append, between] at reached
    exact reached
  have stays := @run_keeps _ _ Agent.step Orderly
    (fun s => Sound file s ∧ s.Halted ∧ attempts s.log = attempts b.log)
    (fun s event t holds orderly stepped => by
      obtain ⟨here, still, same⟩ := holds
      obtain ⟨next, halts⟩ := here.step orderly stepped
      exact ⟨next, (halts still).1, (halts still).2.trans same⟩)
    _ _ _ ⟨run_keeps keep (sound_initial file) between first, halted, rfl⟩ later second
  exact stays.2

section Example

def goneHost : ReEnrollError := .status "reenroll rpc" .notFound "host NOT_FOUND"

def mismatch : ReEnrollError := .status "reenroll rpc" .permissionDenied "signing_pubkey mismatch"

def halts : List Event :=
  [.rotateOnce 7 true, .save 0 true, .rotated 0 (some "await-issue"), .save 0 true,
    .checkAndRecover .expired true, .save 1 true, .reEnrolled 1 (some goneHost) true,
    .save 1 true]

theorem agent_halts : ∃ a, run Agent.step (.initial .absent) halts = some a ∧ a.Halted ∧
    HaltSafe .absent a ∧ StaysHalted halts .absent a := by
  have reached := (@Option.some_get _ (run Agent.step (.initial .absent) halts)
    (by decide +kernel)).symm
  exact ⟨_, reached, by decide +kernel, halted_recovery_kept reached (by decide +kernel)⟩

def forced : List Event := halts ++ [.rotateOnce 9 true, .save 2 true]

def failsTwice : List Event :=
  [.rotateOnce 7 true, .save 0 true, .rotateOnce 8 true, .save 1 true,
    .rotated 0 (some "send"), .save 0 true, .rotated 1 (some "send"), .save 1 true]

theorem recovery_lost :
    (∃ a, run Agent.step (.initial .absent) [.checkAndRecover .expired true, .save 0 true,
      .reEnrolled 0 (some mismatch) true] = some a ∧ ¬ HaltSafe .absent a) ∧
    (∃ a, run Agent.step (.initial .absent) forced = some a ∧ ¬ StaysHalted forced .absent a) ∧
    (∃ a, run Agent.step (.initial .absent) failsTwice = some a ∧ ¬ HaltSafe .absent a) := by
  refine ⟨⟨_, (Option.some_get (by decide +kernel)).symm, ?_⟩,
    ⟨_, (Option.some_get (by decide +kernel)).symm, ?_⟩,
    ⟨_, (Option.some_get (by decide +kernel)).symm, ?_⟩⟩
  · intro safe
    have halted := safe.refused (by decide +kernel)
    revert halted
    decide +kernel
  · intro stays
    have halted := (@Option.some_get _ (run Agent.step (.initial .absent) halts)
      (by decide +kernel)).symm
    have still := stays halts [.rotateOnce 9 true, .save 2 true] _ rfl halted (by decide +kernel)
    revert still
    decide +kernel
  · intro safe
    have counted := safe.counted
    revert counted
    decide +kernel

end Example

end HlHelper.Recovery
