import HlHelper.Audit.Integrity
import HlHelper.Dispatch.Queue

/-! What a session had written when `SqlAuditChain.append` or `CommandQueue.enqueue`
met a uniqueness conflict, and what is left of it when the call returns. -/

namespace HlHelper.Audit

open HlHelper.Library

variable {ω : Type} {sha : Sha256} {backend : SigningBackend} {interval : Int}
  {w next : World ω} {i j : SessionId}

def Event.session : Event ω → SessionId
  | .read i _ _ | .flush i | .readAgain i _ | .checkpoint i _ _ _ | .fail i | .resume i
  | .write i _ | .commit i | .rollback i => i

/-- The call of `append` in session `i` is not over with this event. -/
def Event.Within (i : SessionId) : Event ω → Prop
  | .resume j | .rollback j => j ≠ i
  | _ => True

theorem own_moveTo (pc : Pc) : (w.moveTo i pc).own j = w.own j := rfl

theorem own_add (w : World ω) (i j : SessionId) (write : Write ω) :
    (w.add i write).own j = w.own j ++ if j = i then [write] else [] := by
  rw [World.own, World.own, World.add, List.filter_append, List.map_append]
  congr 1
  by_cases same : j = i
  · subst same
    simp
  · have other : i ≠ j := fun equal => same equal.symm
    simp [same, other]

theorem step_other {event : Event ω} (other : i ≠ event.session)
    (stepped : step sha backend interval w event = some next) :
    next.own i = w.own i ∧ next.pc i = w.pc i := by
  have discarded : (w.discard event.session).own i = w.own i := by
    rw [own_discard, if_neg other]
  have added : ∀ (v : World ω) (write : Write ω), (v.add event.session write).own i = v.own i := by
    intro v write
    rw [own_add, if_neg other, List.append_nil]
  have moved : ∀ (pcs : SessionId → Pc) (pc : Pc),
      Function.update pcs event.session pc i = pcs i :=
    fun pcs pc => Function.update_of_ne other pc pcs
  cases stepped_of_step stepped with
  | read idle readable => exact ⟨rfl, moved _ _⟩
  | conflict ready taken => exact ⟨discarded, moved _ _⟩
  | insert ready fresh free => exact ⟨added _ _, moved _ _⟩
  | readAgain retry readable => exact ⟨rfl, moved _ _⟩
  | checkpoint flushed readable newest => exact ⟨added _ _, moved _ _⟩
  | uncheckpointed flushed => exact ⟨rfl, moved _ _⟩
  | fail => exact ⟨rfl, moved _ _⟩
  | resume => exact ⟨rfl, moved _ _⟩
  | write idle => exact ⟨added _ _, rfl⟩
  | commit idle => exact ⟨discarded, rfl⟩
  | rollback => exact ⟨discarded, moved _ _⟩

/-- What a session has flushed while its call of `append` recovers from a conflict:
nothing of its caller's. -/
def Recovering (own : List (Write ω)) : Pc → Prop
  | .retry _ => own = []
  | .ready _ _ retried => retried = true ∧ own = []
  | .flushed _ | .returned _ => ∀ write ∈ own, write.asOther = none
  | .raised => True
  | .idle => False

theorem recovering_moveTo {pc : Pc} :
    Recovering ((w.moveTo i pc).own i) ((w.moveTo i pc).pc i) ↔ Recovering (w.own i) pc := by
  rw [own_moveTo, show (w.moveTo i pc).pc i = pc from Function.update_self ..]

theorem step_recovering_own {event : Event ω} (within : event.Within event.session)
    (recovering : Recovering (w.own event.session) (w.pc event.session))
    (stepped : step sha backend interval w event = some next) :
    Recovering (next.own event.session) (next.pc event.session) := by
  cases stepped_of_step stepped with
  | read idle readable =>
    simp only [Event.session, idle] at recovering
    exact recovering.elim
  | conflict ready taken =>
    simp only [Event.session, ready] at recovering
    obtain ⟨rfl, empty⟩ := recovering
    exact recovering_moveTo.mpr trivial
  | @insert j args entry retried ready fresh free =>
    simp only [Event.session, ready] at recovering
    have own : (w.add j (.entry entry)).own j = [.entry entry] := by
      rw [own_add, if_pos rfl, recovering.2, List.nil_append]
    apply recovering_moveTo.mpr
    rw [own, afterFlush]
    split_ifs
    · trivial
    · simp [Recovering, Write.asOther]
    · simp [Recovering, Write.asOther]
  | readAgain retry readable =>
    simp only [Event.session, retry] at recovering
    exact recovering_moveTo.mpr ⟨rfl, recovering⟩
  | checkpoint flushed readable newest =>
    simp only [Event.session, flushed] at recovering
    apply recovering_moveTo.mpr
    rw [own_add]
    intro write member
    rcases List.mem_append.mp member with earlier | new
    · exact recovering write earlier
    · rw [if_pos rfl, List.mem_singleton] at new
      rw [new]
      rfl
  | uncheckpointed flushed => exact recovering_moveTo.mpr trivial
  | fail => exact recovering_moveTo.mpr trivial
  | resume => exact absurd rfl within
  | write idle =>
    simp only [Event.session, idle] at recovering
    exact recovering.elim
  | commit idle =>
    simp only [Event.session, idle] at recovering
    exact recovering.elim
  | rollback => exact absurd rfl within

theorem step_recovering {event : Event ω} (within : event.Within i)
    (recovering : Recovering (w.own i) (w.pc i))
    (stepped : step sha backend interval w event = some next) :
    Recovering (next.own i) (next.pc i) := by
  by_cases mine : i = event.session
  · subst mine
    exact step_recovering_own within recovering stepped
  · obtain ⟨own, pc⟩ := step_other mine stepped
    rw [own, pc]
    exact recovering

theorem Sound.conflict_own (sound : Sound sha backend w) {args : Args} {entry : AuditEntry}
    {retried : Bool} (ready : w.pc i = .ready args entry retried)
    (taken : entry.sequence ∈ w.entries.map AuditEntry.sequence) :
    ∀ write ∈ w.own i, ∃ row, write = .other row := by
  have none : w.ownEntries i = [] := by
    by_contra some
    obtain ⟨k, _, all, rfl⟩ := sound.prepared i args entry retried ready
    obtain ⟨sequence, _⟩ := (sound.view_chained all).nextEntry args
    rw [sequence, all some, sound.view_eq some, List.length_append,
      sound.committed.mem_sequences] at taken
    omega
  intro write member
  cases write with
  | entry row =>
    have mine : row ∈ w.ownEntries i := List.mem_filterMap.mpr ⟨.entry row, member, rfl⟩
    rw [none] at mine
    cases mine
  | checkpoint row =>
    exact absurd none (sound.pendingCovered (i, .checkpoint row) (mem_own.mp member) row rfl).1
  | other row => exact ⟨row, rfl⟩

theorem resume_commit_others {committed : World ω} {head : AuditEntry}
    (returned : w.pc i = .returned head)
    (commits : run (step sha backend interval) w [.resume i, .commit i] = some committed) :
    committed.others = w.others ++ (w.own i).filterMap Write.asOther := by
  have resumed : step sha backend interval w (.resume i) = some (w.moveTo i .idle) := by
    simp only [step, returned]
  obtain ⟨idle, first, rest⟩ := run_cons_eq_some.mp commits
  obtain rfl : w.moveTo i .idle = idle := Option.some.inj (resumed.symm.trans first)
  obtain ⟨done, second, last⟩ := run_cons_eq_some.mp rest
  obtain rfl : done = committed := by simpa [run] using last
  have committing : step sha backend interval (w.moveTo i .idle) (.commit i) =
      some ((w.moveTo i .idle).commit i) := by
    simp [step, World.moveTo]
  obtain rfl := Option.some.inj (committing.symm.trans second)
  rfl

/-- When `append` or `enqueue` meets a conflict and returns normally, nothing that the
session had written is left in the transaction or persisted by its commit. -/
theorem conflict_loses_pending_writes :
    (∀ (earlier later : List (Event ω)) (w after returned committed : World ω) (i : SessionId)
        (args : Args) (entry head : AuditEntry),
      run (step sha backend interval) World.empty earlier = some w →
      w.pc i = .ready args entry false →
      entry.sequence ∈ w.entries.map AuditEntry.sequence →
      step sha backend interval w (.flush i) = some after →
      run (step sha backend interval) after later = some returned →
      (∀ event ∈ later, event.Within i) →
      returned.pc i = .returned head →
      run (step sha backend interval) returned [.resume i, .commit i] = some committed →
      (∀ write ∈ w.own i, write ∉ returned.own i) ∧ committed.others = returned.others) ∧
    (∀ (capacity : Nat) (session next : Dispatch.Session) (cache cached : Dispatch.Cache)
        (command enqueued : Command) (key : String) (racing : List Command)
        (error : Dispatch.DispatchError),
      ¬ Dispatch.Answered key session.tables cache →
      (session.othersCommit racing).flushCommand { command with idempotencyKey := some key } =
        .error error →
      Dispatch.enqueue capacity session cache command (some key) racing =
        .ok (enqueued, next, cached) →
      ∀ row, (session.othersCommit racing).Pending row →
        ¬ next.tables.Holds row ∧ ¬ next.commit.committed.Holds row) := by
  refine ⟨?_, ?_⟩
  · intro earlier later w after returned committed i args entry head reached ready taken flushed
      ran within finished commits
    have sound := run_sound reached
    simp only [step, ready] at flushed
    rcases flushEntry_eq_some.mp flushed with ⟨_, rfl⟩ | ⟨fresh, _⟩
    · have started : Recovering (((w.discard i).moveTo i (.retry args)).own i)
          (((w.discard i).moveTo i (.retry args)).pc i) := by
        rw [recovering_moveTo, own_discard, if_pos rfl]
        rfl
      have keep : ∀ (before : World ω) (event : Event ω) (later : World ω),
          Recovering (before.own i) (before.pc i) → event.Within i →
          step sha backend interval before event = some later →
          Recovering (later.own i) (later.pc i) :=
        fun _ _ _ holds allowed stepped => step_recovering allowed holds stepped
      have recovering := run_keeps keep started ran (meets_of_forall within _)
      rw [finished] at recovering
      refine ⟨?_, ?_⟩
      · intro write member still
        obtain ⟨row, rfl⟩ := sound.conflict_own ready taken write member
        exact absurd (recovering _ still) (by simp [Write.asOther])
      · rw [resume_commit_others finished commits, List.filterMap_eq_nil_iff.mpr recovering,
          List.append_nil]
    · exact absurd taken fresh
  · intro capacity session next cache cached command enqueued key racing error unanswered conflict
      returned row pending
    exact Dispatch.enqueue_conflict_drops unanswered conflict returned pending

def storedResult : Result := ⟨"r1", "c1", "h1", 1, .ok⟩

def acceptArgs : Args := ⟨"h1", "result.accept", some "c1", .obj [], ⟨2026, 1, 2, 3, 4, 5, 0⟩⟩

def raceForEntry : List (Event Result) :=
  [.write 1 storedResult, .read 1 0 acceptArgs,
    .read 0 0 { acceptArgs with actor := "operator", action := "task.created" },
    .flush 0, .resume 0, .commit 0]

/-- The result is lost although the call returns and the session commits: the log
has the acceptance of a result that is not there. -/
theorem append_conflict_loses_result :
    (∃ w, run (step Sha256.head plainBackend 100) World.empty raceForEntry = some w ∧
      (w.own 1).filterMap Write.asOther = [storedResult]) ∧
    ∃ w, run (step Sha256.head plainBackend 100) World.empty
        (raceForEntry ++ [.flush 1, .readAgain 1 1, .flush 1, .resume 1, .commit 1]) = some w ∧
      w.entries.map AuditEntry.action = ["task.created", "result.accept"] ∧ w.others = [] := by
  have before : (run (step Sha256.head plainBackend 100) World.empty raceForEntry).map
      (fun w => (w.own 1).filterMap Write.asOther) = some [storedResult] := by
    decide +kernel
  have later : (run (step Sha256.head plainBackend 100) World.empty
      (raceForEntry ++ [.flush 1, .readAgain 1 1, .flush 1, .resume 1, .commit 1])).map
      (fun w => (w.entries.map AuditEntry.action, w.others)) =
        some (["task.created", "result.accept"], []) := by
    decide +kernel
  obtain ⟨w, reached, rows⟩ := Option.map_eq_some_iff.mp later
  exact ⟨Option.map_eq_some_iff.mp before, w, reached, Prod.mk.inj rows⟩

theorem race_loses_pending_result :
    ∃ w returned : World Result, .other storedResult ∈ w.own 1 ∧
      ∀ write ∈ w.own 1, write ∉ returned.own 1 := by
  have lost := (@conflict_loses_pending_writes Result .head plainBackend 100).1 raceForEntry
    [.readAgain 1 1, .flush 1] _ _ _ _ 1 acceptArgs _ _ rfl rfl (by decide) rfl rfl
    (by simp [Event.Within]) rfl rfl
  exact ⟨_, _, List.Mem.head [], lost.1⟩

end HlHelper.Audit
