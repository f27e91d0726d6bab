import HlHelper.Library.Machine
import Mathlib.Data.List.DropRight

/-! Guards that count failures from the first of a window on, against the failures that a window
before an attempt contains. -/

namespace HlHelper.Library

inductive Outcome where
  | refused
  | accepted
  | wrong (time : Int)
  deriving DecidableEq, Repr

/-- An attempt, with the time at which it fails if it is not right. -/
structure Attempt where
  now : Int
  right : Bool
  failed : Int
  deriving DecidableEq, Repr

/-- How many failures in a window refuse an attempt, the length of the window, and whether a
success clears the count. -/
structure FailureWindow where
  limit : Nat
  length : Int
  clears : Bool

def failures (outcomes : List Outcome) : List Int :=
  outcomes.filterMap fun
    | .wrong time => some time
    | _ => none

def failuresSince (outcomes : List Outcome) : List Int :=
  failures (outcomes.rtakeWhile (· ≠ .accepted))

structure Reading (seen : List Outcome → List Int) : Prop where
  nil : seen [] = []
  refused : ∀ outcomes, seen (outcomes ++ [.refused]) = seen outcomes
  wrong : ∀ outcomes time, seen (outcomes ++ [.wrong time]) = seen outcomes ++ [time]
  accepted : ∀ outcomes, (seen (outcomes ++ [.accepted])).Sublist (seen outcomes)

theorem reading_failures : Reading failures where
  nil := rfl
  refused outcomes := by simp [failures]
  wrong outcomes time := by simp [failures]
  accepted outcomes := by simp [failures]

theorem reading_failuresSince : Reading failuresSince where
  nil := rfl
  refused outcomes := by
    rw [failuresSince, List.rtakeWhile_concat_pos _ _ _ (by decide), reading_failures.refused]
    rfl
  wrong outcomes time := by
    rw [failuresSince, List.rtakeWhile_concat_pos _ _ _ (by simp), reading_failures.wrong]
    rfl
  accepted outcomes := by
    rw [failuresSince, List.rtakeWhile_concat_neg _ _ _ (by decide)]
    exact List.nil_sublist _

namespace FailureWindow

variable (window : FailureWindow)

/-- The number of failures in a window, with the time of the first one. -/
abbrev Tally := Option (Nat × Int)

def count (tally : Tally) : Nat := (tally.map Prod.fst).getD 0

def Over (tally : Tally) (time : Int) : Prop := ∃ first ∈ tally, first.2 + window.length ≤ time

instance (tally : Tally) (time : Int) : Decidable (window.Over tally time) :=
  inferInstanceAs (Decidable (∃ _ ∈ _, _))

def live (tally : Tally) (time : Int) : Tally := if window.Over tally time then none else tally

def fail (tally : Tally) (time : Int) : Tally :=
  match window.live tally time with
  | none => some (1, time)
  | some (count, first) => some (count + 1, first)

def Refuses (tally : Tally) (attempt : Attempt) : Prop :=
  window.limit ≤ count (window.live tally attempt.now)

instance (tally : Tally) (attempt : Attempt) : Decidable (window.Refuses tally attempt) :=
  inferInstanceAs (Decidable (_ ≤ _))

def step (tally : Tally) (attempt : Attempt) : Tally × Outcome :=
  if window.Refuses tally attempt then (tally, .refused)
  else if attempt.right then
    (if window.clears then none else window.live tally attempt.now, .accepted)
  else (window.fail (window.live tally attempt.now) attempt.failed, .wrong attempt.failed)

def young (times : List Int) (now : Int) : Nat := times.countP (now < · + window.length)

/-- Behind an attempt no failure of the last window is forgotten: neither is the window of the
tally over before it, nor does a success clear it. -/
structure Remembers (seen : List Outcome → List Int) (s : Tally × List Outcome)
    (attempt : Attempt) : Prop where
  before : window.Over s.1 attempt.now → window.young (seen s.2) attempt.now = 0
  within : ¬ window.Refuses s.1 attempt → attempt.right = false →
    window.Over s.1 attempt.failed → window.young (seen s.2) attempt.failed = 0
  success : ¬ window.Refuses s.1 attempt → attempt.right = true → window.clears = true →
    window.young (seen (s.2 ++ [.accepted])) attempt.now = 0

instance (seen : List Outcome → List Int) (s : Tally × List Outcome) (attempt : Attempt) :
    Decidable (window.Remembers seen s attempt) :=
  decidable_of_iff (_ ∧ _ ∧ _)
    ⟨fun all => ⟨all.1, all.2.1, all.2.2⟩, fun all => ⟨all.before, all.within, all.success⟩⟩

def Ordered (attempts : List Attempt) : Prop :=
  (∀ attempt ∈ attempts, attempt.now ≤ attempt.failed) ∧
    attempts.Pairwise (·.failed ≤ ·.now)

instance (attempts : List Attempt) : Decidable (Ordered attempts) :=
  inferInstanceAs (Decidable (_ ∧ _))

variable {window} {seen : List Outcome → List Int} {tally : Tally} {attempt : Attempt}
  {attempts : List Attempt} {outcomes : List Outcome} {times : List Int} {now later : Int}

theorem young_concat_le (time : Int) :
    window.young (times ++ [time]) now ≤ window.young times now + 1 := by
  unfold young
  rw [List.countP_append, Nat.add_le_add_iff_left]
  exact List.countP_le_length

theorem young_le_of_le (forward : now ≤ later) :
    window.young times later ≤ window.young times now := by
  apply List.countP_mono_left
  intro time _ still
  have still := of_decide_eq_true still
  exact decide_eq_true (Int.lt_of_le_of_lt forward still)

theorem young_le_live (counted : window.young times now ≤ count tally)
    (remembers : window.Over tally now → window.young times now = 0) :
    window.young times now ≤ count (window.live tally now) := by
  unfold live
  split
  · next ended => exact (remembers ended).le
  · exact counted

theorem count_fail (tally : Tally) (time : Int) :
    count (window.fail tally time) = count (window.live tally time) + 1 := by
  unfold fail
  cases window.live tally time with
  | none => rfl
  | some found => rfl

theorem over_of_over_live (ended : window.Over (window.live tally now) later) :
    window.Over tally later := by
  unfold live at ended
  split at ended
  · exact absurd ended nofun
  · exact ended

theorem not_over_live (tally : Tally) (time : Int) :
    ¬ window.Over (window.live tally time) time := by
  unfold live
  split
  · exact nofun
  · assumption

theorem young_le_step (reading : Reading seen) (forward : attempt.now ≤ attempt.failed)
    (counted : window.young (seen outcomes) attempt.now ≤ count tally)
    (remembers : window.Remembers seen (tally, outcomes) attempt)
    (due : attempt.failed ≤ later) :
    window.young (seen (outcomes ++ [(window.step tally attempt).2])) later ≤
      count (window.step tally attempt).1 := by
  have live := young_le_live counted remembers.before
  have early := Int.le_trans forward due
  unfold step
  split
  case isTrue refuses =>
    rw [reading.refused]
    exact (young_le_of_le early).trans counted
  case isFalse passes =>
    split
    case isTrue right =>
      split
      case isTrue clears =>
        exact (young_le_of_le early).trans (remembers.success passes right clears).le
      case isFalse =>
        calc
          _ ≤ window.young (seen outcomes) later := (reading.accepted outcomes).countP_le
          _ ≤ window.young (seen outcomes) attempt.now := young_le_of_le early
          _ ≤ _ := live
    case isFalse wrong =>
      have still : window.young (seen outcomes) attempt.failed ≤
          count (window.live (window.live tally attempt.now) attempt.failed) := by
        apply young_le_live ((young_le_of_le forward).trans live)
        exact fun ended => remembers.within passes (Bool.eq_false_iff.mpr wrong)
          (over_of_over_live ended)
      rw [reading.wrong, count_fail]
      calc
        _ ≤ window.young (seen outcomes) later + 1 := young_concat_le _
        _ ≤ window.young (seen outcomes) attempt.failed + 1 :=
          Nat.add_le_add_right (young_le_of_le due) 1
        _ ≤ _ := Nat.add_le_add_right still 1

theorem ordered_concat (ordered : Ordered (attempts ++ [attempt])) :
    Ordered attempts ∧ attempt.now ≤ attempt.failed ∧
      ∀ earlier ∈ attempts, earlier.failed ≤ attempt.now := by
  obtain ⟨forward, apart⟩ := ordered
  obtain ⟨first, _, between⟩ := List.pairwise_append.mp apart
  exact ⟨⟨fun earlier member => forward earlier (List.mem_append_left _ member), first⟩,
    forward attempt List.mem_concat_self,
    fun earlier member => between earlier member attempt (List.mem_singleton_self attempt)⟩

theorem young_le_count (reading : Reading seen) (ordered : Ordered attempts)
    (met : Meets (logged window.step) (window.Remembers seen) (none, []) attempts)
    (due : ∀ attempt ∈ attempts, attempt.failed ≤ later) :
    window.young (seen (answers window.step none attempts)) later ≤
      count (after window.step none attempts) := by
  induction attempts using List.reverseRecOn generalizing later with
  | nil =>
    change window.young (seen []) later ≤ 0
    rw [reading.nil]
    exact Nat.le_refl 0
  | append_singleton attempts attempt ih =>
    obtain ⟨earlier, forward, behind⟩ := ordered_concat ordered
    obtain ⟨before, remembers⟩ := meets_logged_concat met
    rw [after_concat, answers_concat]
    exact young_le_step reading forward (ih earlier before behind) remembers
      (due attempt List.mem_concat_self)

theorem refused_of_young (reading : Reading seen) (ordered : Ordered (attempts ++ [attempt]))
    (met : Meets (logged window.step) (window.Remembers seen) (none, []) (attempts ++ [attempt]))
    (many : window.limit ≤
      window.young (seen (answers window.step none attempts)) attempt.now) :
    (window.step (after window.step none attempts) attempt).2 = .refused := by
  obtain ⟨earlier, _, behind⟩ := ordered_concat ordered
  obtain ⟨before, remembers⟩ := meets_logged_concat met
  have refuses : window.Refuses (after window.step none attempts) attempt :=
    many.trans (young_le_live (young_le_count reading earlier before behind) remembers.before)
  rw [step, if_pos refuses]

theorem eq_failed_of_wrong {time : Int} (own : (window.step tally attempt).2 = .wrong time) :
    time = attempt.failed := by
  unfold step at own
  split at own
  · cases own
  · split at own
    · cases own
    · exact (Outcome.wrong.inj own).symm

theorem countP_le_young {start : Int} (inside : now < start + window.length) :
    times.countP (fun time => start ≤ time ∧ time < start + window.length) ≤
      window.young times now := by
  apply List.countP_mono_left
  intro time _ between
  have between := of_decide_eq_true between
  apply decide_eq_true
  omega

theorem failures_within (ordered : Ordered attempts)
    (met : Meets (logged window.step) (window.Remembers failures) (none, []) attempts)
    (start : Int) :
    (failures (answers window.step none attempts)).countP
      (fun time => start ≤ time ∧ time < start + window.length) ≤ window.limit := by
  induction attempts using List.reverseRecOn with
  | nil => exact Nat.zero_le _
  | append_singleton attempts attempt ih =>
    obtain ⟨earlier, forward, behind⟩ := ordered_concat ordered
    have bounded := ih earlier (meets_logged_concat met).1
    have refused := refused_of_young reading_failures ordered met
    rw [answers_concat]
    cases own : (window.step (after window.step none attempts) attempt).2 with
    | refused => rwa [reading_failures.refused]
    | accepted => exact ((reading_failures.accepted _).countP_le).trans bounded
    | wrong time =>
      obtain rfl := eq_failed_of_wrong own
      rw [reading_failures.wrong, List.countP_append]
      by_cases inside : start ≤ attempt.failed ∧ attempt.failed < start + window.length
      case neg => simpa [inside] using bounded
      case pos =>
        have room : ¬ window.limit ≤ window.young
            (failures (answers window.step none attempts)) attempt.now := fun many =>
          absurd (own.symm.trans (refused many)) nofun
        have young := @countP_le_young window
          (failures (answers window.step none attempts)) attempt.now start (by omega)
        have last : [attempt.failed].countP
            (fun time => start ≤ time ∧ time < start + window.length) ≤ 1 :=
          List.countP_le_length
        omega

structure Guard (window : FailureWindow) (σ α : Type*) where
  step : σ → α → σ × Outcome
  tally : σ → Tally
  attempt : α → Attempt
  same : ∀ s call, (tally (step s call).1, (step s call).2) = window.step (tally s) (attempt call)

namespace Guard

variable {σ α : Type*} (guard : window.Guard σ α)

def Remembers (seen : List Outcome → List Int) (s : σ × List Outcome) (call : α) : Prop :=
  window.Remembers seen (guard.tally s.1, s.2) (guard.attempt call)

instance (s : σ × List Outcome) (call : α) : Decidable (guard.Remembers seen s call) :=
  inferInstanceAs (Decidable (window.Remembers _ _ _))

variable {guard} {s : σ} {before rest : List α} {call : α} {calls : List α}

theorem refused (reading : Reading seen) (fresh : guard.tally s = none)
    (ordered : Ordered ((before ++ call :: rest).map guard.attempt))
    (met : Meets (logged guard.step) (guard.Remembers seen) (s, []) (before ++ call :: rest))
    (many : window.limit ≤
      window.young (seen (answers guard.step s before)) (guard.attempt call).now) :
    (guard.step (after guard.step s before) call).2 = .refused := by
  rw [List.append_cons] at met ordered
  obtain ⟨answered, reached⟩ := answers_eq_view guard.same s before
  have met := meets_logged_view guard.same (meets_append (run_logged _ _ _ _) met).1
  rw [List.map_append] at met
  rw [List.map_append, List.map_append] at ordered
  rw [answered] at many
  rw [fresh] at many met reached
  calc
    _ = (window.step (guard.tally (after guard.step s before)) (guard.attempt call)).2 :=
      congrArg Prod.snd (guard.same _ call)
    _ = (window.step (after window.step none (before.map guard.attempt)) (guard.attempt call)).2 :=
      by rw [reached]
    _ = .refused := refused_of_young reading
      ⟨fun attempt member => ordered.1 attempt (List.mem_append_left _ member),
        (List.pairwise_append.mp ordered.2).1⟩ met many

theorem within_limit (fresh : guard.tally s = none) (ordered : Ordered (calls.map guard.attempt))
    (met : Meets (logged guard.step) (guard.Remembers failures) (s, []) calls) (start : Int) :
    (failures (answers guard.step s calls)).countP
      (fun time => start ≤ time ∧ time < start + window.length) ≤ window.limit := by
  have met := meets_logged_view guard.same met
  rw [(answers_eq_view guard.same s calls).1]
  rw [fresh] at met ⊢
  exact failures_within ordered met start

end Guard

end FailureWindow

end HlHelper.Library
