import HlHelper.Library.FailureWindow
import HlHelper.Mfa.OneTime
import HlHelper.Mfa.Recovery

/-! How many wrong codes a user can try: `verify` and `consume`, one call after the other. -/

namespace HlHelper.Mfa

open HlHelper.Library

/-- A minute before an attempt, enough wrong codes behind the last success refuse it. -/
def Refuses {σ α : Type} (step : σ → α → σ × Outcome) (now : α → Int) (limit : Nat) (s : σ)
    (calls : List α) : Prop :=
  ∀ before call rest, calls = before ++ call :: rest →
    limit ≤ (failuresSince (answers step s before)).countP (now call < · + 60 * 1000000) →
    (step (after step s before) call).2 = .refused

def Within {σ α : Type} (step : σ → α → σ × Outcome) (limit : Nat) (s : σ) (calls : List α) :
    Prop :=
  ∀ start, (failures (answers step s calls)).countP
    (fun time => start ≤ time ∧ time < start + 60 * 1000000) ≤ limit

/-- A call of `verify`: the row that it selects, and the clock in `cooldown_check`, for the step,
in pyotp and in `_track_failure`. -/
structure VerifyCall where
  row : Option TotpSecret
  code : String
  now : Int
  read : Int
  checked : Int
  tracked : Int
  deriving DecidableEq, Repr

def VerifyCall.phase (totp : Totp) (call : VerifyCall) : Phase :=
  answer totp .verify call.code call.read call.checked call.row

def verify (totp : Totp) (tracker : Option (Nat × Int)) (call : VerifyCall) :
    Option (Nat × Int) × Outcome :=
  match cooldownCheck tracker call.now with
  | none => (tracker, .refused)
  | some tracker =>
    match call.phase totp with
    | .returned false => (some (trackFailure tracker call.tracked), .wrong call.tracked)
    | _ => (tracker, .accepted)

def VerifyCall.attempt (totp : Totp) (call : VerifyCall) : Attempt :=
  ⟨call.now, decide (call.phase totp ≠ .returned false), call.tracked⟩

def totpWindow : FailureWindow := ⟨5, 60 * 1000000, false⟩

section Totp

variable {totp : Totp} {calls : List VerifyCall}

theorem over_totpWindow (count : Nat) (first now : Int) :
    totpWindow.Over (some (count, first)) now ↔ ¬ now - first < 60 * 1000000 := by
  have late : first + 60 * 1000000 ≤ now ↔ ¬ now - first < 60 * 1000000 := by omega
  unfold FailureWindow.Over
  simpa [totpWindow] using late

theorem cooldownCheck_eq (tracker : Option (Nat × Int)) (attempt : Attempt) :
    cooldownCheck tracker attempt.now =
      if totpWindow.Refuses tracker attempt then none
      else some (totpWindow.live tracker attempt.now) := by
  unfold cooldownCheck FailureWindow.Refuses FailureWindow.live
  cases tracker with
  | none => rfl
  | some found =>
    obtain ⟨count, first⟩ := found
    simp only [over_totpWindow]
    by_cases inside : attempt.now - first < 60 * 1000000
    · simp only [if_pos inside, if_neg (not_not.mpr inside)]
      rfl
    · simp only [if_neg inside, if_pos inside]
      rfl

theorem trackFailure_eq (tracker : Option (Nat × Int)) (now : Int) :
    some (trackFailure tracker now) = totpWindow.fail tracker now := by
  unfold trackFailure FailureWindow.fail FailureWindow.live
  cases tracker with
  | none => rfl
  | some found =>
    obtain ⟨count, first⟩ := found
    simp only [over_totpWindow]
    by_cases inside : now - first < 60 * 1000000
    · simp only [if_pos inside, if_neg (not_not.mpr inside)]
    · simp only [if_neg inside, if_pos inside]

theorem verify_eq_step (tracker : Option (Nat × Int)) (call : VerifyCall) :
    verify totp tracker call = totpWindow.step tracker (call.attempt totp) := by
  unfold verify FailureWindow.step
  rw [show call.now = (call.attempt totp).now from rfl, cooldownCheck_eq]
  by_cases refuses : totpWindow.Refuses tracker (call.attempt totp)
  · simp only [if_pos refuses]
  · simp only [if_neg refuses]
    by_cases wrong : call.phase totp = .returned false
    · simp only [VerifyCall.attempt, wrong, trackFailure_eq]
      rfl
    · simp [VerifyCall.attempt, wrong, totpWindow]

/-- The steps of a call that is alone, up to what it does to the tracker. -/
def VerifyCall.steps (call : VerifyCall) (service index : Nat) (tracker : Option (Nat × Int)) :
    List Step :=
  .start service .verify call.code call.now ::
    if cooldownCheck tracker call.now = none then []
    else [.select index, .resume index call.read call.checked call.tracked]

/-- In the server a call that is alone does to the tracker what `verify` does. -/
theorem run_steps (s : Server) (service : Nat) (call : VerifyCall) (row : s.row = call.row)
    (started : s.clock ≤ call.now)
    (forward : call.now ≤ call.read ∧ call.read ≤ call.checked ∧ call.checked ≤ call.tracked) :
    ∃ t, run (Server.step totp) s (call.steps service s.calls.length (s.trackers service)) =
        some t ∧
      t.trackers = Function.update s.trackers service
        (verify totp (s.trackers service) call).1 := by
  unfold VerifyCall.steps verify
  cases checked : cooldownCheck (s.trackers service) call.now with
  | none => simp [run, Server.step, started, checked]
  | some tracker =>
    by_cases wrong : call.phase totp = .returned false
    all_goals
      have phase := wrong
      unfold VerifyCall.phase at phase
      rw [← row] at phase
      simp [run, Server.step, Server.resume, Server.moved, started, checked, forward, phase,
        wrong]

def totpGuard (totp : Totp) : totpWindow.Guard (Option (Nat × Int)) VerifyCall :=
  ⟨verify totp, id, VerifyCall.attempt totp, verify_eq_step⟩

end Totp

namespace Recovery

variable {hash : String → String}

/-- A call of `consume`: the rows of the user, and the clock that it reads. -/
structure ConsumeCall where
  rows : List RecoveryCode
  code : String
  now : Int
  deriving DecidableEq, Repr

def ConsumeCall.found (hash : String → String) (call : ConsumeCall) : Option RecoveryCode :=
  call.rows.find? (fun row => row.codeHash = hash call.code ∧ row.consumedAt = none)

/-- A whole call, with the cooldown of the user. The third wrong code is evaluated and raises. -/
def consume (hash : String → String) (entry : Option (Int × Nat)) (call : ConsumeCall) :
    Option (Int × Nat) × Outcome :=
  match cooldownCheck entry call.now with
  | none => (entry, .refused)
  | some entry =>
    match call.found hash with
    | none => (some (recordFailure entry call.now), .wrong call.now)
    | some _ => (none, .accepted)

def ConsumeCall.attempt (hash : String → String) (call : ConsumeCall) : Attempt :=
  ⟨call.now, (call.found hash).isSome, call.now⟩

def recoveryWindow : FailureWindow := ⟨3, 60 * 1000000, true⟩

def tally (entry : Option (Int × Nat)) : FailureWindow.Tally :=
  entry.map fun (expires, failCount) => (failCount, expires - 60 * 1000000)

theorem over_tally (expires : Int) (failCount : Nat) (now : Int) :
    recoveryWindow.Over (tally (some (expires, failCount))) now ↔ expires ≤ now := by
  unfold FailureWindow.Over tally
  simp [recoveryWindow]

theorem cooldownCheck_eq (entry : Option (Int × Nat)) (attempt : Attempt) :
    (cooldownCheck entry attempt.now).map tally =
      if recoveryWindow.Refuses (tally entry) attempt then none
      else some (recoveryWindow.live (tally entry) attempt.now) := by
  unfold cooldownCheck FailureWindow.Refuses FailureWindow.live
  cases entry with
  | none => rfl
  | some found =>
    obtain ⟨expires, failCount⟩ := found
    simp only [over_tally]
    by_cases past : expires ≤ attempt.now
    · have off : ¬ (attempt.now < expires ∧ 3 ≤ failCount) := by omega
      simp only [if_pos past, if_neg off]
      rfl
    · by_cases many : 3 ≤ failCount
      · have on : attempt.now < expires ∧ 3 ≤ failCount := by omega
        have refuses : recoveryWindow.limit ≤
            FailureWindow.count (tally (some (expires, failCount))) := many
        rw [if_pos on, if_neg past, if_pos refuses]
        rfl
      · have off : ¬ (attempt.now < expires ∧ 3 ≤ failCount) := by omega
        have passes : ¬ recoveryWindow.limit ≤
            FailureWindow.count (tally (some (expires, failCount))) := many
        rw [if_neg off, if_neg past, if_neg past, if_neg passes]
        rfl

theorem recordFailure_eq {entry : Option (Int × Nat)} {now : Int}
    (open_ : ¬ recoveryWindow.Over (tally entry) now) :
    tally (some (recordFailure entry now)) = recoveryWindow.fail (tally entry) now := by
  unfold FailureWindow.fail FailureWindow.live
  rw [if_neg open_]
  cases entry with
  | none => simp [tally, recordFailure]
  | some found => rfl

theorem consume_eq_step (entry : Option (Int × Nat)) (call : ConsumeCall) :
    (tally (consume hash entry call).1, (consume hash entry call).2) =
      recoveryWindow.step (tally entry) (call.attempt hash) := by
  have checked := cooldownCheck_eq entry (call.attempt hash)
  unfold consume FailureWindow.step
  by_cases refuses : recoveryWindow.Refuses (tally entry) (call.attempt hash)
  · rw [if_pos refuses] at checked ⊢
    rw [show call.now = (call.attempt hash).now from rfl, Option.map_eq_none_iff.mp checked]
  · rw [if_neg refuses] at checked ⊢
    obtain ⟨left, passed, live⟩ := Option.map_eq_some_iff.mp checked
    rw [show call.now = (call.attempt hash).now from rfl, passed, ← live]
    cases found : call.found hash with
    | none =>
      have open_ := live ▸ recoveryWindow.not_over_live (tally entry) (call.attempt hash).now
      have recorded := recordFailure_eq open_
      simpa [ConsumeCall.attempt, found] using recorded
    | some row => simp [ConsumeCall.attempt, found, recoveryWindow, tally]

def ConsumeCall.steps (hash : String → String) (call : ConsumeCall) (service index : Nat)
    (entry : Option (Int × Nat)) : List Step :=
  .start service (.consume call.code) call.now [] ::
    if cooldownCheck entry call.now = none then []
    else List.replicate (if (call.found hash).isSome then 2 else 1) (.advance index call.now [])

theorem step_last {s : Server} (calls : List Call) (own : Call) (now : Int)
    (last : s.calls = calls ++ [own]) :
    s.step hash (.advance calls.length now []) = s.advance hash calls.length now [] own := by
  have there : s.calls[calls.length]? = some own := by rw [last, List.getElem?_concat_length]
  exact congrArg (Option.bind · (s.advance hash calls.length now [])) there

/-- In the server a call that is alone does to the cooldown what `consume` does. -/
theorem run_steps (s : Server) (service : Nat) (call : ConsumeCall) (rows : s.rows = call.rows)
    (free : ∀ row ∈ s.rows, s.locked row.id = false) :
    ∃ t, run (Server.step hash) s
        (call.steps hash service s.calls.length (s.cooldowns service)) = some t ∧
      t.cooldowns = Function.update s.cooldowns service
        (consume hash (s.cooldowns service) call).1 := by
  unfold ConsumeCall.steps consume
  cases checked : cooldownCheck (s.cooldowns service) call.now with
  | none => simp [run, Server.step, Server.start, checked]
  | some entry =>
    let own : Call := ⟨service, .consume call.code, call.now, [], s.completed, .selecting⟩
    let begun : Server := { s.setCooldown service entry with calls := s.calls ++ [own] }
    have begins : s.step hash (.start service (.consume call.code) call.now []) = some begun := by
      simp only [Server.step, Server.start, checked]
      rfl
    have selects : begun.step hash (.advance s.calls.length call.now []) =
        some (begun.select hash s.calls.length own call.code call.now) :=
      step_last s.calls own call.now rfl
    have same : begun.rows.find? (fun row =>
        row.codeHash = hash call.code ∧ row.consumedAt = none) = call.found hash :=
      congrArg (List.find? _) rows
    unfold Server.select at selects
    rw [same] at selects
    cases found : call.found hash with
    | none =>
      rw [found] at selects
      rw [if_neg (Option.some_ne_none entry)]
      simp only [Option.isSome_none, Bool.false_eq_true, if_false, List.replicate, run, begins,
        selects, Option.bind_some, Option.some.injEq, exists_eq_left']
      change Function.update (Function.update s.cooldowns service entry) service
        (some (recordFailure (Function.update s.cooldowns service entry service) call.now)) = _
      rw [Function.update_idem, Function.update_self]
    | some row =>
      let updating : Call := { own with phase := .updating row.id call.now }
      let chosen := begun.moved s.calls.length updating
      have calls : chosen.calls = s.calls ++ [updating] := by
        simp [chosen, begun, Server.moved]
      have member : row ∈ s.rows := List.mem_of_find?_eq_some (same.trans found)
      have there : row.id ∈ chosen.rows.map RecoveryCode.id := List.mem_map_of_mem member
      have unlocked : chosen.locked row.id = false := by
        unfold Server.locked
        rw [calls, List.any_append]
        exact (Bool.or_false _).trans (free row member)
      have updates : chosen.step hash (.advance s.calls.length call.now []) =
          some (chosen.update s.calls.length updating row.id call.now) :=
        (step_last s.calls updating call.now calls).trans
          (if_neg (Bool.eq_false_iff.mp unlocked))
      rw [found] at selects
      rw [if_neg (Option.some_ne_none entry)]
      simp only [Option.isSome_some, if_true, List.replicate, run, begins, selects,
        Option.bind_some]
      refine ⟨_, congrArg (Option.bind · _) updates, ?_⟩
      unfold Server.update
      rw [if_pos there]
      exact Function.update_idem _ _ _

def recoveryGuard (hash : String → String) :
    recoveryWindow.Guard (Option (Int × Nat)) ConsumeCall :=
  ⟨consume hash, tally, ConsumeCall.attempt hash, consume_eq_step⟩

end Recovery

/-- In each service a wrong code stays counted for a minute: no call finds the minute from the first
wrong code over while a later one is younger, and no success clears a younger one. Then five wrong
codes in the minute before a call refuse it, or three, and no minute contains more. For the
first it is enough that none behind the last success is forgotten. -/
theorem guessing_bounded (totp : Totp) (hash : String → String) (verifies : List VerifyCall)
    (consumes : List Recovery.ConsumeCall)
    (forward : ∀ call ∈ verifies, call.now ≤ call.tracked)
    (apart : verifies.Pairwise (·.tracked ≤ ·.now))
    (ordered : consumes.Pairwise (·.now ≤ ·.now)) :
    (Meets (logged (verify totp)) ((totpGuard totp).Remembers failuresSince) (none, []) verifies →
        Refuses (verify totp) VerifyCall.now 5 none verifies) ∧
      (Meets (logged (verify totp)) ((totpGuard totp).Remembers failures) (none, []) verifies →
        Within (verify totp) 5 none verifies) ∧
      (Meets (logged (Recovery.consume hash))
          ((Recovery.recoveryGuard hash).Remembers failuresSince) (none, []) consumes →
        Refuses (Recovery.consume hash) Recovery.ConsumeCall.now 3 none consumes) ∧
      (Meets (logged (Recovery.consume hash)) ((Recovery.recoveryGuard hash).Remembers failures)
          (none, []) consumes →
        Within (Recovery.consume hash) 3 none consumes) := by
  have verified : FailureWindow.Ordered (verifies.map (totpGuard totp).attempt) :=
    ⟨List.forall_mem_map.mpr forward, List.pairwise_map.mpr apart⟩
  have consumed : FailureWindow.Ordered (consumes.map (Recovery.recoveryGuard hash).attempt) :=
    ⟨List.forall_mem_map.mpr fun _ _ => Int.le_refl _, List.pairwise_map.mpr ordered⟩
  apply And.intro
  case left =>
    intro met before call rest split many
    subst split
    exact FailureWindow.Guard.refused reading_failuresSince rfl verified met many
  case right =>
    apply And.intro
    case left => exact FailureWindow.Guard.within_limit rfl verified
    case right =>
      apply And.intro
      case left =>
        intro met before call rest split many
        subst split
        exact FailureWindow.Guard.refused reading_failuresSince rfl consumed met many
      case right => exact FailureWindow.Guard.within_limit rfl consumed

def wrongCode (now : Int) : VerifyCall :=
  ⟨some ⟨some 0, none⟩, "000000", now * 1000000, now * 1000000, now * 1000000, now * 1000000⟩

def wrongRecovery (now : Int) : Recovery.ConsumeCall := ⟨[], "0000-0000", now * 1000000⟩

theorem guessing_bounded_at_once :
    Within (verify tallied) 5 none ([0, 0, 0, 0, 0, 59, 60].map wrongCode) ∧
      Within (Recovery.consume id) 3 none ([0, 0, 0, 59, 60].map wrongRecovery) :=
  have bounded := guessing_bounded tallied id ([0, 0, 0, 0, 0, 59, 60].map wrongCode)
    ([0, 0, 0, 59, 60].map wrongRecovery) (by decide) (by decide) (by decide)
  ⟨bounded.2.1 (by decide +kernel), bounded.2.2.2 (by decide +kernel)⟩

theorem guesses_across_windows :
    ¬ Refuses (verify tallied) VerifyCall.now 5 none ([0, 59, 59, 59, 60, 61, 62].map wrongCode) ∧
      ¬ Within (verify tallied) 5 none ([0, 59, 59, 59, 60, 61, 62].map wrongCode) ∧
      ¬ Refuses (Recovery.consume id) Recovery.ConsumeCall.now 3 none
        ([0, 59, 59, 60, 61].map wrongRecovery) ∧
      ¬ Within (Recovery.consume id) 3 none ([0, 59, 59, 60, 61].map wrongRecovery) := by
  apply And.intro
  case left =>
    intro refuses
    have last := refuses ([0, 59, 59, 59, 60, 61].map wrongCode) (wrongCode 62) [] rfl
      (by decide +kernel)
    exact absurd last (by decide +kernel)
  case right =>
    apply And.intro
    case left => exact fun bounded => absurd (bounded (59 * 1000000)) (by decide +kernel)
    case right =>
      apply And.intro
      case left =>
        intro refuses
        have last := refuses ([0, 59, 59, 60].map wrongRecovery) (wrongRecovery 61) [] rfl
          (by decide +kernel)
        exact absurd last (by decide +kernel)
      case right => exact fun bounded => absurd (bounded (59 * 1000000)) (by decide +kernel)

end HlHelper.Mfa
