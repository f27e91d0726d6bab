import HlHelper.Agent.Honest
import HlHelper.Library.Runs

/-! Runs of `Accept` on one verifier: what the accepted envelopes have in common, and what a
rejected one leaves behind. -/

namespace HlHelper.Agent

variable (proto : Protobuf) (key : SigningKey)

def afterCalls : Verifier → List (Int × CommandEnvelope) → Verifier
  | v, [] => v
  | v, (now, env) :: rest => afterCalls (v.accept proto key env now).2 rest

def acceptedAt : Verifier → List (Int × CommandEnvelope) → List (Int × CommandEnvelope)
  | _, [] => []
  | v, (now, env) :: rest =>
    let result := v.accept proto key env now
    (if result.1 = none then [(now, env)] else []) ++ acceptedAt result.2 rest

def Verifier.InWindow (v : Verifier) (now issuedAt : Int) : Prop :=
  now + duration (-2 * v.skewDur) ≤ issuedAt ∧ issuedAt ≤ now + v.skewDur

instance (v : Verifier) (now issuedAt : Int) : Decidable (v.InWindow now issuedAt) :=
  inferInstanceAs (Decidable (_ ∧ _))

/-- The configured span, for a skew that is not negative. -/
def Verifier.WithinSkew (v : Verifier) (now issuedAt : Int) : Prop :=
  0 ≤ v.skewS → now - 2 * seconds v.skewS ≤ issuedAt ∧ issuedAt ≤ now + seconds v.skewS

/-- What a call of `Accept` has checked of the envelope when it returns nil. -/
structure Vetted (v : Verifier) (call : Int × CommandEnvelope) : Prop where
  signature : verifySignature proto key call.2 = true
  action : payloadAction call.2 ≠ "" ∧ payloadAction call.2 ∈ v.allowed
  risk : call.2.risk ≤ v.maxRisk
  unexpired : ∀ expiresAt, call.2.expiresAt = some expiresAt → call.1 ≤ expiresAt
  window : ∀ issuedAt, call.2.issuedAt = some issuedAt →
    v.InWindow call.1 issuedAt ∧ v.WithinSkew call.1 issuedAt

/-- The replay guarantees of a verifier over the calls made on it. -/
structure ReplaySafe (v : Verifier) (calls : List (Int × CommandEnvelope)) : Prop where
  increasing : (acceptedAt proto key v calls).Pairwise (fun a b => a.2.sequence < b.2.sequence)
  once : ((acceptedAt proto key v calls).map Prod.snd).Nodup
  fresh : ∀ before call after, acceptedAt proto key v calls = before ++ call :: after →
    call.2.nonce ∉ recent v.nonceCap (before.map (fun earlier => earlier.2.nonce))
  vetted : ∀ call ∈ acceptedAt proto key v calls, Vetted proto key v call
  seen : (afterCalls proto key v calls).seenNonces =
    (afterCalls proto key v calls).nonceOrder.toFinset
  bounded : (afterCalls proto key v calls).nonceOrder.length ≤ v.nonceCap

/-- Every accepted envelope carries an issue time, within the window. -/
def AllIssuedInWindow (v : Verifier) (calls : List (Int × CommandEnvelope)) : Prop :=
  ∀ call ∈ acceptedAt proto key v calls,
    ∃ issuedAt, call.2.issuedAt = some issuedAt ∧ v.InWindow call.1 issuedAt

/-- `v` is `start` after it accepted the envelopes of `history`, among rejected ones. -/
structure Keeps (start : Verifier) (history : List (Int × CommandEnvelope)) (v : Verifier) :
    Prop where
  allowed : v.allowed = start.allowed
  maxRisk : v.maxRisk = start.maxRisk
  skewS : v.skewS = start.skewS
  nonceCap : v.nonceCap = start.nonceCap
  behind : ∀ call ∈ history, call.2.sequence ≤ v.lastSeq
  order : v.nonceOrder = recent start.nonceCap (history.map (fun call => call.2.nonce))
  seen : v.seenNonces = v.nonceOrder.toFinset
  distinct : v.nonceOrder.Nodup

variable {proto key} {start v : Verifier} {history : List (Int × CommandEnvelope)}

theorem withinSkew_of_inWindow {now issuedAt : Int} (inside : v.InWindow now issuedAt) :
    v.WithinSkew now issuedAt := by
  intro skew
  have positive : 0 ≤ seconds v.skewS := by
    unfold seconds
    omega
  have upper : v.skewDur ≤ seconds v.skewS := by
    unfold Verifier.skewDur duration
    rcases lt_or_ge (seconds v.skewS) (2 ^ 63) with small | large
    · rw [Int.bmod_eq_of_le (by omega) (by omega)]
    · have := @Int.bmod_lt (seconds v.skewS) (2 ^ 64) (by omega)
      omega
  have lower : -2 * seconds v.skewS ≤ duration (-2 * v.skewDur) := by
    rcases lt_or_ge (seconds v.skewS) (2 ^ 62) with small | large
    · have exact_skew : v.skewDur = seconds v.skewS := by
        unfold Verifier.skewDur duration
        rw [Int.bmod_eq_of_le (by omega) (by omega)]
      rw [exact_skew]
      unfold duration
      rw [Int.bmod_eq_of_le (by omega) (by omega)]
    · have := @Int.le_bmod (-2 * v.skewDur) (2 ^ 64) (by omega)
      unfold duration
      omega
  obtain ⟨older, newer⟩ := inside
  constructor <;> omega

theorem vetted_of_acceptable {call : Int × CommandEnvelope}
    (acceptable : Acceptable proto key v call.2 call.1) : Vetted proto key v call := by
  have timely := acceptable.timely
  simp only [Verifier.timely, Bool.and_eq_true] at timely
  obtain ⟨lives, issued⟩ := timely
  refine ⟨acceptable.signature, acceptable.action, acceptable.risk, ?_, ?_⟩
  · intro expiresAt carries
    simpa [carries] using lives
  · intro issuedAt carries
    simp only [carries, Bool.and_eq_true, Bool.not_eq_true', decide_eq_false_iff_not,
      not_lt] at issued
    exact ⟨⟨issued.2, issued.1⟩, withinSkew_of_inWindow ⟨issued.2, issued.1⟩⟩

/-- What an accepted envelope is, given the ones accepted before it. -/
structure Admitted (proto : Protobuf) (key : SigningKey) (start : Verifier)
    (history : List (Int × CommandEnvelope)) (call : Int × CommandEnvelope) : Prop where
  vetted : Vetted proto key start call
  newer : ∀ earlier ∈ history, earlier.2.sequence < call.2.sequence
  fresh : call.2.nonce ∉ recent start.nonceCap (history.map (fun call => call.2.nonce))

section

variable (keeps : Keeps start history v) {call : Int × CommandEnvelope}
include keeps

theorem Keeps.vetted (vetted : Vetted proto key v call) : Vetted proto key start call := by
  refine ⟨vetted.signature, keeps.allowed ▸ vetted.action, keeps.maxRisk ▸ vetted.risk,
    vetted.unexpired, ?_⟩
  intro issuedAt carries
  have inside := vetted.window issuedAt carries
  unfold Verifier.InWindow Verifier.WithinSkew Verifier.skewDur at inside ⊢
  rw [← keeps.skewS]
  exact inside

theorem Keeps.accept (acceptable : Acceptable proto key v call.2 call.1) :
    Keeps start (history ++ [call]) (v.accept proto key call.2 call.1).2 := by
  rw [accept_state acceptable]
  obtain ⟨order, seen, distinct⟩ := remember_order { v with lastSeq := call.2.sequence }
    call.2.nonce keeps.seen keeps.distinct acceptable.nonce
  refine ⟨keeps.allowed, keeps.maxRisk, keeps.skewS, keeps.nonceCap, ?_, ?_, seen, distinct⟩
  · intro earlier member
    rcases List.mem_append.mp member with before | last
    · exact (keeps.behind earlier before).trans acceptable.sequence.le
    · rw [List.mem_singleton.mp last, remember_lastSeq]
  · calc
      _ = recent v.nonceCap (v.nonceOrder ++ [call.2.nonce]) := order
      _ = recent start.nonceCap
            (recent start.nonceCap (history.map (fun call => call.2.nonce)) ++ [call.2.nonce]) := by
          rw [keeps.nonceCap, keeps.order]
      _ = _ := by rw [recent_append_singleton, List.map_append, List.map_singleton]

theorem Keeps.reject (refused : ¬ Acceptable proto key v call.2 call.1) :
    Keeps start history (v.accept proto key call.2 call.1).2 := by
  rcases accept_cases proto key v call.2 call.1 with
    ⟨acceptable, _⟩ | ⟨_, newer, _, result⟩ | ⟨_, error, result⟩
  · exact absurd acceptable refused
  · rw [result]
    refine ⟨keeps.allowed, keeps.maxRisk, keeps.skewS, keeps.nonceCap, ?_, keeps.order, keeps.seen,
      keeps.distinct⟩
    intro earlier member
    exact (keeps.behind earlier member).trans newer.le
  · rw [result]
    exact keeps

theorem Keeps.fresh (acceptable : Acceptable proto key v call.2 call.1) :
    call.2.nonce ∉ recent start.nonceCap (history.map (fun call => call.2.nonce)) := by
  intro repeated
  apply acceptable.nonce
  rw [keeps.seen, List.mem_toFinset, keeps.order]
  exact repeated

theorem Keeps.admitted (acceptable : Acceptable proto key v call.2 call.1) :
    Admitted proto key start history call := by
  refine ⟨keeps.vetted (vetted_of_acceptable acceptable), ?_, keeps.fresh acceptable⟩
  intro earlier member
  exact (keeps.behind earlier member).trans_lt acceptable.sequence

theorem Keeps.run (calls : List (Int × CommandEnvelope)) :
    Keeps start (history ++ acceptedAt proto key v calls) (afterCalls proto key v calls) ∧
      ∀ before call after, acceptedAt proto key v calls = before ++ call :: after →
        Admitted proto key start (history ++ before) call := by
  induction calls generalizing history v with
  | nil => simpa [acceptedAt, afterCalls] using keeps
  | cons call calls ih =>
    obtain ⟨now, env⟩ := call
    simp only [acceptedAt, afterCalls]
    by_cases passed : (v.accept proto key env now).1 = none
    · have acceptable := accept_eq_none.mp passed
      have accepted := @Keeps.accept proto key _ _ _ keeps (now, env) acceptable
      obtain ⟨final, later⟩ := ih accepted
      rw [if_pos passed, List.singleton_append]
      rw [List.append_assoc, List.singleton_append] at final
      refine ⟨final, ?_⟩
      intro before call after split
      cases before with
      | nil =>
        obtain ⟨rfl, -⟩ := List.cons.inj split
        rw [List.append_nil]
        exact keeps.admitted acceptable
      | cons first before =>
        obtain ⟨rfl, rest⟩ := List.cons.inj split
        have admitted := later before call after rest
        rw [List.append_assoc, List.singleton_append] at admitted
        exact admitted
    · have refused := accept_eq_none.not.mp passed
      have rejected := @Keeps.reject proto key _ _ _ keeps (now, env) refused
      rw [if_neg passed, List.nil_append]
      exact ih rejected

end

theorem new_keeps (allowed : List String) (maxRisk : String) (skewS : Int) (nonceCap : Nat) :
    Keeps (Verifier.new allowed maxRisk skewS nonceCap) []
      (Verifier.new allowed maxRisk skewS nonceCap) where
  allowed := rfl
  maxRisk := rfl
  skewS := rfl
  nonceCap := rfl
  behind := List.forall_mem_nil _
  order := by simp [Verifier.new, recent]
  seen := rfl
  distinct := List.nodup_nil

theorem Keeps.bounded (keeps : Keeps start history v) : v.nonceOrder.length ≤ start.nonceCap := by
  rw [keeps.order, recent, List.length_drop]
  omega

/-- Whatever a new verifier is shown, the envelopes it accepts have increasing sequences and
nonces that are fresh among the last ones, and each passed every check. -/
theorem accepted_replay_safe (proto : Protobuf) (key : SigningKey) (allowed : List String)
    (maxRisk : String) (skewS : Int) (nonceCap : Nat) (calls : List (Int × CommandEnvelope)) :
    ReplaySafe proto key (Verifier.new allowed maxRisk skewS nonceCap) calls := by
  obtain ⟨final, admitted⟩ :=
    @Keeps.run proto key _ _ _ (new_keeps allowed maxRisk skewS nonceCap) calls
  simp only [List.nil_append] at final admitted
  have increasing : (acceptedAt proto key (Verifier.new allowed maxRisk skewS nonceCap)
      calls).Pairwise (fun a b => a.2.sequence < b.2.sequence) := by
    apply Library.pairwise_of_splits
    intro before call after split
    exact (admitted before call after split).newer
  refine ⟨increasing, ?_, ?_, ?_, final.seen, final.bounded⟩
  · refine List.Pairwise.map _ ?_ increasing
    intro first second lower same
    exact absurd (congrArg CommandEnvelope.sequence same) lower.ne
  · intro before call after split
    exact (admitted before call after split).fresh
  · intro call member
    obtain ⟨before, after, split⟩ := List.append_of_mem member
    exact (admitted before call after split).vetted

/-- A command without times, which steps 4 and 5 let through whenever it is shown. -/
def undatedEnvelope : CommandEnvelope :=
  { idEnvelope "h1" with issuedAt := none, expiresAt := none }

theorem undated_accepted :
    ¬ AllIssuedInWindow Wire.protobuf SigningKey.echo (Verifier.new ["shell.exec"] "high")
      [(seconds 5000, signEnvelope Wire.protobuf SigningKey.echo undatedEnvelope)] := by
  intro issued
  have signature := verifySignature_sign Wire.protobuf SigningKey.echo undatedEnvelope
  have acceptable : Acceptable Wire.protobuf SigningKey.echo
      (Verifier.new ["shell.exec"] "high")
      (signEnvelope Wire.protobuf SigningKey.echo undatedEnvelope) (seconds 5000) :=
    ⟨signature, by decide, by decide, by decide, by decide, by simp [Verifier.new]⟩
  have accepted : (seconds 5000, signEnvelope Wire.protobuf SigningKey.echo undatedEnvelope) ∈
      acceptedAt Wire.protobuf SigningKey.echo (Verifier.new ["shell.exec"] "high")
        [(seconds 5000, signEnvelope Wire.protobuf SigningKey.echo undatedEnvelope)] := by
    simp [acceptedAt, accept_eq_none.mpr acceptable]
  obtain ⟨issuedAt, carries, _⟩ := issued _ accepted
  cases carries

section Rejection

variable (proto : Protobuf) (key : SigningKey)

/-- A call that returns an error leaves the replay state as it was, and refuses no envelope
that could have been accepted before it. -/
structure RejectionInert (v : Verifier) (env : CommandEnvelope) (now : Int) : Prop where
  state : ∀ error, (v.accept proto key env now).1 = some error →
    (v.accept proto key env now).2.lastSeq = v.lastSeq ∧
      (v.accept proto key env now).2.seenNonces = v.seenNonces ∧
      (v.accept proto key env now).2.nonceOrder = v.nonceOrder
  later : ∀ error, (v.accept proto key env now).1 = some error → ∀ next later,
    (v.accept proto key next later).1 = none →
      ((v.accept proto key env now).2.accept proto key next later).1 = none

variable {proto key}

/-- A rejection leaves its trace exactly when step 7 refuses a nonce. -/
theorem rejection_inert_iff {v : Verifier} {env : CommandEnvelope} {now : Int} :
    RejectionInert proto key v env now ↔ ¬ RepeatedNonce proto key v env now := by
  constructor
  · rintro inert ⟨checked, newer, seen⟩
    have result : v.accept proto key env now =
        (some .replay, { v with lastSeq := env.sequence }) := by
      simp [Verifier.accept, checked, not_le.mpr newer, seen]
    have same := (inert.state .replay (by rw [result])).1
    rw [result] at same
    exact newer.ne same.symm
  · intro other
    have unchanged : ∀ error, (v.accept proto key env now).1 = some error →
        (v.accept proto key env now).2 = v := by
      intro error raised
      apply rejected_unchanged _ other
      rw [raised]
      simp
    constructor
    · intro error raised
      rw [unchanged error raised]
      exact ⟨rfl, rfl, rfl⟩
    · intro error raised next later accepted
      rw [unchanged error raised]
      exact accepted

/-- The verifier that has accepted one command, the next command under the same nonce, and
another that has its sequence. -/
def verifierWithOne : Verifier :=
  ((Verifier.new ["shell.exec"] "high").accept Wire.protobuf SigningKey.echo
    (signEnvelope Wire.protobuf SigningKey.echo (idEnvelope "h1")) (seconds 1001)).2

def renumbered (sequence : Nat) (nonce : Bytes) : CommandEnvelope :=
  signEnvelope Wire.protobuf SigningKey.echo
    { idEnvelope "h1" with sequence := sequence, nonce := nonce }

theorem repeated_nonce_blocks_sequence :
    let v := verifierWithOne
    let refused := v.accept Wire.protobuf SigningKey.echo (renumbered 2 [7]) (seconds 1002)
    refused.1 = some .replay ∧ v.lastSeq = 1 ∧ refused.2.lastSeq = 2 ∧
      (v.accept Wire.protobuf SigningKey.echo (renumbered 2 [8]) (seconds 1002)).1 = none ∧
      (refused.2.accept Wire.protobuf SigningKey.echo (renumbered 2 [8]) (seconds 1002)).1 =
        some .replay ∧
      ¬ RejectionInert Wire.protobuf SigningKey.echo v (renumbered 2 [7]) (seconds 1002) := by
  intro v refused
  have raised : refused.1 = some .replay := by decide +kernel
  have before : v.lastSeq = 1 := by decide +kernel
  have after : refused.2.lastSeq = 2 := by decide +kernel
  refine ⟨raised, before, after, by decide +kernel, by decide +kernel, ?_⟩
  intro inert
  have same := (inert.state .replay raised).1
  rw [before] at same
  exact absurd (after.symm.trans same) (by decide)

end Rejection

end HlHelper.Agent
