import Mathlib.Data.Finset.Basic
import Mathlib.Data.Finset.Insert
import Mathlib.Data.Int.ModEq
import HlHelper.Envelope

/-! The agent's command gate, `internal/verify`: signature, manifest and replay
state. `accept` returns the error and the verifier it leaves behind, since the
last checks of the source run after the replay state was already written. -/

namespace HlHelper.Agent

/-- `manifest.RiskLevel`. -/
def riskLevel (name : String) : Int :=
  if name = "low" then 0
  else if name = "medium" then 1
  else if name = "high" then 2
  else if name = "critical" then 3
  else -1

inductive VerifyError where
  | badSignature
  | actionNotAllowed
  | riskTooHigh
  | replay
  | expired
  deriving DecidableEq, Repr

structure Verifier where
  allowed : List String
  maxRisk : Int
  skewS : Int
  lastSeq : Nat
  seenNonces : Finset Bytes
  nonceOrder : List Bytes
  nonceCap : Nat
  deriving DecidableEq

/-- `verify.New` with its options. -/
def Verifier.new (allowedActions : List String) (maxRisk : String) (skewS : Int := 60)
    (nonceCap : Nat := 10000) : Verifier where
  allowed := allowedActions
  maxRisk := riskLevel maxRisk
  skewS := skewS
  lastSeq := 0
  seenNonces := ∅
  nonceOrder := []
  nonceCap := nonceCap

def payloadAction (env : CommandEnvelope) : String :=
  match env.payload with
  | some (.pkgUpdate ..) => "pkg.update"
  | some (.reboot ..) => "reboot"
  | some (.shellExec ..) => "shell.exec"
  | some (.getFacts ..) => "get_facts"
  | some (.dockerOp ..) => "docker.op"
  | some (.pluginInvoke ..) => "plugin.invoke"
  | some (.terminalOpen ..) => "terminal.open"
  | some (.fileTransfer ..) => "file.transfer"
  | some (.agentUpdate ..) => ""
  | none => ""

/-- Arithmetic of a `time.Duration`, an int64. -/
def duration (nanoseconds : Int) : Int := nanoseconds.bmod (2 ^ 64)

def Verifier.skewDur (v : Verifier) : Int := duration (seconds v.skewS)

/-- Steps 4 and 5: expiry, then issue time against clock skew and staleness. -/
def Verifier.timely (v : Verifier) (env : CommandEnvelope) (now : Int) : Bool :=
  (match env.expiresAt with
    | some expiresAt => !decide (expiresAt < now)
    | none => true) &&
  (match env.issuedAt with
    | some issuedAt =>
      !decide (now + v.skewDur < issuedAt) &&
        !decide (issuedAt < now + duration (-2 * v.skewDur))
    | none => true)

/-- The eviction loop: while the order holds more than the capacity, its oldest
nonce is forgotten. -/
def evict (cap : Nat) : List Bytes → Finset Bytes → List Bytes × Finset Bytes
  | [], seen => ([], seen)
  | oldest :: rest, seen =>
    if cap < (oldest :: rest).length then evict cap rest (seen.erase oldest)
    else (oldest :: rest, seen)

def Verifier.remember (v : Verifier) (nonce : Bytes) : Verifier :=
  let kept := evict v.nonceCap (v.nonceOrder ++ [nonce]) (insert nonce v.seenNonces)
  { v with nonceOrder := kept.1, seenNonces := kept.2 }

section Accept

variable (proto : Protobuf) (key : SigningKey)

def verifySignature (env : CommandEnvelope) : Bool :=
  key.verify (canonicalMsg proto env) env.signature

theorem verifySignature_sign (env : CommandEnvelope) :
    verifySignature proto key (signEnvelope proto key env) = true :=
  key.verify_sign (canonicalMsg proto env)

def Verifier.precheck (v : Verifier) (env : CommandEnvelope) (now : Int) :
    Option VerifyError :=
  if !verifySignature proto key env then some .badSignature
  else if payloadAction env = "" then some .actionNotAllowed
  else if payloadAction env ∉ v.allowed then some .actionNotAllowed
  else if v.maxRisk < env.risk then some .riskTooHigh
  else if !v.timely env now then some .expired
  else none

def Verifier.accept (v : Verifier) (env : CommandEnvelope) (now : Int) :
    Option VerifyError × Verifier :=
  match v.precheck proto key env now with
  | some error => (some error, v)
  | none =>
    if env.sequence ≤ v.lastSeq then (some .replay, v)
    else
      -- the sequence is recorded before the nonce is looked up
      let v := { v with lastSeq := env.sequence }
      if env.nonce ∈ v.seenNonces then (some .replay, v)
      else (none, v.remember env.nonce)

/-- What `accept` asks of an envelope. -/
structure Acceptable (v : Verifier) (env : CommandEnvelope) (now : Int) : Prop where
  signature : verifySignature proto key env = true
  action : payloadAction env ≠ "" ∧ payloadAction env ∈ v.allowed
  risk : env.risk ≤ v.maxRisk
  timely : v.timely env now = true
  sequence : v.lastSeq < env.sequence
  nonce : env.nonce ∉ v.seenNonces

variable {proto key}

theorem precheck_eq_none {v : Verifier} {env : CommandEnvelope} {now : Int} :
    v.precheck proto key env now = none ↔
      verifySignature proto key env = true ∧
      (payloadAction env ≠ "" ∧ payloadAction env ∈ v.allowed) ∧
      env.risk ≤ v.maxRisk ∧ v.timely env now = true := by
  unfold Verifier.precheck
  split_ifs <;> simp_all

variable (proto key) in
theorem accept_cases (v : Verifier) (env : CommandEnvelope) (now : Int) :
    (Acceptable proto key v env now ∧
      v.accept proto key env now = (none, { v with lastSeq := env.sequence }.remember env.nonce)) ∨
    (v.precheck proto key env now = none ∧ v.lastSeq < env.sequence ∧ env.nonce ∈ v.seenNonces ∧
      v.accept proto key env now = (some .replay, { v with lastSeq := env.sequence })) ∨
    (¬ Acceptable proto key v env now ∧ ∃ error, v.accept proto key env now = (some error, v)) := by
  cases checked : v.precheck proto key env now with
  | some error =>
    refine .inr (.inr ⟨?_, error, by simp [Verifier.accept, checked]⟩)
    intro acceptable
    have passed := precheck_eq_none.mpr
      ⟨acceptable.signature, acceptable.action, acceptable.risk, acceptable.timely⟩
    rw [checked] at passed
    cases passed
  | none =>
    obtain ⟨signature, action, risk, timely⟩ := precheck_eq_none.mp checked
    by_cases stale : env.sequence ≤ v.lastSeq
    · refine .inr (.inr ⟨?_, .replay, by simp [Verifier.accept, checked, stale]⟩)
      intro acceptable
      have fresh := acceptable.sequence
      omega
    · have fresh : v.lastSeq < env.sequence := by omega
      by_cases seen : env.nonce ∈ v.seenNonces
      · exact .inr (.inl ⟨rfl, fresh, seen, by
          simp [Verifier.accept, checked, stale, seen]⟩)
      · exact .inl ⟨⟨signature, action, risk, timely, fresh, seen⟩, by
          simp [Verifier.accept, checked, stale, seen]⟩

theorem accept_eq_none {v : Verifier} {env : CommandEnvelope} {now : Int} :
    (v.accept proto key env now).1 = none ↔ Acceptable proto key v env now := by
  rcases accept_cases proto key v env now with
    ⟨acceptable, result⟩ | ⟨_, _, seen, result⟩ | ⟨refused, error, result⟩
  · simp [result, acceptable]
  · simp only [result, reduceCtorEq, false_iff]
    exact fun acceptable => acceptable.nonce seen
  · simp [result, refused]

theorem accept_state {v : Verifier} {env : CommandEnvelope} {now : Int}
    (acceptable : Acceptable proto key v env now) :
    (v.accept proto key env now).2 =
      { v with lastSeq := env.sequence }.remember env.nonce := by
  rcases accept_cases proto key v env now with
    ⟨_, result⟩ | ⟨_, _, seen, _⟩ | ⟨refused, _, _⟩
  · rw [result]
  · exact absurd seen acceptable.nonce
  · exact absurd acceptable refused

end Accept

@[simp] theorem remember_lastSeq (v : Verifier) (nonce : Bytes) :
    (v.remember nonce).lastSeq = v.lastSeq := rfl

theorem evict_seen (cap : Nat) (order : List Bytes) (seen : Finset Bytes) :
    (evict cap order seen).2 ⊆ seen := by
  induction order generalizing seen with
  | nil => exact Finset.Subset.refl seen
  | cons oldest rest ih =>
    unfold evict
    split
    · exact (ih (seen.erase oldest)).trans (Finset.erase_subset oldest seen)
    · exact Finset.Subset.refl seen

theorem remember_seenNonces (v : Verifier) (nonce : Bytes) :
    (v.remember nonce).seenNonces ⊆ insert nonce v.seenNonces :=
  evict_seen v.nonceCap (v.nonceOrder ++ [nonce]) (insert nonce v.seenNonces)

end HlHelper.Agent
