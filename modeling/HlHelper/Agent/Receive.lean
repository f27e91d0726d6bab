import Mathlib.Data.Finset.Dedup
import HlHelper.Agent.Verify

/-! The agent's side of the stream: the receive loop of `transport.Client` over
any number of streams, and the shell executor it hands commands to. -/

namespace HlHelper.Agent

inductive ServerToAgent where
  | command (env : CommandEnvelope)
  | hbConfig (intervalS : Nat)
  | runSurvey (reason : String)
  | runInventory (reason : String) (includeLang : Bool) (langRoots : List String)
  | certIssue (response : Bytes)
  | runCertRotate
  | runExposureScan (reason : String)
  deriving DecidableEq, Repr

/-- What the receive loop sets off for a message. Sends on the three channels
are dropped when nobody listens. -/
inductive Effect where
  | firstHealthy
  | handleAgentUpdate (env : CommandEnvelope)
  | executeAndQueueResult (env : CommandEnvelope)
  | onCommand (env : CommandEnvelope)
  | heartbeatInterval (intervalS : Int)
  | survey
  | inventory (includeLang : Bool) (langRoots : List String)
  | offerCertIssue (response : Bytes)
  | offerRunCertRotate
  | offerRunExposureScan (reason : String)
  deriving DecidableEq, Repr

structure Options where
  executor : Bool
  outbox : Bool
  onCommand : Bool
  firstHealthyCB : Bool
  deriving DecidableEq, Repr

def Options.executes (opts : Options) : Bool := opts.executor && opts.outbox

/-- The client that `hl-agent run` builds. -/
def hlAgent (pendingUpdate : Bool) : Options :=
  ⟨true, true, true, pendingUpdate⟩

def isAgentUpdate (env : CommandEnvelope) : Bool :=
  match env.payload with
  | some (.agentUpdate ..) => true
  | _ => false

def heartbeatInterval (intervalS : Nat) : Int :=
  let ivl := (intervalS : Int).bmod (2 ^ 32)
  if ivl < 5 then 5 else if 3600 < ivl then 3600 else ivl

def onMessage (opts : Options) : ServerToAgent → List Effect
  | .command env =>
    if isAgentUpdate env then [.handleAgentUpdate env]
    else
      (if opts.executes then [.executeAndQueueResult env] else []) ++
        (if opts.onCommand then [.onCommand env] else [])
  | .hbConfig intervalS => [.heartbeatInterval (heartbeatInterval intervalS)]
  | .runSurvey _ => [.survey]
  | .runInventory _ includeLang langRoots => [.inventory includeLang langRoots]
  | .certIssue response => [.offerCertIssue response]
  | .runCertRotate => [.offerRunCertRotate]
  | .runExposureScan reason => [.offerRunExposureScan reason]

abbrev Received := Int × ServerToAgent

/-- One stream until its receive error. `healthy` is `firstHealthyOnce`, which
outlives the stream. -/
def runOnce (opts : Options) : Bool → List Received → List (Int × Effect) × Bool
  | healthy, [] => ([], healthy)
  | healthy, (now, msg) :: rest =>
    let first := opts.firstHealthyCB && !healthy
    let later := runOnce opts (healthy || first) rest
    ((if first then [(now, .firstHealthy)] else []) ++
      (onMessage opts msg).map (fun effect => (now, effect)) ++ later.1, later.2)

def clientRun (opts : Options) : Bool → List (List Received) → List (Int × Effect)
  | _, [] => []
  | healthy, stream :: streams =>
    let once := runOnce opts healthy stream
    once.1 ++ clientRun opts once.2 streams

def executed : Int × Effect → Option (Int × CommandEnvelope)
  | (now, .executeAndQueueResult env) => some (now, env)
  | _ => none

/-- The envelopes the executor runs for, over all streams, in order. -/
def executions (opts : Options) (streams : List (List Received)) :
    List (Int × CommandEnvelope) :=
  (clientRun opts false streams).filterMap executed

def regularCommand : Received → Option (Int × CommandEnvelope)
  | (now, .command env) => if isAgentUpdate env then none else some (now, env)
  | _ => none

/-- The regular commands delivered over all streams, in order. -/
def delivered (streams : List (List Received)) : List (Int × CommandEnvelope) :=
  streams.flatten.filterMap regularCommand

inductive ShellOutcome where
  | rejected (rejectionReason : String)
  | asleep
  | runShell (command : String) (timeoutSec : Nat)
  | runShellElevated (command : String) (timeoutSec : Nat) (taskId : CommandId) (reason : String)
  deriving DecidableEq, Repr

/-- `ShellExecutor.Execute` up to the call that starts the shell; `sleeping` is
the result of `sleep.Check`. -/
def ShellExecutor.execute (sleeping : Bool) (cmd : CommandEnvelope) : ShellOutcome :=
  match cmd.payload with
  | some (.shellExec command _ timeoutSeconds asRoot reason) =>
    if sleeping then .asleep
    else
      let timeoutSec := if timeoutSeconds = 0 then 30 else timeoutSeconds
      if asRoot then .runShellElevated command timeoutSec cmd.commandId reason
      else .runShell command timeoutSec
  | _ => .rejected "not a shell_exec command"

theorem onMessage_executed (opts : Options) (received : Received) :
    ((onMessage opts received.2).map (fun effect => (received.1, effect))).filterMap executed =
      if opts.executes then (regularCommand received).toList else [] := by
  obtain ⟨now, msg⟩ := received
  cases msg with
  | command env =>
    by_cases update : isAgentUpdate env = true
    · simp [onMessage, regularCommand, executed, update]
    · cases runs : opts.executes <;> cases observed : opts.onCommand <;>
        simp [onMessage, regularCommand, executed, update, runs, observed]
  | _ => simp [onMessage, regularCommand, executed]

theorem runOnce_executed (opts : Options) (healthy : Bool) (stream : List Received) :
    (runOnce opts healthy stream).1.filterMap executed =
      if opts.executes then stream.filterMap regularCommand else [] := by
  induction stream generalizing healthy with
  | nil => simp [runOnce]
  | cons received rest ih =>
    obtain ⟨now, msg⟩ := received
    have first : ((if opts.firstHealthyCB && !healthy then [(now, Effect.firstHealthy)]
        else []).filterMap executed) = [] := by
      split <;> rfl
    have here := onMessage_executed opts (now, msg)
    simp only [runOnce, List.filterMap_append, first, here, ih]
    by_cases runs : opts.executes = true
    · cases command : regularCommand (now, msg) <;> simp [runs, command]
    · simp [runs]

theorem executions_eq (opts : Options) (streams : List (List Received)) :
    executions opts streams = if opts.executes then delivered streams else [] := by
  have each : ∀ healthy, (clientRun opts healthy streams).filterMap executed =
      if opts.executes then delivered streams else [] := by
    induction streams with
    | nil => simp [clientRun, delivered]
    | cons stream streams ih =>
      intro healthy
      simp only [clientRun, List.filterMap_append, runOnce_executed, ih]
      by_cases runs : opts.executes = true
      · simp [runs, delivered]
      · simp [runs]
  exact each false

section Verified

variable (proto : Protobuf) (key : SigningKey)

/-- `accept` accepts the commands one after the other, each in the state that
the ones before it left. -/
def VerifiedRun : Verifier → List (Int × CommandEnvelope) → Prop
  | _, [] => True
  | v, (now, env) :: rest =>
    (v.accept proto key env now).1 = none ∧ VerifiedRun (v.accept proto key env now).2 rest

/-- The envelopes that a verifier accepts among those it is shown, in order. -/
def acceptedBy : Verifier → List (Int × CommandEnvelope) → List CommandEnvelope
  | _, [] => []
  | v, (now, env) :: rest =>
    let result := v.accept proto key env now
    (if result.1 = none then [env] else []) ++ acceptedBy result.2 rest

/-- The newest `cap` nonces of a history, oldest first. -/
def recent (cap : Nat) (nonces : List Bytes) : List Bytes := nonces.drop (nonces.length - cap)

theorem recent_append_singleton (cap : Nat) (nonces : List Bytes) (nonce : Bytes) :
    recent cap (recent cap nonces ++ [nonce]) = recent cap (nonces ++ [nonce]) := by
  unfold recent
  by_cases short : nonces.length ≤ cap
  · have keep : nonces.length - cap = 0 := by omega
    simp [keep]
  · rw [← List.drop_append_of_le_length (by omega), List.drop_drop]
    congr 1
    simp only [List.length_drop, List.length_append, List.length_singleton]
    omega

theorem evict_eq_recent (cap : Nat) (order : List Bytes) (distinct : order.Nodup) :
    evict cap order order.toFinset = (recent cap order, (recent cap order).toFinset) := by
  induction order with
  | nil => simp [evict, recent]
  | cons oldest rest ih =>
    obtain ⟨absent, tail⟩ := List.nodup_cons.mp distinct
    unfold evict
    split_ifs with full
    · have forgotten : (oldest :: rest).toFinset.erase oldest = rest.toFinset := by
        rw [List.toFinset_cons, Finset.erase_insert (by simpa using absent)]
      have shift : recent cap (oldest :: rest) = recent cap rest := by
        have size : (oldest :: rest).length - cap = (rest.length - cap) + 1 := by
          simp only [List.length_cons] at full ⊢
          omega
        rw [recent, size, List.drop_succ_cons, recent]
      rw [forgotten, ih tail, shift]
    · have whole : (oldest :: rest).length - cap = 0 := by omega
      rw [recent, whole, List.drop_zero]

theorem remember_order (v : Verifier) (nonce : Bytes) (seen : v.seenNonces = v.nonceOrder.toFinset)
    (distinct : v.nonceOrder.Nodup) (unseen : nonce ∉ v.seenNonces) :
    (v.remember nonce).nonceOrder = recent v.nonceCap (v.nonceOrder ++ [nonce]) ∧
      (v.remember nonce).seenNonces = (v.remember nonce).nonceOrder.toFinset ∧
      (v.remember nonce).nonceOrder.Nodup := by
  have fresh : nonce ∉ v.nonceOrder := by
    rw [← List.mem_toFinset, ← seen]
    exact unseen
  have apart : (v.nonceOrder ++ [nonce]).Nodup :=
    List.nodup_append.mpr ⟨distinct, List.nodup_singleton _, by
      intro a member b single same
      rw [List.mem_singleton] at single
      exact fresh (single ▸ same ▸ member)⟩
  have grown : insert nonce v.seenNonces = (v.nonceOrder ++ [nonce]).toFinset := by
    rw [seen]
    ext other
    simp only [Finset.mem_insert, List.mem_toFinset, List.mem_append, List.mem_singleton, or_comm]
  have kept : evict v.nonceCap (v.nonceOrder ++ [nonce]) (insert nonce v.seenNonces) =
      (recent v.nonceCap (v.nonceOrder ++ [nonce]),
        (recent v.nonceCap (v.nonceOrder ++ [nonce])).toFinset) := by
    rw [grown, evict_eq_recent _ _ apart]
  simp only [Verifier.remember, kept, true_and]
  exact apart.sublist (List.drop_sublist _ _)

/-- What `env` has to meet, given the envelopes accepted before it, to be
accepted by a verifier with the settings of `v`. -/
structure Admissible (v : Verifier) (earlier : List CommandEnvelope) (now : Int)
    (env : CommandEnvelope) : Prop where
  signature : verifySignature proto key env = true
  action : payloadAction env ≠ "" ∧ payloadAction env ∈ v.allowed
  risk : env.risk ≤ v.maxRisk
  timely : v.timely env now = true
  sequence : 0 < env.sequence ∧ ∀ e ∈ earlier, e.sequence < env.sequence
  nonce : env.nonce ∉ recent v.nonceCap (earlier.map CommandEnvelope.nonce)

/-- `v` is `start` after it accepted the envelopes of `history`. -/
structure Remembers (start : Verifier) (history : List CommandEnvelope) (v : Verifier) : Prop where
  allowed : v.allowed = start.allowed
  maxRisk : v.maxRisk = start.maxRisk
  skewS : v.skewS = start.skewS
  nonceCap : v.nonceCap = start.nonceCap
  newer : ∀ n, v.lastSeq < n ↔ 0 < n ∧ ∀ e ∈ history, e.sequence < n
  order : v.nonceOrder = recent start.nonceCap (history.map CommandEnvelope.nonce)
  seen : v.seenNonces = v.nonceOrder.toFinset
  distinct : v.nonceOrder.Nodup

theorem new_remembers (allowed : List String) (maxRisk : String) (skewS : Int) (nonceCap : Nat) :
    Remembers (Verifier.new allowed maxRisk skewS nonceCap) []
      (Verifier.new allowed maxRisk skewS nonceCap) where
  allowed := rfl
  maxRisk := rfl
  skewS := rfl
  nonceCap := rfl
  newer := by simp [Verifier.new]
  order := by simp [Verifier.new, recent]
  seen := rfl
  distinct := List.nodup_nil

variable {proto key} {start v : Verifier} {history : List CommandEnvelope}

theorem acceptable_iff_admissible (remembers : Remembers start history v) (now : Int)
    (env : CommandEnvelope) :
    Acceptable proto key v env now ↔ Admissible proto key start history now env := by
  have same_time : v.timely env now = start.timely env now := by
    unfold Verifier.timely Verifier.skewDur
    rw [remembers.skewS]
  have same_nonces : env.nonce ∈ v.seenNonces ↔
      env.nonce ∈ recent start.nonceCap (history.map CommandEnvelope.nonce) := by
    rw [remembers.seen, List.mem_toFinset, remembers.order]
  constructor
  · intro ok
    exact ⟨ok.signature, remembers.allowed ▸ ok.action, remembers.maxRisk ▸ ok.risk,
      same_time ▸ ok.timely, (remembers.newer _).mp ok.sequence, same_nonces.not.mp ok.nonce⟩
  · intro ok
    exact ⟨ok.signature, remembers.allowed.symm ▸ ok.action, remembers.maxRisk.symm ▸ ok.risk,
      same_time.symm ▸ ok.timely, (remembers.newer _).mpr ok.sequence, same_nonces.not.mpr ok.nonce⟩

theorem accept_remembers (remembers : Remembers start history v) {now : Int}
    {env : CommandEnvelope} (ok : Acceptable proto key v env now) :
    Remembers start (history ++ [env]) (v.accept proto key env now).2 := by
  rw [accept_state ok]
  obtain ⟨order, seen, distinct⟩ := remember_order { v with lastSeq := env.sequence } env.nonce
    remembers.seen remembers.distinct ok.nonce
  refine ⟨remembers.allowed, remembers.maxRisk, remembers.skewS, remembers.nonceCap, ?_, ?_, seen,
    distinct⟩
  · intro n
    simp only [remember_lastSeq, List.mem_append, List.mem_singleton]
    have newest := (remembers.newer env.sequence).mp ok.sequence
    constructor
    · intro later
      refine ⟨by omega, ?_⟩
      rintro e (member | rfl)
      · exact (newest.2 e member).trans later
      · exact later
    · rintro ⟨_, all⟩
      exact all env (.inr rfl)
  · calc
      _ = recent v.nonceCap (v.nonceOrder ++ [env.nonce]) := order
      _ = recent start.nonceCap
            (recent start.nonceCap (history.map CommandEnvelope.nonce) ++ [env.nonce]) := by
          rw [remembers.nonceCap, remembers.order]
      _ = _ := by rw [recent_append_singleton, List.map_append, List.map_singleton]

/-- A run is verified exactly when each of its commands is admissible after the
ones before it. -/
theorem verifiedRun_iff (remembers : Remembers start history v)
    (commands : List (Int × CommandEnvelope)) :
    VerifiedRun proto key v commands ↔
      ∀ before now env after, commands = before ++ (now, env) :: after →
        Admissible proto key start (history ++ before.map Prod.snd) now env := by
  induction commands generalizing history v with
  | nil => simp [VerifiedRun]
  | cons command commands ih =>
    obtain ⟨now, env⟩ := command
    rw [VerifiedRun, accept_eq_none]
    constructor
    · rintro ⟨ok, rest⟩ before later other after split
      have tail := (ih (accept_remembers remembers ok)).mp rest
      cases before with
      | nil =>
        simp only [List.nil_append, List.cons.injEq, Prod.mk.injEq] at split
        obtain ⟨⟨rfl, rfl⟩, rfl⟩ := split
        simpa using (acceptable_iff_admissible remembers now env).mp ok
      | cons first before =>
        simp only [List.cons_append, List.cons.injEq] at split
        obtain ⟨rfl, rfl⟩ := split
        simpa using tail before later other after rfl
    · intro each
      have ok : Acceptable proto key v env now :=
        (acceptable_iff_admissible remembers now env).mpr
          (by simpa using each [] now env commands rfl)
      refine ⟨ok, (ih (accept_remembers remembers ok)).mpr ?_⟩
      rintro before later other after rfl
      simpa using each ((now, env) :: before) later other after rfl

end Verified

end HlHelper.Agent
