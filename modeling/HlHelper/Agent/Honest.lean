import HlHelper.Agent.Execution

/-! Commands that the server issued for a host, shown to the host's verifier
while they live, among other envelopes that the verifier rejects. -/

namespace HlHelper.Agent

open HlHelper.Dispatch

variable (proto : Protobuf) (key : SigningKey)

/-- An envelope that reaches the verifier, with the times on both clocks. -/
structure Delivery where
  env : CommandEnvelope
  agentNow : Int
  serverNow : Int
  deriving DecidableEq, Repr

inductive Arrival where
  | honest (delivery : Delivery)
  | other (env : CommandEnvelope) (agentNow : Int)
  deriving DecidableEq, Repr

def Arrival.accept (v : Verifier) : Arrival → Option VerifyError × Verifier
  | .honest delivery => v.accept proto key delivery.env delivery.agentNow
  | .other env agentNow => v.accept proto key env agentNow

def honestOf : Arrival → Option CommandEnvelope
  | .honest delivery => some delivery.env
  | .other .. => none

/-- A dispatch signed the command for the host and allocated its sequence. -/
def IssuedFor (hostId : HostId) (env : CommandEnvelope) : Prop :=
  ∃ issue order commandId sequence nonce built, 0 < sequence ∧
    buildEnvelope issue order hostId commandId sequence nonce = .ok built ∧
      env = signEnvelope proto key built

/-- An issued command with an allowed action and risk, delivered unmodified
before it expires, to an agent whose clock is off by at most the skew. -/
structure HonestDelivery (hostId : HostId) (v : Verifier) (delivery : Delivery) : Prop where
  issued : IssuedFor proto key hostId delivery.env
  action : payloadAction delivery.env ∈ v.allowed
  risk : delivery.env.risk ≤ v.maxRisk
  live : ∀ expiresAt, delivery.env.expiresAt = some expiresAt → delivery.agentNow ≤ expiresAt
  sent : ∀ issuedAt, delivery.env.issuedAt = some issuedAt → issuedAt ≤ delivery.serverNow
  ahead : delivery.agentNow - delivery.serverNow ≤ seconds v.skewS
  behind : delivery.serverNow - delivery.agentNow ≤ seconds v.skewS

/-- The agent's staleness guard leaves the delivery this much time. -/
def Delivery.Recent (v : Verifier) (delivery : Delivery) : Prop :=
  ∀ issuedAt, delivery.env.issuedAt = some issuedAt →
    delivery.agentNow - issuedAt ≤ 2 * seconds v.skewS

/-- Step 7 refuses the envelope although its sequence is fresh. -/
def RepeatedNonce (v : Verifier) (env : CommandEnvelope) (now : Int) : Prop :=
  v.precheck proto key env now = none ∧ v.lastSeq < env.sequence ∧ env.nonce ∈ v.seenNonces

def HonestAccepted : Verifier → List Arrival → Prop
  | _, [] => True
  | v, arrival :: rest =>
    (∀ delivery, arrival = .honest delivery → (arrival.accept proto key v).1 = none) ∧
      HonestAccepted (arrival.accept proto key v).2 rest

def OthersRejected : Verifier → List Arrival → Prop
  | _, [] => True
  | v, arrival :: rest =>
    (∀ env now, arrival = .other env now → (arrival.accept proto key v).1 ≠ none) ∧
      OthersRejected (arrival.accept proto key v).2 rest

def NoRepeatedNonce : Verifier → List Arrival → Prop
  | _, [] => True
  | v, arrival :: rest =>
    (∀ env now, arrival = .other env now → ¬ RepeatedNonce proto key v env now) ∧
      NoRepeatedNonce (arrival.accept proto key v).2 rest

variable {proto key}

theorem issuedFor_fields {hostId : HostId} {env : CommandEnvelope}
    (issued : IssuedFor proto key hostId env) :
    0 < env.sequence ∧ verifySignature proto key env = true ∧ payloadAction env ≠ "" := by
  obtain ⟨issue, order, commandId, sequence, nonce, built, positive, made, rfl⟩ := issued
  refine ⟨?_, verifySignature_sign proto key built, ?_⟩
  · have same := (buildEnvelope_fields made).2.2.1
    simpa [signEnvelope, same] using positive
  · unfold buildEnvelope at made
    cases payload : order.payload with
    | reboot delayS reason =>
      simp only [payload, payloadToProto, uint32] at made
      split at made <;> simp [Except.map] at made
      simp [← made, signEnvelope, payloadAction]
    | shellExec command timeoutS asRoot reason =>
      simp only [payload, payloadToProto, uint32] at made
      split at made <;> simp [Except.map] at made
      simp [← made, signEnvelope, payloadAction]
    | pkgUpdate classes =>
      simp only [payload, payloadToProto, Except.map, Except.ok.injEq] at made
      simp [← made, signEnvelope, payloadAction]
    | unsupported typeName kind =>
      simp [payload, payloadToProto, Except.map] at made

theorem duration_of_small {nanoseconds : Int} (low : 0 ≤ nanoseconds)
    (high : nanoseconds < 2 ^ 63) : duration nanoseconds = nanoseconds ∧
      duration (-nanoseconds) = -nanoseconds := by
  unfold duration
  constructor <;> rw [Int.bmod_def] <;> omega

theorem honest_timely {hostId : HostId} {v : Verifier} {delivery : Delivery}
    (honest : HonestDelivery proto key hostId v delivery) (recent : delivery.Recent v)
    (fits : 2 * seconds v.skewS < 2 ^ 63) :
    v.timely delivery.env delivery.agentNow = true := by
  have ahead := honest.ahead
  have behind := honest.behind
  have skew : v.skewDur = seconds v.skewS := (duration_of_small (by omega) (by omega)).1
  have stale : duration (-2 * v.skewDur) = -(2 * seconds v.skewS) := by
    rw [skew, Int.neg_mul]
    exact (duration_of_small (by omega) fits).2
  unfold Verifier.timely
  rw [stale, skew, Bool.and_eq_true]
  constructor
  · cases expires : delivery.env.expiresAt with
    | none => rfl
    | some expiresAt =>
      have live := honest.live expiresAt expires
      simpa using live
  · cases issued : delivery.env.issuedAt with
    | none => rfl
    | some issuedAt =>
      have sent := honest.sent issuedAt issued
      have young := recent issuedAt issued
      simp only [Bool.and_eq_true, Bool.not_eq_true', decide_eq_false_iff_not]
      omega

def SameSettings (v w : Verifier) : Prop :=
  v.allowed = w.allowed ∧ v.maxRisk = w.maxRisk ∧ v.skewS = w.skewS

theorem HonestDelivery.transport {hostId : HostId} {v w : Verifier} {delivery : Delivery}
    (same : SameSettings v w) (honest : HonestDelivery proto key hostId v delivery) :
    HonestDelivery proto key hostId w delivery :=
  ⟨honest.issued, same.1 ▸ honest.action, same.2.1 ▸ honest.risk, honest.live, honest.sent,
    same.2.2 ▸ honest.ahead, same.2.2 ▸ honest.behind⟩

theorem honest_acceptable {hostId : HostId} {v : Verifier} {delivery : Delivery}
    (honest : HonestDelivery proto key hostId v delivery) (recent : delivery.Recent v)
    (fits : 2 * seconds v.skewS < 2 ^ 63) (newer : v.lastSeq < delivery.env.sequence)
    (unseen : delivery.env.nonce ∉ v.seenNonces) :
    Acceptable proto key v delivery.env delivery.agentNow := by
  obtain ⟨_, signature, named⟩ := issuedFor_fields honest.issued
  exact ⟨signature, ⟨named, honest.action⟩, honest.risk, honest_timely honest recent fits, newer,
    unseen⟩

theorem rejected_unchanged {v : Verifier} {env : CommandEnvelope} {now : Int}
    (rejected : (v.accept proto key env now).1 ≠ none)
    (not_nonce : ¬ RepeatedNonce proto key v env now) :
    (v.accept proto key env now).2 = v := by
  rcases accept_cases proto key v env now with
    ⟨_, result⟩ | ⟨checked, newer, seen, _⟩ | ⟨_, error, result⟩
  · exact absurd (by rw [result]) rejected
  · exact absurd ⟨checked, newer, seen⟩ not_nonce
  · rw [result]

/-- The invariant of the run: what the verifier remembers lies behind every
honest command still to come. -/
theorem honest_accepted_from {hostId : HostId} {start v : Verifier} {arrivals : List Arrival}
    (settings : SameSettings start v)
    (fits : 2 * seconds start.skewS < 2 ^ 63)
    (honest : ∀ delivery, .honest delivery ∈ arrivals →
      HonestDelivery proto key hostId start delivery ∧ delivery.Recent start)
    (increasing : (arrivals.filterMap honestOf).Pairwise (fun a b => a.sequence < b.sequence))
    (nonces : ((arrivals.filterMap honestOf).map CommandEnvelope.nonce).Nodup)
    (rejected : OthersRejected proto key v arrivals)
    (not_nonce : NoRepeatedNonce proto key v arrivals)
    (newer : ∀ env ∈ arrivals.filterMap honestOf, v.lastSeq < env.sequence)
    (unseen : ∀ env ∈ arrivals.filterMap honestOf, env.nonce ∉ v.seenNonces) :
    HonestAccepted proto key v arrivals := by
  induction arrivals generalizing v with
  | nil => trivial
  | cons arrival rest ih =>
    cases arrival with
    | other env now =>
      have kept := rejected_unchanged (rejected.1 env now rfl) (not_nonce.1 env now rfl)
      have rest_rejected := rejected.2
      have rest_nonce := not_nonce.2
      simp only [Arrival.accept, kept] at rest_rejected rest_nonce
      constructor
      · intro delivery impossible
        cases impossible
      · simp only [Arrival.accept, kept]
        exact ih settings
          (fun delivery member => honest delivery (List.mem_cons_of_mem _ member))
          increasing nonces rest_rejected rest_nonce newer unseen
    | honest delivery =>
      simp only [List.filterMap_cons, honestOf, List.pairwise_cons, List.map_cons,
        List.nodup_cons, List.mem_cons, forall_eq_or_imp] at increasing nonces newer unseen
      obtain ⟨here, recent⟩ := honest delivery (List.mem_cons_self ..)
      have young : delivery.Recent v := by
        intro issuedAt issued
        exact settings.2.2 ▸ recent issuedAt issued
      have ok := honest_acceptable (here.transport settings) young (settings.2.2 ▸ fits)
        newer.1 unseen.1
      refine ⟨fun _ _ => accept_eq_none.mpr ok, ?_⟩
      have rest_rejected := rejected.2
      have rest_nonce := not_nonce.2
      have after := accept_state ok
      simp only [Arrival.accept, after] at rest_rejected rest_nonce ⊢
      refine ih settings (fun other member => honest other (List.mem_cons_of_mem _ member))
        increasing.2 nonces.2 rest_rejected rest_nonce ?_ ?_
      · intro env member
        exact increasing.1 env member
      · intro env member seen
        rcases Finset.mem_insert.mp (remember_seenNonces _ _ seen) with same | before
        · exact nonces.1 (List.mem_map.mpr ⟨env, member, same⟩)
        · exact unseen.2 env member before

/-- Whatever is rejected in between, other than for a repeated nonce, a verifier
accepts the commands issued for its host that arrive in increasing order of
their sequences, before they expire and before they are stale. -/
theorem honest_commands_accepted (hostId : HostId) (allowedActions : List String)
    (maxRisk : String) (skewS : Int) (nonceCap : Nat) {arrivals : List Arrival}
    (fits : 2 * seconds skewS < 2 ^ 63)
    (honest : ∀ delivery, .honest delivery ∈ arrivals →
      HonestDelivery proto key hostId (Verifier.new allowedActions maxRisk skewS nonceCap) delivery)
    (recent : ∀ delivery, .honest delivery ∈ arrivals →
      delivery.Recent (Verifier.new allowedActions maxRisk skewS nonceCap))
    (increasing : (arrivals.filterMap honestOf).Pairwise (fun a b => a.sequence < b.sequence))
    (nonces : ((arrivals.filterMap honestOf).map CommandEnvelope.nonce).Nodup)
    (rejected : OthersRejected proto key
      (Verifier.new allowedActions maxRisk skewS nonceCap) arrivals)
    (not_nonce : NoRepeatedNonce proto key
      (Verifier.new allowedActions maxRisk skewS nonceCap) arrivals) :
    HonestAccepted proto key (Verifier.new allowedActions maxRisk skewS nonceCap) arrivals := by
  refine honest_accepted_from ⟨rfl, rfl, rfl⟩ fits
    (fun delivery member => ⟨honest delivery member, recent delivery member⟩)
    increasing nonces rejected not_nonce ?_ ?_
  · intro env member
    obtain ⟨arrival, inside, found⟩ := List.mem_filterMap.mp member
    cases arrival with
    | other _ _ => simp [honestOf] at found
    | honest delivery =>
      obtain rfl : delivery.env = env := by simpa [honestOf] using found
      exact (issuedFor_fields (honest delivery inside).issued).1
  · intro env _ seen
    simp [Verifier.new] at seen

theorem idEnvelope_issued (hostId : HostId) :
    IssuedFor proto key hostId (signEnvelope proto key (idEnvelope hostId)) := by
  refine ⟨fun _ => [], idOrder, "c1", 1, [7], idEnvelope hostId, by decide, ?_, rfl⟩
  rfl

theorem honest_command_accepted_after_forgery :
    HonestAccepted Wire.protobuf SigningKey.echo (Verifier.new ["shell.exec"] "high")
      [.other (idEnvelope "h1") (seconds 1001),
        .honest ⟨signEnvelope Wire.protobuf SigningKey.echo (idEnvelope "h1"), seconds 1005,
          seconds 1003⟩] := by
  have unsigned : verifySignature Wire.protobuf SigningKey.echo (idEnvelope "h1") = false := by
    decide
  have forged : (Verifier.new ["shell.exec"] "high").accept Wire.protobuf SigningKey.echo
      (idEnvelope "h1") (seconds 1001) =
        (some .badSignature, Verifier.new ["shell.exec"] "high") := by
    simp [Verifier.accept, Verifier.precheck, unsigned]
  refine honest_commands_accepted "h1" ["shell.exec"] "high" 60 10000 (by decide)
    ?_ ?_ ?_ ?_ ?_ ?_
  · intro delivery member
    obtain rfl : delivery = ⟨signEnvelope Wire.protobuf SigningKey.echo (idEnvelope "h1"),
        seconds 1005, seconds 1003⟩ := by simpa using member
    exact ⟨idEnvelope_issued "h1", by decide, by decide,
      by simp [signEnvelope, idEnvelope, seconds], by simp [signEnvelope, idEnvelope, seconds],
      by decide, by decide⟩
  · intro delivery member
    obtain rfl : delivery = ⟨signEnvelope Wire.protobuf SigningKey.echo (idEnvelope "h1"),
        seconds 1005, seconds 1003⟩ := by simpa using member
    simp [Delivery.Recent, signEnvelope, idEnvelope, seconds, Verifier.new]
  · simp [List.filterMap_cons, honestOf]
  · simp [List.filterMap_cons, honestOf]
  · simp [OthersRejected, Arrival.accept, forged]
  · simp [NoRepeatedNonce, Arrival.accept, RepeatedNonce, Verifier.precheck, unsigned]

def rebootOrder : Order where
  principalId := "alice"
  payloadKind := "reboot"
  payload := .reboot 0 ""
  risk := .med
  now := seconds 1000

def rebootEnvelope (hostId : HostId) : CommandEnvelope where
  commandId := "c2"
  hostId := hostId
  sequence := 1
  nonce := [8]
  issuedAt := some (seconds 1000)
  expiresAt := some (seconds 1330)
  issuedBy := "alice"
  risk := 1
  capability := some ⟨[], ["host:" ++ hostId, "action:reboot"]⟩
  payload := some (.reboot 0 "")
  signature := []

/-- An issued command that is delivered 200 seconds after its issue, 130 seconds
before it expires and with equal clocks, is refused as stale. -/
theorem late_command_refused :
    let delivery : Delivery :=
      ⟨signEnvelope Wire.protobuf SigningKey.echo (rebootEnvelope "h1"), seconds 1200, seconds 1200⟩
    let v := Verifier.new ["reboot"] "high"
    HonestDelivery Wire.protobuf SigningKey.echo "h1" v delivery ∧
      OthersRejected Wire.protobuf SigningKey.echo v [.honest delivery] ∧
      v.accept Wire.protobuf SigningKey.echo delivery.env delivery.agentNow = (some .expired, v) ∧
      ¬ HonestAccepted Wire.protobuf SigningKey.echo v [.honest delivery] := by
  intro delivery v
  have signature : verifySignature Wire.protobuf SigningKey.echo delivery.env = true :=
    verifySignature_sign _ _ _
  have refused : v.accept Wire.protobuf SigningKey.echo delivery.env delivery.agentNow =
      (some .expired, v) := by
    have stale : v.timely delivery.env delivery.agentNow = false := by decide
    have named : payloadAction delivery.env ≠ "" := by decide
    have allowed : payloadAction delivery.env ∈ v.allowed := by decide
    have risk : ¬ v.maxRisk < delivery.env.risk := by decide
    simp [Verifier.accept, Verifier.precheck, signature, stale, named, allowed, risk]
  refine ⟨⟨?_, by decide, by decide, ?_, ?_, by decide, by decide⟩, ?_, refused, ?_⟩
  · exact ⟨fun _ => [], rebootOrder, "c2", 1, [8], rebootEnvelope "h1", by decide, rfl, rfl⟩
  · simp [delivery, signEnvelope, rebootEnvelope, seconds]
  · simp [delivery, signEnvelope, rebootEnvelope, seconds]
  · simp [OthersRejected]
  · intro accepted
    have passed := accepted.1 delivery rfl
    simp [Arrival.accept, refused] at passed

end HlHelper.Agent
