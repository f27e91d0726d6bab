import HlHelper.Wire
import HlHelper.Agent.Receive
import HlHelper.Dispatch.Payload

/-! What the agent runs: the executor against the verifier, and against the host
a command was signed for. -/

namespace HlHelper.Agent

open HlHelper.Dispatch

variable (proto : Protobuf) (key : SigningKey)

/-- Each command id is run at most once, and what is run is accepted by the
verifier, one after the other. -/
structure VerifiedOnce (v : Verifier) (runs : List (Int × CommandEnvelope)) : Prop where
  once : (runs.map (fun run => run.2.commandId)).Nodup
  verified : VerifiedRun proto key v runs

/-- Either nothing is ever run, or the delivered commands have distinct ids and
each is admissible after the ones delivered before it. -/
theorem executions_verified_once_iff (opts : Options) (allowedActions : List String)
    (maxRisk : String) (skewS : Int) (nonceCap : Nat) (streams : List (List Received)) :
    VerifiedOnce proto key (Verifier.new allowedActions maxRisk skewS nonceCap)
        (executions opts streams) ↔
      opts.executes = false ∨
        ((delivered streams).map (fun command => command.2.commandId)).Nodup ∧
          ∀ before now env after, delivered streams = before ++ (now, env) :: after →
            Admissible proto key (Verifier.new allowedActions maxRisk skewS nonceCap)
              (before.map Prod.snd) now env := by
  have fresh := new_remembers allowedActions maxRisk skewS nonceCap
  rw [executions_eq]
  cases runs : opts.executes with
  | false =>
    simp only [Bool.false_eq_true, if_false, true_or, iff_true]
    exact ⟨List.nodup_nil, trivial⟩
  | true =>
    simp only [if_true, reduceCtorEq, false_or]
    constructor
    · rintro ⟨once, verified⟩
      exact ⟨once, by simpa using (verifiedRun_iff fresh _).mp verified⟩
    · rintro ⟨once, admissible⟩
      exact ⟨once, (verifiedRun_iff fresh _).mpr (by simpa using admissible)⟩

def Genuine (env : CommandEnvelope) : Prop :=
  ∃ issue order hostId commandId sequence nonce built,
    buildEnvelope issue order hostId commandId sequence nonce = .ok built ∧
      env = signEnvelope proto key built

def idOrder : Order where
  principalId := "alice"
  payloadKind := "shell_exec"
  payload := .shellExec "id" 60 false ""
  risk := .high
  now := seconds 1000

def idEnvelope (hostId : HostId) : CommandEnvelope where
  commandId := "c1"
  hostId := hostId
  sequence := 1
  nonce := [7]
  issuedAt := some (seconds 1000)
  expiresAt := some (seconds 1090)
  issuedBy := "alice"
  risk := 2
  capability := some ⟨[], ["host:" ++ hostId, "action:shell_exec"]⟩
  payload := some (.shellExec "id" [] 60 false "")
  signature := []

theorem idEnvelope_genuine (hostId : HostId) :
    Genuine proto key (signEnvelope proto key (idEnvelope hostId)) := by
  refine ⟨fun _ => [], idOrder, hostId, "c1", 1, [7], idEnvelope hostId, ?_, rfl⟩
  rfl

/-- The server delivers an unacked command again after a reconnect, and the
agent runs it a second time. -/
theorem executions_repeat_redelivered :
    let env := signEnvelope Wire.protobuf SigningKey.echo (idEnvelope "h1")
    let streams := [[(seconds 1001, .command env)], [(seconds 1002, .command env)]]
    Genuine Wire.protobuf SigningKey.echo env ∧
      (executions (hlAgent false) streams).map (fun run => run.2.commandId) = ["c1", "c1"] ∧
      ¬ VerifiedOnce Wire.protobuf SigningKey.echo (Verifier.new ["shell.exec"] "high")
        (executions (hlAgent false) streams) := by
  intro env streams
  have twice : (executions (hlAgent false) streams).map (fun run => run.2.commandId) =
      ["c1", "c1"] := rfl
  refine ⟨idEnvelope_genuine _ _ _, twice, ?_⟩
  intro verified
  have once := verified.once
  rw [twice] at once
  simp at once

def commandMessage : Received → Option (Int × CommandEnvelope)
  | (now, .command env) => some (now, env)
  | _ => none

def commandMessages (streams : List (List Received)) : List (Int × CommandEnvelope) :=
  streams.flatten.filterMap commandMessage

/-- The bytes of `env` are those of an envelope the server signed. -/
def SignedAmong (signed : List CommandEnvelope) (env : CommandEnvelope) : Prop :=
  ∃ genuine ∈ signed, canonicalMsg proto genuine = canonicalMsg proto env

/-- Without the key nobody makes a signature that verifies: what verifies among
the received envelopes has the bytes of a signed one. -/
def Unforgeable (signed received : List CommandEnvelope) : Prop :=
  ∀ env ∈ received, verifySignature proto key env = true → SignedAmong proto signed env

/-- Neither the verifier nor the executor takes an envelope of another host or
one that the server did not sign. -/
structure BoundToHost (hostId : HostId) (signed : List CommandEnvelope) (v : Verifier)
    (opts : Options) (streams : List (List Received)) : Prop where
  accepted : ∀ env ∈ acceptedBy proto key v (commandMessages streams),
    env.hostId = hostId ∧ SignedAmong proto signed env
  executed : ∀ run ∈ executions opts streams,
    run.2.hostId = hostId ∧ SignedAmong proto signed run.2

variable {proto key}

theorem acceptedBy_sound {v : Verifier} {commands : List (Int × CommandEnvelope)}
    {env : CommandEnvelope} (accepted : env ∈ acceptedBy proto key v commands) :
    env ∈ commands.map Prod.snd ∧ verifySignature proto key env = true ∧
      payloadAction env ≠ "" := by
  induction commands generalizing v with
  | nil => simp [acceptedBy] at accepted
  | cons command commands ih =>
    obtain ⟨now, first⟩ := command
    rw [acceptedBy, List.mem_append] at accepted
    rcases accepted with here | later
    · split at here
      · next passed =>
        obtain rfl : env = first := by simpa using here
        have ok := accept_eq_none.mp passed
        exact ⟨by simp, ok.signature, ok.action.1⟩
      · simp at here
    · obtain ⟨member, rest⟩ := ih later
      exact ⟨List.mem_cons_of_mem _ member, rest⟩

theorem regular_of_payloadAction {env : CommandEnvelope} (named : payloadAction env ≠ "") :
    isAgentUpdate env = false := by
  unfold payloadAction at named
  unfold isAgentUpdate
  split
  · next update => simp [update] at named
  · rfl

theorem delivered_of_commandMessage {streams : List (List Received)} {env : CommandEnvelope}
    (member : env ∈ (commandMessages streams).map Prod.snd) (regular : isAgentUpdate env = false) :
    env ∈ (delivered streams).map Prod.snd := by
  obtain ⟨⟨now, found⟩, inside, rfl⟩ := List.mem_map.mp member
  obtain ⟨received, present, command⟩ := List.mem_filterMap.mp inside
  refine List.mem_map.mpr ⟨(now, found), List.mem_filterMap.mpr ⟨received, present, ?_⟩, rfl⟩
  obtain ⟨moment, msg⟩ := received
  cases msg with
  | command env =>
    obtain ⟨rfl, rfl⟩ : moment = now ∧ env = found := by simpa [commandMessage] using command
    simp [regularCommand, regular]
  | _ => simp [commandMessage] at command

/-- What the verifier accepts was signed by the server; the agent is bound to
its host exactly when only its own signed commands are delivered to it. -/
theorem bound_to_host_iff {hostId : HostId} {signed : List CommandEnvelope}
    {streams : List (List Received)} (v : Verifier) (pendingUpdate : Bool)
    (unforgeable : Unforgeable proto key signed ((commandMessages streams).map Prod.snd)) :
    (∀ env ∈ acceptedBy proto key v (commandMessages streams), SignedAmong proto signed env) ∧
      (BoundToHost proto key hostId signed v (hlAgent pendingUpdate) streams ↔
        ∀ command ∈ delivered streams,
          command.2.hostId = hostId ∧ SignedAmong proto signed command.2) := by
  have runs : executions (hlAgent pendingUpdate) streams = delivered streams := executions_eq _ _
  have authentic : ∀ env ∈ acceptedBy proto key v (commandMessages streams),
      SignedAmong proto signed env := by
    intro env accepted
    obtain ⟨member, verified, _⟩ := acceptedBy_sound accepted
    exact unforgeable env member verified
  refine ⟨authentic, ?_⟩
  constructor
  · intro bound
    simpa [runs] using bound.executed
  · intro own
    refine ⟨?_, by simpa [runs] using own⟩
    intro env accepted
    obtain ⟨member, _, named⟩ := acceptedBy_sound accepted
    have received := delivered_of_commandMessage member (regular_of_payloadAction named)
    obtain ⟨command, inside, rfl⟩ := List.mem_map.mp received
    exact own command inside

theorem bound_to_host_of_own_command :
    BoundToHost Wire.protobuf SigningKey.echo "h1"
      [signEnvelope Wire.protobuf SigningKey.echo (idEnvelope "h1")]
      (Verifier.new ["shell.exec"] "high") (hlAgent false)
      [[(seconds 1001,
        .command (signEnvelope Wire.protobuf SigningKey.echo (idEnvelope "h1")))]] := by
  have own : SignedAmong Wire.protobuf
      [signEnvelope Wire.protobuf SigningKey.echo (idEnvelope "h1")]
      (signEnvelope Wire.protobuf SigningKey.echo (idEnvelope "h1")) :=
    ⟨_, List.mem_singleton.mpr rfl, rfl⟩
  refine (bound_to_host_iff (Verifier.new ["shell.exec"] "high") false ?_).2.mpr ?_
  · rintro env member _
    obtain rfl : env = signEnvelope Wire.protobuf SigningKey.echo (idEnvelope "h1") := by
      simpa [commandMessages, commandMessage] using member
    exact own
  · intro command member
    obtain rfl : command = (seconds 1001,
        signEnvelope Wire.protobuf SigningKey.echo (idEnvelope "h1")) := by
      simpa [delivered, regularCommand, isAgentUpdate, signEnvelope, idEnvelope] using member
    exact ⟨rfl, own⟩

/-- A command signed for `h2` and delivered to `h1` passes the verifier of `h1`
and is handed to its shell. -/
theorem foreign_command_executed :
    let env := signEnvelope Wire.protobuf SigningKey.echo (idEnvelope "h2")
    let streams := [[(seconds 1001, .command env)]]
    let v := Verifier.new ["shell.exec"] "high"
    Genuine Wire.protobuf SigningKey.echo env ∧
      Unforgeable Wire.protobuf SigningKey.echo [env] ((commandMessages streams).map Prod.snd) ∧
      acceptedBy Wire.protobuf SigningKey.echo v (commandMessages streams) = [env] ∧
      ShellExecutor.execute false env = .runShell "id" 60 ∧
      ¬ BoundToHost Wire.protobuf SigningKey.echo "h1" [env] v (hlAgent false) streams := by
  intro env streams v
  have commands : commandMessages streams = [(seconds 1001, env)] := rfl
  have signature : verifySignature Wire.protobuf SigningKey.echo env = true :=
    verifySignature_sign _ _ _
  have acceptable : Acceptable Wire.protobuf SigningKey.echo v env (seconds 1001) :=
    ⟨signature, by decide, by decide, by decide, by decide, by simp [v, Verifier.new]⟩
  refine ⟨idEnvelope_genuine _ _ _, ?_, ?_, rfl, ?_⟩
  · rintro other member _
    obtain rfl : other = env := by simpa [commands] using member
    exact ⟨_, List.mem_singleton.mpr rfl, rfl⟩
  · simp [commands, acceptedBy, accept_eq_none.mpr acceptable]
  · intro bound
    have run : executions (hlAgent false) streams = [(seconds 1001, env)] := rfl
    have own := (bound.executed (seconds 1001, env) (by simp [run])).1
    exact absurd own (by decide)

end HlHelper.Agent
