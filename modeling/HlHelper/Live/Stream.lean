import HlHelper.Library.Redelivery
import HlHelper.Library.Runs
import HlHelper.Live.HostStore

/-! The send loop of `AgentBridge.Stream` for one host. Its tasks complete one by
one, in any order; the coroutine itself moves only when it is resumed. -/

namespace HlHelper.Live

open HlHelper.Library

/-- Where the coroutine is suspended: before its first loop iteration, in
`asyncio.wait` with the pull's command and the completed tasks, or at a yield. -/
inductive Phase where
  | starting
  | waiting (pull : Option CommandEnvelope) (ctrlDone termDone : Bool)
  | yielded
  deriving DecidableEq

structure StreamState where
  phase : Phase
  control : Nat
  recvDone : Bool
  deriving DecidableEq

/-- `orphans` are the pull tasks that a stream left behind. The last two fields
record what was put on the host's queue and what was yielded to the agent. -/
structure Bridge where
  hosts : Hosts
  stream : Option StreamState
  orphans : List (Option CommandEnvelope)
  enqueued : List CommandEnvelope
  delivered : List CommandEnvelope

def Bridge.new : Bridge := ⟨fun _ => none, none, [], [], []⟩

inductive BridgeEvent where
  | enqueue (envelope : CommandEnvelope)
  | ack (commandId : CommandId)
  | terminate
  | pushControl
  | connect
  | start (initialInterval : Bool)
  | pullTakes
  | orphanTakes
  | ctrlTakes
  | termSeen
  | recvEnds
  | wake
  | resume
  | cancel
  deriving DecidableEq

section Step

variable (hostId : HostId)

/-- The pull task's command goes back with `put_nowait`. -/
def putBack (hosts : Hosts) : Option CommandEnvelope → Hosts
  | none => hosts
  | some envelope => hosts.enqueue hostId envelope

/-- `asyncio.wait` returned: termination first, then the end of the receive loop,
then a control message, and a pulled command last. -/
def onWake (b : Bridge) (stream : StreamState) (pull : Option CommandEnvelope)
    (ctrlDone termDone : Bool) : Option Bridge :=
  if termDone || stream.recvDone then
    some { b with
      hosts := (putBack hostId b.hosts pull).unregister hostId
      stream := none }
  else if ctrlDone then
    some { b with
      hosts := putBack hostId b.hosts pull
      stream := some { stream with phase := .yielded } }
  else
    match pull with
    | none => none
    | some cmd =>
      some { b with
        hosts := b.hosts.markInFlight hostId cmd
        stream := some { stream with phase := .yielded }
        delivered := b.delivered ++ [cmd] }

/-- The coroutine is cancelled where it is suspended. Before the `try` nothing is
unregistered, and a pull task is not cancelled with it. -/
def onCancel (b : Bridge) (stream : StreamState) : Bridge :=
  match stream.phase with
  | .starting => { b with stream := none }
  | .waiting pull _ _ =>
    { b with
      hosts := b.hosts.unregister hostId
      stream := none
      orphans := b.orphans ++ [pull] }
  | .yielded => { b with hosts := b.hosts.unregister hostId, stream := none }

/-- The first orphan that still waits takes the command. -/
def orphanTake (envelope : CommandEnvelope) :
    List (Option CommandEnvelope) → Option (List (Option CommandEnvelope))
  | [] => none
  | none :: rest => some (some envelope :: rest)
  | some held :: rest => (orphanTake envelope rest).map (fun rest => some held :: rest)

/-- The events of a running stream. The control queue holds 64 messages: another
push is dropped, but the initial interval of a full queue raises before the `try`. -/
def streamStep (b : Bridge) (stream : StreamState) : BridgeEvent → Option Bridge
  | .pushControl => some { b with
      stream := some { stream with control := min 64 (stream.control + 1) } }
  | .start initialInterval =>
    match stream.phase with
    | .starting =>
      if initialInterval && stream.control == 64 then some { b with stream := none }
      else some { b with
        stream := some { stream with
          phase := .waiting none false false
          control := stream.control + initialInterval.toNat } }
    | _ => none
  | .pullTakes =>
    match stream.phase with
    | .waiting none ctrlDone termDone =>
      (b.hosts.pull hostId).map fun (envelope, hosts) =>
        { b with
          hosts := hosts
          stream := some { stream with phase := .waiting (some envelope) ctrlDone termDone } }
    | _ => none
  | .ctrlTakes =>
    match stream.phase with
    | .waiting pull false termDone =>
      if stream.control = 0 then none
      else some { b with
        stream := some { stream with
          phase := .waiting pull true termDone
          control := stream.control - 1 } }
    | _ => none
  | .termSeen =>
    match stream.phase with
    | .waiting pull ctrlDone _ =>
      if (b.hosts.stateOf hostId).terminateEvent then
        some { b with stream := some { stream with phase := .waiting pull ctrlDone true } }
      else none
    | _ => none
  | .recvEnds =>
    match stream.phase with
    | .starting => none
    | _ => some { b with stream := some { stream with recvDone := true } }
  | .wake =>
    match stream.phase with
    | .waiting pull ctrlDone termDone => onWake hostId b stream pull ctrlDone termDone
    | _ => none
  | .resume =>
    match stream.phase with
    | .yielded =>
      some { b with stream := some { stream with phase := .waiting none false false } }
    | _ => none
  | .cancel => some (onCancel hostId b stream)
  | _ => none

def bridgeStep (b : Bridge) : BridgeEvent → Option Bridge
  | .enqueue envelope =>
    some { b with
      hosts := b.hosts.enqueue hostId envelope
      enqueued := b.enqueued ++ [envelope] }
  | .ack commandId => some { b with hosts := (b.hosts.ack hostId commandId).2 }
  | .terminate => some { b with hosts := (b.hosts.terminate hostId).2 }
  | .connect =>
    match b.hosts.register hostId with
    | .error _ => some b
    | .ok hosts => some { b with hosts := hosts, stream := some ⟨.starting, 0, false⟩ }
  | .orphanTakes =>
    match b.hosts.pull hostId with
    | none => none
    | some (envelope, hosts) =>
      (orphanTake envelope b.orphans).map fun orphans =>
        { b with hosts := hosts, orphans := orphans }
  | event => b.stream.bind (fun stream => streamStep hostId b stream event)

@[simp] def Phase.held : Phase → List CommandEnvelope
  | .waiting pull _ _ => pull.toList
  | _ => []

/-- The command that the running stream's pull task holds. -/
def Bridge.held (b : Bridge) : List CommandEnvelope :=
  match b.stream with
  | none => []
  | some stream => stream.phase.held

/-- Something else than a pulled command is there for the loop to handle. -/
def Bridge.interrupted (b : Bridge) : Bool :=
  match b.stream with
  | some ⟨.waiting _ ctrlDone termDone, _, recvDone⟩ => ctrlDone || termDone || recvDone
  | _ => false

def Bridge.queue (b : Bridge) : List CommandEnvelope := (b.hosts.stateOf hostId).queue

/-- Commands are yielded in the order in which they were put on the queue,
redeliveries aside, and none is lost. -/
structure DeliversInOrder (b : Bridge) : Prop where
  in_order : InOrder b.enqueued b.delivered (b.held ++ b.queue hostId)
  kept : ∀ envelope ∈ b.enqueued,
    envelope ∈ b.queue hostId ∨ envelope ∈ (b.hosts.stateOf hostId).unacked.values ∨
      envelope ∈ b.delivered ∨ envelope ∈ b.held

/-- The condition on the state before an event: a pulled command is put back only
on an empty queue, a stream is not cancelled while its pull task holds a command,
and no pull task that a cancelled stream left behind takes one. -/
def Careful (b : Bridge) : BridgeEvent → Prop
  | .wake => b.interrupted = true → b.held ≠ [] → b.queue hostId = []
  | .cancel => b.held = []
  | .orphanTakes => False
  | _ => True

instance decidableCareful (b : Bridge) : ∀ event, Decidable (Careful hostId b event)
  | .wake => inferInstanceAs (Decidable (_ → _ → _))
  | .cancel => inferInstanceAs (Decidable (_ = _))
  | .orphanTakes => isFalse id
  | .enqueue _ | .ack _ | .terminate | .pushControl | .connect | .start _ | .pullTakes
  | .ctrlTakes | .termSeen | .recvEnds | .resume => isTrue trivial

structure Faithful (b : Bridge) : Prop where
  line : Line b.enqueued b.delivered (b.held ++ b.queue hostId)
  sent : ∀ envelope ∈ (b.hosts.stateOf hostId).unacked.values, envelope ∈ b.delivered
  registered : b.stream.isSome → (b.hosts.stateOf hostId).connected = true

variable {hostId}

/-- The events that only change the stream's own state. -/
def onlyFlags : BridgeEvent → Bool
  | .start _ | .pushControl | .ctrlTakes | .termSeen | .recvEnds | .resume => true
  | _ => false

variable {b c : Bridge}

theorem flags_step {event : BridgeEvent} (flags : onlyFlags event = true)
    (stepped : bridgeStep hostId b event = some c) :
    b.stream.isSome ∧ c.held = b.held ∧ ∃ stream, c = { b with stream := stream } := by
  have in_stream : b.stream.bind (fun stream => streamStep hostId b stream event) = some c := by
    cases event <;> first | exact stepped | cases flags
  obtain ⟨⟨phase, control, recvDone⟩, running, moved⟩ := Option.bind_eq_some_iff.mp in_stream
  refine ⟨Option.isSome_iff_exists.mpr ⟨_, running⟩, ?_⟩
  cases event with
  | start initialInterval =>
    cases phase <;> simp only [streamStep, reduceCtorEq] at moved
    split at moved <;> obtain rfl := Option.some.inj moved <;>
      exact ⟨by simp [Bridge.held, running], _, rfl⟩
  | pushControl =>
    cases moved
    exact ⟨by simp [Bridge.held, running], _, rfl⟩
  | ctrlTakes =>
    simp only [streamStep] at moved
    split at moved
    · next pull termDone =>
      split at moved
      · cases moved
      · cases moved
        exact ⟨by simp [Bridge.held, running], _, rfl⟩
    · cases moved
  | termSeen =>
    simp only [streamStep] at moved
    split at moved
    · next pull ctrlDone _ =>
      split at moved
      · cases moved
        exact ⟨by simp [Bridge.held, running], _, rfl⟩
      · cases moved
    · cases moved
  | recvEnds =>
    cases phase with
    | starting => simp [streamStep] at moved
    | _ =>
      cases moved
      exact ⟨by simp [Bridge.held, running], _, rfl⟩
  | resume =>
    cases phase <;> simp only [streamStep, reduceCtorEq] at moved
    cases moved
    exact ⟨by simp [Bridge.held, running], _, rfl⟩
  | _ => cases flags

theorem Faithful.unmoved (faithful : Faithful hostId b) (enqueued : c.enqueued = b.enqueued)
    (delivered : c.delivered = b.delivered)
    (waiting : c.held ++ c.queue hostId = b.held ++ b.queue hostId)
    (unacked : ∀ envelope ∈ (c.hosts.stateOf hostId).unacked.values,
      envelope ∈ (b.hosts.stateOf hostId).unacked.values)
    (registered : c.stream.isSome → (c.hosts.stateOf hostId).connected = true) :
    Faithful hostId c where
  line := by
    rw [enqueued, delivered, waiting]
    exact faithful.line
  sent := fun envelope member => delivered ▸ faithful.sent envelope (unacked envelope member)
  registered := registered

theorem new_faithful : Faithful hostId Bridge.new where
  line := .empty
  sent := by simp [Bridge.new, Hosts.stateOf, HostState.new]
  registered := by simp [Bridge.new]

section

variable (faithful : Faithful hostId b)
include faithful

theorem enqueue_faithful (envelope : CommandEnvelope) : Faithful hostId
      { b with
        hosts := b.hosts.enqueue hostId envelope
        enqueued := b.enqueued ++ [envelope] } where
  line := by
    have put := faithful.line.put envelope
    rw [List.append_assoc] at put
    simpa [Bridge.queue, Bridge.held] using put
  sent := by simpa using faithful.sent
  registered := by simpa using faithful.registered

theorem ack_faithful (commandId : CommandId) :
    Faithful hostId { b with hosts := (b.hosts.ack hostId commandId).2 } := by
  rcases Hosts.ack_cases b.hosts hostId commandId with ⟨_, result⟩ | ⟨_, result⟩
  · rw [result]
    exact faithful
  · rw [result]
    refine faithful.unmoved rfl rfl ?_ ?_ ?_
    · simp [Bridge.queue, Bridge.held]
    · intro envelope member
      simp only [Hosts.stateOf_set_same] at member
      exact OrderedMap.mem_values_of_mem_erase member
    · simpa using faithful.registered

theorem connect_faithful (stepped : bridgeStep hostId b .connect = some c) : Faithful hostId c := by
  simp only [bridgeStep] at stepped
  cases registered : b.hosts.register hostId with
  | error error =>
    simp only [registered, Option.some.injEq] at stepped
    exact stepped ▸ faithful
  | ok hosts =>
    simp only [registered, Option.some.injEq] at stepped
    subst stepped
    obtain ⟨free, rfl⟩ := Hosts.register_eq_ok.mp registered
    -- a running stream would keep the host connected
    have no_stream : b.stream = none := by
      cases running : b.stream with
      | none => rfl
      | some stream =>
        have connected := faithful.registered (by simp [running])
        simp [free] at connected
    have nothing_held : b.held = [] := by simp [Bridge.held, no_stream]
    refine ⟨?_, ?_, ?_⟩
    · have line := faithful.line
      rw [nothing_held, List.nil_append] at line
      have replayed := line.replay _ faithful.sent
      simpa [Bridge.queue, Bridge.held] using replayed
    · simpa using faithful.sent
    · simp

theorem unregister_faithful {hosts : Hosts} {orphans : List (Option CommandEnvelope)}
    (waiting : (hosts.stateOf hostId).queue = b.held ++ b.queue hostId)
    (unacked : (hosts.stateOf hostId).unacked = (b.hosts.stateOf hostId).unacked) : Faithful hostId
      { b with hosts := hosts.unregister hostId, stream := none, orphans := orphans } := by
  obtain ⟨queue_kept, unacked_kept⟩ := hosts.unregister_commands hostId hostId
  refine faithful.unmoved rfl rfl ?_ ?_ (by simp)
  · simp [Bridge.queue, Bridge.held] at waiting ⊢
    rw [queue_kept, waiting]
  · rw [unacked_kept, unacked]
    exact fun _ member => member

end

theorem putBack_waiting {pull : Option CommandEnvelope} (held : b.held = pull.toList)
    (alone : pull ≠ none → b.queue hostId = []) :
    ((putBack hostId b.hosts pull).stateOf hostId).queue = b.held ++ b.queue hostId ∧
      ((putBack hostId b.hosts pull).stateOf hostId).unacked =
        (b.hosts.stateOf hostId).unacked ∧
      ((putBack hostId b.hosts pull).stateOf hostId).connected =
        (b.hosts.stateOf hostId).connected := by
  cases pull with
  | none => simp [putBack, held, Bridge.queue]
  | some envelope =>
    have empty := alone (by simp)
    simp only [Bridge.queue] at empty
    simp [putBack, held, Bridge.queue, empty]

theorem wake_step (stepped : bridgeStep hostId b .wake = some c) :
    ∃ (pull : Option CommandEnvelope) (stream : StreamState), b.held = pull.toList ∧
      ((b.interrupted = true ∧
          (c = { b with hosts := (putBack hostId b.hosts pull).unregister hostId, stream := none } ∨
            c = { b with
              hosts := putBack hostId b.hosts pull
              stream := some { stream with phase := .yielded } })) ∨
        ∃ cmd, pull = some cmd ∧ c = { b with
          hosts := b.hosts.markInFlight hostId cmd
          stream := some { stream with phase := .yielded }
          delivered := b.delivered ++ [cmd] }) := by
  simp only [bridgeStep, Option.bind_eq_some_iff] at stepped
  obtain ⟨⟨phase, control, recvDone⟩, running, stepped⟩ := stepped
  cases phase with
  | starting => simp [streamStep] at stepped
  | yielded => simp [streamStep] at stepped
  | waiting pull ctrlDone termDone =>
    refine ⟨pull, ⟨.yielded, control, recvDone⟩, by simp [Bridge.held, running], ?_⟩
    have interrupted : b.interrupted = (ctrlDone || termDone || recvDone) := by
      simp [Bridge.interrupted, running]
    simp only [streamStep, onWake] at stepped
    split at stepped
    · next ended =>
      left
      rw [interrupted, Bool.or_assoc, ended, Bool.or_true]
      exact ⟨rfl, .inl (Option.some.inj stepped).symm⟩
    · split at stepped
      · next control_first =>
        left
        rw [interrupted, control_first]
        exact ⟨rfl, .inr (Option.some.inj stepped).symm⟩
      · cases pull with
        | none => simp at stepped
        | some cmd => exact .inr ⟨cmd, rfl, (Option.some.inj stepped).symm⟩

theorem wake_cases (careful : Careful hostId b .wake)
    (stepped : bridgeStep hostId b .wake = some c) :
    (∃ (hosts : Hosts) (stream : StreamState),
      (hosts.stateOf hostId).queue = b.held ++ b.queue hostId ∧
      (hosts.stateOf hostId).unacked = (b.hosts.stateOf hostId).unacked ∧
      (hosts.stateOf hostId).connected = (b.hosts.stateOf hostId).connected ∧
      (c = { b with hosts := hosts.unregister hostId, stream := none } ∨
        c = { b with hosts := hosts, stream := some { stream with phase := .yielded } })) ∨
    (∃ (cmd : CommandEnvelope) (stream : StreamState), b.held = [cmd] ∧
      c = { b with
        hosts := b.hosts.markInFlight hostId cmd
        stream := some { stream with phase := .yielded }
        delivered := b.delivered ++ [cmd] }) := by
  obtain ⟨pull, stream, held, ⟨interrupted, outcome⟩ | ⟨cmd, rfl, outcome⟩⟩ := wake_step stepped
  · have alone : pull ≠ none → b.queue hostId = [] := by
      intro pulled
      refine careful interrupted ?_
      rw [held]
      exact mt Option.toList_eq_nil_iff.mp pulled
    obtain ⟨queue, unacked, connected⟩ := putBack_waiting held alone
    exact .inl ⟨_, stream, queue, unacked, connected, outcome⟩
  · exact .inr ⟨cmd, stream, held, outcome⟩

theorem wake_faithful (faithful : Faithful hostId b) (careful : Careful hostId b .wake)
    (stepped : bridgeStep hostId b .wake = some c) : Faithful hostId c := by
  have running : b.stream.isSome := by
    simp only [bridgeStep, Option.bind_eq_some_iff] at stepped
    obtain ⟨stream, running, _⟩ := stepped
    simp [running]
  have connected := faithful.registered running
  rcases wake_cases careful stepped with
    ⟨hosts, stream, queue, unacked, still, rfl | rfl⟩ | ⟨cmd, stream, held, rfl⟩
  · exact unregister_faithful faithful queue unacked
  · refine faithful.unmoved rfl rfl ?_ ?_ ?_
    · simpa [Bridge.queue, Bridge.held] using queue
    · rw [unacked]
      exact fun _ member => member
    · simp [still, connected]
  · have line := faithful.line
    rw [held] at line
    refine ⟨?_, ?_, ?_⟩
    · simpa [Bridge.queue, Bridge.held] using line.deliver
    · intro envelope member
      simp only [Hosts.stateOf_markInFlight] at member
      rcases OrderedMap.mem_values_insert member with old | rfl
      · exact List.mem_append_left _ (faithful.sent envelope old)
      · simp
    · simp [connected]

theorem cancel_faithful (faithful : Faithful hostId b) (careful : Careful hostId b .cancel)
    (stepped : bridgeStep hostId b .cancel = some c) : Faithful hostId c := by
  simp only [bridgeStep, Option.bind_eq_some_iff] at stepped
  obtain ⟨⟨phase, control, recvDone⟩, running, stepped⟩ := stepped
  have idle : b.held = [] := careful
  simp only [streamStep, onCancel, Option.some.injEq] at stepped
  subst stepped
  cases phase with
  | starting =>
    refine faithful.unmoved rfl rfl ?_ (fun _ member => member) (by simp)
    rw [idle]
    rfl
  | waiting pull ctrlDone termDone =>
    exact unregister_faithful faithful (by simp [idle, Bridge.queue]) rfl
  | yielded =>
    exact unregister_faithful faithful (by simp [idle, Bridge.queue]) rfl

theorem pullTakes_step (stepped : bridgeStep hostId b .pullTakes = some c) :
    ∃ envelope hosts stream, b.hosts.pull hostId = some (envelope, hosts) ∧ b.stream.isSome ∧
      b.held = [] ∧ c.held = [envelope] ∧ c = { b with hosts := hosts, stream := some stream } := by
  simp only [bridgeStep, Option.bind_eq_some_iff] at stepped
  obtain ⟨⟨phase, control, recvDone⟩, running, stepped⟩ := stepped
  cases phase with
  | starting => simp [streamStep] at stepped
  | yielded => simp [streamStep] at stepped
  | waiting pull ctrlDone termDone =>
    cases pull with
    | some envelope => simp [streamStep] at stepped
    | none =>
      simp only [streamStep, Option.map_eq_some_iff] at stepped
      obtain ⟨⟨envelope, hosts⟩, pulled, rfl⟩ := stepped
      exact ⟨envelope, hosts, _, pulled, by simp [running], by simp [Bridge.held, running], rfl,
        rfl⟩

theorem pullTakes_faithful (faithful : Faithful hostId b)
    (stepped : bridgeStep hostId b .pullTakes = some c) : Faithful hostId c := by
  obtain ⟨envelope, hosts, stream, pulled, running, idle, held, rfl⟩ := pullTakes_step stepped
  obtain ⟨rest, queue, rfl⟩ := Hosts.pull_eq_some.mp pulled
  refine faithful.unmoved rfl rfl ?_ ?_ ?_
  · rw [held, idle]
    simp [Bridge.queue, queue]
  · simp
  · simp [faithful.registered running]

theorem flags_faithful {event : BridgeEvent} (faithful : Faithful hostId b)
    (flags : onlyFlags event = true) (stepped : bridgeStep hostId b event = some c) :
    Faithful hostId c := by
  obtain ⟨running, held, stream, rfl⟩ := flags_step flags stepped
  refine faithful.unmoved rfl rfl ?_ (fun _ member => member) (fun _ => faithful.registered running)
  rw [held]
  rfl

theorem bridgeStep_faithful (b : Bridge) (event : BridgeEvent) (c : Bridge)
    (faithful : Faithful hostId b) (careful : Careful hostId b event)
    (stepped : bridgeStep hostId b event = some c) : Faithful hostId c := by
  cases event with
  | enqueue envelope =>
    cases stepped
    exact enqueue_faithful faithful envelope
  | ack commandId =>
    cases stepped
    exact ack_faithful faithful commandId
  | terminate =>
    cases stepped
    obtain ⟨queue, unacked⟩ := Hosts.terminate_commands b.hosts hostId hostId
    refine faithful.unmoved rfl rfl ?_ ?_ ?_
    · simp [Bridge.queue, Bridge.held, queue]
    · simp [unacked]
    · simpa [Hosts.terminate_connected] using faithful.registered
  | connect => exact connect_faithful faithful stepped
  | orphanTakes => exact absurd careful id
  | pullTakes => exact pullTakes_faithful faithful stepped
  | wake => exact wake_faithful faithful careful stepped
  | cancel => exact cancel_faithful faithful careful stepped
  | start initialInterval => exact flags_faithful faithful rfl stepped
  | pushControl => exact flags_faithful faithful rfl stepped
  | ctrlTakes => exact flags_faithful faithful rfl stepped
  | termSeen => exact flags_faithful faithful rfl stepped
  | recvEnds => exact flags_faithful faithful rfl stepped
  | resume => exact flags_faithful faithful rfl stepped

theorem faithful_delivers (faithful : Faithful hostId b) : DeliversInOrder hostId b where
  in_order := faithful.line.ordered
  kept := by
    intro envelope member
    rcases faithful.line.delivered_or_waiting member with delivered | waiting
    · exact .inr (.inr (.inl delivered))
    · rcases List.mem_append.mp waiting with held | queued
      · exact .inr (.inr (.inr held))
      · exact .inl queued

theorem wake_returns (careful : Careful hostId b .wake)
    (stepped : bridgeStep hostId b .wake = some c) (unyielded : c.delivered = b.delivered) :
    c.queue hostId = b.held ++ b.queue hostId := by
  rcases wake_cases careful stepped with
    ⟨hosts, stream, queue, unacked, still, rfl | rfl⟩ | ⟨cmd, stream, held, rfl⟩
  · exact (hosts.unregister_commands hostId hostId).1.trans queue
  · exact queue
  · simp at unyielded

/-- In every run whose events meet the condition, the agent is sent the commands
in the order of the queue, none is lost, and what is not yielded goes back in front. -/
theorem stream_run_delivers_in_order (hostId : HostId) {events : List BridgeEvent}
    (reached : run (bridgeStep hostId) Bridge.new events = some b)
    (careful : Meets (bridgeStep hostId) (Careful hostId) Bridge.new events) :
    DeliversInOrder hostId b ∧
      ∀ c, Careful hostId b .wake → bridgeStep hostId b .wake = some c →
        c.delivered = b.delivered → c.queue hostId = b.held ++ b.queue hostId := by
  have faithful := run_keeps bridgeStep_faithful new_faithful reached careful
  exact ⟨faithful_delivers faithful, fun _ calm stepped => wake_returns calm stepped⟩

end Step

def reconnectEvents : List BridgeEvent :=
  [.enqueue (named "c1"), .connect, .start true, .ctrlTakes, .wake, .resume, .pullTakes, .wake,
    .resume, .enqueue (named "c2"), .pullTakes, .wake, .resume, .recvEnds, .wake, .connect,
    .start false, .pullTakes, .wake, .ack "c1", .resume, .pullTakes, .wake]

theorem reconnect_delivers_in_order :
    ∃ b, run (bridgeStep "h1") Bridge.new reconnectEvents = some b ∧
      b.delivered = [named "c1", named "c2", named "c1", named "c2"] ∧
      DeliversInOrder "h1" b := by
  have finishes : (run (bridgeStep "h1") Bridge.new reconnectEvents).isSome := by decide
  have careful : Meets (bridgeStep "h1") (Careful "h1") Bridge.new reconnectEvents := by decide
  obtain ⟨b, reached⟩ := Option.isSome_iff_exists.mp finishes
  refine ⟨b, reached, ?_, (stream_run_delivers_in_order "h1" reached careful).1⟩
  have outcome : (run (bridgeStep "h1") Bridge.new reconnectEvents).map Bridge.delivered =
      some [named "c1", named "c2", named "c1", named "c2"] := by decide
  rw [reached] at outcome
  exact Option.some.inj outcome

/-- A control message that arrives together with the first of two queued commands
sends that command behind the second one. -/
theorem control_message_inverts_commands :
    ∃ b, run (bridgeStep "h1") Bridge.new
        [.enqueue (named "c1"), .enqueue (named "c2"), .connect, .start true, .pullTakes,
          .ctrlTakes, .wake, .resume, .pullTakes, .wake] = some b ∧
      b.delivered = [named "c2"] ∧ ¬ DeliversInOrder "h1" b := by
  refine ⟨_, rfl, rfl, ?_⟩
  intro delivers
  obtain ⟨copies, all, firsts, _⟩ := delivers.in_order
  have reordered : copies.map Prod.snd = [named "c2", named "c1"] := all
  have enqueued : (copies.filter Prod.fst).map Prod.snd = [named "c1", named "c2"] := firsts
  have sub : ((copies.filter Prod.fst).map Prod.snd).Sublist (copies.map Prod.snd) :=
    List.filter_sublist.map _
  rw [reordered, enqueued] at sub
  exact absurd (sub.eq_of_length rfl) (by decide)

end HlHelper.Live
