import HlHelper.Live.CommandBridge
import HlHelper.Live.Stream
import HlHelper.Tasks.Rollup

/-! The life of a command over its two stores, the rows of the database and the
live queues: dispatches, the bridge between both, the agents' streams, results,
`cancel_task`, the sweeper and restarts of the server. -/

namespace HlHelper.Live

open HlHelper.Library HlHelper.Tasks

/-- One host's stream. `acking` is the command of the result that the receive loop
has handled and is about to ack. -/
structure HostStream where
  stream : Option StreamState
  orphans : List (Option CommandEnvelope)
  acking : Option CommandId

def HostStream.none : HostStream := ⟨.none, [], .none⟩

/-- The committed commands are `handOver.rows`. -/
structure Server where
  tasks : List Task
  runs : List TaskRun
  results : List Result
  handOver : HandOver
  streams : HostId → HostStream

def Server.new : Server := ⟨[], [], [], HandOver.start [], fun _ => .none⟩

namespace Server

def db (w : Server) : Db := ⟨w.tasks, w.runs, w.handOver.rows, w.results⟩

def withDb (w : Server) (db : Db) : Server :=
  { w with
    tasks := db.tasks
    runs := db.runs
    results := db.results
    handOver := { w.handOver with rows := db.commands } }

def bridge (w : Server) (hostId : HostId) : Bridge :=
  ⟨w.handOver.hosts, (w.streams hostId).stream, (w.streams hostId).orphans, [], []⟩

end Server

/-- The receive loop runs from the first pass of the send loop on. -/
def receiving : Option StreamState → Bool
  | some ⟨.starting, _, _⟩ => false
  | some stream => !stream.recvDone
  | none => false

inductive ServerEvent where
  | dispatch (task : Task) (run : Option TaskRun) (commands : List Command)
      (events : List BusEvent)
  | handOver (event : HandOverEvent)
  | stream (hostId : HostId) (event : BridgeEvent)
  | result (hostId : HostId) (hostKnown verified : Bool) (id : String) (env : ResultEnvelope)
  | ack (hostId : HostId)
  | cancel (taskId : TaskId)
  | sweep (now : Int)
  | restart

def cancelling (db : Db) (taskId : TaskId) : List Command :=
  db.commands.filter fun command =>
    (command.status = .queued ∨ command.status = .inFlight) ∧
      ∃ run ∈ db.runs, run.taskId = taskId ∧ command.taskRunId = run.id

def cancelTask (db : Db) (taskId : TaskId) : Db :=
  { db with
    commands := db.commands.map (setStatus .cancelled ((cancelling db taskId).map Command.id)) }

section Step

variable (sql : SqlOrder) (proto : Protobuf)

def Named (command : Command) : Prop :=
  ∀ envelope ∈ proto.parse command.envelopeBytes, envelope.commandId = command.id

instance (command : Command) : Decidable (Named proto command) :=
  inferInstanceAs (Decidable (∀ envelope ∈ proto.parse command.envelopeBytes, _))

/-- What a dispatch issues: envelopes of its own commands, and events for them. -/
def Issued (commands : List Command) (events : List BusEvent) : Prop :=
  (∀ command ∈ commands, Named proto command) ∧
    ∀ event ∈ events, event = .pendingApproval ∨
      ∃ command ∈ commands, event = .issued command.id command.hostId

instance (commands : List Command) (events : List BusEvent) :
    Decidable (Issued proto commands events) := inferInstanceAs (Decidable (_ ∧ _))

/-- A stream's step. A stream that ends cancels its receive loop, which then does
not ack any more. -/
def streamPart (w : Server) (hostId : HostId) (event : BridgeEvent) : Option Server :=
  (bridgeStep hostId (w.bridge hostId) event).map fun b =>
    { w with
      handOver := { w.handOver with hosts := b.hosts }
      streams := Function.update w.streams hostId
        ⟨b.stream, b.orphans,
          if receiving b.stream then (w.streams hostId).acking else none⟩ }

/-- A result message: it is stored if it is accepted, and its command is acked
afterwards in either case. -/
def receiveResult (w : Server) (hostId : HostId) (hostKnown verified : Bool) (id : String)
    (env : ResultEnvelope) : Server :=
  let stored :=
    if accepts sql w.db hostId hostKnown verified env then
      w.withDb (acceptResult sql w.db id env)
    else w
  { stored with
    streams := Function.update w.streams hostId
      { w.streams hostId with acking := some env.commandId } }

def serverStep (w : Server) : ServerEvent → Option Server
  | .dispatch task run commands events =>
    if NewDispatch w.db task run commands ∧ Issued proto commands events then
      some { w with
        tasks := w.tasks ++ [task]
        runs := w.runs ++ run.toList
        handOver := { w.handOver with
          rows := w.handOver.rows ++ commands
          unpublished := w.handOver.unpublished ++ events } }
    else none
  | .handOver (.commit _ _) => none
  | .handOver event =>
    (handOverStep proto w.handOver event).map (fun handOver => { w with handOver := handOver })
  | .stream _ (.enqueue _) | .stream _ (.ack _) => none
  | .stream hostId event => streamPart w hostId event
  | .result hostId hostKnown verified id env =>
    if receiving (w.streams hostId).stream ∧ (w.streams hostId).acking = none then
      some (receiveResult sql w hostId hostKnown verified id env)
    else none
  | .ack hostId =>
    (w.streams hostId).acking.map fun commandId =>
      { w with
        handOver := { w.handOver with hosts := (w.handOver.hosts.ack hostId commandId).2 }
        streams := Function.update w.streams hostId { w.streams hostId with acking := none } }
  | .cancel taskId => some (w.withDb (cancelTask w.db taskId))
  | .sweep now => some (w.withDb (sweepOnce sql w.db now))
  | .restart =>
    some { w with handOver := HandOver.start w.handOver.rows, streams := fun _ => .none }

/-- What a step of a host's stream puts on its queue or yields: a stream that
connects refills the queue, and a pulled command is put back or yielded. -/
def streamMoves (hostId : HostId) (b : Bridge) : BridgeEvent → List CommandEnvelope
  | .connect =>
    match b.hosts.register hostId with
    | .error _ => []
    | .ok hosts => (hosts.stateOf hostId).queue
  | .wake => b.held
  | _ => []

/-- The commands that an event puts on a live queue or yields from one. -/
def moved (w : Server) : ServerEvent → List CommandId
  | .handOver event =>
    match handOverStep proto w.handOver event with
    | none => []
    | some handOver =>
      (handOver.handed.drop w.handOver.handed.length).map (fun entry => entry.2.id)
  | .stream hostId event =>
    (streamMoves hostId (w.bridge hostId) event).map CommandEnvelope.commandId
  | _ => []

end Step

/-- A command with a result, or that is cancelled or expired. -/
def finished (db : Db) (commandId : CommandId) : Bool :=
  db.results.any (fun result => result.commandId = commandId) ||
    db.commands.any (fun command => command.id = commandId ∧
      (command.status = .cancelled ∨ command.status = .expired))

/-- No event of the run moves a command that is finished. -/
def LeavesFinished (proto : Protobuf) (w : Server) (event : ServerEvent) : Prop :=
  ∀ commandId ∈ moved proto w event, finished w.db commandId = false

instance (proto : Protobuf) (w : Server) (event : ServerEvent) :
    Decidable (LeavesFinished proto w event) :=
  inferInstanceAs (Decidable (∀ commandId ∈ moved proto w event, _))

/-- A copy of the command waits on its host's queue, at its stream, or with the
bridge. -/
def Server.waits (w : Server) (command : Command) : Bool :=
  ((w.bridge command.hostId).held ++ (w.bridge command.hostId).queue command.hostId).any
      (fun envelope => envelope.commandId = command.id) ||
    w.handOver.waiting.any (fun event => event = .issued command.id command.hostId) ||
    w.handOver.replays.any (fun row => row.id = command.id)

/-- The condition on the state before an event: a command gets its result, is
cancelled or expires only while no copy of it waits, the start-up query runs while
no queued command has a result, and a host connects while none of its unacked
commands is finished. -/
def Settling (sql : SqlOrder) (w : Server) : ServerEvent → Prop
  | .handOver (.query _) => ∀ row ∈ w.handOver.queued, hasResult w.db row = false
  | .stream hostId .connect =>
    ∀ envelope ∈ (w.handOver.hosts.stateOf hostId).unacked.values,
      finished w.db envelope.commandId = false
  | .result hostId hostKnown verified _ env =>
    accepts sql w.db hostId hostKnown verified env = true →
      ∀ row ∈ w.handOver.rows, row.id = env.commandId → w.waits row = false
  | .cancel taskId => ∀ row ∈ cancelling w.db taskId, w.waits row = false
  | .sweep now => ∀ row ∈ expiring w.db now, w.waits row = false
  | _ => True

instance decidableSettling (sql : SqlOrder) (w : Server) :
    ∀ event, Decidable (Settling sql w event)
  | .handOver (.query _) => inferInstanceAs (Decidable (∀ row ∈ w.handOver.queued, _))
  | .stream hostId .connect =>
    inferInstanceAs (Decidable (∀ envelope ∈ (w.handOver.hosts.stateOf hostId).unacked.values, _))
  | .result _ _ _ _ _ => inferInstanceAs (Decidable (_ → _))
  | .cancel taskId => inferInstanceAs (Decidable (∀ row ∈ cancelling w.db taskId, _))
  | .sweep now => inferInstanceAs (Decidable (∀ row ∈ expiring w.db now, _))
  | .dispatch _ _ _ _ | .ack _ | .restart => isTrue trivial
  | .handOver (.commit _ _) | .handOver .publish | .handOver .subscribe | .handOver .replay
  | .handOver .next => isTrue trivial
  | .stream _ (.enqueue _) | .stream _ (.ack _) | .stream _ .terminate | .stream _ .pushControl
  | .stream _ (.start _) | .stream _ .pullTakes | .stream _ .orphanTakes | .stream _ .ctrlTakes
  | .stream _ .termSeen | .stream _ .recvEnds | .stream _ .wake | .stream _ .resume
  | .stream _ .cancel => isTrue trivial

end HlHelper.Live
