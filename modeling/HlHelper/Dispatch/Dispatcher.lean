import HlHelper.Dispatch.Queue
import HlHelper.Wire

/-! `CommandDispatcher.dispatch`, the twelve steps from a principal to the queue. -/

namespace HlHelper.Dispatch

open HlHelper.Library

/-- What the dispatcher was built with. `authorize` returns nothing where the RBAC
provider raises, `approvalEngine` requests an approval and returns its id. -/
structure Collaborators where
  proto : Protobuf
  key : SigningKey
  issue : CapabilityClaims → Bytes
  authorize : Principal → String → Option HostId → Option Bool
  approvalEngine : Option (String → String → String → String → String)
  bus : Bool
  capacity : Nat

structure Call where
  principal : Principal
  targets : Selector
  payload : TaskPayload
  idempotencyKey : Option String

/-- The random values drawn for one host, the rows that other transactions commit
before its flush, and how often the sequence of its audit entry is taken. -/
structure HostDraw where
  commandId : CommandId
  nonce : Bytes
  racing : List Command
  auditClashes : Nat

/-- What a call draws: its UUIDs, the time, and the draws for each host. -/
structure Draws where
  earlyTaskId : TaskId
  taskRunId : TaskRunId
  approvalRowId : String
  now : Int
  host : HostId → HostDraw

structure DispatchResult where
  taskId : TaskId
  dispatched : List HostId
  denied : List HostId
  pendingApprovalIds : List String
  deriving DecidableEq, Repr

/-- The outcome of steps 1 to 3, with the parent task of step 3.5. -/
structure Plan where
  order : Order
  candidates : List HostId
  denied : List HostId
  task : Task

section Steps

variable (c : Collaborators) (draws : Draws)

def planOf (fleet : Fleet) (call : Call) : Except DispatchError Plan :=
  (resolveTargets fleet call.targets).bind fun hosts =>
  (getPayloadKind call.payload).bind fun payloadKind =>
  -- a provider that raises denies the host
  let allowed := fun hostId =>
    c.authorize call.principal (actionName payloadKind) (some hostId) = some true
  let candidates := hosts.filter (fun hostId => allowed hostId)
  let denied := hosts.filter (fun hostId => ¬ allowed hostId)
  let risk := classify payloadKind candidates.length (extractPayloadMetadata call.payload)
  (principalIdentity call.principal).bind fun principalId =>
  (taskKind payloadKind).bind fun kind =>
  (payloadToDict call.payload).bind fun payload =>
  (selectorToDict call.targets).map fun selector =>
    { order := ⟨principalId, payloadKind, call.payload, risk, draws.now⟩
      candidates := candidates
      denied := denied
      task :=
        { id := draws.earlyTaskId
          kind := kind
          createdBy := principalId
          status := .pending
          payload := payload
          targetSelector := selector
          idempotencyKey := call.idempotencyKey
          risk := risk
          requiresApproval := risk = .high } }

def hasApproval (tables : Tables) (order : Order) : Bool :=
  tables.approvals.any fun row =>
    row.subjectType = "command" ∧ row.subjectId = order.payloadKind ∧
      row.requesterId = order.principalId ∧ row.approved

def selfApproved (principal : Principal) : Bool :=
  c.authorize principal "task:approve" none = some true

/-- The row with which a principal that may approve tasks approves its own dispatch. -/
def selfApproval (order : Order) : Approval where
  id := draws.approvalRowId
  subjectType := "command"
  subjectId := order.payloadKind
  policy := "single"
  requesterId := order.principalId
  approved := true
  decidedById := some order.principalId

def publishPending (session : Session) (approvalId : String) : Session :=
  if c.bus then session.publish (.pendingApproval approvalId) else session

inductive Gate where
  | cleared (session : Session)
  | blocked (approvalId : String) (session : Session)

def approvalGate (session : Session) (principal : Principal) (plan : Plan) : Gate :=
  match c.approvalEngine with
  | none => .cleared session
  | some request =>
    if plan.order.risk = .high ∧ plan.candidates ≠ [] then
      if hasApproval session.tables plan.order then .cleared session
      else if selfApproved c principal then
        .cleared (session.addApproval (selfApproval draws plan.order))
      else
        let approvalId :=
          request "command" plan.order.payloadKind "single_second_factor" plan.order.principalId
        .blocked approvalId (publishPending c session approvalId)
    else .cleared session

/-- Step 5: the run and the task of the command that the cache names for the key. -/
def resume (tables : Tables) (cache : Cache) (key : Option String) :
    Option (TaskRunId × TaskId) :=
  (key.bind cache.get?).bind fun cachedId =>
    (findKey Command.id tables.commands cachedId).map fun command =>
      (command.taskRunId,
        match findKey TaskRun.id tables.runs command.taskRunId with
        | none => ""
        | some run => run.taskId)

/-- Steps 8 to 10: the signed envelope in a queued row. -/
def commandFor (order : Order) (taskRunId : TaskRunId) (hostId : HostId) (sequence : Nat) :
    Except DispatchError Command :=
  let draw := draws.host hostId
  (buildEnvelope c.issue order hostId draw.commandId sequence draw.nonce).map fun envelope =>
    { id := draw.commandId
      taskRunId := taskRunId
      hostId := hostId
      sequence := sequence
      envelopeBytes := c.proto.serialize (signEnvelope c.proto c.key envelope)
      risk := order.risk
      issuedAt := order.now
      expiresAt := order.expiresAt
      status := .queued
      idempotencyKey := none }

def dispatchHost (order : Order) (key : Option String) (taskRunId : TaskRunId)
    (session : Session) (cache : Cache) (hostId : HostId) :
    Except DispatchError (Session × Cache) :=
  let draw := draws.host hostId
  let (sequence, session) := session.allocate hostId
  (commandFor c draws order taskRunId hostId sequence).bind fun command =>
  (enqueue c.capacity session cache command key draw.racing).bind fun (enqueued, session, cache) =>
  if enqueued.id = draw.commandId then
    let entry : AuditEntry :=
      { actor := order.principalId
        action := "command.issued"
        subject := draw.commandId
        hostId := hostId
        taskRunId := taskRunId
        risk := order.risk
        payloadKind := order.payloadKind }
    (session.appendAudit entry draw.auditClashes).map fun session =>
      (if c.bus then session.publish (.issued draw.commandId hostId) else session, cache)
  else .ok (session, cache)

def dispatchHosts (order : Order) (key : Option String) (taskRunId : TaskRunId) :
    Session → Cache → List HostId → Except DispatchError (Session × Cache)
  | session, cache, [] => .ok (session, cache)
  | session, cache, hostId :: rest =>
    (dispatchHost c draws order key taskRunId session cache hostId).bind
      (fun (session, cache) => dispatchHosts order key taskRunId session cache rest)

def dispatch (session : Session) (cache : Cache) (call : Call) :
    Except DispatchError (DispatchResult × Session × Cache) :=
  (planOf c draws session.tables.fleet call).bind fun plan =>
  match approvalGate c draws (session.addTask plan.task) call.principal plan with
  | .blocked approvalId session =>
    .ok (⟨draws.earlyTaskId, [], plan.denied, [approvalId]⟩, session.commit, cache)
  | .cleared session =>
    match plan.candidates with
    | [] => .ok (⟨draws.earlyTaskId, [], plan.denied, []⟩, session.commit, cache)
    | first :: _ =>
      let (session, taskRunId, taskId) :=
        match resume session.tables cache call.idempotencyKey with
        | some (taskRunId, taskId) => (session, taskRunId, taskId)
        | none =>
          (session.addRun ⟨draws.taskRunId, draws.earlyTaskId, first, .pending⟩,
            draws.taskRunId, draws.earlyTaskId)
      (dispatchHosts c draws plan.order call.idempotencyKey taskRunId session cache
        plan.candidates).map
        (fun (session, cache) => (⟨taskId, plan.candidates, plan.denied, []⟩, session, cache))

end Steps

/-- The tasks and runs of the session are as before, or a rollback took it back to
the committed ones. -/
structure KeepsRuns (session next : Session) : Prop where
  committed : next.committed.tasks = session.committed.tasks ∧
    next.committed.runs = session.committed.runs
  tables : (next.tables.tasks = session.tables.tasks ∧ next.tables.runs = session.tables.runs) ∨
    (next.tables.tasks = session.committed.tasks ∧ next.tables.runs = session.committed.runs)

/-- What of the tables the queue, the sequences and the audit do not write. -/
def Untouched {β : Type} (view : Tables → β) : Prop :=
  ∀ tables commands nextSeq audit,
    view { tables with commands := commands, nextSeq := nextSeq, audit := audit } = view tables

/-- It is as before, or a rollback took it back to the committed one. -/
structure Leaves {β : Type} (view : Tables → β) (session next : Session) : Prop where
  committed : view next.committed = view session.committed
  tables : view next.tables = view session.tables ∨ view next.tables = view session.committed

namespace Leaves

variable {β : Type} {view : Tables → β} {first second third : Session}

theorem refl (session : Session) : Leaves view session session := ⟨rfl, .inl rfl⟩

theorem trans (before : Leaves view first second) (after : Leaves view second third) :
    Leaves view first third where
  committed := after.committed.trans before.committed
  tables := by
    rcases after.tables with same | back
    · rw [same]
      exact before.tables
    · rw [back]
      exact .inr before.committed

theorem keepsRuns (leaves : Leaves (fun tables => (tables.tasks, tables.runs)) first second) :
    KeepsRuns first second where
  committed := Prod.mk.inj leaves.committed
  tables := leaves.tables.imp Prod.mk.inj Prod.mk.inj

end Leaves

section Plan

variable {c : Collaborators} {draws : Draws} {fleet : Fleet} {call : Call} {plan : Plan}

/-- What a plan is made of; the candidates are the resolved hosts that are authorised. -/
structure Planned (c : Collaborators) (draws : Draws) (fleet : Fleet) (call : Call) (plan : Plan) :
    Prop where
  task : plan.task.id = draws.earlyTaskId
  identity : principalIdentity call.principal = .ok plan.order.principalId
  kind : getPayloadKind call.payload = .ok plan.order.payloadKind
  candidates : ∃ hosts, resolveTargets fleet call.targets = .ok hosts ∧
    plan.candidates = hosts.filter fun hostId =>
      c.authorize call.principal (actionName plan.order.payloadKind) (some hostId) = some true

theorem planned_of_planOf (planned : planOf c draws fleet call = .ok plan) :
    Planned c draws fleet call plan := by
  obtain ⟨hosts, resolved, planned⟩ := bind_eq_ok.mp planned
  obtain ⟨payloadKind, kind, planned⟩ := bind_eq_ok.mp planned
  obtain ⟨principalId, identity, planned⟩ := bind_eq_ok.mp planned
  obtain ⟨_, _, planned⟩ := bind_eq_ok.mp planned
  obtain ⟨payload, _, planned⟩ := bind_eq_ok.mp planned
  obtain ⟨selector, _, rfl⟩ := map_eq_ok.mp planned
  exact ⟨rfl, identity, kind, hosts, resolved, rfl⟩

end Plan

section Resume

variable {tables : Tables} {cache : Cache}

theorem answered_of_resume_none {key : String} (cold : resume tables cache (some key) = none)
    (answered : Answered key tables cache) :
    some key ∈ tables.commands.map Command.idempotencyKey := by
  refine answered.resolve_right ?_
  rintro ⟨cachedId, cached, present⟩
  obtain ⟨command, found⟩ := Option.isSome_iff_exists.mp present
  simp [resume, cached, found] at cold

theorem answered_of_resume_some {key : Option String} {resumed : TaskRunId × TaskId}
    (warm : resume tables cache key = some resumed) :
    ∃ k, key = some k ∧ Answered k tables cache := by
  obtain ⟨cachedId, cached, found⟩ := Option.bind_eq_some_iff.mp warm
  obtain ⟨k, rfl, cached⟩ := Option.bind_eq_some_iff.mp cached
  obtain ⟨command, found, _⟩ := Option.map_eq_some_iff.mp found
  exact ⟨k, rfl, .inr ⟨cachedId, cached, by simp [found]⟩⟩

end Resume

section Lemmas

variable {c : Collaborators} {draws : Draws} {order : Order} {key : Option String}
  {taskRunId : TaskRunId} {session next : Session} {cache after : Cache} {hostId : HostId}
  {β : Type} {view : Tables → β}

theorem flushCommand_leaves (untouched : Untouched view) {command : Command}
    (flushed : session.flushCommand command = .ok next) : Leaves view session next := by
  obtain ⟨_, _, _, rfl⟩ := Session.flushCommand_eq_ok.mp flushed
  exact ⟨rfl, .inl (untouched session.tables _ _ _)⟩

theorem othersCommit_leaves (untouched : Untouched view) (rows : List Command) :
    Leaves view session (session.othersCommit rows) :=
  ⟨untouched session.committed _ _ _, .inl (untouched session.tables _ _ _)⟩

theorem rollback_leaves : Leaves view session session.rollback := ⟨rfl, .inr rfl⟩

theorem enqueue_leaves (untouched : Untouched view) {capacity : Nat}
    {command enqueued : Command} {racing : List Command}
    (returned : enqueue capacity session cache command key racing = .ok (enqueued, next, after)) :
    Leaves view session next := by
  have raced : Leaves view session (session.othersCommit racing) :=
    othersCommit_leaves untouched racing
  cases key with
  | none =>
    have flushed := (enqueue_unkeyed returned).2
    exact raced.trans (flushCommand_leaves untouched flushed)
  | some key =>
    by_cases answered : Answered key session.tables cache
    · obtain ⟨existing, _, cache', result, _⟩ := enqueue_answered capacity command racing answered
      rw [result] at returned
      obtain ⟨_, rest⟩ := Prod.mk.inj (Except.ok.inj returned)
      obtain ⟨rfl, _⟩ := Prod.mk.inj rest
      exact .refl session
    · rcases enqueue_absent answered returned with ⟨_, flushed⟩ | ⟨rfl, _⟩
      · exact raced.trans (flushCommand_leaves untouched flushed)
      · exact raced.trans rollback_leaves

theorem allocate_leaves (untouched : Untouched view) (session : Session) (hostId : HostId) :
    Leaves view session (session.allocate hostId).2 := by
  refine ⟨rfl, .inl ?_⟩
  change view (session.tables.allocate hostId).2 = view session.tables
  unfold Tables.allocate
  split <;> exact untouched session.tables _ _ _

theorem appendAudit_leaves (untouched : Untouched view) {entry : AuditEntry} {clashes : Nat}
    (appended : session.appendAudit entry clashes = .ok next) : Leaves view session next := by
  obtain ⟨base, ⟨_, rfl⟩ | ⟨_, rfl⟩, rfl⟩ := Session.appendAudit_eq_ok appended
  · exact ⟨rfl, .inl (untouched base.tables _ _ _)⟩
  · exact ⟨rfl, .inr (untouched session.committed _ _ _)⟩

theorem dispatchHost_cases
    (returned : dispatchHost c draws order key taskRunId session cache hostId =
      .ok (next, after)) :
    ∃ command enqueued queued, commandFor c draws order taskRunId hostId
          (session.allocate hostId).1 = .ok command ∧
      enqueue c.capacity (session.allocate hostId).2 cache command key
          (draws.host hostId).racing = .ok (enqueued, queued, after) ∧
      ((enqueued.id ≠ (draws.host hostId).commandId ∧ next = queued) ∨
        enqueued.id = (draws.host hostId).commandId ∧ ∃ entry audited,
          queued.appendAudit entry (draws.host hostId).auditClashes = .ok audited ∧
            next.committed = audited.committed ∧ next.tables = audited.tables) := by
  obtain ⟨command, built, returned⟩ := bind_eq_ok.mp returned
  obtain ⟨⟨enqueued, queued, cache'⟩, stored, returned⟩ := bind_eq_ok.mp returned
  dsimp only at returned
  split at returned
  · next new =>
    obtain ⟨audited, appended, same⟩ := map_eq_ok.mp returned
    cases same
    refine ⟨command, enqueued, queued, built, stored, .inr ⟨new, _, audited, appended, ?_⟩⟩
    split <;> exact ⟨rfl, rfl⟩
  · next old =>
    obtain ⟨rfl, rfl⟩ := Prod.mk.inj (Except.ok.inj returned)
    exact ⟨command, enqueued, queued, built, stored, Or.inl ⟨old, rfl⟩⟩

theorem dispatchHost_leaves (untouched : Untouched view)
    (returned : dispatchHost c draws order key taskRunId session cache hostId =
      .ok (next, after)) : Leaves view session next := by
  obtain ⟨command, enqueued, queued, _, stored, outcome⟩ := dispatchHost_cases returned
  have before : Leaves view session queued :=
    (allocate_leaves untouched session hostId).trans (enqueue_leaves untouched stored)
  rcases outcome with ⟨_, rfl⟩ | ⟨_, entry, audited, appended, committed, tables⟩
  · exact before
  · have left := before.trans (appendAudit_leaves untouched appended)
    exact ⟨committed ▸ left.committed, tables ▸ left.tables⟩

theorem dispatchHosts_leaves (untouched : Untouched view) {hosts : List HostId}
    (returned : dispatchHosts c draws order key taskRunId session cache hosts =
      .ok (next, after)) : Leaves view session next := by
  induction hosts generalizing session cache with
  | nil =>
    obtain ⟨rfl, _⟩ := Prod.mk.inj (Except.ok.inj returned)
    exact .refl session
  | cons hostId rest ih =>
    obtain ⟨⟨middle, cache'⟩, first, later⟩ := bind_eq_ok.mp returned
    exact (dispatchHost_leaves untouched first).trans (ih later)

theorem dispatchHost_keeps
    (returned : dispatchHost c draws order key taskRunId session cache hostId =
      .ok (next, after)) : KeepsRuns session next :=
  (dispatchHost_leaves (fun _ _ _ _ => rfl) returned).keepsRuns

theorem dispatchHosts_keeps {hosts : List HostId}
    (returned : dispatchHosts c draws order key taskRunId session cache hosts =
      .ok (next, after)) : KeepsRuns session next :=
  (dispatchHosts_leaves (fun _ _ _ _ => rfl) returned).keepsRuns

def Tables.allocateAll (tables : Tables) (hosts : List HostId) : Tables :=
  hosts.foldl (fun tables hostId => (tables.allocate hostId).2) tables

theorem allocate_commands (tables : Tables) (hostId : HostId) :
    (tables.allocate hostId).2.commands = tables.commands := by
  unfold Tables.allocate
  split <;> rfl

theorem allocateAll_tasks (tables : Tables) (hosts : List HostId) :
    (tables.allocateAll hosts).tasks = tables.tasks := by
  induction hosts generalizing tables with
  | nil => rfl
  | cons hostId rest ih =>
    refine (ih (tables.allocate hostId).2).trans ?_
    unfold Tables.allocate
    split <;> rfl

theorem dispatchHosts_answered {key : String} {hosts : List HostId}
    (answered : Answered key session.tables cache)
    (fresh : ∀ hostId ∈ hosts, (draws.host hostId).commandId ∉
      session.tables.commands.map Command.id)
    (returned : dispatchHosts c draws order (some key) taskRunId session cache hosts =
      .ok (next, after)) :
    next.committed = session.committed ∧ next.tables = session.tables.allocateAll hosts := by
  induction hosts generalizing session cache with
  | nil =>
    obtain ⟨rfl, _⟩ := Prod.mk.inj (Except.ok.inj returned)
    exact ⟨rfl, rfl⟩
  | cons hostId rest ih =>
    obtain ⟨⟨middle, cache'⟩, first, later⟩ := bind_eq_ok.mp returned
    obtain ⟨command, enqueued, queued, _, stored, outcome⟩ := dispatchHost_cases first
    have commands := allocate_commands session.tables hostId
    have still : Answered key (session.allocate hostId).2.tables cache :=
      (answered_congr commands).mpr answered
    obtain ⟨existing, inside, cache'', result, answered'⟩ := enqueue_answered _ _ _ still
    rw [result] at stored
    obtain ⟨rfl, same⟩ := Prod.mk.inj (Except.ok.inj stored)
    cases same
    have old : existing.id ≠ (draws.host hostId).commandId := by
      rw [Session.allocate, commands] at inside
      intro same
      exact fresh hostId List.mem_cons_self (List.mem_map.mpr ⟨existing, inside, same⟩)
    rcases outcome with ⟨_, rfl⟩ | ⟨new, _⟩
    · refine ih answered' (fun other member => ?_) later
      rw [Session.allocate, commands]
      exact fresh other (List.mem_cons_of_mem _ member)
    · exact absurd new old

def NeedsApproval (c : Collaborators) (tables : Tables) (principal : Principal) (plan : Plan) :
    Prop :=
  c.approvalEngine.isSome ∧ plan.order.risk = .high ∧ plan.candidates ≠ [] ∧
    hasApproval tables plan.order = false ∧ selfApproved c principal = false

/-- What the approval gate does, with what it has found. -/
inductive Gated (c : Collaborators) (draws : Draws) (session : Session) (principal : Principal)
    (plan : Plan) : Gate → Prop
  | unasked (free : c.approvalEngine.isSome → plan.order.risk = .high → plan.candidates = []) :
      Gated c draws session principal plan (.cleared session)
  | approved (found : hasApproval session.tables plan.order = true) :
      Gated c draws session principal plan (.cleared session)
  | self (own : selfApproved c principal = true) :
      Gated c draws session principal plan
        (.cleared (session.addApproval (selfApproval draws plan.order)))
  | pending (needs : NeedsApproval c session.tables principal plan) (approvalId : String) :
      Gated c draws session principal plan
        (.blocked approvalId (publishPending c session approvalId))

theorem gated_approvalGate (c : Collaborators) (draws : Draws) (session : Session)
    (principal : Principal) (plan : Plan) :
    Gated c draws session principal plan (approvalGate c draws session principal plan) := by
  unfold approvalGate
  split
  · next engine => exact .unasked (by simp [engine])
  next request engine =>
  split
  · next gated =>
    split
    · next found => exact .approved found
    next missing =>
    split
    · next own => exact .self own
    · next other =>
      refine .pending ⟨by simp [engine], gated.1, gated.2, ?_, ?_⟩ _
      · simpa using missing
      · simpa using other
  · next free => exact .unasked fun _ high => not_not.mp fun some_ => free ⟨high, some_⟩

/-- The session behind the approval gate: the parent task is in it, and nothing that
the queue reads has changed. -/
structure Cleared (tables : Tables) (task : Task) (session : Session) : Prop where
  committed : session.committed = tables
  commands : session.tables.commands = tables.commands
  runs : session.tables.runs = tables.runs
  nextSeq : session.tables.nextSeq = tables.nextSeq
  tasks : session.tables.tasks = tables.tasks ++ [task]

theorem approvalGate_cases (c : Collaborators) (draws : Draws) (tables : Tables)
    (principal : Principal) (plan : Plan) :
    let session := (Session.begin tables).addTask plan.task
    (NeedsApproval c tables principal plan ∧ ∃ approvalId blocked,
        approvalGate c draws session principal plan = .blocked approvalId blocked ∧
          blocked.tables.tasks = tables.tasks ++ [plan.task] ∧
          blocked.tables.runs = tables.runs ∧ blocked.tables.commands = tables.commands) ∨
      (¬ NeedsApproval c tables principal plan ∧ ∃ cleared,
        approvalGate c draws session principal plan = .cleared cleared ∧
          Cleared tables plan.task cleared) := by
  intro session
  have untouched : Cleared tables plan.task session := ⟨rfl, rfl, rfl, rfl, rfl⟩
  have gated := gated_approvalGate c draws session principal plan
  generalize approvalGate c draws session principal plan = gate at gated
  cases gated with
  | unasked free =>
    right
    exact ⟨fun needs => needs.2.2.1 (free needs.1 needs.2.1), session, rfl, untouched⟩
  | approved found =>
    right
    refine ⟨fun needs => ?_, session, rfl, untouched⟩
    exact absurd (found.symm.trans needs.2.2.2.1) (by simp)
  | self own =>
    right
    refine ⟨fun needs => ?_, _, rfl, rfl, rfl, rfl, rfl, rfl⟩
    exact absurd (own.symm.trans needs.2.2.2.2) (by simp)
  | pending needs approvalId =>
    left
    refine ⟨needs, approvalId, _, rfl, ?_⟩
    unfold publishPending
    split <;> exact ⟨rfl, rfl, rfl⟩

/-- The ways in which a call returns: with nothing dispatched, with the run that the
cache names for the key, or with a run of its own. -/
theorem dispatch_cases {tables : Tables} {call : Call} {plan : Plan} {result : DispatchResult}
    (planned : planOf c draws tables.fleet call = .ok plan)
    (returned : dispatch c draws (Session.begin tables) cache call = .ok (result, next, after)) :
    (plan.candidates = [] ∨ NeedsApproval c tables call.principal plan) ∧
        result.taskId = draws.earlyTaskId ∧ result.dispatched = [] ∧ after = cache ∧
        next.tables.tasks = tables.tasks ++ [plan.task] ∧ next.tables.runs = tables.runs ∧
        next.tables.commands = tables.commands ∧ next.committed = next.tables ∨
      plan.candidates ≠ [] ∧ ¬ NeedsApproval c tables call.principal plan ∧
        result.dispatched = plan.candidates ∧ ∃ cleared, Cleared tables plan.task cleared ∧
          ((∃ runId, resume tables cache call.idempotencyKey = some (runId, result.taskId) ∧
              dispatchHosts c draws plan.order call.idempotencyKey runId cleared cache
                plan.candidates = .ok (next, after)) ∨
            (resume tables cache call.idempotencyKey = none ∧
              result.taskId = draws.earlyTaskId ∧ ∃ first rest, plan.candidates = first :: rest ∧
              dispatchHosts c draws plan.order call.idempotencyKey draws.taskRunId
                (cleared.addRun ⟨draws.taskRunId, draws.earlyTaskId, first, .pending⟩) cache
                plan.candidates = .ok (next, after))) := by
  have fleet : (Session.begin tables).tables.fleet = tables.fleet := rfl
  rw [dispatch, fleet, planned, Except.bind] at returned
  rcases approvalGate_cases c draws tables call.principal plan with
    ⟨needs, approvalId, blocked, gate, tasks, runs, commands⟩ | ⟨free, cleared, gate, opened⟩
  · left
    simp only [gate, Except.ok.injEq, Prod.mk.injEq] at returned
    obtain ⟨rfl, rfl, rfl⟩ := returned
    exact ⟨.inr needs, rfl, rfl, rfl, tasks, runs, commands, rfl⟩
  · simp only [gate] at returned
    cases candidates : plan.candidates with
    | nil =>
      left
      simp only [candidates, Except.ok.injEq, Prod.mk.injEq] at returned
      obtain ⟨rfl, rfl, rfl⟩ := returned
      exact ⟨.inl rfl, rfl, rfl, rfl, opened.tasks, opened.runs, opened.commands, rfl⟩
    | cons first rest =>
      right
      have same : resume cleared.tables cache call.idempotencyKey =
          resume tables cache call.idempotencyKey := by
        simp only [resume, opened.commands, opened.runs]
      refine ⟨List.cons_ne_nil _ _, free, ?_⟩
      simp only [candidates, same] at returned
      cases found : resume tables cache call.idempotencyKey with
      | none =>
        simp only [found] at returned
        obtain ⟨⟨_, _⟩, looped, same⟩ := map_eq_ok.mp returned
        simp only [Prod.mk.injEq] at same
        obtain ⟨rfl, rfl, rfl⟩ := same
        exact ⟨rfl, cleared, opened, .inr ⟨rfl, rfl, first, rest, rfl, looped⟩⟩
      | some resumed =>
        simp only [found] at returned
        obtain ⟨⟨_, _⟩, looped, same⟩ := map_eq_ok.mp returned
        simp only [Prod.mk.injEq] at same
        obtain ⟨rfl, rfl, rfl⟩ := same
        exact ⟨rfl, cleared, opened, .inl ⟨resumed.1, rfl, looped⟩⟩

end Lemmas

def openDispatcher : Collaborators where
  proto := Wire.protobuf
  key := .echo
  issue := fun _ => []
  authorize := fun _ _ _ => some true
  approvalEngine := none
  bus := true
  capacity := 4096

def twoHosts : Tables where
  fleet := ⟨[⟨"h1", none⟩, ⟨"h2", none⟩], [], []⟩
  approvals := []
  tasks := []
  runs := []
  commands := []
  nextSeq := fun _ => none
  audit := []

def quietDraws : Draws where
  earlyTaskId := "t1"
  taskRunId := "r1"
  approvalRowId := "a1"
  now := 0
  host := fun hostId => ⟨"c-" ++ hostId, [7], [], 0⟩

def reboot (hosts : List HostId) (idempotencyKey : Option String) : Call where
  principal := ⟨some "admin", none, []⟩
  targets := .hostList hosts
  payload := .reboot 0 "patch"
  idempotencyKey := idempotencyKey

end HlHelper.Dispatch
