import HlHelper.Dispatch.Completeness
import HlHelper.Dispatch.Idempotence
import HlHelper.Tasks.Results

/-! The results of a task host by host: what the endpoints report, while the run of a
dispatch names one host only. -/

namespace HlHelper.Tasks

open HlHelper.Dispatch HlHelper.Library

/-- `created` records the commands that each dispatch created, under the task id that
it returned. -/
structure World where
  store : Store
  created : List (TaskId × CommandId)

/-- A dispatch is called from the API or to repeat a stored task. `administer` is what
else changes in the tables that a dispatch reads. -/
inductive Event where
  | dispatch (draws : Draws) (cache : Cache) (call : Call)
  | result (expectedHostId : HostId) (hostKnown verified : Bool) (id : String)
      (env : ResultEnvelope) (output : Output)
  | cancel (taskId : TaskId)
  | administer (fleet : Fleet) (approvals : List Approval) (inventory : Inventory)

/-- UUIDs that were not drawn before, in a dispatch that nothing interferes with. -/
def FreshCall (store : Store) (draws : Draws) (hosts : List HostId) : Prop :=
  draws.earlyTaskId ∉ store.tables.runs.map TaskRun.taskId ∧
    draws.taskRunId ∉ store.tables.runs.map TaskRun.id ∧
    draws.taskRunId ∉ store.tables.commands.map Command.taskRunId ∧
    (∀ hostId ∈ hosts, (draws.host hostId).commandId ∉ store.tables.commands.map Command.id ∧
      (draws.host hostId).commandId ∉ store.results.map Result.commandId ∧
      (draws.host hostId).racing = [] ∧ (draws.host hostId).auditClashes = 0) ∧
    (hosts.map (fun hostId => (draws.host hostId).commandId)).Nodup

instance (store : Store) (draws : Draws) (hosts : List HostId) :
    Decidable (FreshCall store draws hosts) :=
  inferInstanceAs (Decidable (_ ∧ _ ∧ _ ∧ _ ∧ _))

def candidatesOf (c : Collaborators) (draws : Draws) (fleet : Fleet) (call : Call) :
    List HostId :=
  match planOf c draws fleet call with
  | .ok plan => plan.candidates
  | .error _ => []

def Store.db (store : Store) : Db :=
  ⟨store.tables.tasks, store.tables.runs, store.tables.commands, store.results⟩

section Step

variable (c : Collaborators) (sql : SqlOrder)

def step (w : World) : Event → Option World
  | .dispatch draws cache call =>
    if FreshCall w.store draws (candidatesOf c draws w.store.tables.fleet call) then
      match dispatch c draws (Session.begin w.store.tables) cache call with
      | .error _ => none
      | .ok (result, session, _) =>
        let new := (session.tables.commands.map Command.id).filter
          (fun id => id ∉ w.store.tables.commands.map Command.id)
        some { w with
          store := { w.store with tables := session.tables }
          created := w.created ++ new.map (fun id => (result.taskId, id)) }
    else none
  | .result expectedHostId hostKnown verified id env output =>
    if id ∉ w.store.results.map Result.id ∧
        accepts sql w.store.db expectedHostId hostKnown verified env then
      let db := acceptResult sql w.store.db id env
      some { w with
        store := { w.store with
          tables := { w.store.tables with tasks := db.tasks }
          results := db.results
          output := Function.update w.store.output id output } }
    else none
  | .cancel taskId =>
    some { w with store := { w.store with tables := (cancelTask w.store.tables taskId).2 } }
  | .administer fleet approvals inventory =>
    some { w with
      store := { w.store with
        tables := { w.store.tables with fleet := fleet, approvals := approvals }
        inventory := inventory } }

end Step

def commandsUnder (tables : Tables) (taskId : TaskId) : List Command :=
  tables.commands.filter fun command =>
    command.taskRunId ∈ (runsOfTask tables taskId).map TaskRun.id

def IsNewest (tables : Tables) (taskId : TaskId) (command : Command) : Prop :=
  ∀ other ∈ commandsUnder tables taskId, other.hostId = command.hostId →
    other.sequence ≤ command.sequence

/-- A result of the host for one of its commands under the task. -/
def ForTask (store : Store) (taskId : TaskId) (hostId : HostId) (result : Result) : Prop :=
  result ∈ store.results ∧ result.hostId = hostId ∧
    result.commandId ∈ (commandsUnder store.tables taskId).map Command.id

/-- What the endpoints report of a task and cancel of it, host by host. -/
structure ReportedPerHost (sql : SqlOrder) (decode : Bytes → String) (w : World)
    (taskId : TaskId) : Prop where
  once : ((getTaskResults sql w.store.tables taskId).map TaskResultItem.hostId).Nodup
  items : ∀ item, item ∈ getTaskResults sql w.store.tables taskId ↔
    ∃ command ∈ commandsUnder w.store.tables taskId,
      IsNewest w.store.tables taskId command ∧
        item = ⟨command.hostId, command.status, command.id, none⟩
  result : ∀ command ∈ commandsUnder w.store.tables taskId, ∀ result,
    ForTask w.store taskId command.hostId result →
    (∀ other, ForTask w.store taskId command.hostId other → other.sequence ≤ result.sequence) →
      ∀ now, getTaskResultForHost sql decode w.store taskId command.hostId now =
        .ok (detailOf decode w.store result)
  cancel : cancelTask w.store.tables taskId =
    (w.store.tables.commands.countP
        (fun command => (taskId, command.id) ∈ w.created ∧ isActive command.status),
      { w.store.tables with
        commands := w.store.tables.commands.map fun command =>
          if (taskId, command.id) ∈ w.created ∧ isActive command.status then
            { command with status := .cancelled }
          else command })

/-- The condition on the state before an event: a dispatch that is not blocked has one host at
most, or a key, and a result is one for a command of its own host, or older than what the
command's host has sent for it. -/
def OneHost (c : Collaborators) (sql : SqlOrder) (w : World) : Event → Prop
  | .dispatch draws _ call => ∀ plan, planOf c draws w.store.tables.fleet call = .ok plan →
      plan.candidates.length ≤ 1 ∨ call.idempotencyKey.isSome ∨
        NeedsApproval c w.store.tables call.principal plan
  | .result expectedHostId hostKnown verified _ env _ =>
    accepts sql w.store.db expectedHostId hostKnown verified env = true →
      ∀ command ∈ w.store.tables.commands, command.id = env.commandId →
        command.hostId = env.hostId ∨ ∃ own ∈ w.store.results,
          own.commandId = command.id ∧ own.hostId = command.hostId ∧ env.sequence < own.sequence
  | .cancel _ | .administer .. => True

section Dispatched

variable {c : Collaborators} {draws : Draws} {store : Store} {cache after : Cache} {call : Call}
  {plan : Plan} {result : DispatchResult} {next : Session}

/-- What a dispatch adds to runs and commands: nothing, or a run of its own, with a command for
the host that the run names, or with none where the key has its row already. -/
theorem dispatch_adds (planned : planOf c draws store.tables.fleet call = .ok plan)
    (fresh : FreshCall store draws plan.candidates)
    (single : plan.candidates.length ≤ 1 ∨ call.idempotencyKey.isSome ∨
      NeedsApproval c store.tables call.principal plan)
    (returned : dispatch c draws (Session.begin store.tables) cache call =
      .ok (result, next, after)) :
    (next.tables.runs = store.tables.runs ∧ next.tables.commands = store.tables.commands) ∨
      ∃ first ∈ plan.candidates, result.taskId = draws.earlyTaskId ∧
        next.tables.runs =
          store.tables.runs ++ [⟨draws.taskRunId, draws.earlyTaskId, first, .pending⟩] ∧
        (next.tables.commands = store.tables.commands ∨ ∃ row,
          next.tables.commands = store.tables.commands ++ [row] ∧
            row.id = (draws.host first).commandId ∧ row.taskRunId = draws.taskRunId ∧
              row.hostId = first) := by
  obtain ⟨_, _, _, unused, distinct⟩ := fresh
  rcases dispatch_cases planned returned with
    ⟨_, _, _, _, _, runs, commands, _⟩ | ⟨_, free, _, cleared, opened, outcome⟩
  · exact .inl ⟨runs, commands⟩
  rcases outcome with ⟨runId, warm, looped⟩ | ⟨_, taskId, first, rest, candidates, looped⟩
  · left
    obtain ⟨k, keyed, answered⟩ := answered_of_resume_some warm
    rw [keyed] at looped
    obtain ⟨_, tables⟩ := dispatchHosts_answered ((answered_congr opened.commands).mpr answered)
      (fun hostId member => opened.commands ▸ (unused hostId member).1) looped
    obtain ⟨commands, runs⟩ := allocateAll_commands cleared.tables plan.candidates
    exact ⟨tables ▸ runs.trans opened.runs, tables ▸ commands.trans opened.commands⟩
  · right
    have own : first ∈ plan.candidates := candidates ▸ List.mem_cons_self
    refine ⟨first, own, taskId, ?_⟩
    generalize entered : cleared.addRun ⟨draws.taskRunId, draws.earlyTaskId, first, .pending⟩ =
      session at looped
    have runs : session.tables.runs =
        store.tables.runs ++ [⟨draws.taskRunId, draws.earlyTaskId, first, .pending⟩] := by
      rw [← entered, ← opened.runs]
      rfl
    have commands : session.tables.commands = store.tables.commands := by
      rw [← entered, ← opened.commands]
      rfl
    have committed : session.committed = store.tables := by
      rw [← entered, ← opened.committed]
      rfl
    have stays {key : String} {hosts : List HostId} {session next : Session} {cache : Cache}
        (answered : Answered key session.tables cache)
        (unknown : ∀ hostId ∈ hosts,
          (draws.host hostId).commandId ∉ session.tables.commands.map Command.id)
        (looped : dispatchHosts c draws plan.order (some key) draws.taskRunId session cache hosts =
          .ok (next, after)) :
        next.tables.runs = session.tables.runs ∧
          next.tables.commands = session.tables.commands := by
      obtain ⟨_, tables⟩ := dispatchHosts_answered answered unknown looped
      obtain ⟨commands, runs⟩ := allocateAll_commands session.tables hosts
      exact ⟨tables ▸ runs, tables ▸ commands⟩
    by_cases answered : ∃ k ∈ call.idempotencyKey, Answered k session.tables cache
    · obtain ⟨k, keyed, answered⟩ := answered
      rw [Option.mem_def.mp keyed] at looped
      obtain ⟨sameRuns, sameCommands⟩ := stays answered
        (fun hostId member => commands ▸ (unused hostId member).1) looped
      exact ⟨sameRuns.trans runs, .inl (sameCommands.trans commands)⟩
    · rw [candidates] at looped
      obtain ⟨⟨middle, cache'⟩, one, later⟩ := bind_eq_ok.mp looped
      obtain ⟨_, _, calm, clean⟩ := unused first own
      rcases dispatchHost_new (fun k keyed known => answered ⟨k, keyed, known⟩) one with
        ⟨_, _, row, stored⟩ | ⟨_, clash | ⟨k, keyed, raced⟩⟩
      · have added : middle.tables.commands = store.tables.commands ++ [row] := by
          rw [stored.commands, calm, List.append_nil, commands]
        suffices same : next.tables.runs = middle.tables.runs ∧
            next.tables.commands = middle.tables.commands by
          refine ⟨same.1.trans (stored.runs.trans runs), .inr ⟨row, same.2.trans added, ?_⟩⟩
          exact ⟨stored.id, stored.taskRun, stored.host⟩
        rcases single with short | keyed | needs
        · have alone : rest = [] := by
            rw [candidates, List.length_cons] at short
            exact List.eq_nil_of_length_eq_zero (by omega)
          subst alone
          obtain ⟨rfl, _⟩ := Prod.mk.inj (Except.ok.inj later)
          exact ⟨rfl, rfl⟩
        · obtain ⟨k, keyed⟩ := Option.isSome_iff_exists.mp keyed
          rw [keyed] at later
          refine stays (.inl (List.mem_map.mpr ⟨row, by simp [added], ?_⟩)) ?_ later
          · rw [stored.key, keyed]
          · intro hostId member
            rw [candidates, List.map_cons, List.nodup_cons] at distinct
            rw [added, List.map_append, List.mem_append, not_or]
            refine ⟨(unused hostId (candidates ▸ List.mem_cons_of_mem _ member)).1, ?_⟩
            rw [List.map_singleton, List.mem_singleton, stored.id]
            exact fun same => distinct.1 (List.mem_map.mpr ⟨hostId, member, same⟩)
        · exact absurd needs free
      · exact absurd clean clash
      · refine absurd ⟨k, keyed, .inl ?_⟩ answered
        rwa [calm, List.append_nil, committed, ← commands] at raced

end Dispatched

/-- Every run is the only one of its task, and its command, if it has one, is its only one and on
its host; of the results of a command the newest is from the command's host. -/
structure OneCommandEach (w : World) : Prop where
  commandIds : (w.store.tables.commands.map Command.id).Nodup
  ownRun : (w.store.tables.commands.map Command.taskRunId).Nodup
  runIds : (w.store.tables.runs.map TaskRun.id).Nodup
  runTasks : (w.store.tables.runs.map TaskRun.taskId).Nodup
  underRun : ∀ command ∈ w.store.tables.commands, ∃ run ∈ w.store.tables.runs,
    run.id = command.taskRunId ∧ run.hostId = command.hostId
  created : ∀ taskId id, (taskId, id) ∈ w.created ↔
    ∃ command ∈ w.store.tables.commands, command.id = id ∧
      ∃ run ∈ w.store.tables.runs, run.id = command.taskRunId ∧ run.taskId = taskId
  sequences : (w.store.results.map (fun result => (result.hostId, result.sequence))).Nodup
  own : ∀ command ∈ w.store.tables.commands, ∀ result ∈ w.store.results,
    result.commandId = command.id → result.hostId = command.hostId ∨
      ∃ own ∈ w.store.results, own.commandId = command.id ∧ own.hostId = command.hostId ∧
        result.sequence < own.sequence

section Report

variable {sql : SqlOrder} {decode : Bytes → String} {w : World} {taskId : TaskId}

theorem latest_nil {α : Type} {key : α → Nat} : sql.latest key [] = none := by
  cases found : sql.latest key [] with
  | none => rfl
  | some row => exact absurd (sql.latest_mem found).1 List.not_mem_nil

theorem latest_singleton {α : Type} {key : α → Nat} (only : α) :
    sql.latest key [only] = some only := by
  obtain ⟨row, found⟩ := Option.isSome_iff_exists.mp
    (@SqlOrder.latest_some sql _ key [only] (List.cons_ne_nil _ _))
  rw [found, List.mem_singleton.mp (sql.latest_mem found).1]

/-- A task has no command, or one, of its one run and on the run's host. -/
inductive Holding (tables : Tables) (taskId : TaskId) : Prop
  | norun (runs : runsOfTask tables taskId = []) (under : commandsUnder tables taskId = [])
  | idle (run : TaskRun) (runs : runsOfTask tables taskId = [run])
      (under : commandsUnder tables taskId = [])
      (commands : tables.commands.filter (fun command => command.taskRunId = run.id) = [])
  | one (run : TaskRun) (command : Command) (runs : runsOfTask tables taskId = [run])
      (under : commandsUnder tables taskId = [command]) (host : run.hostId = command.hostId)
      (commands : tables.commands.filter (fun command => command.taskRunId = run.id) = [command])

theorem OneCommandEach.holding (sound : OneCommandEach w) (taskId : TaskId) :
    Holding w.store.tables taskId := by
  cases runs : runsOfTask w.store.tables taskId with
  | nil =>
    refine .norun runs ?_
    simp [commandsUnder, runs]
  | cons run rest =>
    have first : run ∈ runsOfTask w.store.tables taskId := by simp [runs]
    obtain ⟨member, own⟩ := List.mem_filter.mp first
    have only : runsOfTask w.store.tables taskId = [run] := by
      have alone := filter_key_eq_singleton sound.runTasks member
      rwa [of_decide_eq_true own] at alone
    have under : commandsUnder w.store.tables taskId =
        w.store.tables.commands.filter (fun command => command.taskRunId = run.id) := by
      rw [commandsUnder, only]
      refine List.filter_congr fun command _ => ?_
      simp
    cases held : w.store.tables.commands.filter (fun command => command.taskRunId = run.id) with
    | nil => exact .idle run only (under.trans held) held
    | cons command more =>
      have inside : command ∈
          w.store.tables.commands.filter (fun command => command.taskRunId = run.id) := by
        simp [held]
      obtain ⟨there, named⟩ := List.mem_filter.mp inside
      have named := of_decide_eq_true named
      have alone := filter_key_eq_singleton sound.ownRun there
      rw [named] at alone
      obtain ⟨other, listed, same, host⟩ := sound.underRun command there
      rw [key_injective sound.runIds listed member (same.trans named)] at host
      exact .one run command only (under.trans alone) host alone

theorem mem_commandsUnder {command : Command} :
    command ∈ commandsUnder w.store.tables taskId ↔ command ∈ w.store.tables.commands ∧
      ∃ run ∈ w.store.tables.runs, run.id = command.taskRunId ∧ run.taskId = taskId := by
  rw [commandsUnder, List.mem_filter, decide_eq_true_eq, List.mem_map]
  refine and_congr_right fun _ => exists_congr fun run => ?_
  rw [runsOfTask, List.mem_filter, decide_eq_true_eq, and_assoc, and_comm (a := run.taskId = _)]

theorem OneCommandEach.mem_created (sound : OneCommandEach w) {command : Command}
    (member : command ∈ w.store.tables.commands) :
    (taskId, command.id) ∈ w.created ↔
      command.taskRunId ∈ (runsOfTask w.store.tables taskId).map TaskRun.id := by
  have under := @mem_commandsUnder w taskId command
  rw [commandsUnder, List.mem_filter, decide_eq_true_eq] at under
  rw [sound.created]
  constructor
  · rintro ⟨other, inside, same, run⟩
    rw [key_injective sound.commandIds inside member same] at run
    exact (under.mpr ⟨member, run⟩).2
  · intro own
    exact ⟨command, member, rfl, (under.mp ⟨member, own⟩).2⟩

theorem OneCommandEach.cancels (sound : OneCommandEach w) (taskId : TaskId) :
    cancelTask w.store.tables taskId =
      (w.store.tables.commands.countP
          (fun command => (taskId, command.id) ∈ w.created ∧ isActive command.status),
        { w.store.tables with
          commands := w.store.tables.commands.map fun command =>
            if (taskId, command.id) ∈ w.created ∧ isActive command.status then
              { command with status := .cancelled }
            else command }) := by
  have same (command : Command) (member : command ∈ w.store.tables.commands) :
      isCancelled ((runsOfTask w.store.tables taskId).map TaskRun.id) command =
        decide ((taskId, command.id) ∈ w.created ∧ isActive command.status = true) := by
    rw [isCancelled, decide_eq_decide, sound.mem_created member]
  rw [cancelTask_eq sound.commandIds]
  refine Prod.ext (List.countP_congr fun command member => by rw [same command member]) ?_
  have rows : w.store.tables.commands.map
      (cancelRow ((runsOfTask w.store.tables taskId).map TaskRun.id)) =
        w.store.tables.commands.map fun command =>
          if (taskId, command.id) ∈ w.created ∧ isActive command.status then
            { command with status := .cancelled }
          else command := by
    refine List.map_congr_left fun command member => ?_
    simp only [cancelRow, same command member, decide_eq_true_eq]
  simp only [rows]

theorem OneCommandEach.latest (sound : OneCommandEach w) {command : Command} {result : Result}
    (under : commandsUnder w.store.tables taskId = [command])
    (forTask : ForTask w.store taskId command.hostId result)
    (newest : ∀ other, ForTask w.store taskId command.hostId other →
      other.sequence ≤ result.sequence) :
    latestResult sql w.store.results command = some result := by
  obtain ⟨member, host, named⟩ := forTask
  simp only [under, List.map_cons, List.map_nil, List.mem_singleton] at named
  have there : command ∈ w.store.tables.commands :=
    (mem_commandsUnder.mp (by rw [under]; exact List.mem_singleton_self _)).1
  have forCommand {other : Result} (inside : other ∈ w.store.results)
      (own : other.commandId = command.id) (mine : other.hostId = command.hostId) :
      other.sequence ≤ result.sequence := by
    refine newest other ⟨inside, mine, ?_⟩
    simp [under, own]
  have listed : result ∈ w.store.results.filter (fun other => other.commandId = command.id) :=
    List.mem_filter.mpr ⟨member, decide_eq_true named⟩
  obtain ⟨latest, found⟩ := Option.isSome_iff_exists.mp
    (@SqlOrder.latest_some sql _ Result.sequence _ (List.ne_nil_of_mem listed))
  obtain ⟨kept, greatest⟩ := sql.latest_mem found
  obtain ⟨inside, own⟩ := List.mem_filter.mp kept
  have own := of_decide_eq_true own
  have mine : latest.hostId = command.hostId := by
    rcases sound.own command there latest inside own with mine | ⟨other, held, same, _, later⟩
    · exact mine
    · have below := greatest other (List.mem_filter.mpr ⟨held, decide_eq_true same⟩)
      omega
  have equal : latest.sequence = result.sequence :=
    Nat.le_antisymm (forCommand inside own mine) (greatest result listed)
  rw [latestResult, found, List.inj_on_of_nodup_map sound.sequences inside member
    (by rw [mine, host, equal])]

theorem reported_of_sound (sound : OneCommandEach w) : ReportedPerHost sql decode w taskId := by
  have cancel := sound.cancels taskId
  cases sound.holding taskId with
  | norun runs under =>
    have none_ : getTaskResults sql w.store.tables taskId = [] := by
      rw [getTaskResults, runs]
      rfl
    exact ⟨by simp [none_], by simp [none_, under], by simp [under], cancel⟩
  | idle run runs under commands =>
    have none_ : getTaskResults sql w.store.tables taskId = [] := by
      rw [getTaskResults, runs, List.foldl_cons, List.foldl_nil, latestCommand, commands,
        latest_nil]
      rfl
    exact ⟨by simp [none_], by simp [none_, under], by simp [under], cancel⟩
  | one run command runs under host commands =>
    have latest : latestCommand sql w.store.tables run = some command := by
      rw [latestCommand, commands, latest_singleton]
    have one : getTaskResults sql w.store.tables taskId =
        [⟨command.hostId, command.status, command.id, none⟩] := by
      rw [getTaskResults, runs, List.foldl_cons, List.foldl_nil, latest, host]
      rfl
    refine ⟨by simp [one], fun item => ?_, ?_, cancel⟩
    · have newest : IsNewest w.store.tables taskId command := by
        intro other member _
        rw [under, List.mem_singleton] at member
        rw [member]
      simp [one, under, newest]
    · intro other member result forTask newest now
      rw [under, List.mem_singleton] at member
      subst member
      rw [getTaskResultForHost, runs, List.filter_cons_of_pos (by simp [host]), List.filter_nil]
      simp only [latest, Option.bind_some, sound.latest under forTask newest]

end Report

section Sound

variable {c : Collaborators} {sql : SqlOrder} {w next : World}

theorem OneCommandEach.congr (sound : OneCommandEach w) {change : Command → Command}
    (kept : ∀ command, ∃ status, change command = { command with status := status })
    (runs : next.store.tables.runs = w.store.tables.runs)
    (commands : next.store.tables.commands = w.store.tables.commands.map change)
    (results : next.store.results = w.store.results) (created : next.created = w.created) :
    OneCommandEach next := by
  have same (command : Command) : (change command).id = command.id ∧
      (change command).taskRunId = command.taskRunId ∧
        (change command).hostId = command.hostId := by
    obtain ⟨status, changed⟩ := kept command
    rw [changed]
    exact ⟨rfl, rfl, rfl⟩
  refine ⟨?_, ?_, runs ▸ sound.runIds, runs ▸ sound.runTasks, ?_, ?_, results ▸ sound.sequences, ?_⟩
  · rw [commands]
    exact unique_map sound.commandIds fun command => (same command).1
  · rw [commands]
    exact unique_map sound.ownRun fun command => (same command).2.1
  · rw [commands, runs]
    intro command member
    obtain ⟨old, inside, rfl⟩ := List.mem_map.mp member
    rw [(same old).2.1, (same old).2.2]
    exact sound.underRun old inside
  · intro taskId id
    rw [created, runs, commands, sound.created]
    constructor
    · rintro ⟨command, member, rfl, run⟩
      refine ⟨change command, List.mem_map_of_mem member, (same command).1, ?_⟩
      rwa [(same command).2.1]
    · rintro ⟨command, member, rfl, run⟩
      obtain ⟨old, inside, rfl⟩ := List.mem_map.mp member
      rw [(same old).2.1] at run
      exact ⟨old, inside, (same old).1.symm, run⟩
  · rw [commands, results]
    intro command member
    obtain ⟨old, inside, rfl⟩ := List.mem_map.mp member
    rw [(same old).1, (same old).2.2]
    exact sound.own old inside

theorem OneCommandEach.congr_same (sound : OneCommandEach w)
    (runs : next.store.tables.runs = w.store.tables.runs)
    (commands : next.store.tables.commands = w.store.tables.commands)
    (results : next.store.results = w.store.results) (created : next.created = w.created) :
    OneCommandEach next :=
  @OneCommandEach.congr w next sound id (fun command => ⟨command.status, rfl⟩) runs
    (commands.trans (List.map_id _).symm) results created

theorem OneCommandEach.addRun (sound : OneCommandEach w) {run : TaskRun}
    (id : run.id ∉ w.store.tables.runs.map TaskRun.id)
    (task : run.taskId ∉ w.store.tables.runs.map TaskRun.taskId)
    (unused : run.id ∉ w.store.tables.commands.map Command.taskRunId)
    (runs : next.store.tables.runs = w.store.tables.runs ++ [run])
    (commands : next.store.tables.commands = w.store.tables.commands)
    (results : next.store.results = w.store.results) (created : next.created = w.created) :
    OneCommandEach next := by
  refine ⟨commands ▸ sound.commandIds, commands ▸ sound.ownRun, ?_, ?_, ?_, ?_,
    results ▸ sound.sequences, ?_⟩
  · rw [runs]
    exact @unique_append _ _ _ _ (some run) sound.runIds (by rintro _ ⟨⟩; exact id)
  · rw [runs]
    exact @unique_append _ _ _ _ (some run) sound.runTasks (by rintro _ ⟨⟩; exact task)
  · rw [commands, runs]
    intro command member
    obtain ⟨own, inside, same⟩ := sound.underRun command member
    exact ⟨own, List.mem_append_left _ inside, same⟩
  · intro taskId commandId
    rw [created, commands, runs, sound.created]
    refine exists_congr fun command => and_congr_right fun member => and_congr_right fun _ => ?_
    constructor
    · rintro ⟨own, inside, same⟩
      exact ⟨own, List.mem_append_left _ inside, same⟩
    · rintro ⟨own, inside, same, of⟩
      rcases List.mem_append.mp inside with old | new
      · exact ⟨own, old, same, of⟩
      · rw [List.mem_singleton.mp new] at same
        exact absurd (List.mem_map.mpr ⟨command, member, same.symm⟩) unused
  · rw [commands, results]
    exact sound.own

theorem OneCommandEach.addCommand (sound : OneCommandEach w) {row : Command} {run : TaskRun}
    (own : run ∈ w.store.tables.runs) (named : run.id = row.taskRunId)
    (host : run.hostId = row.hostId) (id : row.id ∉ w.store.tables.commands.map Command.id)
    (unused : row.taskRunId ∉ w.store.tables.commands.map Command.taskRunId)
    (unanswered : row.id ∉ w.store.results.map Result.commandId)
    (runs : next.store.tables.runs = w.store.tables.runs)
    (commands : next.store.tables.commands = w.store.tables.commands ++ [row])
    (results : next.store.results = w.store.results)
    (created : next.created = w.created ++ [(run.taskId, row.id)]) : OneCommandEach next := by
  refine ⟨?_, ?_, runs ▸ sound.runIds, runs ▸ sound.runTasks, ?_, ?_, results ▸ sound.sequences,
    ?_⟩
  · rw [commands]
    exact @unique_append _ _ _ _ (some row) sound.commandIds (by rintro _ ⟨⟩; exact id)
  · rw [commands]
    exact @unique_append _ _ _ _ (some row) sound.ownRun (by rintro _ ⟨⟩; exact unused)
  · rw [commands, runs]
    intro command member
    rcases List.mem_append.mp member with old | new
    · exact sound.underRun command old
    · rw [List.mem_singleton.mp new]
      exact ⟨run, own, named, host⟩
  · intro taskId commandId
    rw [created, commands, runs, List.mem_append, List.mem_singleton, sound.created]
    constructor
    · rintro (⟨command, member, rest⟩ | same)
      · exact ⟨command, List.mem_append_left _ member, rest⟩
      · cases same
        exact ⟨row, List.mem_append_right _ (List.mem_singleton_self _), rfl, run, own, named, rfl⟩
    · rintro ⟨command, member, rfl, other, inside, same, rfl⟩
      rcases List.mem_append.mp member with old | new
      · exact .inl ⟨command, old, rfl, other, inside, same, rfl⟩
      · rw [List.mem_singleton.mp new] at same ⊢
        rw [key_injective sound.runIds inside own (same.trans named.symm)]
        exact .inr rfl
  · rw [commands, results]
    intro command member result inside same
    rcases List.mem_append.mp member with old | new
    · exact sound.own command old result inside same
    · rw [List.mem_singleton.mp new] at same
      exact absurd (List.mem_map.mpr ⟨result, inside, same⟩) unanswered

theorem acceptResult_rows (db : Db) (id : String) (env : ResultEnvelope) :
    (acceptResult sql db id env).results =
      db.results ++ [⟨id, env.commandId, env.hostId, env.sequence, env.status⟩] := by
  rw [acceptResult]
  split
  · rfl
  · split
    · rfl
    · split <;> rfl

theorem accepts_newest {db : Db} {expectedHostId : HostId} {hostKnown verified : Bool}
    {env : ResultEnvelope}
    (accepted : accepts sql db expectedHostId hostKnown verified env = true) :
    ∀ result ∈ db.results, result.hostId = env.hostId → result.sequence < env.sequence := by
  simp only [accepts, Bool.and_eq_true, beq_iff_eq] at accepted
  obtain ⟨⟨⟨_, host⟩, _⟩, newer⟩ := accepted
  intro result member mine
  have listed : result ∈ db.results.filter (fun result => result.hostId = expectedHostId) :=
    List.mem_filter.mpr ⟨member, decide_eq_true (mine.trans host)⟩
  obtain ⟨last, found⟩ := Option.isSome_iff_exists.mp
    (@SqlOrder.latest_some sql _ Result.sequence _ (List.ne_nil_of_mem listed))
  rw [found] at newer
  exact Nat.lt_of_le_of_lt ((sql.latest_mem found).2 result listed) (of_decide_eq_true newer)

theorem OneCommandEach.addResult (sound : OneCommandEach w) {result : Result}
    (newest : ∀ other ∈ w.store.results, other.hostId = result.hostId →
      other.sequence < result.sequence)
    (own : ∀ command ∈ w.store.tables.commands, command.id = result.commandId →
      command.hostId = result.hostId ∨ ∃ own ∈ w.store.results,
        own.commandId = command.id ∧ own.hostId = command.hostId ∧
          result.sequence < own.sequence)
    (runs : next.store.tables.runs = w.store.tables.runs)
    (commands : next.store.tables.commands = w.store.tables.commands)
    (results : next.store.results = w.store.results ++ [result])
    (created : next.created = w.created) : OneCommandEach next := by
  refine ⟨commands ▸ sound.commandIds, commands ▸ sound.ownRun, runs ▸ sound.runIds,
    runs ▸ sound.runTasks, ?_, ?_, ?_, ?_⟩
  · rw [commands, runs]
    exact sound.underRun
  · rw [created, commands, runs]
    exact sound.created
  · rw [results]
    refine @unique_append _ _ _ _ (some result) sound.sequences ?_
    rintro _ ⟨⟩ taken
    obtain ⟨other, member, same⟩ := List.mem_map.mp taken
    obtain ⟨host, sequence⟩ := Prod.mk.inj same
    exact absurd sequence (Nat.ne_of_lt (newest other member host))
  · rw [commands, results]
    have held (command : Command) (other : Result)
        (found : ∃ own ∈ w.store.results, own.commandId = command.id ∧
          own.hostId = command.hostId ∧ other.sequence < own.sequence) :
        ∃ own ∈ w.store.results ++ [result], own.commandId = command.id ∧
          own.hostId = command.hostId ∧ other.sequence < own.sequence := by
      obtain ⟨own, inside, rest⟩ := found
      exact ⟨own, List.mem_append_left _ inside, rest⟩
    intro command member other inside same
    rcases List.mem_append.mp inside with old | new
    · exact (sound.own command member other old same).imp_right (held command other)
    · rw [List.mem_singleton.mp new] at same ⊢
      exact (own command member same.symm).imp Eq.symm (held command result)

theorem filter_old (old : List CommandId) : old.filter (fun id => id ∉ old) = [] :=
  List.filter_eq_nil_iff.mpr (by simp)

theorem filter_new {old new : List CommandId} (fresh : ∀ id ∈ new, id ∉ old) :
    (old ++ new).filter (fun id => id ∉ old) = new := by
  rw [List.filter_append, filter_old, List.nil_append,
    List.filter_eq_self.mpr (by simpa using fresh)]

theorem OneCommandEach.dispatched (sound : OneCommandEach w) {draws : Draws} {cache : Cache}
    {call : Call} (allowed : OneHost c sql w (.dispatch draws cache call))
    (stepped : step c sql w (.dispatch draws cache call) = some next) : OneCommandEach next := by
  simp only [step] at stepped
  split at stepped
  · next fresh =>
    split at stepped
    · cases stepped
    · next result session after returned =>
      cases stepped
      obtain ⟨plan, planned⟩ := planOf_of_dispatch returned
      rw [candidatesOf, planned] at fresh
      obtain ⟨task, run, own, unused, _⟩ := id fresh
      rcases dispatch_adds planned fresh (allowed plan planned) returned with
        ⟨runs, commands⟩ | ⟨first, member, taskId, runs, commands | ⟨row, commands, rest⟩⟩
      · refine sound.congr_same runs commands rfl ?_
        simp only [commands, filter_old, List.map_nil, List.append_nil]
      · refine sound.addRun run task own runs commands rfl ?_
        simp only [commands, filter_old, List.map_nil, List.append_nil]
      · obtain ⟨id, ofRun, host⟩ := rest
        obtain ⟨newId, unanswered, _⟩ := unused first member
        have withRun : OneCommandEach { w with
            store := { w.store with tables := { w.store.tables with
              runs := session.tables.runs } } } :=
          sound.addRun run task own runs rfl rfl rfl
        have inside : ⟨draws.taskRunId, draws.earlyTaskId, first, .pending⟩ ∈
            session.tables.runs := by simp [runs]
        have added := @filter_new (w.store.tables.commands.map Command.id) [row.id]
          (by simpa [id] using newId)
        refine withRun.addCommand inside ofRun.symm host.symm (id ▸ newId) (ofRun ▸ own)
          (id ▸ unanswered) rfl commands rfl ?_
        simp only [commands, List.map_append, List.map_singleton, added, taskId]
  · cases stepped

theorem step_sound (w : World) (event : Event) (next : World) (sound : OneCommandEach w)
    (allowed : OneHost c sql w event) (stepped : step c sql w event = some next) :
    OneCommandEach next := by
  cases event with
  | dispatch draws cache call => exact sound.dispatched allowed stepped
  | result expectedHostId hostKnown verified id env output =>
    simp only [step] at stepped
    split at stepped
    · next taken =>
      cases stepped
      exact @OneCommandEach.addResult w _ sound
        ⟨id, env.commandId, env.hostId, env.sequence, env.status⟩ (accepts_newest taken.2)
        (allowed taken.2) rfl rfl (acceptResult_rows _ _ _) rfl
    · cases stepped
  | cancel taskId =>
    cases stepped
    rw [cancelTask_eq sound.commandIds]
    exact sound.congr (cancelRow_kept _) rfl rfl rfl rfl
  | administer fleet approvals inventory =>
    cases stepped
    exact sound.congr_same rfl rfl rfl rfl

/-- While dispatches have one host at most, or a key, and hosts answer their own commands, every
task is reported and cancelled host by host, whatever was dispatched, answered and cancelled. -/
theorem task_reported_per_host (decode : Bytes → String) {store : Store} {events : List Event}
    (runs : store.tables.runs = []) (commands : store.tables.commands = [])
    (results : store.results = [])
    (reached : run (step c sql) ⟨store, []⟩ events = some w)
    (met : Meets (step c sql) (OneHost c sql) ⟨store, []⟩ events) (taskId : TaskId) :
    ReportedPerHost sql decode w taskId := by
  have start : OneCommandEach ⟨store, []⟩ := by
    constructor <;> simp [runs, commands, results]
  exact reported_of_sound (run_keeps step_sound start reached met)

end Sound

instance (c : Collaborators) (tables : Tables) (principal : Principal) (plan : Plan) :
    Decidable (NeedsApproval c tables principal plan) :=
  inferInstanceAs (Decidable (_ ∧ _ ∧ _ ∧ _ ∧ _))

instance (c : Collaborators) (sql : SqlOrder) (w : World) (event : Event) :
    Decidable (OneHost c sql w event) :=
  match event with
  | .dispatch draws _ call =>
    match planned : planOf c draws w.store.tables.fleet call with
    | .error _ => isTrue (by simp [OneHost, planned])
    | .ok plan => decidable_of_iff (plan.candidates.length ≤ 1 ∨ call.idempotencyKey.isSome ∨
        NeedsApproval c w.store.tables call.principal plan) (by simp [OneHost, planned])
  | .result expectedHostId hostKnown verified _ env _ =>
    inferInstanceAs (Decidable (accepts sql w.store.db expectedHostId hostKnown verified env →
      ∀ command ∈ w.store.tables.commands, command.id = env.commandId →
        command.hostId = env.hostId ∨ ∃ own ∈ w.store.results,
          own.commandId = command.id ∧ own.hostId = command.hostId ∧
            env.sequence < own.sequence))
  | .cancel _ => isTrue trivial
  | .administer .. => isTrue trivial

def freshStore : Store where
  tables := twoHosts
  results := []
  output := fun _ => default
  inventory := ⟨fun _ => 0, fun _ => 0, fun _ => none⟩
  startedAt := fun _ => none
  finishedAt := fun _ => none

def doneOutput : Output := ⟨some 0, 60, none, none, none⟩

/-- A keyed dispatch to two hosts and its repetition with the cache of the first call, one to a
single host, a result and a cancellation. -/
def keyedThenCancelled : List Event :=
  [.dispatch quietDraws .empty (reboot ["h1", "h2"] (some "k")),
    .dispatch retryDraws (OrderedMap.insert .empty "k" "c-h1") (reboot ["h1"] (some "k")),
    .dispatch { retryDraws with earlyTaskId := "t3", taskRunId := "r3" } .empty
      (reboot ["h2"] none),
    .result "h1" true true "result" ⟨"c-h1", "h1", 1, .ok⟩ doneOutput, .cancel "t3"]

theorem keyed_reported : ∃ w,
    run (step openDispatcher firstOfLatest) ⟨freshStore, []⟩ keyedThenCancelled = some w ∧
      w.created = [("t1", "c-h1"), ("t3", "c2")] ∧
        ReportedPerHost firstOfLatest (fun _ => "") w "t1" ∧
          ReportedPerHost firstOfLatest (fun _ => "") w "t3" := by
  obtain ⟨w, reached, created⟩ := (Option.any_eq_true
    (fun w : World => decide (w.created = [("t1", "c-h1"), ("t3", "c2")])) _).mp
      (show (run (step openDispatcher firstOfLatest) ⟨freshStore, []⟩ keyedThenCancelled).any _ =
        true by decide +kernel)
  have met : Meets (step openDispatcher firstOfLatest) (OneHost openDispatcher firstOfLatest)
      ⟨freshStore, []⟩ keyedThenCancelled := by decide +kernel
  refine ⟨w, reached, of_decide_eq_true created, ?_, ?_⟩
  · exact task_reported_per_host _ rfl rfl rfl reached met "t1"
  · exact task_reported_per_host _ rfl rfl rfl reached met "t3"

theorem second_host_unreported : ∃ w,
    run (step openDispatcher firstOfLatest) ⟨freshStore, []⟩
        [.dispatch quietDraws .empty (reboot ["h1", "h2"] none)] = some w ∧
      ¬ ReportedPerHost firstOfLatest (fun _ => "") w "t1" := by
  obtain ⟨w, reached, facts⟩ := (Option.any_eq_true
    (fun w : World => decide (
      (getTaskResults firstOfLatest w.store.tables "t1").map TaskResultItem.hostId = ["h1"] ∧
        (commandsUnder w.store.tables "t1").map
          (fun command => (command.hostId, command.sequence)) = [("h1", 1), ("h2", 1)])) _).mp
      (show (run (step openDispatcher firstOfLatest) ⟨freshStore, []⟩
        [.dispatch quietDraws .empty (reboot ["h1", "h2"] none)]).any _ = true by decide +kernel)
  obtain ⟨reported, commands⟩ := of_decide_eq_true facts
  refine ⟨w, reached, fun perHost => ?_⟩
  have second : ("h2", 1) ∈ (commandsUnder w.store.tables "t1").map
      (fun command => (command.hostId, command.sequence)) := by simp [commands]
  obtain ⟨command, member, same⟩ := List.mem_map.mp second
  obtain ⟨host, sequence⟩ := Prod.mk.inj same
  have newest : IsNewest w.store.tables "t1" command := by
    intro other inside _
    have first : (other.hostId, other.sequence) ∈ [("h1", 1), ("h2", 1)] := by
      rw [← commands]
      exact List.mem_map_of_mem inside
    have one : other.sequence = 1 := by
      rcases List.mem_cons.mp first with same | later
      · exact (Prod.mk.inj same).2
      · exact (Prod.mk.inj (List.mem_singleton.mp later)).2
    rw [one, sequence]
  have item := List.mem_map_of_mem (f := TaskResultItem.hostId)
    ((perHost.items _).mpr ⟨command, member, newest, rfl⟩)
  rw [reported, host] at item
  exact absurd (show "h2" ∈ ["h1"] from item) (by decide)

end HlHelper.Tasks
