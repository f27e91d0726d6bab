import HlHelper.Tasks.Rollup
import Mathlib.Data.List.Dedup

/-! In runs whose tasks are closed by the last of their outcomes, the status of
every task is the one that its commands call for. -/

namespace HlHelper.Tasks

open HlHelper.Library

/-- Ids are unique, a command's run and a run's task exist, a task has one run, and
the commands of a run expire together. -/
structure WellKeyed (db : Db) : Prop where
  runIds : (db.runs.map TaskRun.id).Nodup
  runTasks : (db.runs.map TaskRun.taskId).Nodup
  commandIds : (db.commands.map Command.id).Nodup
  taskIds : (db.tasks.map Task.id).Nodup
  owned : ∀ command ∈ db.commands, ∃ run ∈ db.runs, run.id = command.taskRunId
  named : ∀ run ∈ db.runs, run.taskId ≠ "" ∧ run.taskId ∈ db.tasks.map Task.id
  together : ∀ a ∈ db.commands, ∀ b ∈ db.commands, a.taskRunId = b.taskRunId →
    a.expiresAt = b.expiresAt

/-- Nothing has happened yet to any command of an open task. -/
structure Untouched (db : Db) (task : Task) : Prop where
  isOpen : isOpen task.status = true
  commands : ∀ command ∈ db.commandsOf task,
    command.status = .queued ∧ hasResult db command = false

/-- A task is closed when all its commands are settled. -/
structure Closed (db : Db) (task : Task) : Prop where
  settled : ∀ command ∈ db.commandsOf task, settled db command = true
  verdict : task.status = verdict db (db.commandsOf task)

def Stands (db : Db) (task : Task) : Prop := Untouched db task ∨ Closed db task

theorem Closed.not_open {db : Db} {task : Task} (closed : Closed db task) :
    isOpen task.status = false := by
  rw [closed.verdict, Tasks.verdict]
  split
  · rfl
  · split <;> rfl

structure Sound (db : Db) : Prop where
  keyed : WellKeyed db
  tasks : ∀ task ∈ db.tasks, Stands db task

section Commands

variable {db next : Db} {task : Task} {command : Command} {run : TaskRun}

theorem mem_commandsOf :
    command ∈ db.commandsOf task ↔ command ∈ db.commands ∧
      ∃ run ∈ db.runs, run.id = command.taskRunId ∧ run.taskId = task.id := by
  simp [Db.commandsOf]

theorem commandsOf_eq_commandsOfRun (keyed : WellKeyed db) (member : run ∈ db.runs)
    (same : run.taskId = task.id) : db.commandsOf task = db.commandsOfRun run := by
  refine List.filter_congr (fun command _ => ?_)
  rw [decide_eq_decide]
  constructor
  · rintro ⟨other, inside, runId, taskId⟩
    have equal := key_injective keyed.runTasks inside member (taskId.trans same.symm)
    rw [← runId, equal]
  · intro runId
    exact ⟨run, member, runId.symm, same⟩

theorem runs_of_task (keyed : WellKeyed db) (member : run ∈ db.runs)
    (same : run.taskId = task.id) :
    db.runs.filter (fun other => other.taskId = task.id) = [run] := by
  rw [← same]
  exact filter_key_eq_singleton keyed.runTasks member

theorem verdict_of_outcomes {commands others : List Command}
    (same : (commands.map (hasOk next)).Perm (others.map (hasOk db))) :
    verdict next commands = verdict db others := by
  have all : commands.all (hasOk next) = others.all (hasOk db) := by
    simpa [List.all_map, Function.comp_def] using same.all_eq (f := id)
  have any : commands.any (hasOk next) = others.any (hasOk db) := by
    simpa [List.any_map, Function.comp_def] using same.any_eq (f := id)
  simp only [verdict, all, any]

theorem verdict_congr {commands : List Command}
    (same : ∀ command ∈ commands, hasOk next command = hasOk db command) :
    verdict next commands = verdict db commands :=
  verdict_of_outcomes (List.map_congr_left same ▸ List.Perm.refl _)

theorem verdict_of_none {commands : List Command} (nonempty : commands ≠ [])
    (none_ok : ∀ command ∈ commands, hasOk db command = false) :
    verdict db commands = .failed := by
  obtain ⟨command, member⟩ := List.exists_mem_of_ne_nil _ nonempty
  have not_all : commands.all (hasOk db) = false :=
    List.all_eq_false.mpr ⟨command, member, by simp [none_ok command member]⟩
  have not_any : commands.any (hasOk db) = false := by
    simpa [List.any_eq_false] using none_ok
  simp [verdict, not_all, not_any]

theorem hasOk_of_not_hasResult (unanswered : hasResult db command = false) :
    hasOk db command = false := by
  simp only [hasResult, List.any_eq_false, decide_eq_true_eq] at unanswered
  simp only [hasOk, List.any_eq_false, decide_eq_true_eq, not_and]
  exact fun result member same => absurd same (unanswered result member)

theorem stands_of_same (commands : next.commandsOf task = db.commandsOf task)
    (answered : ∀ command ∈ db.commandsOf task, hasResult next command = hasResult db command)
    (ok : ∀ command ∈ db.commandsOf task, hasOk next command = hasOk db command)
    (stands : Stands db task) : Stands next task := by
  rcases stands with untouched | closed
  · refine .inl ⟨untouched.isOpen, fun command member => ?_⟩
    rw [commands] at member
    rw [answered command member]
    exact untouched.commands command member
  · refine .inr ⟨fun command member => ?_, ?_⟩
    · rw [commands] at member
      rw [settled, answered command member]
      exact closed.settled command member
    · rw [closed.verdict, commands, verdict_congr ok]

theorem WellKeyed.update (keyed : WellKeyed db) {update : Command → Command}
    (runs : next.runs = db.runs) (commands : next.commands = db.commands.map update)
    (kept : ∀ command, (update command).id = command.id ∧
      (update command).taskRunId = command.taskRunId ∧
      (update command).expiresAt = command.expiresAt)
    (tasks : next.tasks.map Task.id = db.tasks.map Task.id) : WellKeyed next where
  runIds := runs ▸ keyed.runIds
  runTasks := runs ▸ keyed.runTasks
  commandIds := commands ▸ unique_map keyed.commandIds (fun command => (kept command).1)
  taskIds := tasks ▸ keyed.taskIds
  owned := by
    rw [commands, runs]
    intro command member
    obtain ⟨old, inside, rfl⟩ := List.mem_map.mp member
    rw [(kept old).2.1]
    exact keyed.owned old inside
  named := by
    rw [runs, tasks]
    exact keyed.named
  together := by
    rw [commands]
    intro a left b right same
    obtain ⟨a, inside, rfl⟩ := List.mem_map.mp left
    obtain ⟨b, there, rfl⟩ := List.mem_map.mp right
    rw [(kept a).2.1, (kept b).2.1] at same
    rw [(kept a).2.2, (kept b).2.2]
    exact keyed.together a inside b there same

end Commands

section Sync

variable {statusOf : Db → TaskRun → Option ResultStatus}

/-- What one or more roll-ups of the given tasks leave of a task. -/
def rolled (statusOf : Db → TaskRun → Option ResultStatus) (db : Db) (ids : List TaskId)
    (task : Task) : Task :=
  if task.id ∈ ids ∧ isOpen task.status then
    { task with
      status := rollUp ((db.runs.filter (fun run => run.taskId = task.id)).map (statusOf db)) }
  else task

theorem rolled_id (db : Db) (ids : List TaskId) (task : Task) :
    (rolled statusOf db ids task).id = task.id := by
  rw [rolled]
  split <;> rfl

theorem syncTask_eq (db : Db) (taskId : TaskId) :
    syncTask statusOf db taskId =
      { db with tasks := db.tasks.map (rolled statusOf db [taskId]) } := by
  simp [syncTask, rolled]

theorem foldl_syncTask (blind : ∀ db tasks run,
      statusOf { db with tasks := tasks } run = statusOf db run)
    (ids : List TaskId) (db : Db) :
    ids.foldl (syncTask statusOf) db =
      { db with tasks := db.tasks.map (rolled statusOf db ids) } := by
  induction ids generalizing db with
  | nil =>
    have same : rolled statusOf db [] = id := by
      funext task
      simp [rolled]
    simp [same]
  | cons id rest ih =>
    have blind' : ∀ tasks, statusOf { db with tasks := tasks } = statusOf db :=
      fun tasks => funext (blind db tasks)
    rw [List.foldl_cons, ih, syncTask_eq]
    simp only [List.map_map, Db.mk.injEq, and_true]
    refine List.map_congr_left (fun task _ => ?_)
    by_cases first : task.id = id
    · by_cases still : isOpen task.status = true
      · simp only [Function.comp_apply, rolled, blind', first, still, List.mem_cons, true_or,
          and_true, if_true]
        split <;> rfl
      · simp [rolled, still]
    · simp [rolled, first, blind']

end Sync

section Result

variable {sql : SqlOrder} {db : Db} {task : Task} {command : Command} {run : TaskRun}

def Db.answer (db : Db) (result : Result) : Db := { db with results := db.results ++ [result] }

theorem hasResult_answer (result : Result) :
    hasResult (db.answer result) command =
      (hasResult db command || decide (result.commandId = command.id)) := by
  simp [hasResult, Db.answer, List.any_append]

theorem hasOk_answer (result : Result) :
    hasOk (db.answer result) command =
      (hasOk db command || decide (result.commandId = command.id ∧ result.status = .ok)) := by
  simp [hasOk, Db.answer, List.any_append]

theorem WellKeyed.answer (keyed : WellKeyed db) (result : Result) :
    WellKeyed (db.answer result) :=
  ⟨keyed.runIds, keyed.runTasks, keyed.commandIds, keyed.taskIds, keyed.owned, keyed.named,
    keyed.together⟩

theorem stands_of_foreign {result : Result}
    (foreign : ∀ command ∈ db.commandsOf task, result.commandId ≠ command.id)
    (stands : Stands db task) : Stands (db.answer result) task := by
  have commands : (db.answer result).commandsOf task = db.commandsOf task := rfl
  refine stands_of_same commands (fun command member => ?_) (fun command member => ?_) stands
  · simp [hasResult_answer, foreign command member]
  · simp [hasOk_answer, foreign command member]

theorem closed_answer {result : Result}
    (late : ∀ command ∈ db.commandsOf task, result.commandId = command.id →
      result.status = .ok → hasOk db command = true)
    (closed : Closed db task) : Closed (db.answer result) task := by
  have ok : ∀ command ∈ db.commandsOf task,
      hasOk (db.answer result) command = hasOk db command := by
    intro command member
    rw [hasOk_answer]
    by_cases first : result.commandId = command.id ∧ result.status = .ok
    · simp [late command member first.1 first.2]
    · simp [first]
  refine ⟨fun command member => ?_, closed.verdict.trans (verdict_congr ok).symm⟩
  have before := closed.settled command member
  simp only [settled, hasResult_answer, Bool.or_eq_true] at before ⊢
  rcases before with answered | expired
  · exact .inl (.inl answered)
  · exact .inr expired

theorem latestStatus_of_only {result : Result} (only : db.commandsOfRun run = [command])
    (unanswered : hasResult db command = false) (same : result.commandId = command.id) :
    latestStatus sql (db.answer result) run = some result.status := by
  have before : db.results.filter (fun earlier => earlier.commandId = command.id) = [] := by
    simpa [hasResult, List.filter_eq_nil_iff] using unanswered
  have after : (db.answer result).resultsOfRun run = [result] := by
    have commands : (db.answer result).commandsOfRun run = [command] := only
    simp only [Db.resultsOfRun, commands]
    simp [Db.answer, List.filter_append, before, same]
  have some_row : (sql.latest Result.sequence [result]).isSome :=
    sql.latest_some (List.cons_ne_nil result [])
  obtain ⟨row, found⟩ := Option.isSome_iff_exists.mp some_row
  have row_eq : row = result := List.mem_singleton.mp (sql.latest_mem found).1
  simp [latestStatus, after, found, row_eq]

theorem rollUp_singleton (status : ResultStatus) :
    rollUp [some status] = if status = .ok then .succeeded else .failed := by
  cases status <;> rfl

theorem closed_of_only {result : Result} (keyed : WellKeyed db) (member : run ∈ db.runs)
    (taskId : run.taskId = task.id) (only : db.commandsOfRun run = [command])
    (unanswered : hasResult db command = false) (same : result.commandId = command.id)
    (status : task.status = rollUp [some result.status]) : Closed (db.answer result) task := by
  have commands : (db.answer result).commandsOf task = [command] :=
    (commandsOf_eq_commandsOfRun keyed member taskId).trans only
  refine ⟨?_, ?_⟩
  · simp [commands, settled, hasResult_answer, same]
  · have ok : hasOk (db.answer result) command = decide (result.status = .ok) := by
      simp [hasOk_answer, hasOk_of_not_hasResult unanswered, same]
    rw [status, rollUp_singleton, commands]
    by_cases succeeded : result.status = .ok <;> simp [verdict, ok, succeeded]

theorem acceptResult_cases (sql : SqlOrder) (keyed : WellKeyed db) (id : String)
    (env : ResultEnvelope) :
    let answered := db.answer ⟨id, env.commandId, env.hostId, env.sequence, env.status⟩
    (env.commandId ∉ db.commands.map Command.id ∧ acceptResult sql db id env = answered) ∨
      ∃ command ∈ db.commands, ∃ run ∈ db.runs, command.id = env.commandId ∧
        run.id = command.taskRunId ∧
        acceptResult sql db id env =
          { answered with
            tasks := db.tasks.map (rolled (latestStatus sql) answered [run.taskId]) } := by
  intro answered
  by_cases known : env.commandId ∈ db.commands.map Command.id
  · right
    obtain ⟨command, member, commandId⟩ := List.mem_map.mp known
    obtain ⟨run, inside, runId⟩ := keyed.owned command member
    have command_found := (findKey_eq_some_iff keyed.commandIds).mpr ⟨member, commandId⟩
    have run_found := (findKey_eq_some_iff keyed.runIds).mpr ⟨inside, runId⟩
    have nonempty := (keyed.named run inside).1
    refine ⟨command, member, run, inside, commandId, runId, ?_⟩
    simp only [acceptResult, command_found, run_found, if_neg nonempty, syncTask_eq]
    rfl
  · left
    refine ⟨known, ?_⟩
    simp only [acceptResult, findKey_none.mpr known]
    rfl

theorem mem_rolled {statusOf : Db → TaskRun → Option ResultStatus} {ids : List TaskId}
    {rows : List Task} (member : task ∈ rows.map (rolled statusOf db ids)) :
    ∃ old ∈ rows, (task = old ∧ (old.id ∈ ids → isOpen old.status = false)) ∨
      (old.id ∈ ids ∧ isOpen old.status = true ∧ task.id = old.id ∧
        task.status =
          rollUp ((db.runs.filter (fun run => run.taskId = old.id)).map (statusOf db))) := by
  obtain ⟨old, inside, rfl⟩ := List.mem_map.mp member
  refine ⟨old, inside, ?_⟩
  by_cases due : old.id ∈ ids ∧ isOpen old.status = true
  · right
    simp [rolled, due]
  · left
    refine ⟨by simp [rolled, due], fun affected => ?_⟩
    simpa [affected] using due

theorem stands_retasked {tasks : List Task} (stands : Stands db task) :
    Stands { db with tasks := tasks } task := by
  have commands : { db with tasks := tasks }.commandsOf task = db.commandsOf task := rfl
  exact stands_of_same commands (fun _ _ => rfl) (fun _ _ => rfl) stands

theorem inOpenTask_of_open (member : run ∈ db.runs) (runId : run.id = command.taskRunId)
    (inside : task ∈ db.tasks) (taskId : run.taskId = task.id)
    (still : isOpen task.status = true) : inOpenTask db command = true := by
  simp only [inOpenTask, List.any_eq_true, decide_eq_true_eq]
  exact ⟨run, member, runId, task, inside, taskId.symm, still⟩

theorem inOpenTask_of_closed (keyed : WellKeyed db) (member : run ∈ db.runs)
    (runId : run.id = command.taskRunId) (inside : task ∈ db.tasks)
    (taskId : run.taskId = task.id) (closed : isOpen task.status = false) :
    inOpenTask db command = false := by
  simp only [inOpenTask, List.any_eq_false, List.any_eq_true, decide_eq_true_eq, not_and]
  rintro other there otherId ⟨task', inside', taskId', still⟩
  have same := key_injective keyed.runIds there member (otherId.trans runId.symm)
  subst same
  have equal := key_injective keyed.taskIds inside' inside (taskId'.trans taskId)
  rw [equal, closed] at still
  cases still

theorem own_command (keyed : WellKeyed db) (member : command ∈ db.commands)
    (inside : run ∈ db.runs) (runId : run.id = command.taskRunId) {other : Command}
    (inTask : other ∈ db.commandsOf task) (same : other.id = command.id) :
    run.taskId = task.id ∧ other = command := by
  obtain ⟨known, run', inside', runId', taskId'⟩ := mem_commandsOf.mp inTask
  have equal := key_injective keyed.commandIds known member same
  subst equal
  have run_eq := key_injective keyed.runIds inside inside' (runId.trans runId'.symm)
  exact ⟨run_eq ▸ taskId', rfl⟩

theorem commandsOfRun_alone (keyed : WellKeyed db) (member : command ∈ db.commands)
    (runId : run.id = command.taskRunId)
    (alone : ∀ other ∈ db.commands, other.taskRunId = command.taskRunId → other = command) :
    db.commandsOfRun run = [command] := by
  rw [← filter_key_eq_singleton keyed.commandIds member]
  refine List.filter_congr (fun other known => ?_)
  rw [decide_eq_decide]
  constructor
  · intro sameRun
    rw [alone other known (sameRun.trans runId)]
  · intro sameId
    rw [key_injective keyed.commandIds known member sameId, runId]

theorem stands_kept {result : Result} (sound : Sound db) (member : command ∈ db.commands)
    (inside : run ∈ db.runs) (runId : run.id = command.taskRunId)
    (commandId : result.commandId = command.id) (before : task ∈ db.tasks)
    (kept : run.taskId = task.id → isOpen task.status = false)
    (late : run.taskId = task.id → result.status = .ok → hasOk db command = true) :
    Stands (db.answer result) task := by
  have own : ∀ other ∈ db.commandsOf task, result.commandId = other.id →
      run.taskId = task.id ∧ other = command := fun other inTask same =>
    own_command sound.keyed member inside runId inTask (same.symm.trans commandId)
  by_cases mine : run.taskId = task.id
  · have closed := kept mine
    rcases sound.tasks task before with untouched | closedBefore
    · simp [untouched.isOpen] at closed
    · refine .inr (closed_answer (fun other inTask sameId ok => ?_) closedBefore)
      rw [(own other inTask sameId).2]
      exact late mine ok
  · exact stands_of_foreign (fun other inTask sameId => mine (own other inTask sameId).1)
      (sound.tasks task before)

theorem stands_rolled {result : Result} {old : Task} (sound : Sound db)
    (member : command ∈ db.commands) (inside : run ∈ db.runs) (runId : run.id = command.taskRunId)
    (commandId : result.commandId = command.id) (before : old ∈ db.tasks)
    (taskId : run.taskId = old.id) (still : isOpen old.status = true)
    (alone : ∀ other ∈ db.commands, other.taskRunId = command.taskRunId → other = command)
    (same : task.id = old.id)
    (status : task.status = rollUp (((db.answer result).runs.filter
      (fun run => run.taskId = old.id)).map (latestStatus sql (db.answer result)))) :
    Stands (db.answer result) task := by
  have keyed := sound.keyed
  have only := commandsOfRun_alone keyed member runId alone
  have untouched := (sound.tasks old before).resolve_right (fun closed => by
    simp [closed.not_open] at still)
  have unanswered : hasResult db command = false := by
    refine (untouched.commands command ?_).2
    rw [commandsOf_eq_commandsOfRun keyed inside taskId, only]
    exact List.mem_singleton_self _
  have runs : (db.answer result).runs.filter (fun run => run.taskId = old.id) = [run] :=
    runs_of_task (keyed.answer result) inside taskId
  refine .inr (closed_of_only keyed inside (taskId.trans same.symm) only unanswered commandId ?_)
  rw [status, runs, List.map_singleton, latestStatus_of_only only unanswered commandId]

theorem result_sound (sound : Sound db) {expectedHostId : HostId} {hostKnown verified : Bool}
    {id : String} {env : ResultEnvelope}
    (alone : OneCommandRuns sql db (.result expectedHostId hostKnown verified id env))
    (accepted : accepts sql db expectedHostId hostKnown verified env = true) :
    Sound (acceptResult sql db id env) := by
  have keyed := sound.keyed
  rcases acceptResult_cases sql keyed id env with
    ⟨unknown, next⟩ | ⟨command, member, run, inside, commandId, runId, next⟩
  · rw [next]
    refine ⟨keyed.answer _, fun task present => stands_of_foreign ?_ (sound.tasks task present)⟩
    intro other known same
    exact unknown (List.mem_map.mpr ⟨other, (mem_commandsOf.mp known).1, same.symm⟩)
  · have alone := alone accepted command member commandId
    rw [next]
    refine ⟨keyed.update rfl (List.map_id _).symm (fun _ => ⟨rfl, rfl, rfl⟩) ?_, ?_⟩
    · simp [List.map_map, Function.comp_def, rolled_id]
    · intro task present
      refine stands_retasked ?_
      obtain ⟨old, before, ⟨rfl, kept⟩ | ⟨affected, still, same, status⟩⟩ := mem_rolled present
      · have kept : run.taskId = task.id → isOpen task.status = false :=
          fun mine => kept (List.mem_singleton.mpr mine.symm)
        refine stands_kept sound member inside runId commandId.symm before kept (fun mine ok => ?_)
        simp only [inOpenTask_of_closed keyed inside runId before mine (kept mine),
          Bool.false_eq_true, if_false] at alone
        exact alone ok
      · have taskId : run.taskId = old.id := (List.mem_singleton.mp affected).symm
        simp only [inOpenTask_of_open inside runId before taskId still, if_true] at alone
        exact stands_rolled sound member inside runId commandId.symm before taskId still alone same
          status

end Result

section Sweep

variable {sql : SqlOrder} {db : Db} {task : Task} {command : Command} {run : TaskRun} {now : Int}

def Db.expired (db : Db) (now : Int) : Db :=
  { db with commands := db.commands.map (setStatus .expired ((expiring db now).map Command.id)) }

theorem mem_expiring :
    command ∈ expiring db now ↔ command ∈ db.commands ∧
      (command.status = .queued ∨ command.status = .inFlight) ∧ command.expiresAt < now ∧
        hasResult db command = false := by
  simp [expiring]

theorem setStatus_of_expiring (due : command ∈ expiring db now) :
    setStatus .expired ((expiring db now).map Command.id) command =
      { command with status := .expired } :=
  if_pos (List.mem_map.mpr ⟨command, due, rfl⟩)

theorem setStatus_of_not_expiring (keyed : WellKeyed db) (member : command ∈ db.commands)
    (early : command ∉ expiring db now) :
    setStatus .expired ((expiring db now).map Command.id) command = command := by
  refine if_neg (fun listed => ?_)
  obtain ⟨other, due, same⟩ := List.mem_map.mp listed
  have equal := key_injective keyed.commandIds (mem_expiring.mp due).1 member same
  exact early (equal ▸ due)

theorem commandsOf_expired (db : Db) (now : Int) (task : Task) :
    (db.expired now).commandsOf task =
      (db.commandsOf task).map (setStatus .expired ((expiring db now).map Command.id)) := by
  simp only [Db.commandsOf, Db.expired, List.filter_map]
  congr 2
  funext command
  simp [(setStatus_kept .expired _ command).2.1]

theorem sweepOnce_eq (db : Db) (now : Int) :
    sweepOnce sql db now =
      { db.expired now with
        tasks := db.tasks.map (rolled (sweptStatus sql) (db.expired now)
          (affectedTasks db (expiring db now))) } :=
  foldl_syncTask (fun _ _ _ => rfl) _ _

theorem mem_affectedTasks (keyed : WellKeyed db) :
    task.id ∈ affectedTasks db (expiring db now) ↔
      ∃ command ∈ db.commandsOf task, command ∈ expiring db now := by
  simp only [affectedTasks, List.mem_dedup, List.mem_filterMap, Option.bind_eq_some_iff,
    findKey_eq_some_iff keyed.runIds]
  constructor
  · rintro ⟨command, due, run, ⟨member, runId⟩, taskId⟩
    rw [if_neg (keyed.named run member).1, Option.some.injEq] at taskId
    exact ⟨command, mem_commandsOf.mpr ⟨(mem_expiring.mp due).1, run, member, runId, taskId⟩, due⟩
  · rintro ⟨command, inTask, due⟩
    obtain ⟨_, run, member, runId, taskId⟩ := mem_commandsOf.mp inTask
    refine ⟨command, due, run, ⟨member, runId⟩, ?_⟩
    rw [if_neg (keyed.named run member).1, taskId]

theorem stands_of_early (keyed : WellKeyed db)
    (early : ∀ command ∈ db.commandsOf task, command ∉ expiring db now)
    (stands : Stands db task) : Stands (db.expired now) task := by
  have commands : (db.expired now).commandsOf task = db.commandsOf task := by
    rw [commandsOf_expired]
    refine (List.map_congr_left (fun command inTask => ?_)).trans (List.map_id _)
    exact setStatus_of_not_expiring keyed (mem_commandsOf.mp inTask).1 (early command inTask)
  exact stands_of_same commands (fun _ _ => rfl) (fun _ _ => rfl) stands

theorem Closed.early (closed : Closed db task) :
    ∀ command ∈ db.commandsOf task, command ∉ expiring db now := by
  intro command inTask due
  obtain ⟨_, live, _, unanswered⟩ := mem_expiring.mp due
  have done := closed.settled command inTask
  simp only [Tasks.settled, unanswered, Bool.false_or, decide_eq_true_eq] at done
  simp [done] at live

theorem Untouched.expiring_together (keyed : WellKeyed db) (untouched : Untouched db task)
    {first : Command} (inTask : first ∈ db.commandsOf task) (due : first ∈ expiring db now) :
    ∀ command ∈ db.commandsOf task, command ∈ expiring db now := by
  intro command other
  obtain ⟨known, run, member, runId, taskId⟩ := mem_commandsOf.mp inTask
  obtain ⟨known', run', member', runId', taskId'⟩ := mem_commandsOf.mp other
  have same := key_injective keyed.runTasks member member' (taskId.trans taskId'.symm)
  subst same
  obtain ⟨queued, unanswered⟩ := untouched.commands command other
  have together := keyed.together first known command known' (runId.symm.trans runId')
  exact mem_expiring.mpr
    ⟨known', .inl queued, together ▸ (mem_expiring.mp due).2.2.1, unanswered⟩

theorem sweptStatus_expired {first : Command} (member : first ∈ db.commandsOfRun run)
    (due : ∀ command ∈ db.commandsOfRun run, command.status = .expired ∧
      hasResult db command = false) : sweptStatus sql db run = some .timeout := by
  have unanswered : db.resultsOfRun run = [] := by
    refine List.filter_eq_nil_iff.mpr (fun result inside => ?_)
    simp only [decide_eq_true_eq, List.mem_map, not_exists, not_and]
    intro command inRun same
    have none_result := (due command inRun).2
    simp only [hasResult, List.any_eq_false, decide_eq_true_eq] at none_result
    exact none_result result inside same.symm
  have no_row : sql.latest Result.sequence ([] : List Result) = none := by
    cases found : sql.latest Result.sequence ([] : List Result) with
    | none => rfl
    | some row => simpa using (sql.latest_mem found).1
  have some_row : (sql.latest Command.sequence (db.commandsOfRun run)).isSome :=
    sql.latest_some (List.ne_nil_of_mem member)
  obtain ⟨newest, found⟩ := Option.isSome_iff_exists.mp some_row
  have expired := (due newest (sql.latest_mem found).1).1
  simp [sweptStatus, latestStatus, unanswered, no_row, found, expired]

theorem closed_of_expired (keyed : WellKeyed db) (untouched : Untouched db task)
    {first : Command} (inTask : first ∈ db.commandsOf task) (due : first ∈ expiring db now)
    {next : Task} (same : next.id = task.id)
    (status : next.status = rollUp (((db.expired now).runs.filter
      (fun run => run.taskId = task.id)).map (sweptStatus sql (db.expired now)))) :
    Closed (db.expired now) next := by
  have together := untouched.expiring_together keyed inTask due
  obtain ⟨_, run, member, runId, taskId⟩ := mem_commandsOf.mp inTask
  have keyed' : WellKeyed (db.expired now) := keyed.update rfl rfl (setStatus_kept .expired _) rfl
  have commands : (db.expired now).commandsOf next = (db.expired now).commandsOfRun run :=
    commandsOf_eq_commandsOfRun keyed' member (taskId.trans same.symm)
  have all_due : ∀ command ∈ (db.expired now).commandsOfRun run, command.status = .expired ∧
      hasResult (db.expired now) command = false := by
    rw [← commandsOf_eq_commandsOfRun keyed' member taskId, commandsOf_expired]
    intro command inside
    obtain ⟨old, before, rfl⟩ := List.mem_map.mp inside
    rw [setStatus_of_expiring (together old before)]
    exact ⟨rfl, (untouched.commands old before).2⟩
  have present : setStatus .expired ((expiring db now).map Command.id) first ∈
      (db.expired now).commandsOfRun run := by
    rw [← commandsOf_eq_commandsOfRun keyed' member taskId, commandsOf_expired]
    exact List.mem_map_of_mem inTask
  have runs := runs_of_task keyed' member taskId
  have failed : next.status = .failed := by
    rw [status, runs, List.map_cons, List.map_nil, sweptStatus_expired present all_due]
    rfl
  refine ⟨fun command inside => ?_, ?_⟩
  · rw [commands] at inside
    simp [settled, (all_due command inside).1]
  · rw [failed, commands]
    refine (verdict_of_none (List.ne_nil_of_mem present) (fun command inside => ?_)).symm
    exact hasOk_of_not_hasResult (all_due command inside).2

theorem sweep_sound (sound : Sound db) (now : Int) : Sound (sweepOnce sql db now) := by
  have keyed := sound.keyed
  rw [sweepOnce_eq]
  refine ⟨keyed.update rfl rfl (setStatus_kept .expired _) ?_, ?_⟩
  · simp [List.map_map, Function.comp_def, rolled_id]
  · intro task present
    refine stands_retasked ?_
    obtain ⟨old, before, ⟨rfl, kept⟩ | ⟨affected, still, same, status⟩⟩ := mem_rolled present
    · refine stands_of_early keyed ?_ (sound.tasks task before)
      rcases sound.tasks task before with untouched | closed
      · intro command inTask due
        have closed := kept ((mem_affectedTasks keyed).mpr ⟨command, inTask, due⟩)
        simp [untouched.isOpen] at closed
      · exact closed.early
    · have untouched := (sound.tasks old before).resolve_right (fun closed => by
        simp [closed.not_open] at still)
      obtain ⟨first, inTask, due⟩ := (mem_affectedTasks keyed).mp affected
      exact .inr (closed_of_expired keyed untouched inTask due same status)

end Sweep

section Dispatch

variable {db : Db} {task : Task} {run : Option TaskRun} {commands : List Command}

def Db.dispatched (db : Db) (task : Task) (run : Option TaskRun) (commands : List Command) : Db :=
  { db with
    tasks := db.tasks ++ [task]
    runs := db.runs ++ run.toList
    commands := db.commands ++ commands }

theorem dispatch_keyed (keyed : WellKeyed db) (new : NewDispatch db task run commands) :
    WellKeyed (db.dispatched task run commands) where
  runIds := unique_append keyed.runIds (fun row is_new => (new.runId row is_new).2)
  runTasks := unique_append keyed.runTasks (fun row is_new => by
    rw [(new.runId row is_new).1]
    exact new.taskId.2.2)
  commandIds := new.commandIds
  taskIds := by
    have fresh : ∀ row ∈ some task, row.id ∉ db.tasks.map Task.id := by
      rintro row ⟨⟩
      exact new.taskId.2.1
    exact unique_append keyed.taskIds fresh
  owned := by
    intro command member
    rcases List.mem_append.mp member with old | added
    · obtain ⟨run', inside, runId⟩ := keyed.owned command old
      exact ⟨run', List.mem_append_left _ inside, runId⟩
    · obtain ⟨run', is_new, runId⟩ := new.owned command added
      exact ⟨run', List.mem_append_right _ (Option.mem_toList.mpr is_new), runId.symm⟩
  named := by
    intro run' member
    simp only [Db.dispatched, List.map_append, List.mem_append]
    rcases List.mem_append.mp member with old | added
    · exact ⟨(keyed.named run' old).1, .inl (keyed.named run' old).2⟩
    · rw [(new.runId run' (Option.mem_toList.mp added)).1]
      exact ⟨new.taskId.1, .inr (by simp)⟩
  together := by
    have apart : ∀ old ∈ db.commands, ∀ added ∈ commands,
        old.taskRunId ≠ added.taskRunId := by
      intro old before added after same
      obtain ⟨run', inside, runId⟩ := keyed.owned old before
      obtain ⟨fresh, is_new, runId'⟩ := new.owned added after
      exact (new.runId fresh is_new).2
        (List.mem_map.mpr ⟨run', inside, runId.trans (same.trans runId')⟩)
    intro a left b right same
    rcases List.mem_append.mp left with old | added <;>
      rcases List.mem_append.mp right with old' | added'
    · exact keyed.together a old b old' same
    · exact absurd same (apart a old b added')
    · exact absurd same.symm (apart b old' a added)
    · exact new.together a added b added'

theorem commandsOf_dispatched (new : NewDispatch db task run commands) {other : Task}
    (old : other ∈ db.tasks) :
    (db.dispatched task run commands).commandsOf other = db.commandsOf other := by
  have earlier : ∀ run' ∈ db.runs ++ run.toList, run'.taskId = other.id → run' ∈ db.runs := by
    intro run' member taskId
    refine (List.mem_append.mp member).resolve_right (fun added => ?_)
    rw [(new.runId run' (Option.mem_toList.mp added)).1] at taskId
    exact new.taskId.2.1 (List.mem_map.mpr ⟨other, old, taskId.symm⟩)
  have before : db.commands.filter (fun command =>
      ∃ run' ∈ db.runs ++ run.toList, run'.id = command.taskRunId ∧ run'.taskId = other.id) =
        db.commandsOf other := by
    refine List.filter_congr (fun command _ => ?_)
    rw [decide_eq_decide]
    constructor
    · rintro ⟨run', member, runId, taskId⟩
      exact ⟨run', earlier run' member taskId, runId, taskId⟩
    · rintro ⟨run', member, both⟩
      exact ⟨run', List.mem_append_left _ member, both⟩
  have none_new : commands.filter (fun command =>
      ∃ run' ∈ db.runs ++ run.toList, run'.id = command.taskRunId ∧ run'.taskId = other.id) =
        [] := by
    refine List.filter_eq_nil_iff.mpr (fun command added => ?_)
    rw [decide_eq_true_eq]
    rintro ⟨run', member, runId, taskId⟩
    obtain ⟨fresh, is_new, own⟩ := new.owned command added
    exact (new.runId fresh is_new).2
      (List.mem_map.mpr ⟨run', earlier run' member taskId, runId.trans own⟩)
  rw [Db.commandsOf, Db.dispatched, List.filter_append, before, none_new, List.append_nil]

theorem dispatch_sound (sound : Sound db) (new : NewDispatch db task run commands) :
    Sound (db.dispatched task run commands) := by
  have keyed := sound.keyed
  refine ⟨dispatch_keyed keyed new, fun other member => ?_⟩
  rcases List.mem_append.mp member with old | added
  · exact stands_of_same (commandsOf_dispatched new old) (fun _ _ => rfl) (fun _ _ => rfl)
      (sound.tasks other old)
  · obtain rfl := List.mem_singleton.mp added
    refine .inl ⟨by rw [new.pending]; rfl, fun command inTask => ?_⟩
    obtain ⟨known, run', inside, runId, taskId⟩ := mem_commandsOf.mp inTask
    have fresh : command ∈ commands := by
      refine (List.mem_append.mp known).resolve_left (fun before => ?_)
      obtain ⟨old, member, oldId⟩ := keyed.owned command before
      have is_old := key_injective (dispatch_keyed keyed new).runIds
        (List.mem_append_left _ member) inside (oldId.trans runId.symm)
      rw [← is_old] at taskId
      exact new.taskId.2.2 (List.mem_map.mpr ⟨old, member, taskId⟩)
    exact ⟨new.queued command fresh, new.unanswered command fresh⟩

end Dispatch

section Run

variable {db : Db} {task : Task}

theorem taskStep_sound (sql : SqlOrder) (db : Db) (event : TaskEvent) (next : Db)
    (sound : Sound db) (alone : OneCommandRuns sql db event)
    (stepped : taskStep sql db event = some next) : Sound next := by
  cases event with
  | dispatch task run commands =>
    simp only [taskStep] at stepped
    split at stepped
    · next new =>
      cases stepped
      exact dispatch_sound sound new
    · cases stepped
  | result expectedHostId hostKnown verified id env =>
    simp only [taskStep] at stepped
    split at stepped
    · next accepted =>
      cases stepped
      exact result_sound sound alone accepted
    · cases stepped
      exact sound
  | sweep now =>
    cases stepped
    exact sweep_sound sound now

theorem empty_sound : Sound Db.empty :=
  ⟨⟨by simp [Db.empty], by simp [Db.empty], by simp [Db.empty], by simp [Db.empty],
    by simp [Db.empty], by simp [Db.empty], by simp [Db.empty]⟩, by simp [Db.empty]⟩

theorem verdict_eq_succeeded {commands : List Command} :
    verdict db commands = .succeeded ↔ ∀ command ∈ commands, hasOk db command = true := by
  rw [← List.all_eq_true, verdict]
  cases commands.all (hasOk db) <;> cases commands.any (hasOk db) <;> simp

theorem verdict_eq_partial {commands : List Command} :
    verdict db commands = .partialSuccess ↔
      (∃ command ∈ commands, hasOk db command = true) ∧
        ∃ command ∈ commands, hasOk db command = false := by
  have some_not : (∃ command ∈ commands, hasOk db command = false) ↔
      commands.all (hasOk db) = false := by simp
  rw [← List.any_eq_true, some_not, verdict]
  cases commands.all (hasOk db) <;> cases commands.any (hasOk db) <;> simp

theorem rolledUp_of_untouched (untouched : Untouched db task) : RolledUp db task := by
  have still := untouched.isOpen
  have unsettled : ∀ command ∈ db.commandsOf task, settled db command = false := by
    intro command member
    obtain ⟨queued, unanswered⟩ := untouched.commands command member
    simp [settled, queued, unanswered]
  refine ⟨fun done => ?_, fun closed => ?_, ⟨fun partly => ?_, ?_⟩, fun nonempty all => ?_⟩
  · simp [done, isOpen] at still
  · simp [closed] at still
  · simp [partly, isOpen] at still
  · rintro ⟨⟨command, member, ok⟩, _⟩
    have unanswered := (untouched.commands command member).2
    simp [hasOk_of_not_hasResult unanswered] at ok
  · obtain ⟨command, member⟩ := List.exists_mem_of_ne_nil _ nonempty
    have done := all command member
    simp [unsettled command member] at done

theorem rolledUp_of_closed (closed : Closed db task) : RolledUp db task where
  succeeded := fun done => verdict_eq_succeeded.mp (closed.verdict.symm.trans done)
  terminal := fun _ => closed.settled
  partly := by
    rw [closed.verdict]
    exact verdict_eq_partial
  final := fun _ _ => closed.verdict

end Run

/-- In every run in which no result closes a task before its other commands are
settled, every task has the status that its commands call for, and the final
status is the same in all runs with the same outcomes. -/
theorem task_run_rolls_up (sql : SqlOrder) {events : List TaskEvent} {db : Db}
    (reached : run (taskStep sql) Db.empty events = some db)
    (alone : Meets (taskStep sql) (OneCommandRuns sql) Db.empty events) :
    (∀ task ∈ db.tasks, RolledUp db task) ∧
      ∀ (events' : List TaskEvent) (db' : Db),
        run (taskStep sql) Db.empty events' = some db' →
        Meets (taskStep sql) (OneCommandRuns sql) Db.empty events' →
        ∀ task ∈ db.tasks, ∀ task' ∈ db'.tasks,
          db.commandsOf task ≠ [] →
          (∀ command ∈ db.commandsOf task, settled db command = true) →
          (∀ command ∈ db'.commandsOf task', settled db' command = true) →
          ((db.commandsOf task).map (hasOk db)).Perm ((db'.commandsOf task').map (hasOk db')) →
            task.status = task'.status := by
  have rolledUp : ∀ {events : List TaskEvent} {db : Db},
      run (taskStep sql) Db.empty events = some db →
      Meets (taskStep sql) (OneCommandRuns sql) Db.empty events →
      ∀ task ∈ db.tasks, RolledUp db task := by
    intro events db reached alone task member
    have sound := run_keeps (taskStep_sound sql) empty_sound reached alone
    rcases sound.tasks task member with untouched | closed
    · exact rolledUp_of_untouched untouched
    · exact rolledUp_of_closed closed
  refine ⟨rolledUp reached alone, ?_⟩
  intro events' db' reached' alone' task member task' member' nonempty done done' outcomes
  have nonempty' : db'.commandsOf task' ≠ [] := by
    intro nothing
    rw [nothing] at outcomes
    exact nonempty (List.map_eq_nil_iff.mp outcomes.eq_nil)
  rw [(rolledUp reached alone task member).final nonempty done,
    (rolledUp reached' alone' task' member').final nonempty' done']
  exact verdict_of_outcomes outcomes

def shellTask (id : TaskId) : Task where
  id := id
  kind := .shellExec
  createdBy := "api_token:ops"
  status := .pending
  payload := .obj []
  targetSelector := .obj []
  idempotencyKey := none
  risk := .high
  requiresApproval := true

def hostCommand (id : CommandId) (taskRunId : TaskRunId) (hostId : HostId) : Command where
  id := id
  taskRunId := taskRunId
  hostId := hostId
  sequence := 1
  envelopeBytes := [10]
  risk := .high
  issuedAt := 0
  expiresAt := 330
  status := .queued
  idempotencyKey := none

/-- A dispatch to one host, which answers, and one to two hosts, which expires. -/
def answeredAndExpired : List TaskEvent :=
  [.dispatch (shellTask "t1") (some ⟨"r1", "t1", "h1", .pending⟩) [hostCommand "c1" "r1" "h1"],
    .dispatch (shellTask "t2") (some ⟨"r2", "t2", "h1", .pending⟩)
      [hostCommand "c2" "r2" "h1", hostCommand "c3" "r2" "h2"],
    .result "h1" true true "x1" ⟨"c1", "h1", 1, .ok⟩, .sweep 331,
    .result "h2" true true "x2" ⟨"c3", "h2", 1, .timeout⟩]

theorem answered_and_expired_roll_up :
    ∃ db, run (taskStep firstOfLatest) Db.empty answeredAndExpired = some db ∧
      db.tasks.map Task.status = [.succeeded, .failed] ∧ ∀ task ∈ db.tasks, RolledUp db task := by
  have finishes : (run (taskStep firstOfLatest) Db.empty answeredAndExpired).map
      (fun db => db.tasks.map Task.status) = some [.succeeded, .failed] := by decide
  have alone : Meets (taskStep firstOfLatest) (OneCommandRuns firstOfLatest) Db.empty
      answeredAndExpired := by decide
  obtain ⟨db, reached, statuses⟩ := Option.map_eq_some_iff.mp finishes
  exact ⟨db, reached, statuses, (task_run_rolls_up firstOfLatest reached alone).1⟩

theorem first_result_closes_task :
    ∃ db, run (taskStep firstOfLatest) Db.empty
        [.dispatch (shellTask "t1") (some ⟨"r1", "t1", "h1", .pending⟩)
            [hostCommand "c1" "r1" "h1", hostCommand "c2" "r1" "h2"],
          .result "h1" true true "x1" ⟨"c1", "h1", 1, .ok⟩] = some db ∧
      ¬ ∀ task ∈ db.tasks, RolledUp db task := by
  have finishes : (run (taskStep firstOfLatest) Db.empty
      [.dispatch (shellTask "t1") (some ⟨"r1", "t1", "h1", .pending⟩)
          [hostCommand "c1" "r1" "h1", hostCommand "c2" "r1" "h2"],
        .result "h1" true true "x1" ⟨"c1", "h1", 1, .ok⟩]).map (fun db =>
      decide (∃ task ∈ db.tasks, task.status = .succeeded ∧
        ∃ command ∈ db.commandsOf task, hasOk db command = false)) = some true := by decide
  obtain ⟨db, reached, outcome⟩ := Option.map_eq_some_iff.mp finishes
  obtain ⟨task, member, done, command, inTask, failed⟩ := of_decide_eq_true outcome
  refine ⟨db, reached, fun rolledUp => ?_⟩
  rw [(rolledUp task member).succeeded done command inTask] at failed
  cases failed

section Final

variable {sql : SqlOrder} {start db next : Db} {task : Task}

/-- The row of a task later on: only its status is another, and not once it is terminal. -/
def Continues (task later : Task) : Prop :=
  ∃ status, later = { task with status := status } ∧
    (isOpen task.status = false → status = task.status)

theorem continues_rolled {statusOf : Db → TaskRun → Option ResultStatus} {ids : List TaskId} :
    Continues task (rolled statusOf db ids task) := by
  unfold rolled
  split
  · next both => exact ⟨_, rfl, fun ended => absurd both.2 (by simp [ended])⟩
  · exact ⟨_, rfl, fun _ => rfl⟩

theorem taskStep_tasks {event : TaskEvent} (stepped : taskStep sql db event = some next) :
    ∃ statusOf seen ids new, next.tasks = db.tasks.map (rolled statusOf seen ids) ++ new := by
  have still : db.tasks = db.tasks.map (rolled (latestStatus sql) db []) :=
    congrArg Db.tasks (foldl_syncTask (fun _ _ _ => rfl) [] db)
  have unchanged : ∃ statusOf seen ids new,
      db.tasks = db.tasks.map (rolled statusOf seen ids) ++ new :=
    ⟨_, _, [], [], by rw [← still, List.append_nil]⟩
  cases event with
  | dispatch task =>
    simp only [taskStep, Option.ite_none_right_eq_some, Option.some.injEq] at stepped
    obtain ⟨_, rfl⟩ := stepped
    exact ⟨_, _, [], [task], by rw [← still]⟩
  | sweep now =>
    cases stepped
    exact ⟨_, _, _, [], by rw [sweepOnce_eq, List.append_nil]⟩
  | result host known verified id env =>
    simp only [taskStep] at stepped
    split at stepped
    · cases stepped
      simp only [acceptResult]
      split
      · exact unchanged
      · split
        · exact unchanged
        · split
          · exact unchanged
          · exact ⟨_, _, _, [], by rw [syncTask_eq, List.append_nil]⟩
    · cases stepped
      exact unchanged

theorem later_task_continues {events : List TaskEvent} {i : Nat}
    (found : start.tasks[i]? = some task)
    (reached : run (taskStep sql) start events = some db) :
    ∃ later, db.tasks[i]? = some later ∧ Continues task later := by
  refine @run_preserves _ _ _ (fun db => ∃ later, db.tasks[i]? = some later ∧
    Continues task later) ?_ _ _ _ ⟨task, found, _, rfl, fun _ => rfl⟩ reached
  rintro db event next ⟨before, there, status, rfl, final⟩ stepped
  obtain ⟨statusOf, seen, ids, new, tasks⟩ := taskStep_tasks stepped
  obtain ⟨now, shape, kept⟩ : Continues { task with status := status } _ :=
    @continues_rolled seen _ statusOf ids
  refine ⟨_, ?_, now, shape, fun ended => ?_⟩
  · rw [tasks, List.getElem?_append_left, List.getElem?_map, there]
    · rfl
    · simpa using (List.getElem?_eq_some_iff.mp there).1
  · have same := final ended
    subst same
    exact kept ended

def failedTask : Task := { shellTask "t1" with status := .failed }

def expiredDb : Db :=
  ⟨[failedTask], [⟨"r1", "t1", "h1", .pending⟩], [hostCommand "c1" "r1" "h1"], []⟩

def lateResult : List TaskEvent := [.result "h1" true true "x1" ⟨"c1", "h1", 1, .ok⟩]

theorem failed_task_continues : ∃ db,
    run (taskStep firstOfLatest) expiredDb lateResult = some db ∧
    ∃ later, db.tasks[0]? = some later ∧ Continues failedTask later :=
  ⟨_, rfl, @later_task_continues firstOfLatest expiredDb _ _ lateResult 0 rfl rfl⟩

end Final

end HlHelper.Tasks
