import HlHelper.Dispatch.Dispatcher

/-! When a dispatch leaves a queued, signed command of its own for every host that
it reports as dispatched. -/

namespace HlHelper.Dispatch

open HlHelper.Library

/-- `row` is the command of the task for the host. -/
structure Addressed (c : Collaborators) (tables : Tables) (taskId : TaskId) (hostId : HostId)
    (row : Command) : Prop where
  stored : row ∈ tables.commands
  underTask : ∃ run ∈ tables.runs, run.id = row.taskRunId ∧ run.taskId = taskId
  queued : row.status = .queued
  host : row.hostId = hostId
  signed : ∃ env, row.envelopeBytes = c.proto.serialize env ∧ env.commandId = row.id ∧
    env.hostId = hostId ∧ env.sequence = row.sequence ∧ SignedByServer c.proto c.key env

/-- The row has a number that was given out for its host. -/
def Numbered (tables : Tables) (row : Command) : Prop :=
  ∃ next, tables.nextSeq row.hostId = some next ∧ 1 ≤ row.sequence ∧ row.sequence < next

/-- A row that is new since `before` carries the number that its host's counter had then. -/
structure Carries (before : Tables) (row : Command) : Prop where
  old : row ∈ before.commands → Numbered before row
  new : row ∉ before.commands → row.sequence = (before.allocate row.hostId).1

def Complete (c : Collaborators) (before tables : Tables) (taskId : TaskId)
    (hosts : List HostId) : Prop :=
  ∃ rowOf : HostId → Command,
    (∀ hostId ∈ hosts, Addressed c tables taskId hostId (rowOf hostId) ∧
      Carries before (rowOf hostId)) ∧
    ∀ first ∈ hosts, ∀ second ∈ hosts, rowOf first = rowOf second → first = second

/-- UUIDs that were not drawn before, here or by the transactions that run meanwhile. -/
structure FreshDraws (draws : Draws) (tables : Tables) (hosts : List HostId) : Prop where
  task : draws.earlyTaskId ∉ tables.runs.map TaskRun.taskId
  run : draws.taskRunId ∉ tables.commands.map Command.taskRunId ∧
    ∀ hostId ∈ hosts, draws.taskRunId ∉ (draws.host hostId).racing.map Command.taskRunId
  command : ∀ hostId ∈ hosts, (draws.host hostId).commandId ∉ tables.commands.map Command.id ∧
    ∀ other ∈ hosts, (draws.host hostId).commandId ∉ (draws.host other).racing.map Command.id
  distinct : ∀ first ∈ hosts, ∀ second ∈ hosts,
    (draws.host first).commandId = (draws.host second).commandId → first = second

/-- The condition on the call and the state before it: nothing is dispatched; or the
cache names a live command for the key, whose task has the commands already; or no
audit entry clashes, and with a key there is one host and no row for the key. -/
def DispatchesAll (c : Collaborators) (draws : Draws) (tables : Tables) (cache : Cache)
    (call : Call) (plan : Plan) : Prop :=
  plan.candidates = [] ∨ NeedsApproval c tables call.principal plan ∨
    match resume tables cache call.idempotencyKey with
    | some (_, taskId) => ∀ hostId ∈ plan.candidates, ∃ row,
        Addressed c tables taskId hostId row ∧ Numbered tables row
    | none =>
      (∀ hostId ∈ plan.candidates, (draws.host hostId).auditClashes = 0) ∧
        ∀ key ∈ call.idempotencyKey, some key ∉ tables.commands.map Command.idempotencyKey ∧
          ∃ hostId, plan.candidates = [hostId] ∧
            some key ∉ (draws.host hostId).racing.map Command.idempotencyKey

section Tables

variable {c : Collaborators} {before tables later : Tables} {taskId : TaskId}
  {hosts : List HostId} {hostId : HostId} {row : Command}

theorem complete_of_each
    (each : ∀ hostId ∈ hosts, ∃ row, Addressed c tables taskId hostId row ∧ Carries before row) :
    Complete c before tables taskId hosts := by
  choose! rowOf addressed using each
  refine ⟨rowOf, addressed, fun first left second right same => ?_⟩
  rw [← (addressed first left).1.host, same, (addressed second right).1.host]

theorem not_complete_of_lost (nonempty : hosts ≠ [])
    (lost : taskId ∉ tables.runs.map TaskRun.taskId) :
    ¬ Complete c before tables taskId hosts := by
  rintro ⟨rowOf, addressed, _⟩
  obtain ⟨hostId, member⟩ := List.exists_mem_of_ne_nil _ nonempty
  obtain ⟨run, inside, _, same⟩ := (addressed hostId member).1.underTask
  exact lost (List.mem_map.mpr ⟨run, inside, same⟩)

theorem allocate_congr (same : later.nextSeq hostId = tables.nextSeq hostId) :
    (later.allocate hostId).1 = (tables.allocate hostId).1 := by
  unfold Tables.allocate
  rw [same]
  split <;> rfl

theorem allocate_other {other : HostId} (apart : other ≠ hostId) :
    (tables.allocate hostId).2.nextSeq other = tables.nextSeq other := by
  unfold Tables.allocate
  split <;> exact Function.update_of_ne apart _ _

theorem allocate_runs (tables : Tables) (hostId : HostId) :
    (tables.allocate hostId).2.runs = tables.runs := by
  unfold Tables.allocate
  split <;> rfl

theorem allocateAll_commands (tables : Tables) (hosts : List HostId) :
    (tables.allocateAll hosts).commands = tables.commands ∧
      (tables.allocateAll hosts).runs = tables.runs := by
  induction hosts generalizing tables with
  | nil => exact ⟨rfl, rfl⟩
  | cons hostId rest ih =>
    obtain ⟨commands, runs⟩ := ih (tables.allocate hostId).2
    exact ⟨commands.trans (allocate_commands tables hostId),
      runs.trans (allocate_runs tables hostId)⟩

structure Grows (tables later : Tables) : Prop where
  commands : ∀ row ∈ tables.commands, row ∈ later.commands
  runs : later.runs = tables.runs

theorem Grows.trans {latest : Tables} (first : Grows tables later) (second : Grows later latest) :
    Grows tables latest where
  commands := fun row member => second.commands row (first.commands row member)
  runs := second.runs.trans first.runs

theorem Addressed.grow (grows : Grows tables later)
    (addressed : Addressed c tables taskId hostId row) : Addressed c later taskId hostId row where
  __ := addressed
  stored := grows.commands row addressed.stored
  underTask := grows.runs ▸ addressed.underTask

end Tables

section Loop

variable {c : Collaborators} {draws : Draws} {order : Order} {key : Option String}
  {before : Tables} {taskRunId : TaskRunId} {session next : Session} {cache after : Cache}
  {hostId : HostId}

/-- One pass stored `row` for the host, and nothing was rolled back. -/
structure Stored (c : Collaborators) (draws : Draws) (key : Option String) (taskRunId : TaskRunId)
    (hostId : HostId) (tables later : Tables) (row : Command) : Prop where
  commands : later.commands = tables.commands ++ (draws.host hostId).racing ++ [row]
  runs : later.runs = tables.runs
  nextSeq : later.nextSeq = (tables.allocate hostId).2.nextSeq
  id : row.id = (draws.host hostId).commandId
  taskRun : row.taskRunId = taskRunId
  key : row.idempotencyKey = key
  queued : row.status = .queued
  host : row.hostId = hostId
  sequence : row.sequence = (tables.allocate hostId).1
  signed : ∃ env, row.envelopeBytes = c.proto.serialize env ∧ env.commandId = row.id ∧
    env.hostId = hostId ∧ env.sequence = row.sequence ∧ SignedByServer c.proto c.key env

theorem commandFor_signed {sequence : Nat} {row : Command}
    (built : commandFor c draws order taskRunId hostId sequence = .ok row) :
    row.id = (draws.host hostId).commandId ∧ row.taskRunId = taskRunId ∧
      row.idempotencyKey = none ∧ row.status = .queued ∧ row.hostId = hostId ∧
      row.sequence = sequence ∧
      ∃ env, row.envelopeBytes = c.proto.serialize env ∧ env.commandId = row.id ∧
        env.hostId = hostId ∧ env.sequence = row.sequence ∧ SignedByServer c.proto c.key env := by
  obtain ⟨envelope, unsigned, rfl⟩ := map_eq_ok.mp built
  obtain ⟨commandId, host, number, _⟩ := buildEnvelope_fields unsigned
  exact ⟨rfl, rfl, rfl, rfl, rfl, rfl, signEnvelope c.proto c.key envelope, rfl, commandId, host,
    number, signEnvelope_signed c.proto c.key envelope⟩

theorem Stored.addressed {tables later : Tables} {row : Command} {taskId : TaskId}
    (stored : Stored c draws key taskRunId hostId tables later row)
    (run : ∃ run ∈ tables.runs, run.id = taskRunId ∧ run.taskId = taskId) :
    Addressed c later taskId hostId row where
  __ := stored
  stored := by simp [stored.commands]
  underTask := by
    rw [stored.runs, stored.taskRun]
    exact run

theorem Stored.carries {tables later : Tables} {row : Command}
    (stored : Stored c draws key taskRunId hostId tables later row)
    (counter : tables.nextSeq hostId = before.nextSeq hostId)
    (unused : (draws.host hostId).commandId ∉ before.commands.map Command.id) :
    Carries before row where
  old := fun member => absurd (List.mem_map.mpr ⟨row, member, stored.id⟩) unused
  new := fun _ => by rw [stored.sequence, stored.host, allocate_congr counter]

theorem Stored.grows {tables later : Tables} {row : Command}
    (stored : Stored c draws key taskRunId hostId tables later row) : Grows tables later where
  commands := fun other member => by simp [stored.commands, member]
  runs := stored.runs

theorem dispatchHost_new (unanswered : ∀ k ∈ key, ¬ Answered k session.tables cache)
    (returned : dispatchHost c draws order key taskRunId session cache hostId =
      .ok (next, after)) :
    ((draws.host hostId).auditClashes = 0 ∧
        (∀ k ∈ key, some k ∉ (draws.host hostId).racing.map Command.idempotencyKey) ∧
        ∃ row, Stored c draws key taskRunId hostId session.tables next.tables row) ∨
      (next.tables.runs = session.committed.runs ∧ ((draws.host hostId).auditClashes ≠ 0 ∨
        ∃ k ∈ key, some k ∈ (session.committed.commands ++
          (draws.host hostId).racing).map Command.idempotencyKey)) := by
  obtain ⟨command, enqueued, queued, built, stored, outcome⟩ := dispatchHost_cases returned
  obtain ⟨id, taskRun, unkeyed, status, host, sequence, signed⟩ := commandFor_signed built
  have commands : (session.allocate hostId).2.tables.commands = session.tables.commands :=
    allocate_commands session.tables hostId
  have still : ∀ k ∈ key, ¬ Answered k (session.allocate hostId).2.tables cache :=
    fun k member answered => unanswered k member ((answered_congr commands).mp answered)
  rcases enqueue_new unkeyed still stored with ⟨rfl, flushed⟩ | ⟨rfl, k, member, found⟩
  · obtain ⟨_, unused, _, rfl⟩ := Session.flushCommand_eq_ok.mp flushed
    rcases outcome with ⟨old, _⟩ | ⟨_, entry, audited, appended, _, tables⟩
    · exact absurd id old
    · obtain ⟨base, ⟨clean, rfl⟩ | ⟨clash, rfl⟩, rfl⟩ := Session.appendAudit_eq_ok appended
      · refine .inl ⟨clean, ?_, { command with idempotencyKey := key }, ?_⟩
        · rintro k rfl used
          refine unused.elim (by simp) (fun absent => absent ?_)
          rw [Session.othersCommit, List.map_append]
          exact List.mem_append_right _ used
        · rw [tables]
          refine ⟨?_, allocate_runs _ _, rfl, id, taskRun, rfl, status, host, sequence, signed⟩
          simp [Session.othersCommit, commands]
      · refine .inr ⟨?_, .inl (by omega)⟩
        rw [tables]
        rfl
  · have known : some k ∈ (session.committed.commands ++
        (draws.host hostId).racing).map Command.idempotencyKey := by
      obtain ⟨inside, same⟩ := findKey_some found
      exact List.mem_map.mpr ⟨enqueued, inside, same⟩
    refine .inr ⟨?_, .inr ⟨k, member, known⟩⟩
    rcases outcome with ⟨_, rfl⟩ | ⟨_, entry, audited, appended, _, tables⟩
    · rfl
    · obtain ⟨base, ⟨_, rfl⟩ | ⟨_, rfl⟩, rfl⟩ := Session.appendAudit_eq_ok appended
      · rw [tables]
        rfl
      · rw [tables]
        rfl

theorem runs_of_rollback {middle : Session} {cache' : Cache} {rest : List HostId}
    (first : dispatchHost c draws order key taskRunId session cache hostId = .ok (middle, cache'))
    (rolled_back : middle.tables.runs = session.committed.runs)
    (later : dispatchHosts c draws order key taskRunId middle cache' rest = .ok (next, after)) :
    next.tables.runs = session.committed.runs := by
  rcases (dispatchHosts_keeps later).tables with ⟨_, runs⟩ | ⟨_, runs⟩
  · exact runs.trans rolled_back
  · exact runs.trans (dispatchHost_keeps first).committed.2

theorem dispatchHosts_unkeyed {hosts : List HostId} {taskId : TaskId} (distinct : hosts.Nodup)
    (counters : ∀ hostId ∈ hosts, session.tables.nextSeq hostId = before.nextSeq hostId)
    (unused : ∀ hostId ∈ hosts,
      (draws.host hostId).commandId ∉ before.commands.map Command.id)
    (run : ∃ run ∈ session.tables.runs, run.id = taskRunId ∧ run.taskId = taskId)
    (returned : dispatchHosts c draws order none taskRunId session cache hosts =
      .ok (next, after)) :
    ((∀ hostId ∈ hosts, (draws.host hostId).auditClashes = 0) ∧
        Grows session.tables next.tables ∧
        ∀ hostId ∈ hosts, ∃ row, Addressed c next.tables taskId hostId row ∧ Carries before row) ∨
      ((∃ hostId ∈ hosts, (draws.host hostId).auditClashes ≠ 0) ∧
        next.tables.runs = session.committed.runs) := by
  induction hosts generalizing session cache with
  | nil =>
    obtain ⟨rfl, _⟩ := Prod.mk.inj (Except.ok.inj returned)
    have same : Grows session.tables session.tables :=
      ⟨fun _ member => member, rfl⟩
    exact .inl ⟨by simp, same, by simp⟩
  | cons hostId rest ih =>
    obtain ⟨⟨middle, cache'⟩, first, later⟩ := bind_eq_ok.mp returned
    have committed := (dispatchHost_keeps first).committed.2
    rcases dispatchHost_new (by simp) first with
      ⟨clean, _, row, stored⟩ | ⟨lost, clash | ⟨k, member, _⟩⟩
    · obtain ⟨absent, distinct⟩ := List.nodup_cons.mp distinct
      obtain ⟨counter, others⟩ := List.forall_mem_cons.mp counters
      obtain ⟨new, more⟩ := List.forall_mem_cons.mp unused
      have kept : ∀ other ∈ rest, middle.tables.nextSeq other = before.nextSeq other := by
        intro other member
        have apart : other ≠ hostId := fun same => absent (same ▸ member)
        rw [stored.nextSeq, allocate_other apart, others other member]
      rcases ih distinct kept more (stored.runs ▸ run) later with
        ⟨all_clean, grows, each⟩ | ⟨clash, lost⟩
      · refine .inl ⟨?_, stored.grows.trans grows, ?_⟩
        · intro other member
          rcases List.mem_cons.mp member with rfl | inside
          · exact clean
          · exact all_clean other inside
        · intro other member
          rcases List.mem_cons.mp member with rfl | inside
          · exact ⟨row, (stored.addressed run).grow grows, stored.carries counter new⟩
          · exact each other inside
      · obtain ⟨other, inside, clashes⟩ := clash
        exact .inr ⟨⟨other, List.mem_cons_of_mem _ inside, clashes⟩, lost.trans committed⟩
    · exact .inr ⟨⟨hostId, List.mem_cons_self, clash⟩, runs_of_rollback first lost later⟩
    · cases member

theorem not_complete_of_missing (taskRunId : TaskRunId) {tables : Tables} {taskId : TaskId}
    {hosts : List HostId} (member : hostId ∈ hosts)
    (only : ∀ run ∈ tables.runs, run.taskId = taskId → run.id = taskRunId)
    (missing : ∀ row ∈ tables.commands, row.taskRunId = taskRunId → row.hostId ≠ hostId) :
    ¬ Complete c before tables taskId hosts := by
  rintro ⟨rowOf, addressed, _⟩
  have mine := (addressed hostId member).1
  obtain ⟨run, inside, id, same⟩ := mine.underTask
  exact missing _ mine.stored (id.symm.trans (only run inside same)) mine.host

theorem stored_complete_iff {key : String} {middle : Session} {cache' : Cache} {first : HostId}
    {rest : List HostId} {taskId : TaskId} {row : Command}
    (stored : Stored c draws (some key) taskRunId first session.tables middle.tables row)
    (carries : Carries before row)
    (run : ∃ run ∈ session.tables.runs, run.id = taskRunId ∧ run.taskId = taskId)
    (only : ∀ run ∈ session.tables.runs, run.taskId = taskId → run.id = taskRunId)
    (distinct : (first :: rest).Nodup)
    (fresh_run : taskRunId ∉ (session.tables.commands ++
      (draws.host first).racing).map Command.taskRunId)
    (fresh_ids : ∀ hostId ∈ rest, (draws.host hostId).commandId ∉
      middle.tables.commands.map Command.id)
    (later : dispatchHosts c draws order (some key) taskRunId middle cache' rest =
      .ok (next, after)) :
    Complete c before next.tables taskId (first :: rest) ↔ rest = [] := by
  have answered : Answered key middle.tables cache' :=
    .inl (List.mem_map.mpr ⟨row, by simp [stored.commands], stored.key⟩)
  obtain ⟨_, tables⟩ := dispatchHosts_answered answered fresh_ids later
  obtain ⟨same_commands, same_runs⟩ := allocateAll_commands middle.tables rest
  rw [tables]
  cases rest with
  | nil =>
    refine iff_of_true (complete_of_each (fun hostId member => ?_)) rfl
    rw [List.mem_singleton.mp member]
    exact ⟨row, stored.addressed run, carries⟩
  | cons second more =>
    have apart : first ≠ second := fun same =>
      (List.nodup_cons.mp distinct).1 (same ▸ List.mem_cons_self)
    have listed : second ∈ first :: second :: more :=
      List.mem_cons_of_mem first List.mem_cons_self
    refine iff_of_false (not_complete_of_missing taskRunId listed ?_ ?_) (List.cons_ne_nil _ _)
    · rw [same_runs, stored.runs]
      exact only
    · rw [same_commands, stored.commands]
      intro other member own
      rcases List.mem_append.mp member with before | new
      · exact absurd (List.mem_map.mpr ⟨other, before, own⟩) fresh_run
      · rw [List.mem_singleton.mp new, stored.host]
        exact apart

theorem dispatchHosts_keyed {key : String} {first : HostId} {rest : List HostId} {taskId : TaskId}
    (unanswered : ¬ Answered key session.tables cache)
    (counter : session.tables.nextSeq first = before.nextSeq first)
    (unused : (draws.host first).commandId ∉ before.commands.map Command.id)
    (committed : session.committed.commands = session.tables.commands)
    (lost : taskId ∉ session.committed.runs.map TaskRun.taskId)
    (run : ∃ run ∈ session.tables.runs, run.id = taskRunId ∧ run.taskId = taskId)
    (only : ∀ run ∈ session.tables.runs, run.taskId = taskId → run.id = taskRunId)
    (distinct : (first :: rest).Nodup)
    (fresh_run : taskRunId ∉ (session.tables.commands ++
      (draws.host first).racing).map Command.taskRunId)
    (fresh_ids : ∀ hostId ∈ rest, (draws.host hostId).commandId ∉
      (session.tables.commands ++ (draws.host first).racing).map Command.id ∧
        (draws.host hostId).commandId ≠ (draws.host first).commandId)
    (returned : dispatchHosts c draws order (some key) taskRunId session cache (first :: rest) =
      .ok (next, after)) :
    Complete c before next.tables taskId (first :: rest) ↔
      (draws.host first).auditClashes = 0 ∧ rest = [] ∧
        some key ∉ (draws.host first).racing.map Command.idempotencyKey := by
  obtain ⟨⟨middle, cache'⟩, step, later⟩ := bind_eq_ok.mp returned
  rcases dispatchHost_new (by simpa using unanswered) step with
    ⟨clean, unraced, row, stored⟩ | ⟨runs, reason⟩
  · have fresh : ∀ hostId ∈ rest, (draws.host hostId).commandId ∉
        middle.tables.commands.map Command.id := by
      intro other member
      obtain ⟨absent, apart⟩ := fresh_ids other member
      rw [stored.commands, List.map_append, List.mem_append, not_or]
      exact ⟨absent, by simpa [stored.id] using apart⟩
    have carries : Carries before row := stored.carries counter unused
    rw [stored_complete_iff stored carries run only distinct fresh_run fresh later]
    exact ⟨fun alone => ⟨clean, alone, unraced key rfl⟩, fun condition => condition.2.1⟩
  · have gone := runs_of_rollback step runs later
    refine iff_of_false (not_complete_of_lost (List.cons_ne_nil _ _) (gone ▸ lost)) ?_
    rintro ⟨clean, _, unraced⟩
    rcases reason with clash | ⟨k, member, used⟩
    · exact clash clean
    · obtain rfl : key = k := Option.mem_some_iff.mp member
      rw [List.map_append, List.mem_append, committed] at used
      rcases used with old | raced
      · exact unanswered (.inl old)
      · exact unraced raced

end Loop

section Dispatch

variable {c : Collaborators} {draws : Draws} {tables : Tables} {cache after : Cache} {call : Call}
  {plan : Plan} {result : DispatchResult} {next : Session}

theorem planOf_candidates_nodup (planned : planOf c draws tables.fleet call = .ok plan) :
    plan.candidates.Nodup := by
  obtain ⟨hosts, resolved, candidates⟩ := (planned_of_planOf planned).candidates
  rw [candidates]
  exact (resolveTargets_nodup resolved).filter _

theorem warm_complete_iff {cleared : Session} {runId : TaskRunId} {taskId : TaskId}
    (fresh : FreshDraws draws tables plan.candidates) (opened : Cleared tables plan.task cleared)
    (warm : resume tables cache call.idempotencyKey = some (runId, taskId))
    (looped : dispatchHosts c draws plan.order call.idempotencyKey runId cleared cache
      plan.candidates = .ok (next, after)) :
    Complete c tables next.tables taskId plan.candidates ↔
      ∀ hostId ∈ plan.candidates, ∃ row,
        Addressed c tables taskId hostId row ∧ Numbered tables row := by
  obtain ⟨key, keyed, answered⟩ := answered_of_resume_some warm
  rw [keyed] at looped
  have still : Answered key cleared.tables cache := (answered_congr opened.commands).mpr answered
  have unused : ∀ hostId ∈ plan.candidates, (draws.host hostId).commandId ∉
      cleared.tables.commands.map Command.id := by
    rw [opened.commands]
    exact fun hostId member => (fresh.command hostId member).1
  obtain ⟨_, result⟩ := dispatchHosts_answered still unused looped
  obtain ⟨commands, runs⟩ := allocateAll_commands cleared.tables plan.candidates
  have stored : next.tables.commands = tables.commands := by rw [result, commands, opened.commands]
  have same : next.tables.runs = tables.runs := by rw [result, runs, opened.runs]
  constructor
  · rintro ⟨rowOf, addressed, _⟩ hostId member
    obtain ⟨there, carries⟩ := addressed hostId member
    refine ⟨rowOf hostId, ?_, carries.old (stored ▸ there.stored)⟩
    exact { there with stored := stored ▸ there.stored, underTask := same ▸ there.underTask }
  · refine fun each => complete_of_each fun hostId member => ?_
    obtain ⟨row, there, numbered⟩ := each hostId member
    refine ⟨row, ?_, fun _ => numbered, fun absent => absurd there.stored absent⟩
    exact { there with
      stored := stored.symm ▸ there.stored, underTask := same.symm ▸ there.underTask }

section Cold

variable {cleared : Session} {own : TaskRun}

theorem addRun_only (fresh : draws.earlyTaskId ∉ tables.runs.map TaskRun.taskId)
    (opened : Cleared tables plan.task cleared) (id : own.id = draws.taskRunId) :
    ∀ run ∈ (cleared.addRun own).tables.runs,
      run.taskId = draws.earlyTaskId → run.id = draws.taskRunId := by
  intro run member same
  rcases List.mem_append.mp member with old | new
  · rw [opened.runs] at old
    exact absurd (List.mem_map.mpr ⟨run, old, same⟩) fresh
  · rw [List.mem_singleton.mp new, id]

theorem addRun_mem (id : own.id = draws.taskRunId) (task : own.taskId = draws.earlyTaskId) :
    ∃ run ∈ (cleared.addRun own).tables.runs,
      run.id = draws.taskRunId ∧ run.taskId = draws.earlyTaskId :=
  ⟨own, List.mem_append_right _ (List.mem_singleton_self own), id, task⟩

theorem known_key_incomplete {key : String} (fresh : FreshDraws draws tables plan.candidates)
    (some_host : plan.candidates ≠ []) (opened : Cleared tables plan.task cleared)
    (id : own.id = draws.taskRunId)
    (known : some key ∈ tables.commands.map Command.idempotencyKey)
    (looped : dispatchHosts c draws plan.order (some key) draws.taskRunId (cleared.addRun own) cache
      plan.candidates = .ok (next, after)) :
    ¬ Complete c tables next.tables draws.earlyTaskId plan.candidates := by
  obtain ⟨_, result⟩ := dispatchHosts_answered (.inl (opened.commands ▸ known))
    (fun hostId member => opened.commands ▸ (fresh.command hostId member).1) looped
  obtain ⟨commands, runs⟩ := allocateAll_commands (cleared.addRun own).tables plan.candidates
  obtain ⟨hostId, member⟩ := List.exists_mem_of_ne_nil _ some_host
  rw [result]
  refine not_complete_of_missing draws.taskRunId member ?_ ?_
  · rw [runs]
    exact addRun_only fresh.task opened id
  · rw [commands]
    intro row inside under
    refine absurd (List.mem_map.mpr ⟨row, ?_, under⟩) fresh.run.1
    rw [← opened.commands]
    exact inside

variable (fresh : FreshDraws draws tables plan.candidates)
  (distinct : plan.candidates.Nodup) (some_host : plan.candidates ≠ [])
  (opened : Cleared tables plan.task cleared)
  (id : own.id = draws.taskRunId) (task : own.taskId = draws.earlyTaskId)
include fresh distinct some_host opened id task

theorem unkeyed_complete_iff
    (looped : dispatchHosts c draws plan.order none draws.taskRunId (cleared.addRun own) cache
      plan.candidates = .ok (next, after)) :
    Complete c tables next.tables draws.earlyTaskId plan.candidates ↔
      ∀ hostId ∈ plan.candidates, (draws.host hostId).auditClashes = 0 := by
  have counters : ∀ hostId ∈ plan.candidates,
      (cleared.addRun own).tables.nextSeq hostId = tables.nextSeq hostId :=
    fun hostId _ => congrFun opened.nextSeq hostId
  rcases dispatchHosts_unkeyed distinct counters (fun hostId member =>
      (fresh.command hostId member).1) (addRun_mem id task) looped with
    ⟨clean, _, each⟩ | ⟨⟨hostId, member, clash⟩, gone⟩
  · exact iff_of_true (complete_of_each each) clean
  · have lost : draws.earlyTaskId ∉ next.tables.runs.map TaskRun.taskId := by
      rw [gone, Session.addRun, opened.committed]
      exact fresh.task
    exact iff_of_false (not_complete_of_lost some_host lost)
      (fun clean => clash (clean hostId member))

theorem new_key_complete_iff {key : String} (unanswered : ¬ Answered key tables cache)
    (looped : dispatchHosts c draws plan.order (some key) draws.taskRunId (cleared.addRun own) cache
      plan.candidates = .ok (next, after)) :
    Complete c tables next.tables draws.earlyTaskId plan.candidates ↔
      (∀ hostId ∈ plan.candidates, (draws.host hostId).auditClashes = 0) ∧
        ∃ hostId, plan.candidates = [hostId] ∧
          some key ∉ (draws.host hostId).racing.map Command.idempotencyKey := by
  cases candidates : plan.candidates with
  | nil => exact absurd candidates some_host
  | cons host rest =>
    rw [candidates] at looped distinct fresh
    have still : ¬ Answered key (cleared.addRun own).tables cache :=
      fun answered => unanswered ((answered_congr opened.commands).mp answered)
    have fresh_run : draws.taskRunId ∉ (cleared.tables.commands ++
        (draws.host host).racing).map Command.taskRunId := by
      rw [opened.commands, List.map_append, List.mem_append, not_or]
      exact ⟨fresh.run.1, fresh.run.2 host List.mem_cons_self⟩
    have fresh_ids : ∀ hostId ∈ rest, (draws.host hostId).commandId ∉
        (cleared.tables.commands ++ (draws.host host).racing).map Command.id ∧
          (draws.host hostId).commandId ≠ (draws.host host).commandId := by
      intro hostId member
      have listed := List.mem_cons_of_mem host member
      have mine := fresh.command hostId listed
      rw [opened.commands, List.map_append, List.mem_append, not_or]
      refine ⟨⟨mine.1, mine.2 host List.mem_cons_self⟩, fun same => ?_⟩
      have equal := fresh.distinct hostId listed host List.mem_cons_self same
      exact (List.nodup_cons.mp distinct).1 (equal ▸ member)
    rw [dispatchHosts_keyed still (congrFun opened.nextSeq host)
      (fresh.command host List.mem_cons_self).1 (opened.committed ▸ opened.commands.symm)
      (opened.committed ▸ fresh.task) (addRun_mem id task) (addRun_only fresh.task opened id)
      distinct fresh_run fresh_ids looped]
    constructor
    · rintro ⟨clean, rfl, unraced⟩
      exact ⟨by simpa using clean, host, rfl, unraced⟩
    · rintro ⟨clean, only_host, same, unraced⟩
      obtain ⟨rfl, rfl⟩ := List.cons.inj same
      exact ⟨clean host (List.mem_singleton_self _), rfl, unraced⟩

theorem cold_complete_iff
    (cold : resume tables cache call.idempotencyKey = none)
    (looped : dispatchHosts c draws plan.order call.idempotencyKey draws.taskRunId
      (cleared.addRun own) cache plan.candidates = .ok (next, after)) :
    Complete c tables next.tables draws.earlyTaskId plan.candidates ↔
      (∀ hostId ∈ plan.candidates, (draws.host hostId).auditClashes = 0) ∧
        ∀ key ∈ call.idempotencyKey, some key ∉ tables.commands.map Command.idempotencyKey ∧
          ∃ hostId, plan.candidates = [hostId] ∧
            some key ∉ (draws.host hostId).racing.map Command.idempotencyKey := by
  cases keyed : call.idempotencyKey with
  | none =>
    rw [keyed] at looped
    rw [unkeyed_complete_iff fresh distinct some_host opened id task looped]
    simp
  | some key =>
    rw [keyed] at looped cold
    by_cases known : some key ∈ tables.commands.map Command.idempotencyKey
    · exact iff_of_false (known_key_incomplete fresh some_host opened id known looped)
        (fun condition => (condition.2 key rfl).1 known)
    · have unanswered : ¬ Answered key tables cache :=
        fun answered => known (answered_of_resume_none cold answered)
      rw [new_key_complete_iff fresh distinct some_host opened id task unanswered looped]
      refine and_congr_right (fun _ => ?_)
      simp only [Option.mem_some_iff, forall_eq', known, not_false_eq_true, true_and]

end Cold

/-- A call that returns leaves a queued, signed command of its own for every host it
reports as dispatched exactly when the condition on the call and the state holds. -/
theorem dispatch_complete_iff (planned : planOf c draws tables.fleet call = .ok plan)
    (fresh : FreshDraws draws tables plan.candidates)
    (returned : dispatch c draws (Session.begin tables) cache call = .ok (result, next, after)) :
    Complete c tables next.tables result.taskId result.dispatched ↔
      DispatchesAll c draws tables cache call plan := by
  rcases dispatch_cases planned returned with
    ⟨nothing, _, dispatched, _⟩ | ⟨some_host, free, dispatched, cleared, opened, outcome⟩
  · rw [dispatched]
    refine iff_of_true (complete_of_each (by simp)) ?_
    exact nothing.imp_right .inl
  · rw [dispatched]
    simp only [DispatchesAll, some_host, free, false_or]
    rcases outcome with ⟨runId, warm, looped⟩ | ⟨cold, taskId, first, _, _, looped⟩
    · rw [warm]
      exact warm_complete_iff fresh opened warm looped
    · rw [cold, taskId]
      exact cold_complete_iff fresh (planOf_candidates_nodup planned) some_host opened rfl rfl
        cold looped

end Dispatch

theorem unkeyed_reboot_complete :
    ∃ result next after,
      dispatch openDispatcher quietDraws (Session.begin twoHosts) .empty
          (reboot ["h1", "h2"] none) = .ok (result, next, after) ∧
        result.dispatched = ["h1", "h2"] ∧
        Complete openDispatcher twoHosts next.tables result.taskId result.dispatched := by
  have plans : (planOf openDispatcher quietDraws twoHosts.fleet (reboot ["h1", "h2"] none)).map
      Plan.candidates = .ok ["h1", "h2"] := by decide
  have returns : (dispatch openDispatcher quietDraws (Session.begin twoHosts) .empty
      (reboot ["h1", "h2"] none)).map (fun returned => returned.1.dispatched) =
        .ok ["h1", "h2"] := by
    decide
  obtain ⟨plan, planned, candidates⟩ := map_eq_ok.mp plans
  obtain ⟨⟨result, next, after⟩, returned, dispatched⟩ := map_eq_ok.mp returns
  have fresh : FreshDraws quietDraws twoHosts plan.candidates := by
    rw [candidates]
    exact ⟨by decide, by decide, by decide, by decide⟩
  refine ⟨result, next, after, returned, dispatched,
    (dispatch_complete_iff planned fresh returned).mpr (.inr (.inr ?_))⟩
  rw [candidates]
  exact ⟨by decide, by simp [reboot]⟩

theorem keyed_reboot_incomplete :
    ∃ result next after,
      dispatch openDispatcher quietDraws (Session.begin twoHosts) .empty
          (reboot ["h1", "h2"] (some "k")) = .ok (result, next, after) ∧
        result.dispatched = ["h1", "h2"] ∧
        ¬ Complete openDispatcher twoHosts next.tables result.taskId result.dispatched := by
  have returns : (dispatch openDispatcher quietDraws (Session.begin twoHosts) .empty
      (reboot ["h1", "h2"] (some "k"))).map (fun returned =>
        (returned.1.dispatched, returned.2.1.tables.commands.map Command.hostId)) =
          .ok (["h1", "h2"], ["h1"]) := by
    decide
  obtain ⟨⟨result, next, after⟩, returned, outcome⟩ := map_eq_ok.mp returns
  obtain ⟨dispatched, hosts⟩ : result.dispatched = ["h1", "h2"] ∧
      next.tables.commands.map Command.hostId = ["h1"] := Prod.mk.inj outcome
  refine ⟨result, next, after, returned, dispatched, ?_⟩
  rintro ⟨rowOf, addressed, _⟩
  have second := (addressed "h2" (by rw [dispatched]; decide)).1
  have listed := List.mem_map_of_mem (f := Command.hostId) second.stored
  rw [hosts, second.host] at listed
  exact absurd listed (by decide)

end HlHelper.Dispatch
