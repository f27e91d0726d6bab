import HlHelper.Dispatch.Dispatcher
import HlHelper.Library.Runs

/-! A dispatch repeated with its idempotency key is never without effect: a parent
task is created before any of the layers that know the key is asked. -/

namespace HlHelper.Dispatch

open HlHelper.Library

structure Service where
  tables : Tables
  cache : Cache

inductive ServiceEvent where
  | dispatch (draws : Draws) (call : Call) (commits : Bool)
  | recache (cache : Cache)

/-- A call that returns is committed or not. Restarts, and calls that raise, leave the
database alone and may leave any cache. -/
def serviceStep (c : Collaborators) (w : Service) : ServiceEvent → Option Service
  | .dispatch draws call commits =>
    match dispatch c draws (Session.begin w.tables) w.cache call with
    | .error _ => none
    | .ok (_, session, cache) =>
      some ⟨if commits then session.tables else session.committed, cache⟩
  | .recache cache => some { w with cache := cache }

def Tables.taskIds (tables : Tables) : List TaskId :=
  tables.tasks.map Task.id ++ tables.runs.map TaskRun.taskId

def drawnTaskIds (events : List ServiceEvent) : List TaskId :=
  events.filterMap fun
    | .dispatch draws _ _ => some draws.earlyTaskId
    | .recache _ => none

/-- The later call returns the first one's task and writes no row, allocates no
sequence and issues no command. -/
structure Repeats (tables : Tables) (first result : DispatchResult) (next : Session) : Prop where
  taskId : result.taskId = first.taskId
  tasks : ∀ task ∈ next.tables.tasks, task.id ∈ tables.tasks.map Task.id
  runs : ∀ run ∈ next.tables.runs, run.id ∈ tables.runs.map TaskRun.id
  commands : ∀ command ∈ next.tables.commands, command.id ∈ tables.commands.map Command.id
  sequences : next.tables.nextSeq = tables.nextSeq
  issued : ∀ commandId hostId, .issued commandId hostId ∉ next.publishes

def Idempotent (c : Collaborators) (w : Service) (draws : Draws) (call : Call)
    (first : DispatchResult) : Prop :=
  ∃ result next after, dispatch c draws (Session.begin w.tables) w.cache call =
    .ok (result, next, after) ∧ Repeats w.tables first result next

section Ids

variable {c : Collaborators} {draws : Draws} {tables : Tables} {cache after : Cache} {call : Call}
  {result : DispatchResult} {next : Session}

theorem planOf_of_dispatch
    (returned : dispatch c draws (Session.begin tables) cache call = .ok (result, next, after)) :
    ∃ plan, planOf c draws tables.fleet call = .ok plan := by
  obtain ⟨plan, planned, _⟩ := bind_eq_ok.mp returned
  exact ⟨plan, planned⟩

theorem KeepsRuns.taskIds {session : Session} {known : List TaskId}
    (keeps : KeepsRuns session next) (before : ∀ id ∈ session.tables.taskIds, id ∈ known)
    (base : ∀ id ∈ session.committed.taskIds, id ∈ known) :
    (∀ id ∈ next.tables.taskIds, id ∈ known) ∧ ∀ id ∈ next.committed.taskIds, id ∈ known := by
  refine ⟨?_, ?_⟩
  · rcases keeps.tables with ⟨tasks, runs⟩ | ⟨tasks, runs⟩
    · rw [Tables.taskIds, tasks, runs]
      exact before
    · rw [Tables.taskIds, tasks, runs]
      exact base
  · rw [Tables.taskIds, keeps.committed.1, keeps.committed.2]
    exact base

theorem dispatch_taskIds
    (returned : dispatch c draws (Session.begin tables) cache call = .ok (result, next, after)) :
    (∀ id ∈ next.tables.taskIds, id ∈ draws.earlyTaskId :: tables.taskIds) ∧
      ∀ id ∈ next.committed.taskIds, id ∈ draws.earlyTaskId :: tables.taskIds := by
  obtain ⟨plan, planned⟩ := planOf_of_dispatch returned
  have drawn := (planned_of_planOf planned).task
  have old : ∀ id ∈ tables.taskIds, id ∈ draws.earlyTaskId :: tables.taskIds :=
    fun _ member => List.mem_cons_of_mem _ member
  have with_task : ∀ id, id ∈ (tables.tasks ++ [plan.task]).map Task.id ++
      tables.runs.map TaskRun.taskId → id ∈ draws.earlyTaskId :: tables.taskIds := by
    intro id member
    simp only [List.map_append, List.map_cons, List.map_nil, List.mem_append, List.mem_singleton,
      drawn] at member
    simp only [Tables.taskIds, List.mem_cons, List.mem_append]
    tauto
  rcases dispatch_cases planned returned with
    ⟨_, _, _, _, tasks, runs, _, committed⟩ | ⟨_, _, _, cleared, opened, outcome⟩
  · rw [committed, Tables.taskIds, tasks, runs]
    exact ⟨with_task, with_task⟩
  · have base : ∀ id ∈ cleared.committed.taskIds, id ∈ draws.earlyTaskId :: tables.taskIds := by
      rw [opened.committed]
      exact old
    rcases outcome with ⟨runId, _, looped⟩ | ⟨_, _, first, _, _, looped⟩
    · refine (dispatchHosts_keeps looped).taskIds ?_ base
      rw [Tables.taskIds, opened.tasks, opened.runs]
      exact with_task
    · refine (dispatchHosts_keeps looped).taskIds ?_ base
      intro id member
      simp only [Tables.taskIds, Session.addRun, List.map_append, opened.tasks, opened.runs,
        List.map_cons, List.map_nil, List.mem_append, List.mem_singleton, drawn] at member
      simp only [Tables.taskIds, List.mem_cons, List.mem_append]
      tauto

theorem dispatch_result_taskId
    (returned : dispatch c draws (Session.begin tables) cache call = .ok (result, next, after)) :
    result.taskId ∈ "" :: draws.earlyTaskId :: tables.taskIds := by
  obtain ⟨plan, planned⟩ := planOf_of_dispatch returned
  rcases dispatch_cases planned returned with
    ⟨_, own, _⟩ | ⟨_, _, _, cleared, _, ⟨runId, warm, _⟩ | ⟨_, own, _⟩⟩
  · simp [own]
  · obtain ⟨cachedId, _, found⟩ := Option.bind_eq_some_iff.mp warm
    obtain ⟨command, _, same⟩ := Option.map_eq_some_iff.mp found
    obtain ⟨_, taskId⟩ := Prod.mk.inj same
    split at taskId
    · simp [← taskId]
    · next run named =>
      have inside := (findKey_some named).1
      rw [← taskId]
      simp only [Tables.taskIds, List.mem_cons, List.mem_append, List.mem_map]
      exact .inr (.inr (.inr ⟨run, inside, rfl⟩))
  · simp [own]

theorem serviceStep_taskIds {w v : Service} {event : ServiceEvent}
    (stepped : serviceStep c w event = some v) :
    ∀ id ∈ v.tables.taskIds, id ∈ w.tables.taskIds ++ drawnTaskIds [event] := by
  cases event with
  | recache cache =>
    cases stepped
    exact fun id member => List.mem_append_left _ member
  | dispatch draws call commits =>
    simp only [serviceStep] at stepped
    split at stepped
    · cases stepped
    · next result session cache returned =>
      cases stepped
      obtain ⟨tables, committed⟩ := dispatch_taskIds returned
      have known : ∀ id, id ∈ draws.earlyTaskId :: w.tables.taskIds →
          id ∈ w.tables.taskIds ++ drawnTaskIds [.dispatch draws call commits] := by
        intro id member
        simpa [drawnTaskIds, or_comm] using member
      intro id member
      cases commits with
      | true => exact known id (tables id member)
      | false => exact known id (committed id member)

theorem run_taskIds {w v : Service} {events : List ServiceEvent}
    (elapsed : run (serviceStep c) w events = some v) :
    ∀ id ∈ v.tables.taskIds, id ∈ w.tables.taskIds ++ drawnTaskIds events := by
  induction events generalizing w with
  | nil =>
    obtain rfl : w = v := by simpa [run] using elapsed
    exact fun id member => List.mem_append_left _ member
  | cons event events ih =>
    obtain ⟨u, stepped, rest⟩ := run_cons_eq_some.mp elapsed
    intro id member
    have split_drawn : drawnTaskIds (event :: events) =
        drawnTaskIds [event] ++ drawnTaskIds events := by
      rw [drawnTaskIds, ← List.singleton_append, List.filterMap_append]
      rfl
    rw [split_drawn, ← List.append_assoc]
    rcases List.mem_append.mp (ih rest id member) with before | drawn
    · exact List.mem_append_left _ (serviceStep_taskIds stepped id before)
    · exact List.mem_append_right _ drawn

end Ids

/-- Whatever a keyed dispatch left, and whatever was dispatched, evicted or restarted
since, the same call again is not idempotent. -/
theorem keyed_dispatch_never_idempotent (c : Collaborators) (start : Service) {v : Service}
    {draws later : Draws} {principal : Principal} {targets : Selector} {payload : TaskPayload}
    {key : String} {first : DispatchResult} {session : Session} {cache : Cache}
    {between : List ServiceEvent}
    (returned : dispatch c draws (Session.begin start.tables) start.cache
      ⟨principal, targets, payload, some key⟩ = .ok (first, session, cache))
    (elapsed : run (serviceStep c) ⟨session.tables, cache⟩ between = some v)
    (fresh_task : later.earlyTaskId ∉
      "" :: draws.earlyTaskId :: start.tables.taskIds ++ drawnTaskIds between)
    (fresh_command : ∀ hostId,
      (later.host hostId).commandId ∉ v.tables.commands.map Command.id) :
    ¬ Idempotent c v later ⟨principal, targets, payload, some key⟩ first := by
  have unused : later.earlyTaskId ∉ v.tables.taskIds := by
    intro member
    have known := run_taskIds elapsed _ member
    refine fresh_task (List.mem_cons_of_mem _ ?_)
    rcases List.mem_append.mp known with before | drawn
    · exact List.mem_append_left _ ((dispatch_taskIds returned).1 _ before)
    · exact List.mem_append_right _ drawn
  have other : later.earlyTaskId ≠ first.taskId := by
    intro same
    rw [same] at fresh_task
    exact fresh_task (List.mem_append_left _ (dispatch_result_taskId returned))
  rintro ⟨result, next, after, again, repeats⟩
  obtain ⟨plan, planned⟩ := planOf_of_dispatch again
  rcases dispatch_cases planned again with
    ⟨_, own, _⟩ | ⟨_, _, _, cleared, opened, ⟨runId, warm, looped⟩ | ⟨_, own, _⟩⟩
  · exact other (own.symm.trans repeats.taskId)
  · -- the cache answers for every host, and the parent task of the call stays
    obtain ⟨_, ⟨⟩, answered⟩ := answered_of_resume_some warm
    obtain ⟨_, left⟩ := dispatchHosts_answered ((answered_congr opened.commands).mpr answered)
      (fun hostId _ => opened.commands ▸ fresh_command hostId) looped
    have stays : plan.task ∈ next.tables.tasks := by
      rw [left, allocateAll_tasks, opened.tasks]
      exact List.mem_append_right _ (List.mem_singleton_self _)
    have known := repeats.tasks _ stays
    rw [(planned_of_planOf planned).task] at known
    exact unused (List.mem_append_left _ known)
  · exact other (own.symm.trans repeats.taskId)

def retryDraws : Draws where
  earlyTaskId := "t2"
  taskRunId := "r2"
  approvalRowId := "a2"
  now := 60
  host := fun _ => ⟨"c2", [8], [], 0⟩

theorem restarted_reboot_not_idempotent :
    ∃ first session cache, dispatch openDispatcher quietDraws (Session.begin twoHosts) .empty
        (reboot ["h1"] (some "k")) = .ok (first, session, cache) ∧
      ¬ Idempotent openDispatcher ⟨session.tables, .empty⟩ retryDraws (reboot ["h1"] (some "k"))
        first := by
  have returns : (dispatch openDispatcher quietDraws (Session.begin twoHosts) .empty
      (reboot ["h1"] (some "k"))).map (fun returned =>
        returned.2.1.tables.commands.map Command.id) = .ok ["c-h1"] := by
    decide
  obtain ⟨⟨first, session, cache⟩, returned, ids⟩ := map_eq_ok.mp returns
  refine ⟨first, session, cache, returned, ?_⟩
  have restarted : run (serviceStep openDispatcher) ⟨session.tables, cache⟩ [.recache .empty] =
      some ⟨session.tables, .empty⟩ := rfl
  refine keyed_dispatch_never_idempotent openDispatcher ⟨twoHosts, .empty⟩ returned restarted
    (by decide) (fun hostId => ?_)
  rw [show session.tables.commands.map Command.id = ["c-h1"] from ids]
  exact (by decide : "c2" ∉ ["c-h1"])

/-- A retry in the same process returns the first task, and still leaves a second one
and allocates a second sequence. -/
theorem retried_reboot_leaves_task :
    ∃ first session cache, dispatch openDispatcher quietDraws (Session.begin twoHosts) .empty
        (reboot ["h1"] (some "k")) = .ok (first, session, cache) ∧
      ¬ Idempotent openDispatcher ⟨session.tables, cache⟩ retryDraws (reboot ["h1"] (some "k"))
        first := by
  have outcomes : ((dispatch openDispatcher quietDraws (Session.begin twoHosts) .empty
      (reboot ["h1"] (some "k"))).bind fun first =>
        (dispatch openDispatcher retryDraws (Session.begin first.2.1.tables) first.2.2
          (reboot ["h1"] (some "k"))).map fun second =>
            ((first.1.taskId, second.1.taskId), first.2.1.tables.tasks.map Task.id,
              second.2.1.tables.tasks.map Task.id)) =
        .ok (("t1", "t1"), ["t1"], ["t1", "t2"]) := by
    decide
  obtain ⟨⟨first, session, cache⟩, returned, outcomes⟩ := bind_eq_ok.mp outcomes
  obtain ⟨⟨result, next, after⟩, again, outcome⟩ := map_eq_ok.mp outcomes
  obtain ⟨_, before, left⟩ : _ ∧ session.tables.tasks.map Task.id = ["t1"] ∧
      next.tables.tasks.map Task.id = ["t1", "t2"] := by
    simpa only [Prod.mk.injEq] using outcome
  refine ⟨first, session, cache, returned, ?_⟩
  rintro ⟨result', next', after', again', repeats⟩
  obtain ⟨rfl, same⟩ := Prod.mk.inj (Except.ok.inj (again.symm.trans again'))
  cases same
  have second : "t2" ∈ next.tables.tasks.map Task.id := by
    rw [left]
    decide
  obtain ⟨task, member, id⟩ := List.mem_map.mp second
  have known := repeats.tasks task member
  rw [show (Service.mk session.tables cache).tables.tasks.map Task.id = ["t1"] from before,
    id] at known
  exact absurd known (by decide)

end HlHelper.Dispatch
