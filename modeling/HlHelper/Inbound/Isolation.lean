import HlHelper.Inbound.RecvLoop
import HlHelper.Library.Confined

/-! A message received from host `h` changes rows of `h` only. -/

namespace HlHelper.Inbound

open Audit Library Results

/-- A command addressed to the host, or a run of it, belongs to the task. -/
def ownsTask (db : Db) (h : HostId) (task : Task) : Bool :=
  db.commands.any (fun command => command.hostId = h ∧
    ∃ run ∈ db.runs, run.id = command.taskRunId ∧ run.taskId = task.id) ||
  db.runs.any (fun run => run.hostId = h ∧ run.taskId = task.id)

structure ConfinedTo (h : HostId) (before after : Db) : Prop where
  hosts : Confined (fun host => host.id = h) before.hosts after.hosts
  packages : Confined (fun row => row.hostId = h) before.packages after.packages
  containers : Confined (fun row => row.hostId = h) before.containers after.containers
  results : Confined (fun row => row.hostId = h) before.results after.results
  commands : after.commands = before.commands
  runs : Confined (fun run => run.hostId = h) before.runs after.runs
  tasks : Confined (ownsTask before h) before.tasks after.tasks
  audit : ∃ entry : Option Args, after.audit = before.audit ++ entry.toList ∧
    ∀ new ∈ entry, new.actor = h ∨ new.actor = "agent:" ++ h

/-- The message is about the host that sent it: an inventory names the host or none,
and a result is for a command of the host, if it is for one. -/
def About (h : HostId) (db : Db) : AgentToServer → Prop
  | .result env => ∀ command ∈ db.commands, command.id = env.commandId → command.hostId = h
  | .packageInventory msg => msg.hostId = h ∨ msg.hostId = ""
  | .containerInventory msg => msg.hostId = h ∨ msg.hostId = ""
  | .hostFacts msg => msg.hostId = h ∨ msg.hostId = ""
  | .heartbeat _ | .hostSurvey _ | .audit _ => True

variable {h g : HostId} {db : Db}

theorem ConfinedTo.refl (h : HostId) (db : Db) : ConfinedTo h db db where
  hosts := .refl _ _
  packages := .refl _ _
  containers := .refl _ _
  results := .refl _ _
  commands := rfl
  runs := .refl _ _
  tasks := .refl _ _
  audit := ⟨none, (List.append_nil _).symm, by simp⟩

theorem setHost_confined {update : Host → Host} (kept : ∀ host, (update host).id = host.id) :
    ConfinedTo h db (db.setHost h update) := by
  refine { ConfinedTo.refl h db with hosts := ?_ }
  apply Confined.map
  · intro host _ other
    rw [if_neg (of_decide_eq_false other)]
  · intro host _ own
    rw [if_pos (of_decide_eq_true own), kept]
    exact own

theorem ConfinedTo.conclude {changed : Db} (confined : ConfinedTo h db changed)
    (quiet : changed.audit = db.audit) {entry : Args} (own : entry.actor = h) (raced : Bool) :
    ConfinedTo h db (conclude db changed entry raced) := by
  have audited : ∀ base : Db, base.audit = db.audit →
      ∃ new : Option Args, base.audit ++ [entry] = db.audit ++ new.toList ∧
        ∀ entry ∈ new, entry.actor = h ∨ entry.actor = "agent:" ++ h := by
    intro base same
    refine ⟨some entry, by rw [same]; rfl, ?_⟩
    rintro _ ⟨⟩
    exact .inl own
  cases raced with
  | true => exact { ConfinedTo.refl h db with audit := audited db rfl }
  | false => exact { confined with audit := audited changed quiet }

theorem acceptResult_tasks (sql : Tasks.SqlOrder) (tables : Tasks.Db) (id : String)
    (env : Tasks.ResultEnvelope) {owns : Task → Bool}
    (owned : ∀ command ∈ tables.commands, command.id = env.commandId →
      ∀ run ∈ tables.runs, run.id = command.taskRunId →
        ∀ task : Task, task.id = run.taskId → owns task = true) :
    Confined owns tables.tasks (Tasks.acceptResult sql tables id env).tasks := by
  simp only [Tasks.acceptResult]
  split
  · exact .refl _ _
  · next command found =>
    split
    · exact .refl _ _
    · next run ran =>
      split
      · exact .refl _ _
      · obtain ⟨inside, same⟩ := findKey_some found
        obtain ⟨runInside, runSame⟩ := findKey_some ran
        have mine := owned command inside same run runInside runSame
        apply Confined.map
        · intro task _ other
          rw [if_neg]
          rintro ⟨named, _⟩
          exact absurd (mine task named) (by simp [other])
        · intro task _ own
          split
          · next updated => exact mine _ updated.1
          · exact own

theorem insert_confined (sql : Tasks.SqlOrder) {env : ResultEnvelope}
    (about : ∀ command ∈ db.commands, command.id = env.commandId → command.hostId = h)
    (now : Datetime) (resultId : String) : ConfinedTo h db (insert sql db env h now resultId) := by
  refine { ConfinedTo.refl h db with results := ?_, tasks := ?_ }
  · apply Confined.append
    intro row member
    rw [List.mem_singleton.mp member]
    simp [rowOf]
  · apply acceptResult_tasks sql db.rollup
    intro command inside same run ran runSame task named
    obtain ⟨row, member, rfl⟩ := List.mem_map.mp ran
    have addressed := about command inside same
    simp only [ownsTask, Bool.or_eq_true, List.any_eq_true, decide_eq_true_eq]
    exact .inl ⟨command, inside, addressed, row, member, runSame, named.symm⟩

theorem handle_confined (sql : Tasks.SqlOrder) (sha : Sha256) (proto : ResultProtobuf)
    (ed : Ed25519) {env : ResultEnvelope}
    (about : ∀ command ∈ db.commands, command.id = env.commandId → command.hostId = h)
    (now : Datetime) (resultId : String) (raced : Bool) :
    ConfinedTo h db (handle sql sha proto ed db env h now resultId raced).2 := by
  have unchanged := ConfinedTo.refl h db
  have quarantined : ConfinedTo h db
      (db.setHost h (fun host => { host with status := .quarantined })) :=
    setHost_confined fun _ => rfl
  have stored : ∀ warning,
      ConfinedTo h db (store sql db env h now resultId raced warning).2 := by
    intro warning
    unfold store
    split_ifs
    · exact unchanged
    · exact (insert_confined sql about now resultId).conclude rfl rfl raced
  simp only [handle]
  split
  · exact unchanged.conclude rfl rfl raced
  · split_ifs
    · exact quarantined.conclude rfl rfl raced
    · exact quarantined.conclude rfl rfl raced
    · split
      · exact stored _
      · split_ifs
        · exact unchanged.conclude rfl rfl raced
        · exact stored _

theorem upsert_confined {α β : Type} [DecidableEq β] {key : α → β} {new : α} {update : α → α}
    {owns : α → Bool} {rows : List α} (owned : ∀ row, key row = key new → owns row = true)
    (kept : ∀ row, owns (update row) = owns row) :
    Confined owns rows (upsert key new update rows) := by
  unfold upsert
  split
  · apply Confined.map
    · intro row _ other
      rw [if_neg]
      intro same
      exact absurd (owned row same) (by simp [other])
    · intro row _ own
      split
      · rw [kept]
        exact own
      · exact own
  · apply Confined.append
    intro row member
    rw [List.mem_singleton.mp member]
    exact owned new rfl

theorem snapshot_confined {α : Type} {hostOf : α → HostId} {rows : List α} (full : Bool) :
    Confined (fun row => hostOf row = h) rows
      (if full then rows.filter (fun row => hostOf row ≠ h) else rows) := by
  split
  · apply Confined.filter
    intro row _ dropped
    simpa using dropped
  · exact .refl _ _

theorem packages_confined {msg : PackageInventory} (about : msg.hostId = h ∨ msg.hostId = "")
    (now : Datetime) : ConfinedTo h db (handlePackageInventory db msg now) := by
  unfold handlePackageInventory
  by_cases blank : msg.hostId = ""
  · rw [if_pos blank]
    exact .refl h db
  · rw [if_neg blank]
    obtain rfl : msg.hostId = h := about.resolve_right blank
    by_cases unknown : db.knows msg.hostId = false ∧ msg.added ≠ []
    · rw [if_pos unknown]
      exact .refl _ db
    · rw [if_neg unknown]
      refine { ConfinedTo.refl msg.hostId db with packages := ?_ }
      apply (snapshot_confined msg.fullSnapshot).trans
      have added : ∀ rows : List HostPackage,
          Confined (fun row => row.hostId = msg.hostId) rows
            (msg.added.foldl (upsertPackage msg.hostId now) rows) := by
        intro rows
        apply Confined.foldl
        intro rows pkg _
        apply upsert_confined
        · intro row same
          simpa [packageKey] using congrArg Prod.fst same
        · intro row
          rfl
      apply (added _).trans
      apply Confined.foldl
      intro rows pkg _
      apply Confined.filter
      intro row _ dropped
      have same : packageKey row = (msg.hostId, pkg.ecosystem, pkg.name) := by
        simpa using dropped
      simpa [packageKey] using congrArg Prod.fst same

theorem containers_confined {msg : ContainerInventory} (about : msg.hostId = h ∨ msg.hostId = "")
    (now : Datetime) : ConfinedTo h db (handleContainerInventory db msg now) := by
  unfold handleContainerInventory
  by_cases blank : msg.hostId = ""
  · rw [if_pos blank]
    exact .refl h db
  · rw [if_neg blank]
    obtain rfl : msg.hostId = h := about.resolve_right blank
    by_cases unknown : db.knows msg.hostId = false ∧ msg.containers ≠ []
    · rw [if_pos unknown]
      exact .refl _ db
    · rw [if_neg unknown]
      refine { ConfinedTo.refl msg.hostId db with containers := ?_ }
      apply (snapshot_confined msg.fullSnapshot).trans
      apply Confined.foldl
      intro rows container _
      apply upsert_confined
      · intro row same
        simpa [containerKey] using congrArg Prod.fst same
      · intro row
        rfl

theorem facts_confined {msg : HostFacts} (about : msg.hostId = h ∨ msg.hostId = "")
    (now : Datetime) : ConfinedTo h db (handleHostFacts db msg now) := by
  unfold handleHostFacts
  split_ifs with blank
  · exact .refl h db
  · rw [about.resolve_right blank]
    exact setHost_confined fun _ => rfl

theorem resurveyRun_eq_some {run : RunRow} (found : resurveyRun db h = some run) :
    run ∈ db.runs ∧ run.hostId = h := by
  have listed := List.mem_of_mem_take (List.mem_of_find?_eq_some found)
  have running := (List.perm_insertionSort startsLater _).subset listed
  obtain ⟨inside, here⟩ := List.mem_filter.mp running
  simp only [decide_eq_true_eq] at here
  exact ⟨inside, here.1⟩

theorem closeResurvey_confined (runIds : (db.runs.map (fun run => run.id)).Nodup)
    (now : Datetime) : ConfinedTo h db (closeResurvey db h now) := by
  unfold closeResurvey
  split
  · exact .refl h db
  · next closed found =>
    obtain ⟨inside, own⟩ := resurveyRun_eq_some found
    refine { ConfinedTo.refl h db with runs := ?_, tasks := ?_ }
    · apply Confined.map
      · intro run member other
        rw [if_neg]
        intro same
        rw [key_injective runIds member inside same, own] at other
        simp at other
      · intro run _ mine
        split
        · exact mine
        · exact mine
    · have mine : ∀ task : Task, task.id = closed.taskId → ownsTask db h task = true := by
        intro task named
        simp only [ownsTask, Bool.or_eq_true, List.any_eq_true, decide_eq_true_eq]
        exact .inr ⟨closed, inside, own, named.symm⟩
      apply Confined.map
      · intro task _ other
        rw [if_neg]
        intro named
        exact absurd (mine task named) (by simp [other])
      · intro task _ own
        split
        · next named => exact mine _ named
        · exact own

theorem heartbeat_id (beat : Heartbeat) (now : Datetime) (host : Host) :
    (heartbeat beat now host).id = host.id := by
  simp only [heartbeat, persistHeartbeat]
  split <;> rfl

theorem survey_confined (runIds : (db.runs.map (fun run => run.id)).Nodup)
    (survey : List (String × Value)) (now : Datetime) :
    ConfinedTo h db (handleSurvey db h survey now) := by
  unfold handleSurvey
  generalize written : db.setHost h (fun host =>
    { host with survey := some survey, surveyAt := some now }) = surveyed
  have first : ConfinedTo h db surveyed := by
    rw [← written]
    exact setHost_confined fun _ => rfl
  have second : ConfinedTo h surveyed (closeResurvey surveyed h now) := by
    apply closeResurvey_confined
    rw [← written]
    exact runIds
  subst written
  exact { second with hosts := first.hosts.trans second.hosts }

/-- The rows of host `g` are the same, tasks that are shared with host `h` apart. -/
structure Agrees (g h : HostId) (before after : Db) : Prop where
  hosts : before.hosts.filter (fun host => host.id = g) =
    after.hosts.filter (fun host => host.id = g)
  packages : before.packages.filter (fun row => row.hostId = g) =
    after.packages.filter (fun row => row.hostId = g)
  containers : before.containers.filter (fun row => row.hostId = g) =
    after.containers.filter (fun row => row.hostId = g)
  results : before.results.filter (fun row => row.hostId = g) =
    after.results.filter (fun row => row.hostId = g)
  commands : before.commands.filter (fun command => command.hostId = g) =
    after.commands.filter (fun command => command.hostId = g)
  runs : before.runs.filter (fun run => run.hostId = g) =
    after.runs.filter (fun run => run.hostId = g)
  tasks : before.tasks.filter (fun task => ownsTask before g task && !ownsTask before h task) =
    after.tasks.filter (fun task => ownsTask before g task && !ownsTask before h task)

theorem ConfinedTo.agrees {after : Db} (confined : ConfinedTo h db after) (other : g ≠ h) :
    Agrees g h db after := by
  have apart : ∀ id : HostId, decide (id = g) = true → decide (id = h) = false := by
    intro id same
    rw [of_decide_eq_true same]
    exact decide_eq_false other
  constructor
  · exact confined.hosts.agree fun host => apart host.id
  · exact confined.packages.agree fun row => apart row.hostId
  · exact confined.containers.agree fun row => apart row.hostId
  · exact confined.results.agree fun row => apart row.hostId
  · rw [confined.commands]
  · exact confined.runs.agree fun run => apart run.hostId
  · apply confined.tasks.agree
    intro task chosen
    simpa using (Bool.and_eq_true_iff.mp chosen).2

/-- What a message about its sender changes belongs to the sender, and every other
host's rows are as they are without it. -/
theorem message_confined (sql : Tasks.SqlOrder) (sha : Sha256) (proto : ResultProtobuf)
    (ed : Ed25519) {msg : AgentToServer} (about : About h db msg)
    (runIds : (db.runs.map (fun run => run.id)).Nodup) (now : Datetime) (resultId : String)
    (raced : Bool) :
    ConfinedTo h db (recvMessage sql sha proto ed db h now resultId raced msg) ∧
      ∀ g, g ≠ h → Agrees g h db (recvMessage sql sha proto ed db h now resultId raced msg) := by
  have confined : ConfinedTo h db (recvMessage sql sha proto ed db h now resultId raced msg) := by
    cases msg with
    | result env => exact handle_confined sql sha proto ed about now resultId raced
    | heartbeat beat => exact setHost_confined (heartbeat_id beat now)
    | hostSurvey survey => exact survey_confined runIds survey now
    | audit event =>
      refine { ConfinedTo.refl h db with audit := ⟨some (auditArgs h event now), rfl, ?_⟩ }
      rintro _ ⟨⟩
      exact .inr rfl
    | packageInventory inventory => exact packages_confined about now
    | containerInventory inventory => exact containers_confined about now
    | hostFacts facts => exact facts_confined about now
  exact ⟨confined, fun g other => confined.agrees other⟩

def twoAgents : Db :=
  { oneHost with
    hosts := oneHost.hosts ++ [{ (default : Host) with id := "h2" }]
    packages := [{ (default : HostPackage) with hostId := "h2", name := "bash" }]
    commands := [{ (default : Command) with id := "c1", hostId := "h1" },
      { (default : Command) with id := "c2", hostId := "h2" }] }

theorem result_confined_to_its_host :
    let after := recvMessage Tasks.firstOfLatest .head Results.Wire.protobuf .plain twoAgents "h1"
      default "r1" false (.result bareResult)
    after.results.map (fun row => row.hostId) = ["h1"] ∧ ConfinedTo "h1" twoAgents after ∧
      Agrees "h2" "h1" twoAgents after := by
  have about : About "h1" twoAgents (.result bareResult) := by
    intro command member named
    rcases List.mem_cons.mp member with rfl | other
    · rfl
    · rw [List.mem_singleton.mp other] at named
      exact absurd named (by decide)
  have confined := message_confined Tasks.firstOfLatest .head Results.Wire.protobuf .plain about
    (by decide) default "r1" false
  exact ⟨by decide, confined.1, confined.2 "h2" (by decide)⟩

/-- A full inventory that names the other host takes its packages away. -/
theorem foreign_inventory_deletes :
    ¬ ∀ g, g ≠ "h1" → Agrees g "h1" twoAgents
      (recvMessage Tasks.firstOfLatest .head Results.Wire.protobuf .plain twoAgents "h1" default ""
        false (.packageInventory ⟨"h2", [], [], true⟩)) := by
  intro agrees
  exact absurd (agrees "h2" (by decide)).packages (by decide)

end HlHelper.Inbound
