import HlHelper.Library.Mirror
import HlHelper.Scheduling.Engine

/-! The registered jobs are the enabled schedules in the runs in which no schedule leaves the
rows that a reload selects while its job is registered. -/

namespace HlHelper.Scheduling.Jobs

open HlHelper.Library

variable {cron : Crontab} {engineId : String} {s t : Server} {stale : Set String}

def ScheduleRow.trigger (cron : Crontab) (schedule : ScheduleRow) : Option (String × String) :=
  if schedule.enabled then some (schedule.cronExpr, schedule.zone cron) else none

def Job.trigger (job : Job) : String × String := (job.cronExpr, job.timezone)

def triggers (jobs : OrderedMap String Job) (id : String) : Option (String × String) :=
  (jobs.get? id).map Job.trigger

/-- The schedules that have changed since the last reload that covers them. -/
def uncover (ids : List String) : Step → List String
  | .create schedule | .update schedule => schedule.id :: ids
  | .delete scheduleId => scheduleId :: ids
  | .load => []
  | .reload scheduleId =>
    match Dispatch.truthy scheduleId with
    | some id => ids.filter (· ≠ id)
    | none => []
  | _ => ids

def uncovered (steps : List Step) : List String := steps.foldl uncover []

/-- The schedule's job is registered with its current trigger if it is enabled, and it has no
job otherwise. -/
def Reflected (cron : Crontab) (s : Server) (scheduleId : String) : Prop :=
  triggers s.jobs scheduleId = (s.find scheduleId).bind (ScheduleRow.trigger cron)

/-- The schedule that a firing has read, with the time that it writes. -/
def Firing.held (firing : Firing) : Option (ScheduleRow × Int) :=
  match firing.phase with
  | .checking schedule now | .committing schedule now => some (schedule, now)
  | _ => none

def Server.Idle (s : Server) (scheduleId : String) : Prop :=
  ∀ firing ∈ s.firings, ∀ held ∈ firing.held, held.1.id ≠ scheduleId

def Server.NoneLeft (s : Server) : Prop :=
  ∀ entry ∈ s.jobs.entries, ∃ row ∈ s.schedules, row.id = entry.1 ∧ row.enabled = true

def Server.Readable (cron : Crontab) (s : Server) (scheduleId : Option String) : Prop :=
  ∀ row ∈ selected s.schedules scheduleId, row.enabled = true → cron.fromCrontab row.cronExpr = true

def Careful (cron : Crontab) (s : Server) : Step → Prop
  | .create schedule | .update schedule => schedule.enabled = true ∨ s.Idle schedule.id
  | .delete scheduleId =>
    ∀ firing ∈ s.firings, ∀ held ∈ firing.held,
      held.1.id = scheduleId → held.1.lastRunAt ≠ some held.2
  | .load => s.NoneLeft ∧ s.Readable cron none
  | .reload scheduleId =>
    s.Readable cron scheduleId ∧
      match Dispatch.truthy scheduleId with
      | some id => s.find id = none → s.jobs.get? id = none
      | none => s.NoneLeft
  | .advance index _ =>
    ∀ firing ∈ s.firings[index]?, firing.held = none →
      ∀ schedule ∈ s.find firing.scheduleId, schedule.enabled = true
  | _ => True

section Registered

variable {rows : List ScheduleRow} {jobs : OrderedMap String Job} {id : String}

def ScheduleRow.job (cron : Crontab) (engineId : String) (schedule : ScheduleRow) : Job :=
  ⟨engineId, schedule.cronExpr, schedule.zone cron⟩

theorem findKey_cons {row : ScheduleRow} :
    findKey (fun row => row.id) (row :: rows) id =
      if row.id = id then some row else findKey (fun row => row.id) rows id := by
  by_cases here : row.id = id
  · simp [findKey, here]
  · simp [findKey, here]

theorem get?_registerAll (unique : (rows.map (fun row => row.id)).Nodup)
    (readable : ∀ row ∈ rows, cron.fromCrontab row.cronExpr = true) :
    (registerAll cron engineId rows jobs).get? id =
      match findKey (fun row => row.id) rows id with
      | some row => some (row.job cron engineId)
      | none => jobs.get? id := by
  induction rows generalizing jobs with
  | nil => rfl
  | cons row rest ih =>
    obtain ⟨apart, unique⟩ := List.nodup_cons.mp unique
    rw [registerAll, registerJob, if_pos (readable row List.mem_cons_self)]
    rw [ih unique fun other member => readable other (List.mem_cons_of_mem _ member),
      findKey_cons]
    by_cases here : row.id = id
    · rw [if_pos here, findKey_none.mpr (here ▸ apart), ← here]
      exact OrderedMap.get?_insert_self ..
    · rw [if_neg here, OrderedMap.get?_insert_other _ (Ne.symm here)]

theorem get?_replaceAll (unique : (rows.map (fun row => row.id)).Nodup)
    (readable : ∀ row ∈ rows, row.enabled = true → cron.fromCrontab row.cronExpr = true) :
    (replaceAll cron engineId rows jobs).get? id =
      match findKey (fun row => row.id) rows id with
      | some row => if row.enabled then some (row.job cron engineId) else none
      | none => jobs.get? id := by
  induction rows generalizing jobs with
  | nil => rfl
  | cons row rest ih =>
    obtain ⟨apart, unique⟩ := List.nodup_cons.mp unique
    have later (jobs) := @ih jobs unique fun other member =>
      readable other (List.mem_cons_of_mem _ member)
    rw [replaceAll, findKey_cons]
    by_cases on : row.enabled = true
    · rw [if_pos on, registerJob, if_pos (readable row List.mem_cons_self on)]
      by_cases here : row.id = id
      · rw [if_pos here, later, findKey_none.mpr (here ▸ apart), ← here]
        exact (OrderedMap.get?_insert_self ..).trans (if_pos on).symm
      · rw [if_neg here, later, OrderedMap.get?_insert_other _ (Ne.symm here),
          OrderedMap.get?_erase_other _ (Ne.symm here)]
    · rw [if_neg on]
      by_cases here : row.id = id
      · rw [if_pos here, later, findKey_none.mpr (here ▸ apart), ← here]
        exact (OrderedMap.get?_erase_self ..).trans (if_neg on).symm
      · rw [if_neg here, later, OrderedMap.get?_erase_other _ (Ne.symm here)]

end Registered

/-- What a firing knows of the schedule that it has read. -/
structure Standing (s : Server) (schedule : ScheduleRow) (now : Int) : Prop where
  enabled : ∀ row, s.find schedule.id = some row → row.enabled = true
  present : schedule.lastRunAt = some now → (s.find schedule.id).isSome

structure Sound (cron : Crontab) (stale : Set String) (s : Server) : Prop where
  unique : (s.schedules.map (fun row => row.id)).Nodup
  mirrors : Mirrors (ScheduleRow.trigger cron) s.find (triggers s.jobs) stale
  standing : ∀ firing ∈ s.firings, ∀ schedule now, firing.held = some (schedule, now) →
    Standing s schedule now

section Find

variable {schedule : ScheduleRow} {id : String}

theorem find_id {row : ScheduleRow} (found : s.find id = some row) : row.id = id :=
  (findKey_some found).2

theorem find_create_self (free : s.find schedule.id = none) :
    { s with schedules := s.schedules ++ [schedule] }.find schedule.id = some schedule := by
  have last : findKey (fun row : ScheduleRow => row.id) [schedule] schedule.id = some schedule := by
    simp [findKey]
  rw [Server.find, findKey_append, last]
  exact congrArg (·.or (some schedule)) free

theorem find_create_other (other : id ≠ schedule.id) :
    { s with schedules := s.schedules ++ [schedule] }.find id = s.find id := by
  have none_ : findKey (fun row : ScheduleRow => row.id) [schedule] id = none := by
    simp [findKey, Ne.symm other]
  rw [Server.find, findKey_append, none_, Option.or_none]
  rfl

theorem find_setRow : (s.setRow schedule).find id =
    (s.find id).map (fun row => if row.id = schedule.id then schedule else row) := by
  refine findKey_map fun row => ?_
  split
  · next same => exact same.symm
  · rfl

theorem find_setRow_self (present : (s.find schedule.id).isSome) :
    (s.setRow schedule).find schedule.id = some schedule := by
  obtain ⟨row, found⟩ := Option.isSome_iff_exists.mp present
  rw [find_setRow, found, Option.map_some, if_pos (find_id found)]

theorem find_setRow_other (other : id ≠ schedule.id) : (s.setRow schedule).find id = s.find id := by
  rw [find_setRow]
  cases found : s.find id with
  | none => rfl
  | some row =>
    have apart : row.id ≠ schedule.id := fun same => other ((find_id found).symm.trans same)
    rw [Option.map_some, if_neg apart]

theorem find_commits {now : Int} (committed : s.commits schedule now = some t) :
    t.jobs = s.jobs ∧ t.firings = s.firings ∧
      t.schedules.map (fun row => row.id) = s.schedules.map (fun row => row.id) ∧
      ∀ id, t.find id = s.find id ∨
        ∃ row, s.find id = some row ∧ t.find id = some { row with lastRunAt := some now } := by
  rw [Server.commits] at committed
  by_cases written : schedule.lastRunAt = some now
  · rw [if_pos written] at committed
    cases committed
    exact ⟨rfl, rfl, rfl, fun _ => .inl rfl⟩
  · rw [if_neg written] at committed
    cases found : s.find schedule.id with
    | none =>
      rw [found] at committed
      cases committed
    | some row =>
      rw [found] at committed
      cases committed
      refine ⟨rfl, rfl, ?_, fun id => ?_⟩
      · rw [Server.setRow, List.map_map]
        refine List.map_congr_left fun other _ => ?_
        rw [Function.comp_apply]
        split
        · next same => exact same.symm
        · rfl
      · by_cases here : id = row.id
        · subst here
          have there : s.find row.id = some row := (find_id found).symm ▸ found
          exact .inr ⟨row, there, find_setRow_self (Option.isSome_iff_exists.mpr ⟨row, there⟩)⟩
        · exact .inl (find_setRow_other here)

end Find

theorem find_filter (unique : (s.schedules.map (fun row => row.id)).Nodup)
    (kept : ScheduleRow → Bool) (id : String) :
    findKey (fun row => row.id) (s.schedules.filter kept) id = (s.find id).filter kept :=
  findKey_filter unique

namespace Standing

variable {schedule : ScheduleRow} {now : Int}

theorem congr (standing : Standing s schedule now)
    (same : t.find schedule.id = s.find schedule.id) : Standing t schedule now where
  enabled row found := standing.enabled row (same ▸ found)
  present written := same ▸ standing.present written

theorem commits {written : ScheduleRow} {time : Int} (standing : Standing s schedule now)
    (committed : s.commits written time = some t) : Standing t schedule now := by
  rcases (find_commits committed).2.2.2 schedule.id with same | ⟨row, before, after⟩
  · exact standing.congr same
  · refine ⟨fun other found => ?_, fun _ => after ▸ rfl⟩
    obtain rfl := Option.some.inj (after.symm.trans found)
    exact standing.enabled row before

end Standing

namespace Sound

variable {schedule : ScheduleRow}

section

variable (sound : Sound cron stale s)
include sound

theorem write (there : t.find schedule.id = some schedule)
    (elsewhere : ∀ id, id ≠ schedule.id → t.find id = s.find id) (jobs : t.jobs = s.jobs)
    (firings : t.firings = s.firings) (unique : (t.schedules.map (fun row => row.id)).Nodup)
    (careful : schedule.enabled = true ∨ s.Idle schedule.id) :
    Sound cron (insert schedule.id stale) t where
  unique := unique
  mirrors := by
    rw [jobs]
    exact sound.mirrors.change schedule.id elsewhere
  standing firing member held now holds := by
    rw [firings] at member
    have before := sound.standing firing member held now holds
    by_cases here : held.id = schedule.id
    · have enabled := careful.resolve_right fun idle => idle firing member _ holds here
      refine ⟨fun row found => ?_, fun _ => by rw [here, there]; rfl⟩
      rw [here, there] at found
      exact Option.some.inj found ▸ enabled
    · exact before.congr (elsewhere _ here)

theorem moved {firing : Firing} {phase : Phase} {index : Nat}
    (ok : ∀ schedule now, Firing.held { firing with phase := phase } = some (schedule, now) →
      Standing s schedule now) : Sound cron stale (s.moved index firing phase) where
  __ := sound
  standing other member schedule now holds := by
    rcases List.mem_or_eq_of_mem_set member with old | rfl
    · exact (sound.standing other old schedule now holds).congr rfl
    · exact (ok schedule now holds).congr rfl

theorem ended {firing : Firing} {index : Nat} (phase : Phase)
    (ends : phase = .returned ∨ phase = .failed) :
    Sound cron stale (s.moved index firing phase) := by
  refine sound.moved fun schedule now holds => ?_
  rcases ends with rfl | rfl
  · exact absurd holds (by simp [Firing.held])
  · exact absurd holds (by simp [Firing.held])

theorem committed {now : Int} (committed : s.commits schedule now = some t) :
    Sound cron stale t := by
  obtain ⟨jobs, firings, ids, rows⟩ := find_commits committed
  refine ⟨ids ▸ sound.unique, ?_, fun firing member held now holds => ?_⟩
  · rw [jobs]
    refine sound.mirrors.hidden fun id => ?_
    rcases rows id with same | ⟨row, before, after⟩
    · rw [same]
    · rw [before, after]
      rfl
  · exact (sound.standing firing (firings ▸ member) held now holds).commits committed

theorem advance {index : Nat} {now : Int} {firing : Firing} (turn : s.firings[index]? = some firing)
    (careful : Careful cron s (.advance index now))
    (stepped : s.advance cron index now firing = some t) : Sound cron stale t := by
  have member := List.mem_of_getElem? turn
  obtain ⟨scheduleId, phase⟩ := firing
  cases phase with
  | selecting =>
    cases found : s.find scheduleId with
    | none =>
      simp only [Server.advance, found] at stepped
      exact Option.some.inj stepped ▸ sound.ended _ (.inl rfl)
    | some schedule =>
      simp only [Server.advance, found] at stepped
      refine Option.some.inj stepped ▸ sound.moved fun held time holds => ?_
      cases holds
      have enabled := careful _ turn rfl schedule found
      have again : s.find schedule.id = some schedule := (find_id found).symm ▸ found
      exact ⟨fun row other => Option.some.inj (again.symm.trans other) ▸ enabled,
        fun _ => again ▸ rfl⟩
  | checking schedule time =>
    simp only [Server.advance] at stepped
    split at stepped
    · exact Option.some.inj stepped ▸ sound.ended _ (.inr rfl)
    · exact Option.some.inj stepped ▸ sound.ended _ (.inl rfl)
    · exact Option.some.inj stepped ▸ sound.moved fun held now holds =>
        sound.standing _ member held now holds
  | committing schedule time =>
    cases wrote : s.commits schedule time with
    | none =>
      simp only [Server.advance, wrote] at stepped
      exact Option.some.inj stepped ▸ sound.ended _ (.inr rfl)
    | some after =>
      simp only [Server.advance, wrote] at stepped
      exact Option.some.inj stepped ▸ (sound.committed wrote).ended _ (.inl rfl)
  | returned => cases stepped
  | failed => cases stepped

theorem unique_filter (kept : ScheduleRow → Bool) :
    ((s.schedules.filter kept).map (fun row => row.id)).Nodup :=
  sound.unique.sublist (List.filter_sublist.map _)

theorem delete {scheduleId : String} (careful : Careful cron s (.delete scheduleId)) :
    Sound cron (insert scheduleId stale)
      { s with schedules := s.schedules.filter (fun row => row.id ≠ scheduleId) } := by
  have elsewhere : ∀ id, id ≠ scheduleId →
      findKey (fun row => row.id) (s.schedules.filter (fun row => row.id ≠ scheduleId)) id =
        s.find id := by
    intro id other
    rw [find_filter sound.unique]
    cases found : s.find id with
    | none => rfl
    | some row =>
      rw [Option.filter_some, if_pos (decide_eq_true (find_id found ▸ other))]
  refine ⟨sound.unique_filter _, sound.mirrors.change scheduleId elsewhere, ?_⟩
  intro firing member held now holds
  by_cases here : held.id = scheduleId
  · refine ⟨fun row found => ?_, fun written => ?_⟩
    · have gone := (List.mem_filter.mp (findKey_some found).1).2
      exact absurd ((findKey_some found).2.trans here) (of_decide_eq_true gone)
    · exact absurd written (careful firing member _ holds here)
  · exact (sound.standing firing member held now holds).congr (elsewhere _ here)

theorem registers {jobs : OrderedMap String Job} {fresh : Set String}
    (mirrors : Mirrors (ScheduleRow.trigger cron) s.find (triggers jobs) fresh) :
    Sound cron fresh { s with jobs := jobs } :=
  ⟨sound.unique, mirrors, fun firing member held now holds =>
    (sound.standing firing member held now holds).congr rfl⟩

theorem find_of_noneLeft (left : s.NoneLeft) {id : String} {job : Job}
    (registered : s.jobs.get? id = some job) :
    ∃ row, s.find id = some row ∧ row.enabled = true := by
  obtain ⟨row, member, same, enabled⟩ :=
    left _ (OrderedMap.get?_eq_some_iff.mp registered)
  exact ⟨row, (findKey_eq_some_iff sound.unique).mpr ⟨member, same⟩, enabled⟩

theorem get?_none (left : s.NoneLeft) {id : String}
    (off : (s.find id).filter ScheduleRow.enabled = none) : s.jobs.get? id = none := by
  cases registered : s.jobs.get? id with
  | none => rfl
  | some job =>
    obtain ⟨row, found, enabled⟩ := sound.find_of_noneLeft left registered
    rw [found, Option.filter_some, if_pos enabled] at off
    cases off

end

theorem trigger_filter {id : String} :
    (s.find id).bind (ScheduleRow.trigger cron) =
      ((s.find id).filter ScheduleRow.enabled).map (fun row => (row.cronExpr, row.zone cron)) := by
  cases s.find id with
  | none => rfl
  | some row =>
    rw [Option.bind_some, ScheduleRow.trigger, Option.filter_some]
    split
    · rfl
    · rfl

theorem selected_all {scheduleId : Option String} (all : Dispatch.truthy scheduleId = none) :
    selected s.schedules scheduleId = s.schedules.filter ScheduleRow.enabled := by
  rw [selected, all]

theorem load (sound : Sound cron stale s) (left : s.NoneLeft) (readable : s.Readable cron none) :
    Sound cron ∅
      { s with jobs := registerAll cron engineId (selected s.schedules none) s.jobs } := by
  refine sound.registers fun id _ => ?_
  rw [Server.Readable, selected_all rfl] at readable
  have all : ∀ row ∈ s.schedules.filter ScheduleRow.enabled,
      cron.fromCrontab row.cronExpr = true :=
    fun row member => readable row member (List.mem_filter.mp member).2
  have found := find_filter sound.unique ScheduleRow.enabled id
  rw [selected_all rfl, trigger_filter, triggers, get?_registerAll (sound.unique_filter _) all,
    found]
  cases off : (s.find id).filter ScheduleRow.enabled with
  | none => rw [sound.get?_none left off]; rfl
  | some row => rfl

theorem reload_all (sound : Sound cron stale s) {scheduleId : Option String}
    (all : Dispatch.truthy scheduleId = none) (left : s.NoneLeft)
    (readable : s.Readable cron scheduleId) :
    Sound cron ∅
      { s with jobs := replaceAll cron engineId (selected s.schedules scheduleId) s.jobs } := by
  refine sound.registers fun id _ => ?_
  rw [Server.Readable, selected_all all] at readable
  have found := find_filter sound.unique ScheduleRow.enabled id
  rw [selected_all all, trigger_filter, triggers,
    get?_replaceAll (sound.unique_filter _) readable, found]
  cases off : (s.find id).filter ScheduleRow.enabled with
  | none => rw [sound.get?_none left off]; rfl
  | some row =>
    have enabled : row.enabled = true := (Option.filter_eq_some_iff.mp off).2
    simp only [if_pos enabled]
    rfl

theorem reload_one (sound : Sound cron stale s) {scheduleId : Option String} {id : String}
    (one : Dispatch.truthy scheduleId = some id)
    (deleted : s.find id = none → s.jobs.get? id = none)
    (readable : s.Readable cron scheduleId) :
    Sound cron (stale \ {id})
      { s with jobs := replaceAll cron engineId (selected s.schedules scheduleId) s.jobs } := by
  have rows : selected s.schedules scheduleId = s.schedules.filter (fun row => row.id = id) := by
    rw [selected, one]
  rw [Server.Readable, rows] at readable
  have found (other : String) := find_filter sound.unique (fun row => row.id = id) other
  have jobs (other : String) :=
    @get?_replaceAll cron engineId _ s.jobs other (sound.unique_filter _) readable
  refine sound.registers (sound.mirrors.refresh id ?_ fun other apart => ?_)
  · rw [triggers, rows, jobs, found]
    cases there : s.find id with
    | none => rw [Option.filter_none, deleted there]; rfl
    | some row =>
      rw [Option.filter_some, if_pos (decide_eq_true (find_id there)), Option.bind_some,
        ScheduleRow.trigger]
      by_cases on : row.enabled = true
      · simp only [if_pos on]
        rfl
      · simp only [if_neg on]
        rfl
  · have none_ : (s.find other).filter (fun row => row.id = id) = none := by
      rw [Option.filter_eq_none_iff]
      intro row there
      rw [decide_eq_true_eq]
      exact fun same => apart ((find_id there).symm.trans same)
    rw [triggers, rows, jobs, found, none_, triggers]

theorem among (sound : Sound cron stale s) {ids : List String}
    (same : ∀ id, id ∈ stale ↔ id ∈ ids) : Sound cron {id | id ∈ ids} s := by
  have eq : stale = {id | id ∈ ids} := Set.ext same
  exact eq ▸ sound

theorem step {ids : List String} {event : Step} (sound : Sound cron {id | id ∈ ids} s)
    (careful : Careful cron s event) (stepped : s.step cron event = some t) :
    Sound cron {id | id ∈ uncover ids event} t := by
  have more (key : String) : ∀ id, id ∈ insert key {id | id ∈ ids} ↔ id ∈ key :: ids :=
    fun _ => List.mem_cons.symm
  cases event with
  | create schedule =>
    rw [Server.step] at stepped
    split at stepped
    · cases stepped
    · next taken =>
      cases stepped
      have free : s.find schedule.id = none := by simpa using taken
      have unique : ((s.schedules ++ [schedule]).map (fun row => row.id)).Nodup := by
        rw [List.map_append, List.map_singleton]
        exact sound.unique.append (List.nodup_singleton _)
          (List.disjoint_singleton.mpr (findKey_none.mp free))
      exact (sound.write (find_create_self free) (fun _ other => find_create_other other)
        rfl rfl unique careful).among (more _)
  | update schedule =>
    rw [Server.step] at stepped
    split at stepped
    · next present =>
      cases stepped
      have unique : ((s.setRow schedule).schedules.map (fun row => row.id)).Nodup := by
        refine unique_map sound.unique fun row => ?_
        split
        · next same => exact same.symm
        · rfl
      exact (sound.write (find_setRow_self present) (fun _ other => find_setRow_other other)
        rfl rfl unique careful).among (more _)
    · cases stepped
  | delete scheduleId =>
    cases stepped
    exact (sound.delete careful).among (more _)
  | setWindows windows =>
    cases stepped
    exact ⟨sound.unique, sound.mirrors, fun firing member held now holds =>
      (sound.standing firing member held now holds).congr rfl⟩
  | start engineId =>
    rw [Server.step] at stepped
    split at stepped
    · cases stepped
      exact ⟨sound.unique, sound.mirrors, fun firing member held now holds =>
        (sound.standing firing member held now holds).congr rfl⟩
    · cases stepped
  | load =>
    obtain ⟨engineId, _, rfl⟩ := Option.map_eq_some_iff.mp stepped
    exact (sound.load careful.1 careful.2).among fun id => by simp [uncover]
  | reload scheduleId =>
    obtain ⟨engineId, _, rfl⟩ := Option.map_eq_some_iff.mp stepped
    obtain ⟨readable, covered⟩ := careful
    rw [uncover]
    cases which : Dispatch.truthy scheduleId with
    | none =>
      rw [which] at covered
      exact (sound.reload_all which covered readable).among fun id => by simp
    | some key =>
      rw [which] at covered
      exact (sound.reload_one which covered readable).among fun id => by simp
  | stop =>
    cases stepped
    exact ⟨sound.unique, sound.mirrors, fun firing member held now holds =>
      (sound.standing firing member held now holds).congr rfl⟩
  | trigger jobId =>
    rw [Server.step] at stepped
    split at stepped
    · split at stepped
      · cases stepped
        refine ⟨sound.unique, sound.mirrors, fun firing member held now holds => ?_⟩
        rcases List.mem_append.mp member with old | new
        · exact (sound.standing firing old held now holds).congr rfl
        · rw [List.mem_singleton.mp new] at holds
          cases holds
      · exact Option.some.inj stepped ▸ sound
    · cases stepped
  | advance index now =>
    obtain ⟨firing, turn, advances⟩ := Option.bind_eq_some_iff.mp stepped
    exact sound.advance turn careful advances
  | fail index =>
    obtain ⟨firing, _, fails⟩ := Option.bind_eq_some_iff.mp stepped
    have failed : t = s.moved index firing .failed := by
      rw [Server.fail] at fails
      split at fails
      · cases fails
      · cases fails
      · exact (Option.some.inj fails).symm
    exact failed ▸ sound.ended _ (.inr rfl)

theorem run {ids : List String} {steps : List Step} (sound : Sound cron {id | id ∈ ids} s)
    (reached : Library.run (Server.step cron) s steps = some t)
    (met : Meets (Server.step cron) (Careful cron) s steps) :
    Sound cron {id | id ∈ steps.foldl uncover ids} t := by
  induction steps generalizing s ids with
  | nil => exact Option.some.inj reached ▸ sound
  | cons event rest ih =>
    obtain ⟨u, stepped, further⟩ := run_cons_eq_some.mp reached
    exact ih (sound.step met.1 stepped) further (met.2 u stepped)

theorem initial : Sound cron {id | id ∈ []} .initial where
  unique := List.nodup_nil
  mirrors _ _ := rfl
  standing _ member := absurd member List.not_mem_nil

theorem onFire (sound : Sound cron stale s) {event : Step} {fired : ScheduleRow}
    (fires : s.onFire event = some fired) :
    ∃ row, s.find fired.id = some row ∧ row.enabled = true := by
  cases event with
  | advance index time =>
    simp only [Server.onFire] at fires
    split at fires
    · next scheduleId schedule now turn =>
      obtain ⟨after, committed, rfl⟩ := Option.map_eq_some_iff.mp fires
      have standing := sound.standing _ (List.mem_of_getElem? turn) schedule now rfl
      have there : (s.find schedule.id).isSome := by
        by_cases written : schedule.lastRunAt = some now
        · exact standing.present written
        · rw [Server.commits, if_neg written] at committed
          cases found : s.find schedule.id with
          | none =>
            rw [found] at committed
            cases committed
          | some row => rfl
      obtain ⟨row, found⟩ := Option.isSome_iff_exists.mp there
      exact ⟨row, found, standing.enabled row found⟩
    · cases fires
  | _ => cases fires

end Sound

/-- In the runs whose steps are careful the jobs are those of the enabled schedules, but for the
schedules that no reload has covered since, and whatever fires is an enabled schedule. -/
theorem reflects_when_careful (cron : Crontab) (steps : List Step) (t : Server)
    (reached : run (Server.step cron) .initial steps = some t)
    (met : Meets (Server.step cron) (Careful cron) .initial steps) :
    (∀ id, id ∉ uncovered steps → Reflected cron t id) ∧
      ∀ event fired, t.onFire event = some fired →
        ∃ row, t.find fired.id = some row ∧ row.enabled = true :=
  have sound := Sound.initial.run reached met
  ⟨sound.mirrors, fun _ _ fires => sound.onFire fires⟩

section Decidable

instance (s : Server) (id : String) : Decidable (s.Idle id) :=
  inferInstanceAs (Decidable (∀ firing ∈ s.firings, ∀ held ∈ firing.held, held.1.id ≠ id))

instance (s : Server) : Decidable s.NoneLeft :=
  inferInstanceAs (Decidable (∀ entry ∈ s.jobs.entries, ∃ row ∈ s.schedules,
    row.id = entry.1 ∧ row.enabled = true))

instance (s : Server) (id : Option String) : Decidable (s.Readable cron id) :=
  inferInstanceAs (Decidable (∀ row ∈ selected s.schedules id, row.enabled = true →
    cron.fromCrontab row.cronExpr = true))

instance (s : Server) (event : Step) : Decidable (Careful cron s event) := by
  unfold Careful
  split
  · infer_instance
  · infer_instance
  · infer_instance
  · infer_instance
  · split <;> infer_instance
  · infer_instance
  · infer_instance

instance (s : Server) (id : String) : Decidable (Reflected cron s id) :=
  inferInstanceAs (Decidable (_ = _))

end Decidable

def twoCrontabs : Crontab :=
  ⟨⟨(· = "UTC"), fun _ now => now, fun _ _ _ => .ok none⟩,
    fun expr => expr = "0 2 * * *" ∨ expr = "30 9 * * *"⟩

def patching (id cronExpr : String) (enabled : Bool) : ScheduleRow :=
  ⟨⟨id, .tag "env" "prod", none⟩, cronExpr, "UTC", enabled⟩

def rescheduled : List Step :=
  [.create (patching "s-1" "0 2 * * *" true), .start "e-1", .load,
    .update (patching "s-1" "30 9 * * *" true), .reload (some "s-1"),
    .create (patching "s-2" "0 2 * * *" false), .reload none, .trigger "s-1", .advance 0 5,
    .advance 0 5]

theorem rescheduled_is_reflected :
    ∃ t, run (Server.step twoCrontabs) .initial rescheduled = some t ∧
      (∀ id, Reflected twoCrontabs t id) ∧
      ∃ fired, t.onFire (.advance 0 5) = some fired ∧
        ∃ row, t.find fired.id = some row ∧ row.enabled = true := by
  have found : (run (Server.step twoCrontabs) .initial rescheduled).any (fun t =>
      (t.onFire (.advance 0 5)).isSome) := by decide +kernel
  have met : Meets (Server.step twoCrontabs) (Careful twoCrontabs) .initial rescheduled := by
    decide +kernel
  obtain ⟨t, reached, some_⟩ := (Option.any_eq_true _ _).mp found
  obtain ⟨fired, fires⟩ := Option.isSome_iff_exists.mp some_
  obtain ⟨reflected, enabled⟩ := reflects_when_careful twoCrontabs rescheduled t reached met
  have all : uncovered rescheduled = [] := by decide +kernel
  exact ⟨t, reached, fun id => reflected id (by rw [all]; exact List.not_mem_nil),
    fired, fires, enabled _ fired fires⟩

def disabled : List Step :=
  [.create (patching "s-1" "0 2 * * *" true), .start "e-1", .load,
    .update (patching "s-1" "0 2 * * *" false), .reload none, .trigger "s-1", .advance 0 5,
    .advance 0 5]

def deleted : List Step :=
  [.create (patching "s-1" "0 2 * * *" true), .start "e-1", .load, .delete "s-1",
    .reload (some "s-1"), .reload none]

/-- The jobs of schedules that no reload selects any more stay registered, and fire. -/
theorem disabled_schedule_fires :
    (∃ t, run (Server.step twoCrontabs) .initial deleted = some t ∧
      "s-1" ∉ uncovered deleted ∧ ¬ Reflected twoCrontabs t "s-1") ∧
    ∃ t, run (Server.step twoCrontabs) .initial disabled = some t ∧
      "s-1" ∉ uncovered disabled ∧ ¬ Reflected twoCrontabs t "s-1" ∧
      ∃ fired, t.onFire (.advance 0 5) = some fired ∧
        ∀ row, t.find fired.id = some row → row.enabled = false := by
  constructor
  · have kept : (run (Server.step twoCrontabs) .initial deleted).any (fun t =>
        decide (¬ Reflected twoCrontabs t "s-1")) := by decide +kernel
    obtain ⟨t, reached, stays⟩ := (Option.any_eq_true _ _).mp kept
    exact ⟨t, reached, by decide +kernel, of_decide_eq_true stays⟩
  · have kept : (run (Server.step twoCrontabs) .initial disabled).any (fun t =>
        decide (¬ Reflected twoCrontabs t "s-1") && (t.onFire (.advance 0 5)).any (fun fired =>
          (t.find fired.id).all (fun row => row.enabled = false))) := by decide +kernel
    obtain ⟨t, reached, both⟩ := (Option.any_eq_true _ _).mp kept
    obtain ⟨stays, fires⟩ := Bool.and_eq_true_iff.mp both
    obtain ⟨fired, invoked, off⟩ := (Option.any_eq_true _ _).mp fires
    refine ⟨t, reached, by decide +kernel, of_decide_eq_true stays, fired, invoked, ?_⟩
    intro row found
    rw [found] at off
    exact of_decide_eq_true off

end HlHelper.Scheduling.Jobs
