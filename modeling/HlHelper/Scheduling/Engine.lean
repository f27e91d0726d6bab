import HlHelper.Library.OrderedMap
import HlHelper.Library.Rows
import HlHelper.Library.Runs
import HlHelper.Scheduling.Overlap

/-! `ScheduleEngine._fire`: the blackout windows that keep a schedule from firing. `ScheduleEngine`
over a job store that outlives it: the jobs that `start` and `reload` register, and the firings of
their triggers, one step for each statement of the database with the code behind it. -/

namespace HlHelper.Scheduling

open Dispatch (Fleet)
open HlHelper.Library

inductive MaintenanceWindowKind where
  | allow | blackout
  deriving DecidableEq, Repr

structure MaintenanceWindow where
  id : String
  startCron : String
  durationMinutes : Int
  timezone : String
  targetSelector : TargetSelector
  kind : MaintenanceWindowKind
  positive : 0 < durationMinutes

structure Schedule where
  id : String
  targetSelector : TargetSelector
  lastRunAt : Option Int

/-- The time zones that are known, what the clock of one shows at an instant, and the last
instant at which a cron expression fired in one, if it can be read. -/
structure CronTrigger where
  zoneInfo : String → Bool
  wall : String → Int → Int
  previousFireTime : String → String → Int → Except String (Option Int)

section Fire

variable (trigger : CronTrigger) (now : Int)

def MaintenanceWindow.zone (window : MaintenanceWindow) : String :=
  if trigger.zoneInfo window.timezone then window.timezone else "UTC"

def MaintenanceWindow.lastStart (window : MaintenanceWindow) : Except String (Option Int) :=
  trigger.previousFireTime window.startCron (window.zone trigger) now

/-- By the clock, `now` is in the window that began at `start`. -/
def MaintenanceWindow.lasts (window : MaintenanceWindow) (clock : Int → Int) (start : Int) :
    Prop :=
  clock start ≤ clock now ∧ clock now ≤ clock start + seconds (60 * window.durationMinutes)

instance (window : MaintenanceWindow) (clock : Int → Int) (start : Int) :
    Decidable (window.lasts now clock start) :=
  inferInstanceAs (Decidable (_ ∧ _))

/-- A window blocks the target. Windows that do not overlap it are passed over before their
cron expression is read. Datetimes of one zone are added and compared by its clock. -/
def blocked (target : TargetSelector) : List MaintenanceWindow → Except String Bool
  | [] => .ok false
  | window :: rest =>
    if selectorsOverlap window.targetSelector.dict target.dict then
      match window.lastStart trigger now with
      | .error error => .error error
      | .ok start =>
        if ∃ time ∈ start, window.lasts now (trigger.wall (window.zone trigger)) time then .ok true
        else blocked target rest
    else blocked target rest

def fire (schedules : List Schedule) (windows : List MaintenanceWindow) (scheduleId : String) :
    Except String (Option Schedule) :=
  match findKey Schedule.id schedules scheduleId with
  | none => .ok none
  | some schedule =>
    (blocked trigger now schedule.targetSelector
      (windows.filter (fun window => window.kind = .blackout))).map fun stopped =>
        if stopped then none else some { schedule with lastRunAt := some now }

end Fire

/-- The window began no longer ago than it lasts. -/
def MaintenanceWindow.Active (window : MaintenanceWindow) (trigger : CronTrigger) (now : Int) :
    Prop :=
  window.kind = .blackout ∧ ∃ start, window.lastStart trigger now = .ok (some start) ∧
    window.lasts now (fun instant => instant) start

/-- No change of its zone's clock since it began takes `now` out of the window. -/
def MaintenanceWindow.InStep (window : MaintenanceWindow) (trigger : CronTrigger) (now : Int) :
    Prop :=
  ∀ start, window.lastStart trigger now = .ok (some start) →
    window.lasts now (fun instant => instant) start →
    window.lasts now (trigger.wall (window.zone trigger)) start

variable {trigger : CronTrigger} {now : Int} {target : TargetSelector}
  {windows : List MaintenanceWindow} {window : MaintenanceWindow}

theorem not_overlap_of_free (free : blocked trigger now target windows = .ok false)
    (member : window ∈ windows) (active : window.Active trigger now)
    (inStep : window.InStep trigger now) :
    selectorsOverlap window.targetSelector.dict target.dict = false := by
  induction windows with
  | nil => cases member
  | cons first rest ih =>
    rw [blocked] at free
    rcases List.mem_cons.mp member with rfl | later
    · obtain ⟨-, start, found, lasts⟩ := active
      by_contra overlaps
      rw [if_pos (Bool.of_not_eq_false overlaps), found] at free
      simp [inStep start found lasts] at free
    · refine ih ?_ later
      split at free
      · split at free
        · cases free
        · split at free
          · cases free
          · exact free
      · exact free

theorem not_overlap_of_fire {schedules : List Schedule} {scheduleId : String} {fired : Schedule}
    (fires : fire trigger now schedules windows scheduleId = .ok (some fired))
    (member : window ∈ windows) (active : window.Active trigger now)
    (inStep : window.InStep trigger now) :
    selectorsOverlap window.targetSelector.dict fired.targetSelector.dict = false := by
  unfold fire at fires
  split at fires
  · cases fires
  · next schedule _ =>
    obtain ⟨stopped, free, same⟩ := map_eq_ok.mp fires
    cases stopped with
    | true => cases same
    | false =>
      cases same
      have listed : window ∈ windows.filter (fun window => window.kind = .blackout) :=
        List.mem_filter.mpr ⟨member, by simpa using active.1⟩
      exact not_overlap_of_free free listed active inStep

theorem fire_of_free (free : selectorsOverlap window.targetSelector.dict target.dict = false ∨
      ∃ start, window.lastStart trigger now = .ok (some start) ∧
        ¬ window.lasts now (trigger.wall (window.zone trigger)) start) :
    fire trigger now [⟨"s-1", target, none⟩] [window] "s-1" =
      .ok (some ⟨"s-1", target, some now⟩) := by
  have passes : blocked trigger now target
      ([window].filter (fun window => window.kind = .blackout)) = .ok false := by
    by_cases blackout : window.kind = .blackout
    · rcases free with apart | ⟨start, found, ended⟩
      · simp [blocked, blackout, apart]
      · simp [blocked, blackout, found, ended]
    · simp [blackout, blocked]
  simp [fire, findKey, passes, Except.map]

/-- A blackout and the target of a schedule are sound together when a shared host makes
them overlap, and the schedule does not fire on one while the blackout is active. -/
structure Sound (fleet : Fleet) (window : MaintenanceWindow) (target : TargetSelector)
    (trigger : CronTrigger) (now : Int) : Prop where
  overlaps : TargetSelector.Share fleet window.targetSelector target →
    selectorsOverlap window.targetSelector.dict target.dict = true
  silent : ∀ schedules windows scheduleId fired, window ∈ windows →
    window.Active trigger now → fire trigger now schedules windows scheduleId = .ok (some fired) →
      fired.targetSelector = target → ¬ TargetSelector.Share fleet window.targetSelector target

theorem blackout_sound_iff (fleet : Fleet) (window : MaintenanceWindow) (target : TargetSelector)
    (trigger : CronTrigger) (now : Int) :
    Sound fleet window target trigger now ↔
      ¬ TargetSelector.Share fleet window.targetSelector target ∨
        TargetSelector.Comparable window.targetSelector target ∧
          (window.kind = .blackout → window.InStep trigger now) := by
  have seen := TargetSelector.sees_shared_iff fleet window.targetSelector target
  constructor
  · intro sound
    by_cases shared : TargetSelector.Share fleet window.targetSelector target
    · refine .inr ⟨(seen.mp sound.overlaps).resolve_right (not_not_intro shared), ?_⟩
      intro blackout start found lasts
      by_contra ended
      exact sound.silent _ [window] _ _ (List.mem_singleton_self _) ⟨blackout, start, found, lasts⟩
        (fire_of_free (.inr ⟨start, found, ended⟩)) rfl shared
    · exact .inl shared
  · rintro (apart | ⟨comparable, inStep⟩)
    · exact ⟨fun shared => absurd shared apart, fun _ _ _ _ _ _ _ _ => apart⟩
    · have overlaps := seen.mpr (.inl comparable)
      refine ⟨overlaps, ?_⟩
      rintro schedules windows scheduleId fired member active fires rfl shared
      have missed := not_overlap_of_fire fires member active (inStep active.1)
      exact absurd ((overlaps shared).symm.trans missed) (by simp)

def production : Fleet := ⟨[⟨"h1", some [("env", .str "prod")]⟩], [], []⟩

def taggedBlackout : MaintenanceWindow where
  id := "w-1"
  startCron := "0 2 * * *"
  durationMinutes := 60
  timezone := "Europe/Berlin"
  targetSelector := .tag "env" "prod"
  kind := .blackout
  positive := by decide

/-- Half an hour before the instant 0 the expression fired; then the clocks went forward. -/
def summerTime : CronTrigger where
  zoneInfo := fun _ => true
  wall := fun _ now => if now < 0 then now else now + seconds 3600
  previousFireTime := fun _ _ _ => .ok (some (-(seconds 1800)))

/-- The schedule with the very tag of the blackout fires in it; and when clocks go forward, one
for all hosts fires in a blackout of all hosts. -/
theorem blackouts_missed :
    ¬ Sound production taggedBlackout (.tag "env" "prod") summerTime (-1) ∧
      ¬ Sound production { taggedBlackout with targetSelector := .all true } (.all true)
        summerTime 0 := by
  have tagged : TargetSelector.Selects production (.tag "env" "prod") "h1" :=
    ⟨["h1"], by decide, by simp⟩
  have every : TargetSelector.Selects production (.all true) "h1" := by
    simp [TargetSelector.Selects, TargetSelector.selector, production]
  constructor
  · intro sound
    exact absurd (sound.overlaps ⟨"h1", tagged, tagged⟩) (by decide)
  · intro sound
    refine sound.silent _ [_] "s-1" _ (List.mem_singleton_self _)
      ⟨rfl, _, rfl, by decide⟩ (fire_of_free (.inr ⟨_, rfl, by decide⟩)) rfl ⟨"h1", every, every⟩

end HlHelper.Scheduling

namespace HlHelper.Scheduling.Jobs

open HlHelper.Library

structure ScheduleRow extends Schedule where
  cronExpr : String
  timezone : String
  enabled : Bool

/-- With the cron expressions that `CronTrigger.from_crontab` does not refuse. -/
structure Crontab extends CronTrigger where
  fromCrontab : String → Bool

/-- The arguments of a job are the engine that registered it and its own id. -/
structure Job where
  engineId : String
  cronExpr : String
  timezone : String
  deriving DecidableEq, Repr

/-- Where a firing stands: before the select of its schedule, before that of the windows, or
before the commit. -/
inductive Phase where
  | selecting
  | checking (schedule : ScheduleRow) (now : Int)
  | committing (schedule : ScheduleRow) (now : Int)
  | returned
  | failed

structure Firing where
  scheduleId : String
  phase : Phase

structure Server where
  schedules : List ScheduleRow
  windows : List MaintenanceWindow
  jobs : OrderedMap String Job
  engine : Option String
  firings : List Firing

inductive Step where
  | create (schedule : ScheduleRow)
  | update (schedule : ScheduleRow)
  | delete (scheduleId : String)
  | setWindows (windows : List MaintenanceWindow)
  | start (engineId : String)
  | load
  | reload (scheduleId : Option String)
  | stop
  | trigger (jobId : String)
  | advance (index : Nat) (now : Int)
  | fail (index : Nat)

section Registration

variable (cron : Crontab) (engineId : String)

/-- The time zone of a trigger: UTC where the schedule's own is unknown. -/
def ScheduleRow.zone (schedule : ScheduleRow) : String :=
  if cron.zoneInfo schedule.timezone then schedule.timezone else "UTC"

/-- `_register_job`; none where `from_crontab` raises. -/
def registerJob (jobs : OrderedMap String Job) (schedule : ScheduleRow) :
    Option (OrderedMap String Job) :=
  if cron.fromCrontab schedule.cronExpr then
    some (jobs.insert schedule.id ⟨engineId, schedule.cronExpr, schedule.zone cron⟩)
  else none

def registerAll : List ScheduleRow → OrderedMap String Job → OrderedMap String Job
  | [], jobs => jobs
  | schedule :: rest, jobs =>
    match registerJob cron engineId jobs schedule with
    | none => jobs
    | some registered => registerAll rest registered

/-- The loop of `reload`; the job of a schedule that raises has been removed by then. -/
def replaceAll : List ScheduleRow → OrderedMap String Job → OrderedMap String Job
  | [], jobs => jobs
  | schedule :: rest, jobs =>
    if schedule.enabled then
      match registerJob cron engineId (jobs.erase schedule.id) schedule with
      | none => jobs.erase schedule.id
      | some registered => replaceAll rest registered
    else replaceAll rest (jobs.erase schedule.id)

end Registration

/-- The rows that `reload` selects: no id, or an empty one, asks for the enabled ones. -/
def selected (schedules : List ScheduleRow) (scheduleId : Option String) : List ScheduleRow :=
  match Dispatch.truthy scheduleId with
  | some id => schedules.filter (fun row => row.id = id)
  | none => schedules.filter ScheduleRow.enabled

namespace Server

def initial : Server := ⟨[], [], .empty, none, []⟩

def find (s : Server) (scheduleId : String) : Option ScheduleRow :=
  findKey (fun row => row.id) s.schedules scheduleId

def setRow (s : Server) (schedule : ScheduleRow) : Server :=
  { s with
    schedules := s.schedules.map (fun row => if row.id = schedule.id then schedule else row) }

def moved (s : Server) (index : Nat) (firing : Firing) (phase : Phase) : Server :=
  { s with firings := s.firings.set index { firing with phase := phase } }

/-- The commit writes the time of the run where it is another than the loaded one; it raises
where it finds no row to write it to. -/
def commits (s : Server) (schedule : ScheduleRow) (now : Int) : Option Server :=
  if schedule.lastRunAt = some now then some s
  else
    match s.find schedule.id with
    | none => none
    | some row => some (s.setRow { row with lastRunAt := some now })

def advance (cron : Crontab) (s : Server) (index : Nat) (now : Int) (firing : Firing) :
    Option Server :=
  match firing.phase with
  | .selecting =>
    match s.find firing.scheduleId with
    | none => some (s.moved index firing .returned)
    | some schedule => some (s.moved index firing (.checking schedule now))
  | .checking schedule now =>
    match blocked cron.toCronTrigger now schedule.targetSelector
        (s.windows.filter (fun window => window.kind = .blackout)) with
    | .error _ => some (s.moved index firing .failed)
    | .ok true => some (s.moved index firing .returned)
    | .ok false => some (s.moved index firing (.committing schedule now))
  | .committing schedule now =>
    match s.commits schedule now with
    | none => some (s.moved index firing .failed)
    | some after => some (after.moved index firing .returned)
  | .returned | .failed => none

/-- The schedule that a step hands to `on_fire`. -/
def onFire (s : Server) : Step → Option ScheduleRow
  | .advance index _ =>
    match s.firings[index]? with
    | some ⟨_, .committing schedule now⟩ =>
      (s.commits schedule now).map fun _ => { schedule with lastRunAt := some now }
    | _ => none
  | _ => none

def fail (s : Server) (index : Nat) (firing : Firing) : Option Server :=
  match firing.phase with
  | .returned | .failed => none
  | _ => some (s.moved index firing .failed)

/-- `start` is `start` and `load`; the triggers of the stored jobs fire between them already.
A firing goes on when its engine stops. -/
def step (cron : Crontab) (s : Server) : Step → Option Server
  | .create schedule =>
    if (s.find schedule.id).isSome then none
    else some { s with schedules := s.schedules ++ [schedule] }
  | .update schedule => if (s.find schedule.id).isSome then some (s.setRow schedule) else none
  | .delete scheduleId =>
    some { s with schedules := s.schedules.filter (fun row => row.id ≠ scheduleId) }
  | .setWindows windows => some { s with windows := windows }
  | .start engineId => if s.engine = none then some { s with engine := some engineId } else none
  | .load =>
    s.engine.map fun engineId =>
      { s with jobs := registerAll cron engineId (selected s.schedules none) s.jobs }
  | .reload scheduleId =>
    s.engine.map fun engineId =>
      { s with jobs := replaceAll cron engineId (selected s.schedules scheduleId) s.jobs }
  | .stop => some { s with engine := none }
  | .trigger jobId =>
    match s.engine, s.jobs.get? jobId with
    | some engineId, some job =>
      if job.engineId = engineId then
        some { s with firings := s.firings ++ [⟨jobId, .selecting⟩] }
      else some s
    | _, _ => none
  | .advance index now => (s.firings[index]?).bind (s.advance cron index now)
  | .fail index => (s.firings[index]?).bind (s.fail index)

end Server

end HlHelper.Scheduling.Jobs
