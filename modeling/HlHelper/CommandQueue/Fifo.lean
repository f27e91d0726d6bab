import HlHelper.CommandQueue.Process
import HlHelper.Library.WaitingLine
import HlHelper.Tasks.Results

/-! `CommandQueue` as a waiting line for each host: `pop`, `peek` and `expire_overdue`
on the table of commands, among the other changes of the status column. -/

namespace HlHelper.CommandQueue

open HlHelper.Dispatch HlHelper.Library HlHelper.Tasks

def isQueued (hostId : HostId) (command : Command) : Bool :=
  command.hostId = hostId ∧ command.status = .queued

def oldestQueued (rows : List Command) (hostId : HostId) : Option Command :=
  (rows.filter (isQueued hostId)).argmin Command.sequence

def pop (rows : List Command) (hostId : HostId) : Option Command × List Command :=
  match oldestQueued rows hostId with
  | none => (none, rows)
  | some command =>
    (some { command with status := .inFlight }, rows.map (setStatus .inFlight [command.id]))

def peek (rows : List Command) (hostId : HostId) : Option Command := oldestQueued rows hostId

def isOverdue (now : Int) (command : Command) : Bool :=
  command.status = .queued ∧ command.expiresAt < now

def expireRow (now : Int) (command : Command) : Command :=
  if isOverdue now command then { command with status := .expired } else command

def expireOverdue (rows : List Command) (now : Int) : Nat × List Command :=
  (rows.countP (isOverdue now), rows.map (expireRow now))

/-- `mark` is a status that a result gives a command. -/
inductive Op where
  | enqueue (command : Command) (key : Option String)
  | pop (hostId : HostId)
  | peek (hostId : HostId)
  | expireOverdue (now : Int)
  | cancel (taskId : TaskId)
  | mark (commandId : CommandId) (status : CommandStatus)
  deriving DecidableEq

def Process.rows (p : Process) : List Command := p.session.tables.commands

def Process.write (p : Process) (commands : List Command) : Process :=
  { p with
    session := { p.session with tables := { p.session.tables with commands := commands } }.commit }

def Process.commit (p : Process) : Process := { p with session := p.session.commit }

/-- Callers hand over a command of a new UUID and a sequence that the host has not used;
its key comes with the call. -/
def Offers (p : Process) (command : Command) : Prop :=
  command.id ∉ p.drawn ∧ command.idempotencyKey = none ∧
    ∀ row ∈ p.rows, row.hostId = command.hostId → row.sequence ≠ command.sequence

instance (p : Process) (command : Command) : Decidable (Offers p command) :=
  inferInstanceAs (Decidable (_ ∧ _ ∧ _))

def opStep (capacity : Nat) (p : Process) : Op → Option Process
  | .enqueue command key =>
    if Offers p command then some (enqueueStep capacity p command key).commit else none
  | .pop hostId => some (p.write (pop p.rows hostId).2)
  | .peek _ => some p
  | .expireOverdue now => some (p.write (expireOverdue p.rows now).2)
  | .cancel taskId => some (p.write (cancelTask p.session.tables taskId).2.commands)
  | .mark commandId status =>
    if status = .queued then none else some (p.write (p.rows.map (setStatus status [commandId])))

def popped (p : Process) : Op → Option Command
  | .pop hostId => (pop p.rows hostId).1
  | _ => none

/-- What the queue is for: the queued commands of each host wait in a line by their
sequences, and a key is served once. -/
structure HostLines where
  keys : List String
  line : HostId → WaitingLine Command Command.sequence

def goes (runs : List TaskRun) (op : Op) (command : Command) : Bool :=
  match op with
  | .expireOverdue now => command.expiresAt < now
  | .cancel taskId =>
    command.taskRunId ∈ (runs.filter (fun run => run.taskId = taskId)).map TaskRun.id
  | .mark commandId _ => command.id = commandId
  | _ => false

def HostLines.after (runs : List TaskRun) (x : HostLines) : Op → HostLines
  | .enqueue command key =>
    if ∃ k ∈ key, k ∈ x.keys then x
    else if command.status = .queued then
      { keys := key.toList ++ x.keys
        line := Function.update x.line command.hostId
          ((x.line command.hostId).join (offered command key)) }
    else { x with keys := key.toList ++ x.keys }
  | .pop hostId => { x with line := Function.update x.line hostId (x.line hostId).tail }
  | .peek _ => x
  | op => { x with line := fun hostId => (x.line hostId).keep (fun row => !goes runs op row) }

def waiting (rows : List Command) (hostId : HostId) : WaitingLine Command Command.sequence :=
  WaitingLine.ofList (rows.filter (isQueued hostId))

def HostLines.view (rows : List Command) : HostLines :=
  ⟨rows.filterMap Command.idempotencyKey, waiting rows⟩

section Status

/-- A change of the table that only moves rows out of the lines: queued rows that go get another
status, no row becomes queued. -/
structure Clears (gone : Command → Bool) (rows : List Command) (change : Command → Command) :
    Prop where
  kept : ∀ row ∈ rows, ∃ status, change row = { row with status := status }
  stays : ∀ row ∈ rows, row.status = .queued → gone row = false → change row = row
  goes : ∀ row ∈ rows, row.status = .queued → gone row = true → (change row).status ≠ .queued
  others : ∀ row ∈ rows, row.status ≠ .queued → (change row).status ≠ .queued

variable {rows : List Command} {gone : Command → Bool} {change : Command → Command}
  {command : Command} {hostId : HostId}

theorem Clears.id_eq (clears : Clears gone rows change) {row : Command} (member : row ∈ rows) :
    (change row).id = row.id := by
  obtain ⟨status, same⟩ := clears.kept row member
  rw [same]

theorem Clears.mem_queued (clears : Clears gone rows change) :
    command ∈ rows.map change ∧ isQueued hostId command = true ↔
      (command ∈ rows ∧ isQueued hostId command = true) ∧ gone command = false := by
  simp only [isQueued, decide_eq_true_eq]
  constructor
  · rintro ⟨member, host, queued⟩
    obtain ⟨row, inside, rfl⟩ := List.mem_map.mp member
    by_cases waits : row.status = .queued
    · cases leaving : gone row with
      | true => exact absurd queued (clears.goes row inside waits leaving)
      | false =>
        rw [clears.stays row inside waits leaving] at host ⊢
        exact ⟨⟨inside, host, waits⟩, leaving⟩
    · exact absurd queued (clears.others row inside waits)
  · rintro ⟨⟨member, host, queued⟩, staying⟩
    exact ⟨List.mem_map.mpr ⟨command, member, clears.stays command member queued staying⟩,
      host, queued⟩

theorem clears_expireRow (now : Int) :
    Clears (fun row => row.expiresAt < now) rows (expireRow now) where
  kept := by
    intro row _
    rw [expireRow]
    split
    · exact ⟨.expired, rfl⟩
    · exact ⟨row.status, rfl⟩
  stays := fun row _ _ staying =>
    if_neg (by simpa [isOverdue] using fun _ => by simpa using staying)
  goes := fun row _ queued leaving => by
    have overdue : isOverdue now row = true := by
      simpa [isOverdue, queued] using leaving
    simp [expireRow, overdue]
  others := fun row _ settled => by
    simp [expireRow, isOverdue, settled]

theorem clears_cancelRow (runIds : List TaskRunId) :
    Clears (fun row => row.taskRunId ∈ runIds) rows (cancelRow runIds) where
  kept := fun row _ => cancelRow_kept runIds row
  stays := fun row _ _ staying => by
    simp [cancelRow, isCancelled, of_decide_eq_false staying]
  goes := fun row _ queued leaving => by
    simp [cancelRow, isCancelled, of_decide_eq_true leaving, queued, isActive]
  others := fun row _ settled => by
    rw [cancelRow]
    split
    · exact CommandStatus.noConfusion
    · exact settled

theorem clears_setStatus {status : CommandStatus} (other : status ≠ .queued)
    (commandId : CommandId) :
    Clears (fun row => row.id = commandId) rows (setStatus status [commandId]) where
  kept := fun row _ => setStatus_eq status [commandId] row
  stays := fun row _ _ staying => by
    simp [setStatus, of_decide_eq_false staying]
  goes := fun row _ _ leaving => by
    simpa [setStatus, of_decide_eq_true leaving] using other
  others := fun row _ settled => by
    rw [setStatus]
    split
    · exact other
    · exact settled

theorem oldestQueued_eq_head? {line : WaitingLine Command Command.sequence}
    (waits : ∀ command, command ∈ line ↔ command ∈ rows ∧ isQueued hostId command = true) :
    oldestQueued rows hostId = line.head? := by
  have inside (row : Command) : row ∈ rows.filter (isQueued hostId) ↔ row ∈ line := by
    rw [List.mem_filter, waits]
  cases found : oldestQueued rows hostId with
  | none =>
    have empty := List.argmin_eq_none.mp found
    rw [eq_comm, WaitingLine.head?_eq_none]
    intro row member
    rw [← inside, empty] at member
    exact List.not_mem_nil member
  | some command =>
    rw [eq_comm, WaitingLine.head?_eq_some, ← inside]
    refine ⟨List.argmin_mem found, fun other member => ?_⟩
    exact List.le_of_mem_argmin ((inside other).mpr member) found

end Status

/-- The rows of a process and the lines that they stand for. -/
structure Refines (capacity : Nat) (runs : List TaskRun) (p : Process) (x : HostLines) : Prop where
  sound : Sound capacity p
  apart : (p.rows.map (fun row => (row.hostId, row.sequence))).Nodup
  runs : p.session.tables.runs = runs
  keys : ∀ key, key ∈ x.keys ↔ some key ∈ p.rows.map Command.idempotencyKey
  waits : ∀ hostId command,
    command ∈ x.line hostId ↔ command ∈ p.rows ∧ isQueued hostId command = true

section Refinement

variable {capacity : Nat} {runs : List TaskRun} {p q : Process} {x : HostLines} {command : Command}
  {hostId : HostId}

theorem map_change {rows : List Command} {change : Command → Command} {β : Type}
    {view : Command → β}
    (kept : ∀ row ∈ rows, ∃ status, change row = { row with status := status })
    (blind : ∀ (row : Command) status, view { row with status := status } = view row) :
    (rows.map change).map view = rows.map view := by
  rw [List.map_map]
  refine List.map_congr_left fun row member => ?_
  obtain ⟨status, changed⟩ := kept row member
  rw [Function.comp_apply, changed, blind]

theorem Sound.write {change : Command → Command} (sound : Sound capacity p)
    (kept : ∀ row ∈ p.rows, ∃ status, change row = { row with status := status }) :
    Sound capacity (p.write (p.rows.map change)) := by
  refine ⟨?_, ?_, List.prefix_refl _, ?_, ?_, sound.bounded⟩
  · change ((p.rows.map change).map Command.id).Nodup
    rw [map_change kept fun _ _ => rfl]
    exact sound.ids
  · change ((p.rows.map change).filterMap Command.idempotencyKey).Nodup
    have keys : (p.rows.map change).filterMap Command.idempotencyKey =
        p.rows.filterMap Command.idempotencyKey := by
      rw [List.filterMap_map]
      refine List.filterMap_congr fun row member => ?_
      obtain ⟨status, changed⟩ := kept row member
      rw [Function.comp_apply, changed]
    rw [keys]
    exact sound.keys
  · intro row member
    obtain ⟨old, inside, rfl⟩ := List.mem_map.mp member
    obtain ⟨status, changed⟩ := kept old inside
    rw [changed]
    exact sound.drawn old inside
  · intro entry member
    refine ⟨(sound.cached entry member).1, fun row there named => ?_⟩
    obtain ⟨old, inside, rfl⟩ := List.mem_map.mp there
    obtain ⟨status, changed⟩ := kept old inside
    rw [changed] at named ⊢
    exact (sound.cached entry member).2 old inside named

section

variable (refines : Refines capacity runs p x)
include refines

theorem Refines.clear {gone : Command → Bool} {change : Command → Command}
    (clears : Clears gone p.rows change) : Refines capacity runs (p.write (p.rows.map change))
      { x with line := fun hostId => (x.line hostId).keep (fun row => !gone row) } where
  sound := refines.sound.write clears.kept
  apart := by
    change ((p.rows.map change).map (fun row => (row.hostId, row.sequence))).Nodup
    rw [map_change clears.kept fun _ _ => rfl]
    exact refines.apart
  runs := refines.runs
  keys := fun key => by
    change key ∈ x.keys ↔ some key ∈ (p.rows.map change).map Command.idempotencyKey
    rw [map_change clears.kept fun _ _ => rfl]
    exact refines.keys key
  waits := fun hostId command => by
    rw [WaitingLine.mem_keep, refines.waits, Bool.not_eq_true']
    exact clears.mem_queued.symm

theorem mem_line_host (member : command ∈ x.line hostId) :
    command ∈ p.rows ∧ command.hostId = hostId ∧ command.status = .queued := by
  obtain ⟨inside, queued⟩ := (refines.waits hostId command).mp member
  exact ⟨inside, of_decide_eq_true queued⟩

theorem oldestQueued_eq (hostId : HostId) : oldestQueued p.rows hostId = (x.line hostId).head? :=
  oldestQueued_eq_head? (refines.waits hostId)

theorem Refines.popped (hostId : HostId) : Refines capacity runs (p.write (pop p.rows hostId).2)
      { x with line := Function.update x.line hostId (x.line hostId).tail } := by
  have front := oldestQueued_eq refines hostId
  cases found : oldestQueued p.rows hostId with
  | none =>
    have nobody := WaitingLine.head?_eq_none.mp (front.symm.trans found)
    have same : Function.update x.line hostId (x.line hostId).tail = x.line := by
      rw [Function.update_eq_self_iff]
      refine WaitingLine.ext_mem fun entry => ?_
      rw [WaitingLine.mem_tail]
      exact iff_of_false (fun inside => nobody entry inside.1) (nobody entry)
    have unchanged : (pop p.rows hostId).2 = p.rows := by
      rw [pop, found]
    rw [same, unchanged]
    exact { refines with sound := { refines.sound with kept := List.prefix_refl _ } }
  | some command =>
    obtain ⟨waiting, _⟩ := WaitingLine.head?_eq_some.mp (front.symm.trans found)
    obtain ⟨inside, host, _⟩ := mem_line_host refines waiting
    have clears : Clears (fun row => row.id = command.id) p.rows
        (setStatus .inFlight [command.id]) :=
      clears_setStatus CommandStatus.noConfusion command.id
    have changed : (pop p.rows hostId).2 = p.rows.map (setStatus .inFlight [command.id]) := by
      rw [pop, found]
    have lines : (fun hostId => (x.line hostId).keep (fun row => !decide (row.id = command.id))) =
        Function.update x.line hostId (x.line hostId).tail := by
      funext other
      refine WaitingLine.ext_mem fun entry => ?_
      have named (member : entry ∈ p.rows) : entry.id = command.id ↔ entry = command :=
        ⟨key_injective refines.sound.ids member inside, fun same => same ▸ rfl⟩
      rw [WaitingLine.mem_keep, Bool.not_eq_true', decide_eq_false_iff_not]
      by_cases here : other = hostId
      · subst here
        rw [Function.update_self, WaitingLine.mem_tail, ← front, found]
        refine and_congr_right fun member => ?_
        rw [named (mem_line_host refines member).1, ne_eq, Option.some.injEq, eq_comm]
      · rw [Function.update_of_ne here, and_iff_left_iff_imp]
        intro member same
        obtain ⟨there, elsewhere, _⟩ := mem_line_host refines member
        rw [(named there).mp same, host] at elsewhere
        exact here elsewhere.symm
    rw [changed, ← lines]
    exact refines.clear clears

end

theorem enqueueStep_rows (sound : Sound capacity p) (offers : Offers p command)
    (key : Option String) :
    (enqueueStep capacity p command key).session.tables.runs = p.session.tables.runs ∧
      (enqueueStep capacity p command key).rows =
        if ∃ k ∈ key, some k ∈ p.rows.map Command.idempotencyKey then p.rows
        else p.rows ++ [offered command key] := by
  obtain ⟨fresh, plain, apart⟩ := offers
  have returns : ∃ row session cache,
      enqueue capacity p.session p.cache command key [] = .ok (row, session, cache) := by
    cases key with
    | none =>
      obtain ⟨session, returned, _⟩ :=
        (idempotent_of_sound sound).unkeyed command fresh plain apart
      exact ⟨_, _, _, returned⟩
    | some k =>
      by_cases carried : ∃ row ∈ p.rows, row.idempotencyKey = some k
      · obtain ⟨row, member, carries⟩ := carried
        obtain ⟨cache, returned⟩ :=
          (idempotent_of_sound sound).repeated command k row fresh member carries
        exact ⟨_, _, _, returned⟩
      · obtain ⟨session, cache, returned, _⟩ := (idempotent_of_sound sound).first command k
          fresh (fun row member carries => carried ⟨row, member, carries⟩) apart
        exact ⟨_, _, _, returned⟩
  obtain ⟨row, session, cache, returned⟩ := returns
  rw [enqueueStep, returned]
  rcases enqueue_cases sound returned with ⟨rfl, k, rfl, found⟩ | ⟨rfl, flushed⟩
  · obtain ⟨member, carries⟩ := findKey_some found
    exact ⟨rfl, (if_pos ⟨k, rfl, List.mem_map.mpr ⟨row, member, carries⟩⟩).symm⟩
  · obtain ⟨_, newKey, _, rfl⟩ := Session.flushCommand_eq_ok.mp flushed
    refine ⟨rfl, (if_neg ?_).symm⟩
    rintro ⟨k, rfl, carried⟩
    rcases newKey with unkeyed | unused
    · cases unkeyed
    · exact unused carried

theorem mem_join_offered (refines : Refines capacity runs p x) (offers : Offers p command)
    (key : Option String) (entry : Command) :
    entry ∈ (x.line command.hostId).join (offered command key) ↔
      entry = offered command key ∨ entry ∈ x.line command.hostId := by
  apply WaitingLine.mem_join
  intro other member
  obtain ⟨inside, host, _⟩ := mem_line_host refines member
  exact offers.2.2 other inside host

theorem Refines.enqueued (refines : Refines capacity runs p x) (offers : Offers p command)
    (key : Option String) :
    Refines capacity runs (enqueueStep capacity p command key).commit
      (x.after runs (.enqueue command key)) := by
  obtain ⟨sameRuns, rows⟩ := enqueueStep_rows refines.sound offers key
  have sound : Sound capacity (enqueueStep capacity p command key).commit :=
    { refines.sound.enqueued offers.1 key with kept := List.prefix_refl _ }
  have known : (∃ k ∈ key, k ∈ x.keys) ↔
      ∃ k ∈ key, some k ∈ p.rows.map Command.idempotencyKey := by
    simp only [refines.keys]
  have heldRuns := sameRuns.trans refines.runs
  change (enqueueStep capacity p command key).commit.session.tables.runs = runs at heldRuns
  change (enqueueStep capacity p command key).commit.rows = _ at rows
  generalize (enqueueStep capacity p command key).commit = next at *
  by_cases answered : ∃ k ∈ key, some k ∈ p.rows.map Command.idempotencyKey
  · rw [if_pos answered] at rows
    rw [HostLines.after, if_pos (known.mpr answered)]
    exact ⟨sound, rows ▸ refines.apart, heldRuns, rows ▸ refines.keys, rows ▸ refines.waits⟩
  · rw [if_neg answered] at rows
    have apart : (next.rows.map (fun row => (row.hostId, row.sequence))).Nodup := by
      rw [rows]
      refine @unique_append _ _ _ _ (some (offered command key)) refines.apart ?_
      rintro _ ⟨⟩ taken
      obtain ⟨row, member, same⟩ := List.mem_map.mp taken
      obtain ⟨host, sequence⟩ := Prod.mk.inj same
      exact offers.2.2 row member host sequence
    have keys (k : String) : k ∈ key.toList ++ x.keys ↔
        some k ∈ next.rows.map Command.idempotencyKey := by
      have own : (offered command key).idempotencyKey = key := by
        rw [offered, offers.2.1, Option.or_none]
      rw [rows, List.mem_append, Option.mem_toList, refines.keys, List.map_append, List.mem_append,
        or_comm, List.map_singleton, List.mem_singleton, own, eq_comm (a := some k)]
    have member (entry : Command) (host : HostId) :
        entry ∈ next.rows ∧ isQueued host entry = true ↔
          entry ∈ x.line host ∨ entry = offered command key ∧ isQueued host entry = true := by
      rw [rows, List.mem_append, List.mem_singleton, or_and_right, ← refines.waits]
    rw [HostLines.after, if_neg (known.not.mpr answered)]
    split
    · next queued =>
      refine ⟨sound, apart, heldRuns, keys, fun host entry => ?_⟩
      rw [member]
      dsimp only
      by_cases here : host = command.hostId
      · subst here
        rw [Function.update_self, mem_join_offered refines offers, or_comm]
        refine or_congr_right (and_iff_left_of_imp ?_).symm
        rintro rfl
        exact decide_eq_true ⟨rfl, queued⟩
      · rw [Function.update_of_ne here]
        refine (or_iff_left_of_imp ?_).symm
        rintro ⟨rfl, waits⟩
        exact absurd (of_decide_eq_true waits).1.symm here
    · next settled =>
      refine ⟨sound, apart, heldRuns, keys, fun host entry => ?_⟩
      rw [member]
      refine (or_iff_left_of_imp ?_).symm
      rintro ⟨rfl, waits⟩
      exact absurd (of_decide_eq_true waits).2 settled

theorem opStep_refines (refines : Refines capacity runs p x) {op : Op}
    (stepped : opStep capacity p op = some q) : Refines capacity runs q (x.after runs op) := by
  cases op with
  | enqueue command key =>
    simp only [opStep] at stepped
    split at stepped
    · next offers =>
      cases stepped
      exact refines.enqueued offers key
    · cases stepped
  | pop hostId =>
    cases stepped
    exact refines.popped hostId
  | peek hostId =>
    cases stepped
    exact refines
  | expireOverdue now =>
    cases stepped
    exact refines.clear (clears_expireRow now)
  | cancel taskId =>
    cases stepped
    rw [cancelTask_eq refines.sound.ids, runsOfTask, refines.runs]
    exact refines.clear (clears_cancelRow _)
  | mark commandId status =>
    simp only [opStep] at stepped
    split at stepped
    · cases stepped
    · next other =>
      cases stepped
      exact refines.clear (clears_setStatus other commandId)

theorem mem_waiting {rows : List Command}
    (apart : (rows.map (fun row => (row.hostId, row.sequence))).Nodup) :
    command ∈ waiting rows hostId ↔ command ∈ rows ∧ isQueued hostId command = true := by
  have sequences : ((rows.filter (isQueued hostId)).map Command.sequence).Nodup := by
    apply List.Nodup.of_map (fun sequence => (hostId, sequence))
    rw [List.map_map]
    have own : (rows.filter (isQueued hostId)).map ((fun sequence => (hostId, sequence)) ∘
        Command.sequence) =
          (rows.filter (isQueued hostId)).map (fun row => (row.hostId, row.sequence)) := by
      refine List.map_congr_left fun row member => ?_
      rw [Function.comp_apply, (of_decide_eq_true (List.mem_filter.mp member).2).1]
    rw [own]
    exact apart.sublist (List.filter_sublist.map _)
  rw [waiting, WaitingLine.mem_ofList sequences, List.mem_filter]

theorem start_refines {tables : Tables} (ids : (tables.commands.map Command.id).Nodup)
    (keys : (tables.commands.filterMap Command.idempotencyKey).Nodup)
    (apart : (tables.commands.map (fun row => (row.hostId, row.sequence))).Nodup) :
    Refines capacity tables.runs (Process.start tables) (HostLines.view tables.commands) where
  sound := start_sound ids keys
  apart := apart
  runs := rfl
  keys := fun key => by
    change key ∈ tables.commands.filterMap Command.idempotencyKey ↔ _
    rw [List.mem_filterMap, List.mem_map]
    rfl
  waits := fun _ _ => mem_waiting apart

theorem Refines.line_eq (refines : Refines capacity runs p x) (hostId : HostId) :
    x.line hostId = waiting p.rows hostId :=
  WaitingLine.ext_mem fun command => by rw [refines.waits, mem_waiting refines.apart]

theorem settled_step (refines : Refines capacity runs p x) {op : Op}
    (stepped : opStep capacity p op = some q) {id : CommandId}
    (settled : ∃ row ∈ p.rows, row.id = id ∧ row.status ≠ .queued) :
    ∃ row ∈ q.rows, row.id = id ∧ row.status ≠ .queued := by
  obtain ⟨row, member, rfl, done⟩ := settled
  have changed {gone : Command → Bool} {change : Command → Command}
      (clears : Clears gone p.rows change) :
      ∃ other ∈ p.rows.map change, other.id = row.id ∧ other.status ≠ .queued :=
    ⟨change row, List.mem_map_of_mem member, clears.id_eq member, clears.others row member done⟩
  cases op with
  | enqueue command key =>
    simp only [opStep] at stepped
    split at stepped
    · next offers =>
      cases stepped
      refine ⟨row, ?_, rfl, done⟩
      change row ∈ (enqueueStep capacity p command key).rows
      rw [(enqueueStep_rows refines.sound offers key).2]
      split
      · exact member
      · exact List.mem_append_left _ member
    · cases stepped
  | pop hostId =>
    cases stepped
    change ∃ other ∈ (pop p.rows hostId).2, _
    rw [pop]
    split
    · exact ⟨row, member, rfl, done⟩
    · next command _ =>
      exact changed (clears_setStatus CommandStatus.noConfusion command.id)
  | peek hostId =>
    cases stepped
    exact ⟨row, member, rfl, done⟩
  | expireOverdue now =>
    cases stepped
    exact changed (clears_expireRow now)
  | cancel taskId =>
    cases stepped
    change ∃ other ∈ (cancelTask p.session.tables taskId).2.commands, _
    rw [cancelTask_eq refines.sound.ids]
    exact changed (clears_cancelRow _)
  | mark commandId status =>
    simp only [opStep] at stepped
    split at stepped
    · cases stepped
    · next other =>
      cases stepped
      exact changed (clears_setStatus other commandId)

theorem popped_settles (refines : Refines capacity runs p x) {op : Op}
    (stepped : opStep capacity p op = some q) (returned : popped p op = some command) :
    (∃ row ∈ p.rows, row.id = command.id ∧ row.status = .queued) ∧
      ∃ row ∈ q.rows, row.id = command.id ∧ row.status ≠ .queued := by
  cases op with
  | pop hostId =>
    cases stepped
    have front := oldestQueued_eq refines hostId
    simp only [popped, pop] at returned
    split at returned
    · cases returned
    · next oldest found =>
      cases returned
      obtain ⟨waits, _⟩ := WaitingLine.head?_eq_some.mp (front.symm.trans found)
      obtain ⟨member, _, queued⟩ := mem_line_host refines waits
      refine ⟨⟨oldest, member, rfl, queued⟩, ?_⟩
      change ∃ row ∈ (pop p.rows hostId).2, _
      rw [pop, found]
      refine ⟨_, List.mem_map_of_mem member, ?_⟩
      simp [setStatus]
  | _ => cases returned

theorem after_order (runs : List TaskRun) (x : HostLines) (op : Op) (hostId : HostId)
    (elsewhere : ∀ command key, op = .enqueue command key → command.hostId ≠ hostId) :
    ((x.after runs op).line hostId).entries.Sublist (x.line hostId).entries := by
  cases op with
  | enqueue command key =>
    have other := elsewhere command key rfl
    rw [HostLines.after]
    split
    · exact List.Sublist.refl _
    · split
      · dsimp only
        rw [Function.update_of_ne (Ne.symm other)]
      · exact List.Sublist.refl _
  | pop other =>
    simp only [HostLines.after]
    by_cases here : hostId = other
    · subst here
      rw [Function.update_self]
      exact List.tail_sublist _
    · rw [Function.update_of_ne here]
  | peek _ => exact List.Sublist.refl _
  | expireOverdue _ | cancel _ | mark _ _ => exact List.filter_sublist

def Op.Spares (rows : List Command) (hostId : HostId) : Op → Prop
  | .enqueue command _ => command.hostId ≠ hostId
  | .pop other | .peek other => other ≠ hostId
  | .mark commandId _ => ∀ row ∈ rows, row.id = commandId → row.hostId ≠ hostId
  | .expireOverdue _ | .cancel _ => False

theorem after_spares (refines : Refines capacity runs p x) {op : Op}
    (spares : op.Spares p.rows hostId) : (x.after runs op).line hostId = x.line hostId := by
  cases op with
  | enqueue command key =>
    have other : hostId ≠ command.hostId := Ne.symm spares
    rw [HostLines.after]
    split
    · rfl
    · split
      · exact Function.update_of_ne other _ _
      · rfl
  | pop other => exact Function.update_of_ne (Ne.symm spares) _ _
  | peek _ => rfl
  | mark commandId status =>
    refine WaitingLine.ext_mem fun entry => ?_
    simp only [HostLines.after, WaitingLine.mem_keep, goes, Bool.not_eq_true',
      decide_eq_false_iff_not, and_iff_left_iff_imp]
    intro member named
    obtain ⟨inside, host, _⟩ := mem_line_host refines member
    exact spares entry inside named host
  | expireOverdue _ | cancel _ => exact spares.elim

end Refinement

structure Fifo (capacity : Nat) (p : Process) : Prop where
  pop_least : ∀ hostId command, (pop p.rows hostId).1 = some command ↔
    ∃ row ∈ p.rows, row.hostId = hostId ∧ row.status = .queued ∧
      (∀ other ∈ p.rows, other.hostId = hostId → other.status = .queued →
        row.sequence ≤ other.sequence) ∧ { row with status := .inFlight } = command
  peek_pop : ∀ hostId, (pop p.rows hostId).1 =
    (peek p.rows hostId).map (fun row => { row with status := .inFlight })
  overdue : ∀ now, List.Forall₂ (fun row after => after = row ∨
      row.status = .queued ∧ row.expiresAt < now ∧ after = { row with status := .expired })
    p.rows (expireOverdue p.rows now).2
  back : ∀ command key q, opStep capacity p (.enqueue command key) = some q →
    command.status = .queued → (∀ k ∈ key, ∀ row ∈ p.rows, row.idempotencyKey ≠ some k) →
    (∀ row ∈ p.rows, row.hostId = command.hostId → row.sequence < command.sequence) →
      (waiting q.rows command.hostId).entries =
        (waiting p.rows command.hostId).entries ++ [offered command key]
  order : ∀ op q hostId, opStep capacity p op = some q →
    (∀ command key, op = .enqueue command key → command.hostId ≠ hostId) →
      (waiting q.rows hostId).entries.Sublist (waiting p.rows hostId).entries
  frame : ∀ op q hostId, opStep capacity p op = some q → op.Spares p.rows hostId →
    waiting q.rows hostId = waiting p.rows hostId

section Main

variable {capacity : Nat} {runs : List TaskRun} {p : Process} {x : HostLines}

theorem pop_eq (rows : List Command) (hostId : HostId) :
    (pop rows hostId).1 =
      (peek rows hostId).map (fun row => { row with status := .inFlight }) := by
  rw [pop, peek]
  cases oldestQueued rows hostId <;> rfl

theorem fifo_of_refines (refines : Refines capacity runs p x) : Fifo capacity p where
  pop_least := by
    intro hostId command
    rw [pop_eq, peek, oldestQueued_eq refines, Option.map_eq_some_iff]
    simp only [WaitingLine.head?_eq_some, refines.waits, isQueued, decide_eq_true_eq, and_assoc,
      and_imp]
  peek_pop := pop_eq p.rows
  overdue := by
    intro now
    refine List.forall₂_map_right_iff.mpr (List.forall₂_same.mpr fun row _ => ?_)
    rw [expireRow]
    split
    · next due =>
      obtain ⟨queued, before⟩ := of_decide_eq_true due
      exact .inr ⟨queued, before, rfl⟩
    · exact .inl rfl
  back := by
    intro command key q stepped queued absent last
    have after := opStep_refines refines stepped
    have new : ¬ ∃ k ∈ key, k ∈ x.keys := by
      rintro ⟨k, own, known⟩
      obtain ⟨row, member, carries⟩ := List.mem_map.mp ((refines.keys k).mp known)
      exact absent k own row member carries
    rw [← after.line_eq, ← refines.line_eq, HostLines.after, if_neg new, if_pos queued]
    dsimp only
    rw [Function.update_self]
    apply WaitingLine.join_last
    intro other member
    obtain ⟨inside, host, _⟩ := mem_line_host refines member
    exact last other inside host
  order := by
    intro op q hostId stepped elsewhere
    have after := opStep_refines refines stepped
    rw [← after.line_eq, ← refines.line_eq]
    exact after_order runs x op hostId elsewhere
  frame := by
    intro op q hostId stepped spares
    have after := opStep_refines refines stepped
    rw [← after.line_eq, ← refines.line_eq]
    exact after_spares refines spares

theorem outputs_of_settled (refines : Refines capacity runs p x) {ops : List Op} {row : Command}
    (member : row ∈ p.rows) (settled : row.status ≠ .queued) :
    ∀ command ∈ outputs (opStep capacity) popped p ops, command.id ≠ row.id := by
  have related := @outputs_related _ _ (opStep capacity) (fun _ _ => True) _ popped
    (fun settled next => next.id ≠ settled.id) (fun p => ∃ x, Refines capacity runs p x)
    (fun row p => (∃ x, Refines capacity runs p x) ∧
      ∃ other ∈ p.rows, other.id = row.id ∧ other.status ≠ .queued)
  refine related ?_ ?_ ?_ ⟨⟨x, refines⟩, row, member, rfl, settled⟩ ⟨x, refines⟩
    (meets_of_forall (fun _ _ => trivial) p)
  · rintro p op q ⟨x, refines⟩ _ stepped
    exact ⟨_, opStep_refines refines stepped⟩
  · rintro row p op q ⟨⟨x, refines⟩, done⟩ _ _ stepped
    exact ⟨⟨_, opStep_refines refines stepped⟩, settled_step refines stepped done⟩
  · rintro row p op command ⟨⟨x, refines⟩, other, inside, same, done⟩ returned named
    cases stepped : opStep capacity p op with
    | none =>
      cases op <;> first | cases returned | cases stepped
    | some q =>
      obtain ⟨⟨waits, there, own, queued⟩, _⟩ := popped_settles refines stepped returned
      have equal : other = waits :=
        key_injective refines.sound.ids inside there (same.trans (named.symm.trans own.symm))
      exact done (equal ▸ queued)

theorem popped_once (refines : Refines capacity runs p x) (ops : List Op) :
    (outputs (opStep capacity) popped p ops).Pairwise (fun a b => a.id ≠ b.id) := by
  induction ops generalizing p x with
  | nil => exact List.Pairwise.nil
  | cons op ops ih =>
    rw [outputs]
    cases stepped : opStep capacity p op with
    | none =>
      cases popped p op with
      | none => exact List.Pairwise.nil
      | some command => exact List.pairwise_singleton _ _
    | some q =>
      have next := opStep_refines refines stepped
      refine List.pairwise_append.mpr ⟨?_, ih next, ?_⟩
      · cases popped p op with
        | none => exact List.Pairwise.nil
        | some command => exact List.pairwise_singleton _ _
      · intro command here other later
        obtain ⟨_, row, member, same, settled⟩ :=
          popped_settles refines stepped (Option.mem_toList.mp here)
        exact same ▸ (outputs_of_settled next member settled other later).symm

/-- After any operations the lines of the table are those of the abstract queue, and the queue
keeps its promises; what was popped, cancelled or expired is not popped again. -/
theorem queue_refines_fifo (capacity : Nat) {tables : Tables} {ops : List Op}
    (ids : (tables.commands.map Command.id).Nodup)
    (keys : (tables.commands.filterMap Command.idempotencyKey).Nodup)
    (apart : (tables.commands.map (fun row => (row.hostId, row.sequence))).Nodup)
    (reached : run (opStep capacity) (Process.start tables) ops = some p) :
    (∀ hostId, waiting p.rows hostId =
        (ops.foldl (HostLines.after tables.runs) (HostLines.view tables.commands)).line hostId) ∧
      Fifo capacity p ∧
        (outputs (opStep capacity) popped (Process.start tables) ops).Pairwise
          (fun a b => a.id ≠ b.id) ∧
            ∀ before after q, ops = before ++ after →
              run (opStep capacity) (Process.start tables) before = some q →
                ∀ row ∈ q.rows, row.status ≠ .queued →
                  ∀ command ∈ outputs (opStep capacity) popped q after, command.id ≠ row.id := by
  have start : Refines capacity tables.runs (Process.start tables)
      (HostLines.view tables.commands) := start_refines ids keys apart
  have keep (p : Process) (op : Op) (q : Process) (x : HostLines)
      (refines : Refines capacity tables.runs p x) (_ : True)
      (stepped : opStep capacity p op = some q) :
      Refines capacity tables.runs q (x.after tables.runs op) := opStep_refines refines stepped
  have tracked {ops : List Op} {q : Process}
      (reached : run (opStep capacity) (Process.start tables) ops = some q) :
      Refines capacity tables.runs q
        (ops.foldl (HostLines.after tables.runs) (HostLines.view tables.commands)) :=
    run_tracks keep start reached (meets_of_forall (fun _ _ => trivial) _)
  refine ⟨fun hostId => ((tracked reached).line_eq hostId).symm, fifo_of_refines (tracked reached),
    popped_once start ops, ?_⟩
  intro before after q _ passed row member settled
  exact outputs_of_settled (tracked passed) member settled

end Main

def mixedOps : List Op :=
  [.enqueue (queuedCommand "a" 2) none, .enqueue (queuedCommand "b" 1) (some "key"),
    .enqueue { queuedCommand "c" 1 with hostId := "other", taskRunId := "gone" } none, .peek "host",
    .pop "host", .mark "b" .succeeded, .enqueue (queuedCommand "d" 3) (some "key"),
    .expireOverdue 301, .enqueue (queuedCommand "e" 4) none, .pop "host", .pop "other",
    .cancel "task", .pop "host"]

def runTables : Tables := { noTables with runs := [⟨"gone", "task", "other", .pending⟩] }

theorem mixed_popped : ∃ p,
    run (opStep 8) (Process.start runTables) mixedOps = some p ∧
      (outputs (opStep 8) popped (Process.start runTables) mixedOps).map Command.id = ["b", "e"] ∧
        Fifo 8 p := by
  obtain ⟨p, reached⟩ := Option.isSome_iff_exists.mp
    (show (run (opStep 8) (Process.start runTables) mixedOps).isSome = true by decide +kernel)
  refine ⟨p, reached, by decide +kernel, (queue_refines_fifo 8 ?_ ?_ ?_ reached).2.1⟩
  · exact List.nodup_nil
  · exact List.nodup_nil
  · exact List.nodup_nil

end HlHelper.CommandQueue
