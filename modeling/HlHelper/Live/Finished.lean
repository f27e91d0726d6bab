import HlHelper.Live.Lifecycle
import HlHelper.Tasks.Soundness

/-! A finished command is not delivered again, in runs in which commands finish
while no copy of them waits. -/

namespace HlHelper.Live

open HlHelper.Library HlHelper.Tasks

section Stream

variable {hostId : HostId} {b c : Bridge}

/-- A step of one host's stream brings no command in, but for the unacked ones
that a new connection puts on the queue. -/
structure Passes (hostId : HostId) (b c : Bridge) (replayed : List CommandEnvelope) : Prop where
  others : ∀ other, other ≠ hostId → (c.hosts.stateOf other).queue = (b.hosts.stateOf other).queue ∧
    (c.hosts.stateOf other).unacked = (b.hosts.stateOf other).unacked
  waiting : ∀ envelope ∈ c.held ++ c.queue hostId,
    envelope ∈ b.held ++ b.queue hostId ∨ envelope ∈ replayed
  unacked : ∀ envelope ∈ (c.hosts.stateOf hostId).unacked.values,
    envelope ∈ (b.hosts.stateOf hostId).unacked.values ∨ envelope ∈ b.held

/-- The unacked commands that an event puts back on the queue. -/
def replayedBy (hostId : HostId) (b : Bridge) : BridgeEvent → List CommandEnvelope
  | .connect => (b.hosts.stateOf hostId).unacked.values
  | _ => []

theorem Passes.of_hosts (queues : ∀ other,
      (c.hosts.stateOf other).queue = (b.hosts.stateOf other).queue ∧
        (c.hosts.stateOf other).unacked = (b.hosts.stateOf other).unacked)
    (held : ∀ envelope ∈ c.held, envelope ∈ b.held) : Passes hostId b c [] where
  others := fun other _ => queues other
  waiting := by
    intro envelope member
    rw [Bridge.queue, (queues hostId).1] at member
    rcases List.mem_append.mp member with inside | queued
    · exact .inl (List.mem_append_left _ (held envelope inside))
    · exact .inl (List.mem_append_right _ queued)
  unacked := by
    rw [(queues hostId).2]
    exact fun _ member => .inl member

theorem stateOf_putBack_other {hosts : Hosts} (pull : Option CommandEnvelope) {other : HostId}
    (different : other ≠ hostId) :
    (putBack hostId hosts pull).stateOf other = hosts.stateOf other := by
  cases pull with
  | none => rfl
  | some envelope => simp [putBack, Hosts.enqueue, different]

theorem putBack_commands (hostId : HostId) (hosts : Hosts) (pull : Option CommandEnvelope) :
    ((putBack hostId hosts pull).stateOf hostId).queue =
        (hosts.stateOf hostId).queue ++ pull.toList ∧
      ((putBack hostId hosts pull).stateOf hostId).unacked = (hosts.stateOf hostId).unacked := by
  cases pull <;> simp [putBack]

theorem putBack_passes {pull : Option CommandEnvelope} (held : b.held = pull.toList)
    {hosts : Hosts} (back : ∀ other,
      (hosts.stateOf other).queue = ((putBack hostId b.hosts pull).stateOf other).queue ∧
        (hosts.stateOf other).unacked = ((putBack hostId b.hosts pull).stateOf other).unacked)
    (same : c.hosts = hosts) (released : c.held = []) : Passes hostId b c [] := by
  obtain ⟨queue, unacked⟩ := putBack_commands hostId b.hosts pull
  subst same
  refine ⟨fun other different => ?_, fun envelope member => ?_, fun envelope member => ?_⟩
  · rw [(back other).1, (back other).2, stateOf_putBack_other pull different]
    exact ⟨rfl, rfl⟩
  · rw [released, List.nil_append, Bridge.queue, (back hostId).1, queue, ← held] at member
    exact .inl (List.mem_append.mpr (List.mem_append.mp member).symm)
  · rw [(back hostId).2, unacked] at member
    exact .inl member

theorem wake_passes (stepped : bridgeStep hostId b .wake = some c) : Passes hostId b c [] := by
  obtain ⟨pull, stream, held, ⟨_, rfl | rfl⟩ | ⟨cmd, rfl, rfl⟩⟩ := wake_step stepped
  · exact putBack_passes held (Hosts.unregister_commands _ hostId) rfl rfl
  · exact putBack_passes held (fun _ => ⟨rfl, rfl⟩) rfl rfl
  · refine ⟨fun other different => ?_, fun envelope member => ?_, fun envelope member => ?_⟩
    · simp [Hosts.markInFlight, different]
    · simp only [Bridge.held, Phase.held, List.nil_append, Bridge.queue,
        Hosts.stateOf_markInFlight] at member
      exact .inl (List.mem_append_right _ member)
    · simp only [Hosts.stateOf_markInFlight] at member
      rcases OrderedMap.mem_values_insert member with old | rfl
      · exact .inl old
      · exact .inr (by simp [held])

theorem connect_passes (stepped : bridgeStep hostId b .connect = some c) :
    Passes hostId b c (b.hosts.stateOf hostId).unacked.values := by
  simp only [bridgeStep] at stepped
  cases registered : b.hosts.register hostId with
  | error error =>
    simp only [registered, Option.some.injEq] at stepped
    subst stepped
    exact ⟨fun _ _ => ⟨rfl, rfl⟩, fun _ member => .inl member, fun _ member => .inl member⟩
  | ok hosts =>
    simp only [registered, Option.some.injEq] at stepped
    subst stepped
    obtain ⟨_, rfl⟩ := Hosts.register_eq_ok.mp registered
    refine ⟨fun other different => by simp [different], fun envelope member => ?_,
      fun envelope member => .inl (by simpa using member)⟩
    simp only [Bridge.held, Phase.held, List.nil_append, Bridge.queue,
      Hosts.stateOf_set_same] at member
    rcases List.mem_append.mp member with unacked | queued
    · exact .inr unacked
    · exact .inl (List.mem_append_right _ queued)

theorem pull_passes {envelope : CommandEnvelope} {hosts : Hosts}
    (pulled : b.hosts.pull hostId = some (envelope, hosts)) (same : c.hosts = hosts)
    (held : ∀ other ∈ c.held, other ∈ b.held ∨ other = envelope) : Passes hostId b c [] := by
  obtain ⟨rest, queue, rfl⟩ := Hosts.pull_eq_some.mp pulled
  refine ⟨fun other different => by simp [same, different], fun other member => ?_,
    fun other member => .inl (by simpa [same] using member)⟩
  simp only [Bridge.queue, same, Hosts.stateOf_set_same, List.mem_append] at member
  simp only [Bridge.queue, queue, List.mem_append, List.mem_cons]
  rcases member with inside | queued
  · exact (held other inside).elim (fun old => .inl (.inl old))
      (fun first => .inl (.inr (.inl first)))
  · exact .inl (.inr (.inr queued))

theorem flags_pass {event : BridgeEvent} (flags : onlyFlags event = true)
    (stepped : bridgeStep hostId b event = some c) : Passes hostId b c [] := by
  obtain ⟨_, held, stream, rfl⟩ := flags_step flags stepped
  exact .of_hosts (fun _ => ⟨rfl, rfl⟩) (fun _ member => held ▸ member)

theorem cancel_passes (stepped : bridgeStep hostId b .cancel = some c) :
    Passes hostId b c [] := by
  simp only [bridgeStep, Option.bind_eq_some_iff] at stepped
  obtain ⟨⟨phase, control, recvDone⟩, running, stepped⟩ := stepped
  cases stepped
  cases phase with
  | starting => exact .of_hosts (fun _ => ⟨rfl, rfl⟩) (by simp [onCancel, Bridge.held])
  | waiting pull ctrlDone termDone =>
    exact .of_hosts (Hosts.unregister_commands _ hostId) (by simp [onCancel, Bridge.held])
  | yielded =>
    exact .of_hosts (Hosts.unregister_commands _ hostId) (by simp [onCancel, Bridge.held])

theorem bridgeStep_passes {event : BridgeEvent} (enqueues : ∀ envelope, event ≠ .enqueue envelope)
    (acks : ∀ commandId, event ≠ .ack commandId) (stepped : bridgeStep hostId b event = some c) :
    Passes hostId b c (replayedBy hostId b event) := by
  cases event with
  | enqueue envelope => exact absurd rfl (enqueues envelope)
  | ack commandId => exact absurd rfl (acks commandId)
  | terminate =>
    cases stepped
    exact .of_hosts (Hosts.terminate_commands b.hosts hostId) (fun _ member => member)
  | connect => exact connect_passes stepped
  | wake => exact wake_passes stepped
  | cancel => exact cancel_passes stepped
  | orphanTakes =>
    simp only [bridgeStep] at stepped
    cases pulled : b.hosts.pull hostId with
    | none => simp [pulled] at stepped
    | some taken =>
      simp only [pulled, Option.map_eq_some_iff] at stepped
      obtain ⟨orphans, _, rfl⟩ := stepped
      exact pull_passes pulled rfl (fun _ member => .inl member)
  | pullTakes =>
    obtain ⟨envelope, hosts, stream, pulled, _, _, held, rfl⟩ := pullTakes_step stepped
    exact pull_passes pulled rfl (fun _ member => .inr (List.mem_singleton.mp (held ▸ member)))
  | start initialInterval => exact flags_pass rfl stepped
  | pushControl => exact flags_pass rfl stepped
  | ctrlTakes => exact flags_pass rfl stepped
  | termSeen => exact flags_pass rfl stepped
  | recvEnds => exact flags_pass rfl stepped
  | resume => exact flags_pass rfl stepped

theorem streamMoves_waiting {event : BridgeEvent} :
    ∀ envelope ∈ streamMoves hostId b event,
      envelope ∈ b.held ++ b.queue hostId ∨ envelope ∈ replayedBy hostId b event := by
  intro envelope member
  cases event with
  | connect =>
    simp only [streamMoves] at member
    cases registered : b.hosts.register hostId with
    | error error => simp [registered] at member
    | ok hosts =>
      obtain ⟨_, rfl⟩ := Hosts.register_eq_ok.mp registered
      simp only [registered, Hosts.stateOf_set_same] at member
      rcases List.mem_append.mp member with unacked | queued
      · exact .inr unacked
      · exact .inl (List.mem_append_right _ queued)
  | wake => exact .inl (List.mem_append_left _ member)
  | _ => simp [streamMoves] at member

end Stream

section Invariant

variable {proto : Protobuf} {w v : Server}

/-- All copies of commands at one host, the unacked ones among them. -/
def Server.copies (w : Server) (hostId : HostId) : List CommandEnvelope :=
  (w.bridge hostId).held ++ (w.bridge hostId).queue hostId ++
    (w.handOver.hosts.stateOf hostId).unacked.values

/-- Every copy is one of a committed command of its host, and none that waits is
of a finished command. -/
structure Clean (proto : Protobuf) (w : Server) : Prop where
  ids : (w.handOver.rows.map Command.id).Nodup
  named : ∀ row ∈ w.handOver.rows, Named proto row
  events : ∀ event ∈ w.handOver.waiting, event = .pendingApproval ∨
    ∃ row ∈ w.handOver.rows, event = .issued row.id row.hostId
  replays : ∀ row ∈ w.handOver.replays, Named proto row ∧
    ∃ known ∈ w.handOver.rows, known.id = row.id ∧ known.hostId = row.hostId
  placed : ∀ hostId, ∀ envelope ∈ w.copies hostId,
    ∃ row ∈ w.handOver.rows, row.id = envelope.commandId ∧ row.hostId = hostId
  unfinished : ∀ row ∈ w.handOver.rows, w.waits row = true → finished w.db row.id = false

theorem waits_iff {row : Command} :
    w.waits row = true ↔
      (∃ envelope ∈ (w.bridge row.hostId).held ++ (w.bridge row.hostId).queue row.hostId,
        envelope.commandId = row.id) ∨
      (.issued row.id row.hostId) ∈ w.handOver.waiting ∨
      ∃ other ∈ w.handOver.replays, other.id = row.id := by
  simp only [Server.waits, Bool.or_eq_true, List.any_eq_true, decide_eq_true_eq, or_assoc,
    exists_eq_right]

theorem Clean.shuffle (clean : Clean proto w) (tables : v.db = w.db)
    (events : ∀ event ∈ v.handOver.waiting, event ∈ w.handOver.waiting)
    (replays : ∀ row ∈ v.handOver.replays, Named proto row ∧
      ∃ known ∈ w.handOver.rows, known.id = row.id ∧ known.hostId = row.hostId)
    (copies : ∀ hostId, ∀ envelope ∈ v.copies hostId,
      ∃ row ∈ w.handOver.rows, row.id = envelope.commandId ∧ row.hostId = hostId)
    (waits : ∀ row ∈ w.handOver.rows, v.waits row = true →
      finished w.db row.id = false) : Clean proto v := by
  have rows : v.handOver.rows = w.handOver.rows := congrArg Db.commands tables
  refine ⟨rows ▸ clean.ids, rows ▸ clean.named, ?_, ?_, ?_, ?_⟩
  · rw [rows]
    exact fun event member => clean.events event (events event member)
  · rw [rows]
    exact replays
  · rw [rows]
    exact copies
  · rw [rows, tables]
    exact waits

theorem Clean.finish (clean : Clean proto w) {db : Db} {update : Command → Command}
    (commands : db.commands = w.handOver.rows.map update)
    (kept : ∀ row, ∃ status, update row = { row with status := status })
    (quiet : ∀ row ∈ w.handOver.rows, w.waits row = true → finished db row.id = true →
      finished w.db row.id = true) : Clean proto (w.withDb db) := by
  have rows : (w.withDb db).handOver.rows = w.handOver.rows.map update := commands
  have found : ∀ row ∈ w.handOver.rows, ∃ known ∈ w.handOver.rows.map update,
      known.id = row.id ∧ known.hostId = row.hostId := by
    intro row member
    obtain ⟨status, same⟩ := kept row
    exact ⟨update row, List.mem_map_of_mem member, by simp [same], by simp [same]⟩
  refine ⟨?_, ?_, ?_, ?_, ?_, ?_⟩
  · rw [rows]
    refine unique_map clean.ids (fun row => ?_)
    obtain ⟨status, same⟩ := kept row
    rw [same]
  · rw [rows]
    intro row member
    obtain ⟨old, before, rfl⟩ := List.mem_map.mp member
    obtain ⟨status, same⟩ := kept old
    rw [same]
    exact clean.named old before
  · rw [rows]
    intro event member
    rcases clean.events event member with approval | ⟨row, before, rfl⟩
    · exact .inl approval
    · obtain ⟨known, inside, id, hostId⟩ := found row before
      exact .inr ⟨known, inside, by rw [id, hostId]⟩
  · rw [rows]
    intro row member
    obtain ⟨named, known, before, id, hostId⟩ := clean.replays row member
    obtain ⟨now, inside, id', hostId'⟩ := found known before
    exact ⟨named, now, inside, id'.trans id, hostId'.trans hostId⟩
  · rw [rows]
    intro hostId envelope member
    obtain ⟨row, before, id, host⟩ := clean.placed hostId envelope member
    obtain ⟨now, inside, id', host'⟩ := found row before
    exact ⟨now, inside, id'.trans id, host'.trans host⟩
  · rw [rows]
    intro row member waiting
    obtain ⟨old, before, rfl⟩ := List.mem_map.mp member
    obtain ⟨status, same⟩ := kept old
    rw [same] at waiting ⊢
    have was_waiting : w.waits old = true := waiting
    have unfinished := clean.unfinished old before was_waiting
    cases now : finished db old.id with
    | false => exact now
    | true => rw [quiet old before was_waiting now] at unfinished; cases unfinished

theorem finished_eq_false_iff {db : Db} {commandId : CommandId} :
    finished db commandId = false ↔
      (∀ result ∈ db.results, result.commandId ≠ commandId) ∧
        ∀ command ∈ db.commands, command.id = commandId →
          command.status ≠ .cancelled ∧ command.status ≠ .expired := by
  simp [finished]

theorem finished_of_setStatus {db : Db} {status : CommandStatus} {marked : List Command}
    (ids : (db.commands.map Command.id).Nodup) (inside : ∀ row ∈ marked, row ∈ db.commands)
    {row : Command} (member : row ∈ db.commands) (other : row ∉ marked)
    (done : finished { db with
      commands := db.commands.map (setStatus status (marked.map Command.id)) } row.id = true) :
    finished db row.id = true := by
  cases before : finished db row.id with
  | true => rfl
  | false =>
    obtain ⟨unanswered, live⟩ := finished_eq_false_iff.mp before
    rw [← done, Eq.comm, finished_eq_false_iff]
    refine ⟨unanswered, fun command present same => ?_⟩
    obtain ⟨old, known, rfl⟩ := List.mem_map.mp present
    obtain ⟨id, _⟩ := setStatus_kept status (marked.map Command.id) old
    have equal := key_injective ids known member (id.symm.trans same)
    subst equal
    have unmarked : old.id ∉ marked.map Command.id := by
      intro listed
      obtain ⟨mark, marking, sameId⟩ := List.mem_map.mp listed
      exact other (key_injective ids (inside mark marking) known sameId ▸ marking)
    rw [setStatus, if_neg unmarked]
    exact live old known rfl

theorem Clean.less (clean : Clean proto w) {next : HandOver}
    (rows : next.rows = w.handOver.rows) (hosts : next.hosts = w.handOver.hosts)
    (events : ∀ event ∈ next.waiting, event ∈ w.handOver.waiting)
    (replays : ∀ row ∈ next.replays, row ∈ w.handOver.replays) :
    Clean proto { w with handOver := next } := by
  have bridge : ∀ hostId, Server.bridge { w with handOver := next } hostId = w.bridge hostId := by
    simp [Server.bridge, hosts]
  refine clean.shuffle (by simp [Server.db, rows]) events ?_ ?_ ?_
  · exact fun row member => clean.replays row (replays row member)
  · intro hostId envelope member
    simp only [Server.copies, bridge, hosts] at member
    exact clean.placed hostId envelope member
  · intro row member waiting
    refine clean.unfinished row member (waits_iff.mpr ?_)
    rcases waits_iff.mp waiting with copy | issued | ⟨other, replayed, same⟩
    · rw [bridge] at copy
      exact .inl copy
    · exact .inr (.inl (events _ issued))
    · exact .inr (.inr ⟨other, replays other replayed, same⟩)

theorem Clean.enqueued (clean : Clean proto w) {row : Command} (member : row ∈ w.handOver.rows)
    (waits : w.waits row = true) {envelope : CommandEnvelope}
    (named : envelope.commandId = row.id) {next : HandOver} (rows : next.rows = w.handOver.rows)
    (hosts : next.hosts = w.handOver.hosts.enqueue row.hostId envelope)
    (events : ∀ event ∈ next.waiting, event ∈ w.handOver.waiting)
    (replays : ∀ row ∈ next.replays, row ∈ w.handOver.replays) :
    Clean proto { w with handOver := next } := by
  have held : ∀ hostId, (Server.bridge { w with handOver := next } hostId).held =
      (w.bridge hostId).held := fun _ => rfl
  have unacked : ∀ hostId, (next.hosts.stateOf hostId).unacked =
      (w.handOver.hosts.stateOf hostId).unacked := by
    intro hostId
    by_cases same : hostId = row.hostId
    · simp [hosts, same]
    · simp [hosts, Hosts.enqueue, same]
  have queue : ∀ hostId, ∀ other ∈
      (Server.bridge { w with handOver := next } hostId).queue hostId,
        other ∈ (w.bridge hostId).queue hostId ∨ (hostId = row.hostId ∧ other = envelope) := by
    intro hostId other
    simp only [Server.bridge, Bridge.queue, hosts]
    by_cases same : hostId = row.hostId
    · simp [same]
    · simp [Hosts.enqueue, same]
  refine clean.shuffle (by simp [Server.db, rows]) events ?_ ?_ ?_
  · exact fun row member => clean.replays row (replays row member)
  · intro hostId other copy
    simp only [Server.copies, held, unacked, List.mem_append] at copy
    rcases copy with (inside | queued) | unacked
    · exact clean.placed hostId other (by simp [Server.copies, inside])
    · rcases queue hostId other queued with old | ⟨rfl, rfl⟩
      · exact clean.placed hostId other (by simp [Server.copies, old])
      · exact ⟨row, member, named.symm, rfl⟩
    · exact clean.placed hostId other (by simp [Server.copies, unacked])
  · intro known present waiting
    rcases waits_iff.mp waiting with ⟨other, copy, same⟩ | issued | ⟨other, replayed, same⟩
    · rw [held] at copy
      rcases List.mem_append.mp copy with inside | queued
      · exact clean.unfinished known present
          (waits_iff.mpr (.inl ⟨other, List.mem_append_left _ inside, same⟩))
      · rcases queue _ other queued with old | ⟨_, rfl⟩
        · exact clean.unfinished known present
            (waits_iff.mpr (.inl ⟨other, List.mem_append_right _ old, same⟩))
        · rw [key_injective clean.ids present member (same.symm.trans named)]
          exact clean.unfinished row member waits
    · exact clean.unfinished known present (waits_iff.mpr (.inr (.inl (events _ issued))))
    · exact clean.unfinished known present
        (waits_iff.mpr (.inr (.inr ⟨other, replays other replayed, same⟩)))

def handedBy (before after : HandOver) : List CommandId :=
  (after.handed.drop before.handed.length).map (fun entry => entry.2.id)

theorem nothing_handed {before after : HandOver} {Holds : CommandId → Prop}
    (same : after.handed = before.handed) :
    ∀ commandId ∈ handedBy before after, Holds commandId := by
  simp [handedBy, same]

theorem publish_waiting {handOver next : HandOver}
    (stepped : handOverStep proto handOver .publish = some next) :
    next.rows = handOver.rows ∧ next.hosts = handOver.hosts ∧ next.handed = handOver.handed ∧
      next.replays = handOver.replays ∧ ∀ event ∈ next.waiting, event ∈ handOver.waiting := by
  simp only [handOverStep] at stepped
  cases pending : handOver.unpublished with
  | nil => simp [pending] at stepped
  | cons event rest =>
    simp only [pending] at stepped
    split at stepped
    · cases stepped
      refine ⟨rfl, rfl, rfl, rfl, fun other member => ?_⟩
      simp only [HandOver.waiting, pending, List.mem_append, List.mem_cons] at member ⊢
      exact member.imp_right .inr
    · cases stepped
      refine ⟨rfl, rfl, rfl, rfl, fun other member => ?_⟩
      simp only [HandOver.waiting, pending, List.mem_append, List.mem_cons, sendToSubscriber]
        at member ⊢
      split at member
      · simpa [or_assoc] using member
      · have tail : other ∈ handOver.sub.queue.tail → other ∈ handOver.sub.queue :=
          List.mem_of_mem_tail
        simp only [List.mem_append, List.mem_singleton] at member
        rcases member with (old | new) | later
        · exact .inl (tail old)
        · exact .inr (.inl new)
        · exact .inr (.inr later)

section

variable (clean : Clean proto w)
include clean

theorem query_clean {order : List Command} (perm : order.Perm w.handOver.queued)
    (unanswered : ∀ row ∈ w.handOver.queued, hasResult w.db row = false) : Clean proto
      { w with handOver := { w.handOver with phase := .replaying order } } := by
  have queued : ∀ row ∈ order, row ∈ w.handOver.rows ∧ row.status = .queued ∧
      hasResult w.db row = false := by
    intro row member
    have inside := perm.mem_iff.mp member
    obtain ⟨known, status⟩ := List.mem_filter.mp inside
    exact ⟨known, by simpa using status, unanswered row inside⟩
  refine clean.shuffle rfl (fun _ member => member) ?_ clean.placed ?_
  · intro row member
    obtain ⟨known, _⟩ := queued row member
    exact ⟨clean.named row known, row, known, rfl, rfl⟩
  · intro row member waiting
    rcases waits_iff.mp waiting with copy | issued | ⟨other, replayed, same⟩
    · exact clean.unfinished row member (waits_iff.mpr (.inl copy))
    · exact clean.unfinished row member (waits_iff.mpr (.inr (.inl issued)))
    · obtain ⟨known, status, no_result⟩ := queued other replayed
      have equal := key_injective clean.ids known member same
      subst equal
      refine finished_eq_false_iff.mpr ⟨?_, fun command present sameId => ?_⟩
      · simpa [hasResult] using no_result
      · have equal := key_injective clean.ids present known sameId
        subst equal
        simp [status]

theorem replay_clean {rows : List Command} (phase : w.handOver.phase = .replaying rows) :
    Clean proto { w with handOver := replayRow proto w.handOver rows } ∧
      ∀ commandId ∈ handedBy w.handOver (replayRow proto w.handOver rows),
        finished w.db commandId = false := by
  have replays : w.handOver.replays = rows := by simp [HandOver.replays, phase]
  have skipped : ∀ phase, (∀ row ∈ HandOver.replays { w.handOver with phase := phase },
      row ∈ w.handOver.replays) →
      Clean proto { w with handOver := { w.handOver with phase := phase } } :=
    fun phase fewer => clean.less rfl rfl (fun _ member => member) fewer
  cases rows with
  | nil => exact ⟨skipped .listening (by simp [HandOver.replays]), nothing_handed rfl⟩
  | cons row rest =>
    have later : ∀ other ∈ rest, other ∈ w.handOver.replays := by
      rw [replays]
      exact fun _ member => List.mem_cons_of_mem _ member
    simp only [replayRow]
    split
    · exact ⟨skipped (.replaying rest) later, nothing_handed rfl⟩
    · split
      · exact ⟨skipped .listening (by simp [HandOver.replays]), nothing_handed rfl⟩
      · next envelope parsed =>
        obtain ⟨named, known, member, id, hostId⟩ :=
          clean.replays row (by simp [replays])
        have waits : w.waits known = true :=
          waits_iff.mpr (.inr (.inr ⟨row, by simp [replays], id.symm⟩))
        refine ⟨clean.enqueued member waits ((named envelope parsed).trans id.symm) rfl ?_
          (fun _ same => same) later, ?_⟩
        · rw [hostId]
          rfl
        · simp only [handedBy, HandOver.enqueue, List.drop_left, List.map_cons, List.map_nil,
            List.mem_singleton, forall_eq]
          rw [← id]
          exact clean.unfinished known member waits

theorem onBusEvent_clean {event : BusEvent} {rest : List BusEvent}
    (queue : w.handOver.sub.queue = event :: rest) :
    let popped := { w.handOver with sub := { w.handOver.sub with queue := rest } }
    Clean proto { w with handOver := onBusEvent proto popped event } ∧
      ∀ commandId ∈ handedBy w.handOver (onBusEvent proto popped event),
        finished w.db commandId = false := by
  intro popped
  have waiting : w.handOver.waiting = event :: (rest ++ w.handOver.unpublished) := by
    simp [HandOver.waiting, queue]
  have later : ∀ other ∈ popped.waiting, other ∈ w.handOver.waiting := by
    rw [waiting]
    exact fun _ member => List.mem_cons_of_mem _ member
  have skipped : Clean proto { w with handOver := popped } ∧
      ∀ commandId ∈ handedBy w.handOver popped, finished w.db commandId = false :=
    ⟨clean.less rfl rfl later (fun _ member => member), nothing_handed rfl⟩
  cases event with
  | pendingApproval => exact skipped
  | issued commandId hostId =>
    simp only [onBusEvent]
    split
    · exact skipped
    · next row found =>
      split
      · exact skipped
      · split
        · exact skipped
        · next envelope parsed =>
          obtain ⟨inside, id⟩ := findKey_some found
          have issued := clean.events (.issued commandId hostId) (by simp [waiting])
          obtain ⟨known, member, same⟩ := issued.resolve_left (by simp)
          obtain ⟨sameId, sameHost⟩ := BusEvent.issued.inj same
          have equal := key_injective clean.ids member inside (sameId.symm.trans id.symm)
          subst equal
          have waits : w.waits known = true := by
            refine waits_iff.mpr (.inr (.inl ?_))
            rw [waiting, ← same]
            exact List.mem_cons_self
          have named := clean.named known member envelope parsed
          refine ⟨clean.enqueued member waits named rfl ?_ later
            (fun _ same => same), ?_⟩
          · rw [← sameHost]
            rfl
          · simp only [handedBy, HandOver.enqueue, popped, List.drop_left, List.map_cons,
              List.map_nil, List.mem_singleton, forall_eq]
            exact clean.unfinished known member waits

theorem handOver_clean {sql : SqlOrder} {event : HandOverEvent}
    (no_commit : ∀ batch events, event ≠ .commit batch events)
    (settling : Settling sql w (.handOver event)) {next : HandOver}
    (stepped : handOverStep proto w.handOver event = some next) :
    Clean proto { w with handOver := next } ∧
      ∀ commandId ∈ handedBy w.handOver next, finished w.db commandId = false := by
  cases event with
  | commit batch events => exact absurd rfl (no_commit batch events)
  | publish =>
    obtain ⟨rows, hosts, handed, replays, waiting⟩ := publish_waiting stepped
    exact ⟨clean.less rows hosts waiting (by simp [replays]), nothing_handed handed⟩
  | subscribe =>
    simp only [handOverStep] at stepped
    split at stepped
    · cases stepped
      exact ⟨clean.less rfl rfl (fun _ member => member) (by simp [HandOver.replays]),
        nothing_handed rfl⟩
    · cases stepped
  | query order =>
    simp only [handOverStep] at stepped
    split at stepped
    · next enabled =>
      cases stepped
      exact ⟨query_clean clean enabled.2 settling, nothing_handed rfl⟩
    · cases stepped
  | replay =>
    simp only [handOverStep] at stepped
    split at stepped
    · next rows phase =>
      cases stepped
      exact replay_clean clean phase
    · cases stepped
  | next =>
    simp only [handOverStep] at stepped
    split at stepped
    · split at stepped
      · cases stepped
        exact ⟨clean.less rfl rfl (fun _ member => member) (fun _ member => member),
          nothing_handed rfl⟩
      · split at stepped
        · cases stepped
        · next event rest queue =>
          cases stepped
          exact onBusEvent_clean clean queue
    · cases stepped

theorem Clean.at_host {hostId : HostId} {envelope : CommandEnvelope}
    (member : envelope ∈ (w.bridge hostId).held ++ (w.bridge hostId).queue hostId) :
    finished w.db envelope.commandId = false := by
  obtain ⟨row, present, id, host⟩ :=
    clean.placed hostId envelope (List.mem_append_left _ member)
  subst host
  rw [← id]
  exact clean.unfinished row present (waits_iff.mpr (.inl ⟨envelope, member, id.symm⟩))

end

theorem bridge_streamPart {hostId : HostId} {event : BridgeEvent} {b : Bridge}
    (moved : bridgeStep hostId (w.bridge hostId) event = some b)
    (stepped : streamPart w hostId event = some v) :
    v.handOver = { w.handOver with hosts := b.hosts } ∧ v.db = w.db ∧
      (v.bridge hostId).held = b.held ∧
      ∀ other, other ≠ hostId → (v.bridge other).held = (w.bridge other).held := by
  simp only [streamPart, moved, Option.map_some, Option.some.injEq] at stepped
  subst stepped
  refine ⟨rfl, rfl, by simp [Server.bridge, Bridge.held], fun other different => ?_⟩
  simp [Server.bridge, Bridge.held, different]

theorem stream_clean (clean : Clean proto w) {hostId : HostId} {event : BridgeEvent}
    (enqueues : ∀ envelope, event ≠ .enqueue envelope)
    (acks : ∀ commandId, event ≠ .ack commandId)
    (replayed : ∀ envelope ∈ replayedBy hostId (w.bridge hostId) event,
      finished w.db envelope.commandId = false)
    (stepped : streamPart w hostId event = some v) : Clean proto v := by
  obtain ⟨b, moved, _⟩ := Option.map_eq_some_iff.mp stepped
  have passes := bridgeStep_passes enqueues acks moved
  obtain ⟨handOver, tables, held, held_others⟩ := bridge_streamPart moved stepped
  have unacked : ∀ envelope ∈ replayedBy hostId (w.bridge hostId) event,
      envelope ∈ (w.handOver.hosts.stateOf hostId).unacked.values := by
    intro envelope member
    cases event <;> first | exact member | simp [replayedBy] at member
  have here : ∀ envelope ∈ (v.bridge hostId).held ++ (v.bridge hostId).queue hostId,
      envelope ∈ (w.bridge hostId).held ++ (w.bridge hostId).queue hostId ∨
        envelope ∈ replayedBy hostId (w.bridge hostId) event := by
    rw [held]
    simpa [Server.bridge, Bridge.queue, handOver] using passes.waiting
  have elsewhere : ∀ other, other ≠ hostId →
      (v.bridge other).held ++ (v.bridge other).queue other =
        (w.bridge other).held ++ (w.bridge other).queue other := by
    intro other different
    rw [held_others other different]
    simp [Server.bridge, Bridge.queue, handOver, (passes.others other different).1]
  refine clean.shuffle tables ?_ ?_ ?_ ?_
  · simp [handOver, HandOver.waiting]
  · simpa [handOver, HandOver.replays] using clean.replays
  · intro other envelope copy
    refine clean.placed other envelope ?_
    by_cases same : other = hostId
    · subst same
      rcases List.mem_append.mp copy with waiting | unacked_now
      · rcases here envelope waiting with old | back
        · exact List.mem_append_left _ old
        · exact List.mem_append_right _ (unacked envelope back)
      · rw [handOver] at unacked_now
        rcases passes.unacked envelope unacked_now with old | from_pull
        · exact List.mem_append_right _ old
        · exact List.mem_append_left _ (List.mem_append_left _ from_pull)
    · rw [Server.copies, elsewhere other same, handOver, (passes.others other same).2] at copy
      exact copy
  · intro row member waiting
    rcases waits_iff.mp waiting with ⟨envelope, copy, id⟩ | issued | replay
    · by_cases same : row.hostId = hostId
      · rw [same] at copy
        rw [← id]
        rcases here envelope copy with old | back
        · exact clean.at_host old
        · exact replayed envelope back
      · rw [elsewhere row.hostId same] at copy
        rw [← id]
        exact clean.at_host copy
    · rw [handOver] at issued
      exact clean.unfinished row member (waits_iff.mpr (.inr (.inl issued)))
    · rw [handOver] at replay
      exact clean.unfinished row member (waits_iff.mpr (.inr (.inr replay)))

theorem dispatch_clean (clean : Clean proto w) {task : Task} {run : Option TaskRun}
    {commands : List Command} {events : List BusEvent} (new : NewDispatch w.db task run commands)
    (issued : Issued proto commands events) :
    Clean proto { w with
      tasks := w.tasks ++ [task]
      runs := w.runs ++ run.toList
      handOver := { w.handOver with
        rows := w.handOver.rows ++ commands
        unpublished := w.handOver.unpublished ++ events } } := by
  have ids := new.commandIds
  have apart : ∀ old ∈ w.handOver.rows, ∀ row ∈ commands, old.id ≠ row.id := by
    intro old before row added same
    rw [List.map_append, List.nodup_append] at ids
    exact ids.2.2 old.id (List.mem_map_of_mem before) row.id (List.mem_map_of_mem added) same
  refine ⟨ids, ?_, ?_, ?_, ?_, ?_⟩
  · intro row member
    exact (List.mem_append.mp member).elim (clean.named row) (issued.1 row)
  · intro event member
    simp only [HandOver.waiting, ← List.append_assoc] at member
    rcases List.mem_append.mp member with old | added
    · rcases clean.events event old with advisory | ⟨row, before, same⟩
      · exact .inl advisory
      · exact .inr ⟨row, List.mem_append_left _ before, same⟩
    · rcases issued.2 event added with advisory | ⟨row, inside, same⟩
      · exact .inl advisory
      · exact .inr ⟨row, List.mem_append_right _ inside, same⟩
  · intro row member
    obtain ⟨named, known, before, same⟩ := clean.replays row member
    exact ⟨named, known, List.mem_append_left _ before, same⟩
  · intro hostId envelope copy
    obtain ⟨row, before, same⟩ := clean.placed hostId envelope copy
    exact ⟨row, List.mem_append_left _ before, same⟩
  · intro row member waiting
    rcases List.mem_append.mp member with old | added
    · have was_waiting : w.waits row = true := by
        refine waits_iff.mpr ?_
        rcases waits_iff.mp waiting with copy | announced | replay
        · exact .inl copy
        · refine .inr (.inl ?_)
          simp only [HandOver.waiting, ← List.append_assoc] at announced
          refine (List.mem_append.mp announced).resolve_right (fun fresh => ?_)
          obtain ⟨other, inside, same⟩ := (issued.2 _ fresh).resolve_left (by simp)
          exact apart row old other inside (BusEvent.issued.inj same).1
        · exact .inr (.inr replay)
      obtain ⟨unanswered, live⟩ :=
        finished_eq_false_iff.mp (clean.unfinished row old was_waiting)
      refine finished_eq_false_iff.mpr ⟨unanswered, fun command present same => ?_⟩
      rcases List.mem_append.mp present with before | fresh
      · exact live command before same
      · exact absurd same.symm (apart row old command fresh)
    · have no_result : ∀ result ∈ w.results, result.commandId ≠ row.id := by
        simpa [hasResult, Server.db] using new.unanswered row added
      refine finished_eq_false_iff.mpr ⟨no_result, fun command present same => ?_⟩
      rcases List.mem_append.mp present with before | fresh
      · exact absurd same (apart command before row added)
      · simp [new.queued command fresh]

theorem acceptResult_rows (sql : SqlOrder) (db : Db) (id : String) (env : ResultEnvelope) :
    (acceptResult sql db id env).commands = db.commands ∧
      (acceptResult sql db id env).results =
        db.results ++ [⟨id, env.commandId, env.hostId, env.sequence, env.status⟩] := by
  simp only [acceptResult]
  split
  · exact ⟨rfl, rfl⟩
  · split
    · exact ⟨rfl, rfl⟩
    · split <;> exact ⟨rfl, rfl⟩

theorem result_clean (clean : Clean proto w) (sql : SqlOrder) {id : String} {env : ResultEnvelope}
    (quiet : ∀ row ∈ w.handOver.rows, row.id = env.commandId → w.waits row = false) :
    Clean proto (w.withDb (acceptResult sql w.db id env)) := by
  obtain ⟨commands, results⟩ := acceptResult_rows sql w.db id env
  refine clean.finish (commands.trans (List.map_id _).symm) (fun row => ⟨row.status, rfl⟩) ?_
  intro row member waiting done
  cases before : finished w.db row.id with
  | true => rfl
  | false =>
    obtain ⟨unanswered, live⟩ := finished_eq_false_iff.mp before
    rw [← done, Eq.comm, finished_eq_false_iff, commands, results]
    refine ⟨fun result present same => ?_, live⟩
    rcases List.mem_append.mp present with old | new
    · exact unanswered result old same
    · obtain rfl := List.mem_singleton.mp new
      simp [quiet row member same.symm] at waiting

theorem mark_clean (clean : Clean proto w) {status : CommandStatus} {marked : List Command}
    {db : Db} (inside : ∀ row ∈ marked, row ∈ w.handOver.rows)
    (quiet : ∀ row ∈ marked, w.waits row = false)
    (commands : db.commands = w.handOver.rows.map (setStatus status (marked.map Command.id)))
    (results : db.results = w.results) : Clean proto (w.withDb db) := by
  refine clean.finish commands (fun row => setStatus_eq status _ row) ?_
  intro row member waiting done
  have marked_only : finished { w.db with
      commands := w.db.commands.map (setStatus status (marked.map Command.id)) } row.id = true := by
    rw [← done, finished, finished, commands, results]
    rfl
  refine finished_of_setStatus clean.ids inside member (fun listed => ?_) marked_only
  simp [quiet row listed] at waiting

theorem sweepOnce_rows (sql : SqlOrder) (db : Db) (now : Int) :
    (sweepOnce sql db now).commands =
        db.commands.map (setStatus .expired ((expiring db now).map Command.id)) ∧
      (sweepOnce sql db now).results = db.results := by
  rw [sweepOnce_eq]
  exact ⟨rfl, rfl⟩

theorem Clean.acked (clean : Clean proto w) {hosts : Hosts} {streams : HostId → HostStream}
    (queues : ∀ hostId, (hosts.stateOf hostId).queue = (w.handOver.hosts.stateOf hostId).queue)
    (unacked : ∀ hostId, ∀ envelope ∈ (hosts.stateOf hostId).unacked.values,
      envelope ∈ (w.handOver.hosts.stateOf hostId).unacked.values)
    (same : ∀ hostId, (streams hostId).stream = (w.streams hostId).stream) :
    Clean proto { w with handOver := { w.handOver with hosts := hosts }, streams := streams } := by
  have waiting : ∀ hostId,
      (Bridge.held ⟨hosts, (streams hostId).stream, (streams hostId).orphans, [], []⟩) ++
        (hosts.stateOf hostId).queue =
          (w.bridge hostId).held ++ (w.bridge hostId).queue hostId := by
    intro hostId
    rw [queues, Bridge.held, same]
    rfl
  refine clean.shuffle rfl (fun _ member => member) clean.replays ?_ ?_
  · intro hostId envelope copy
    refine clean.placed hostId envelope (List.mem_append.mpr ?_)
    rcases List.mem_append.mp copy with waits | later
    · exact .inl (waiting hostId ▸ waits)
    · exact .inr (unacked hostId envelope later)
  · intro row member waits
    refine clean.unfinished row member (waits_iff.mpr ((waits_iff.mp waits).imp_left ?_))
    rintro ⟨envelope, copy, id⟩
    exact ⟨envelope, waiting row.hostId ▸ copy, id⟩

theorem ack_clean (clean : Clean proto w) (hostId : HostId) (commandId : CommandId) :
    Clean proto { w with
      handOver := { w.handOver with hosts := (w.handOver.hosts.ack hostId commandId).2 }
      streams := Function.update w.streams hostId { w.streams hostId with acking := none } } := by
  have streams : ∀ other, (Function.update w.streams hostId
      { w.streams hostId with acking := none } other).stream = (w.streams other).stream := by
    intro other
    by_cases same : other = hostId
    · simp [same]
    · simp [same]
  rcases Hosts.ack_cases w.handOver.hosts hostId commandId with ⟨_, result⟩ | ⟨_, result⟩
  · rw [result]
    exact clean.acked (fun _ => rfl) (fun _ _ member => member) streams
  · rw [result]
    refine clean.acked (fun other => ?_) (fun other envelope member => ?_) streams
    · by_cases same : other = hostId
      · simp [same]
      · simp [same]
    · by_cases same : other = hostId
      · subst same
        simp only [Hosts.stateOf_set_same] at member
        exact OrderedMap.mem_values_of_mem_erase member
      · simpa [same] using member

theorem receiveResult_clean (clean : Clean proto w) {sql : SqlOrder} {hostId : HostId}
    {hostKnown verified : Bool} {id : String} {env : ResultEnvelope}
    (settling : Settling sql w (.result hostId hostKnown verified id env)) :
    Clean proto (receiveResult sql w hostId hostKnown verified id env) := by
  have streams : ∀ other, (Function.update w.streams hostId
      { w.streams hostId with acking := some env.commandId } other).stream =
        (w.streams other).stream := by
    intro other
    by_cases same : other = hostId
    · simp [same]
    · simp [same]
  simp only [receiveResult]
  split
  · next accepted =>
    exact (result_clean clean sql (settling accepted)).acked (fun _ => rfl)
      (fun _ _ member => member) streams
  · exact clean.acked (fun _ => rfl) (fun _ _ member => member) streams

theorem start_clean (clean : Clean proto w) :
    Clean proto
      { w with handOver := HandOver.start w.handOver.rows, streams := fun _ => .none } := by
  refine clean.shuffle rfl ?_ ?_ ?_ ?_
  · simp [HandOver.start, HandOver.waiting]
  · simp [HandOver.start, HandOver.replays]
  · intro hostId envelope copy
    simp [Server.copies, Server.bridge, HandOver.start, HostStream.none, Bridge.held, Bridge.queue,
      Hosts.stateOf, HostState.new] at copy
  · intro row member waiting
    simp [Server.waits, Server.bridge, HandOver.start, HostStream.none, Bridge.held, Bridge.queue,
      Hosts.stateOf, HostState.new, HandOver.waiting, HandOver.replays] at waiting

theorem new_clean : Clean proto Server.new := by
  constructor <;>
    simp [Server.new, HandOver.start, HandOver.waiting, HandOver.replays, Server.copies,
      Server.bridge, HostStream.none, Bridge.held, Bridge.queue, Hosts.stateOf, HostState.new]

theorem serverStep_clean (sql : SqlOrder) (w : Server) (event : ServerEvent) (v : Server)
    (clean : Clean proto w) (settling : Settling sql w event)
    (stepped : serverStep sql proto w event = some v) : Clean proto v := by
  cases event with
  | dispatch task run commands events =>
    simp only [serverStep] at stepped
    split at stepped
    · next enabled =>
      cases stepped
      exact dispatch_clean clean enabled.1 enabled.2
    · cases stepped
  | handOver event =>
    cases event with
    | commit batch events => simp [serverStep] at stepped
    | _ =>
      simp only [serverStep, Option.map_eq_some_iff] at stepped
      obtain ⟨next, moved, rfl⟩ := stepped
      exact (handOver_clean clean (by simp) settling moved).1
  | stream hostId event =>
    cases event with
    | enqueue envelope => simp [serverStep] at stepped
    | ack commandId => simp [serverStep] at stepped
    | connect =>
      have replayed : ∀ envelope ∈ replayedBy hostId (w.bridge hostId) .connect,
          finished w.db envelope.commandId = false := settling
      exact stream_clean clean (by simp) (by simp) replayed stepped
    | _ => exact stream_clean clean (by simp) (by simp) (by simp [replayedBy]) stepped
  | result hostId hostKnown verified id env =>
    simp only [serverStep] at stepped
    split at stepped
    · cases stepped
      exact receiveResult_clean clean settling
    · cases stepped
  | ack hostId =>
    simp only [serverStep, Option.map_eq_some_iff] at stepped
    obtain ⟨commandId, _, rfl⟩ := stepped
    exact ack_clean clean hostId commandId
  | cancel taskId =>
    cases stepped
    exact mark_clean clean (fun row member => (List.mem_filter.mp member).1) settling rfl rfl
  | sweep now =>
    cases stepped
    obtain ⟨commands, results⟩ := sweepOnce_rows sql w.db now
    exact mark_clean clean (fun row member => (List.mem_filter.mp member).1) settling commands
      results
  | restart =>
    cases stepped
    exact start_clean clean

theorem clean_leaves_finished (sql : SqlOrder) (w : Server) (event : ServerEvent)
    (clean : Clean proto w) (settling : Settling sql w event) {v : Server}
    (stepped : serverStep sql proto w event = some v) : LeavesFinished proto w event := by
  intro commandId member
  cases event with
  | handOver event =>
    have no_commit : ∀ batch events, event ≠ .commit batch events := by
      rintro batch events rfl
      simp [serverStep] at stepped
    simp only [moved] at member
    split at member
    · simp at member
    · next next handed => exact (handOver_clean clean no_commit settling handed).2 _ member
  | stream hostId event =>
    obtain ⟨envelope, inside, rfl⟩ := List.mem_map.mp member
    rcases streamMoves_waiting envelope inside with waiting | replayed
    · exact clean.at_host waiting
    · cases event with
      | connect => exact settling envelope replayed
      | _ => simp [replayedBy] at replayed
  | _ => simp [moved] at member

end Invariant

/-- In every run from the empty server in which commands finish while no copy of
them waits, no event puts a finished command on a queue or yields one. -/
theorem finished_never_delivered (sql : SqlOrder) (proto : Protobuf) {events : List ServerEvent}
    (finishes : (run (serverStep sql proto) Server.new events).isSome)
    (settling : Meets (serverStep sql proto) (Settling sql) Server.new events) :
    Meets (serverStep sql proto) (LeavesFinished proto) Server.new events :=
  meets_of_keeps (serverStep_clean sql)
    (fun w event _ clean allowed stepped => clean_leaves_finished sql w event clean allowed stepped)
    new_clean finishes settling

def answeredCommand : List ServerEvent :=
  [.handOver .subscribe, .handOver (.query []), .handOver .replay,
    .dispatch (shellTask "t1") (some ⟨"r1", "t1", "h1", .pending⟩) [queuedRow "c1" 1 49]
      [.issued "c1" "h1"],
    .handOver .publish, .handOver .next, .stream "h1" .connect, .stream "h1" (.start false),
    .stream "h1" .pullTakes, .stream "h1" .wake, .stream "h1" .resume,
    .result "h1" true true "x1" ⟨"c1", "h1", 1, .ok⟩, .ack "h1"]

theorem reconnect_after_result_moves_nothing :
    Meets (serverStep firstOfLatest Wire.protobuf) (LeavesFinished Wire.protobuf) Server.new
      (answeredCommand ++
        [.stream "h1" .recvEnds, .stream "h1" .wake, .stream "h1" .connect, .cancel "t1"]) :=
  finished_never_delivered firstOfLatest Wire.protobuf (by decide) (by decide)

theorem restart_redelivers_answered_command :
    (run (serverStep firstOfLatest Wire.protobuf) Server.new
      (answeredCommand ++ [.restart, .handOver .subscribe, .handOver (.query [queuedRow "c1" 1 49]),
        .handOver .replay])).isSome ∧
      ¬ Meets (serverStep firstOfLatest Wire.protobuf) (LeavesFinished Wire.protobuf) Server.new
        (answeredCommand ++ [.restart, .handOver .subscribe,
          .handOver (.query [queuedRow "c1" 1 49]), .handOver .replay]) := by
  constructor <;> decide

end HlHelper.Live
