import HlHelper.Library.Rows
import HlHelper.Library.Runs
import HlHelper.Live.HostStore
import HlHelper.Tables
import HlHelper.Wire

/-! `run_command_bridge`: the start-up replay of queued commands and the
`command.issued` events of the bus, handed to the live queues. -/

namespace HlHelper.Live

open HlHelper.Library

/-- An event on the channel `commands`. -/
inductive BusEvent where
  | issued (commandId : CommandId) (hostId : HostId)
  | pendingApproval
  deriving DecidableEq, Repr

structure Subscription where
  queue : List BusEvent
  droppedSinceAdvisory : Nat
  deriving DecidableEq

def maxQueue : Nat := 1024

/-- `_send_to_subscriber`: a full queue loses its oldest event. -/
def sendToSubscriber (sub : Subscription) (event : BusEvent) : Subscription :=
  if sub.queue.length < maxQueue then { sub with queue := sub.queue ++ [event] }
  else ⟨sub.queue.tail ++ [event], sub.droppedSinceAdvisory + 1⟩

/-- `replaying` holds the rows that the start-up query returned and the loop has
still to go through. -/
inductive BridgePhase where
  | stopped
  | subscribed
  | replaying (rows : List Command)
  | listening
  deriving DecidableEq

/-- `rows` are the committed commands, `unpublished` the publish tasks of their
commits in order. `handed` records the enqueues on the live queues. -/
structure HandOver where
  rows : List Command
  unpublished : List BusEvent
  sub : Subscription
  phase : BridgePhase
  hosts : Hosts
  handed : List (HostId × Command)

def HandOver.start (rows : List Command) : HandOver :=
  ⟨rows, [], ⟨[], 0⟩, .stopped, fun _ => none, []⟩

inductive HandOverEvent where
  | commit (batch : List Command) (events : List BusEvent)
  | publish
  | subscribe
  | query (order : List Command)
  | replay
  | next
  deriving DecidableEq

def HandOver.queued (w : HandOver) : List Command :=
  w.rows.filter (fun row => row.status = .queued)

/-- `session.get(Command, command_id)`. -/
def findRow (rows : List Command) (commandId : CommandId) : Option Command :=
  findKey Command.id rows commandId

section Step

variable (proto : Protobuf)

def HandOver.enqueue (w : HandOver) (hostId : HostId) (row : Command)
    (envelope : CommandEnvelope) : HandOver :=
  { w with
    hosts := w.hosts.enqueue hostId envelope
    handed := w.handed ++ [(hostId, row)] }

/-- One row of the replay. A row that does not parse raises, which ends the replay. -/
def replayRow (w : HandOver) : List Command → HandOver
  | [] => { w with phase := .listening }
  | row :: rest =>
    if row.envelopeBytes = [] then { w with phase := .replaying rest }
    else
      match proto.parse row.envelopeBytes with
      | none => { w with phase := .listening }
      | some envelope => { w.enqueue row.hostId row envelope with phase := .replaying rest }

def onBusEvent (w : HandOver) : BusEvent → HandOver
  | .pendingApproval => w
  | .issued commandId hostId =>
    match findRow w.rows commandId with
    | none => w
    | some row =>
      if row.envelopeBytes = [] then w
      else
        match proto.parse row.envelopeBytes with
        | none => w
        | some envelope => w.enqueue hostId row envelope

def handOverStep (w : HandOver) : HandOverEvent → Option HandOver
  | .commit batch events =>
    some { w with rows := w.rows ++ batch, unpublished := w.unpublished ++ events }
  | .publish =>
    match w.unpublished with
    | [] => none
    | event :: rest =>
      if w.phase = .stopped then some { w with unpublished := rest }
      else some { w with unpublished := rest, sub := sendToSubscriber w.sub event }
  | .subscribe => if w.phase = .stopped then some { w with phase := .subscribed } else none
  | .query order =>
    if w.phase = .subscribed ∧ order.Perm w.queued then
      some { w with phase := .replaying order }
    else none
  | .replay =>
    match w.phase with
    | .replaying rows => some (replayRow proto w rows)
    | _ => none
  | .next =>
    if w.phase = .listening then
      -- the advisory comes out of band, before the next queued event
      if 0 < w.sub.droppedSinceAdvisory then
        some { w with sub := { w.sub with droppedSinceAdvisory := 0 } }
      else
        match w.sub.queue with
        | [] => none
        | event :: rest =>
          some (onBusEvent proto { w with sub := { w.sub with queue := rest } } event)
    else none

/-- The events that are still to reach the bridge, oldest first. -/
def HandOver.waiting (w : HandOver) : List BusEvent := w.sub.queue ++ w.unpublished

def issuedRow (rows : List Command) : BusEvent → Option Command
  | .issued commandId _ => findRow rows commandId
  | .pendingApproval => none

def HandOver.replays (w : HandOver) : List Command :=
  match w.phase with
  | .replaying rows => rows
  | _ => []

/-- The commands that the bridge has before it, in order. -/
def HandOver.coming (w : HandOver) : List Command :=
  w.replays ++ w.waiting.filterMap (issuedRow w.rows)

def HandOver.queried (w : HandOver) : Bool :=
  match w.phase with
  | .replaying _ | .listening => true
  | _ => false

def Increasing (rows : List Command) : Prop :=
  rows.Pairwise (fun a b => a.hostId = b.hostId → a.sequence < b.sequence)

instance (rows : List Command) : Decidable (Increasing rows) :=
  inferInstanceAs (Decidable (rows.Pairwise _))

def Usable (row : Command) : Prop :=
  row.envelopeBytes ≠ [] ∧ (proto.parse row.envelopeBytes).isSome

instance (row : Command) : Decidable (Usable proto row) := inferInstanceAs (Decidable (_ ∧ _))

/-- What the commit of a dispatch adds: new queued commands with envelopes that
parse, with sequences above the host's earlier ones, each announced in order. -/
structure Dispatched (w : HandOver) (batch : List Command) (events : List BusEvent) : Prop where
  fresh : ((w.rows ++ batch).map Command.id).Nodup
  queued : ∀ row ∈ batch, row.status = .queued ∧ Usable proto row
  increasing : Increasing batch
  above : ∀ old ∈ w.rows, ∀ row ∈ batch, old.hostId = row.hostId → old.sequence < row.sequence
  announced : events.filterMap (issuedRow (w.rows ++ batch)) = batch
  addressed : ∀ event ∈ events, ∀ row ∈ w.rows ++ batch,
    issuedRow (w.rows ++ batch) event = some row → event = .issued row.id row.hostId
  unannounced : ∀ event ∈ w.waiting, issuedRow batch event = none

instance (w : HandOver) (batch : List Command) (events : List BusEvent) :
    Decidable (Dispatched proto w batch events) :=
  decidable_of_iff
    (((w.rows ++ batch).map Command.id).Nodup ∧
      (∀ row ∈ batch, row.status = .queued ∧ Usable proto row) ∧ Increasing batch ∧
      (∀ old ∈ w.rows, ∀ row ∈ batch, old.hostId = row.hostId → old.sequence < row.sequence) ∧
      events.filterMap (issuedRow (w.rows ++ batch)) = batch ∧
      (∀ event ∈ events, ∀ row ∈ w.rows ++ batch,
        issuedRow (w.rows ++ batch) event = some row → event = .issued row.id row.hostId) ∧
      ∀ event ∈ w.waiting, issuedRow batch event = none)
    ⟨fun ⟨a, b, c, d, e, f, g⟩ => ⟨a, b, c, d, e, f, g⟩,
      fun h => ⟨h.fresh, h.queued, h.increasing, h.above, h.announced, h.addressed,
        h.unannounced⟩⟩

/-- The condition on the state before an event: a full subscription gets no event,
and the start-up query returns usable rows, each host's in the order of their
sequences, at a time when no committed command is still to be announced. -/
def Steady (w : HandOver) : HandOverEvent → Prop
  | .commit batch events => Dispatched proto w batch events
  | .publish => w.phase ≠ .stopped → w.sub.queue.length < maxQueue
  | .query order =>
    Increasing order ∧ (∀ row ∈ order, Usable proto row) ∧
      w.waiting.filterMap (issuedRow w.rows) = []
  | .subscribe | .replay | .next => True

instance decidableSteady (w : HandOver) : ∀ event, Decidable (Steady proto w event)
  | .commit batch events => inferInstanceAs (Decidable (Dispatched proto w batch events))
  | .publish => inferInstanceAs (Decidable (_ → _))
  | .query _ => inferInstanceAs (Decidable (_ ∧ _ ∧ _))
  | .subscribe | .replay | .next => isTrue trivial

/-- Every queued command is handed to its own host's queue at most once, in the
order of the sequences, and all of them are once nothing is left to handle. -/
structure HandedOnce (w : HandOver) : Prop where
  once : (w.handed.map (fun entry => entry.2.id)).Nodup
  own : ∀ entry ∈ w.handed, entry.2 ∈ w.queued ∧ entry.2.hostId = entry.1
  increasing : w.handed.Pairwise (fun a b => a.1 = b.1 → a.2.sequence < b.2.sequence)
  complete : w.phase = .listening → w.waiting = [] →
    ∀ row ∈ w.queued, (row.hostId, row) ∈ w.handed
  live : ∀ hostId, ((w.hosts.stateOf hostId).queue).map some =
    (w.handed.filter (fun entry => entry.1 = hostId)).map
      (fun entry => proto.parse entry.2.envelopeBytes)

/-- The invariant: what was handed over and what is coming are together the queued
commands, in the order of their sequences. -/
structure Consistent (w : HandOver) : Prop where
  ids : (w.rows.map Command.id).Nodup
  events : ∀ event ∈ w.waiting, ∀ row, issuedRow w.rows event = some row →
    event = .issued row.id row.hostId
  before : w.queried = false → w.handed = []
  usable : w.queried = true → ∀ row ∈ w.coming, Usable proto row
  line : w.queried = true → Increasing (w.handed.map Prod.snd ++ w.coming)
  members : w.queried = true → ∀ row,
    row ∈ w.handed.map Prod.snd ++ w.coming ↔ row ∈ w.queued
  own : ∀ entry ∈ w.handed, entry.2.hostId = entry.1
  live : ∀ hostId, ((w.hosts.stateOf hostId).queue).map some =
    (w.handed.filter (fun entry => entry.1 = hostId)).map
      (fun entry => proto.parse entry.2.envelopeBytes)

variable {proto}

variable {rows batch : List Command} {w v : HandOver} {events : List BusEvent}

theorem issuedRow_append {event : BusEvent} (unannounced : issuedRow batch event = none) :
    issuedRow (rows ++ batch) event = issuedRow rows event := by
  cases event with
  | pendingApproval => rfl
  | issued commandId hostId =>
    simp only [issuedRow, findRow] at unannounced ⊢
    rw [findKey_append, unannounced, Option.or_none]

theorem issuedRow_mem {event : BusEvent} {row : Command} (found : issuedRow rows event = some row) :
    row ∈ rows := by
  cases event with
  | pendingApproval => simp [issuedRow] at found
  | issued commandId hostId => exact (findKey_some found).1

theorem coming_commit (dispatched : Dispatched proto w batch events) :
    HandOver.coming { w with rows := w.rows ++ batch, unpublished := w.unpublished ++ events } =
      w.coming ++ batch := by
  have old : w.waiting.filterMap (issuedRow (w.rows ++ batch)) =
      w.waiting.filterMap (issuedRow w.rows) :=
    List.filterMap_congr (fun event member =>
      issuedRow_append (dispatched.unannounced event member))
  have split : HandOver.waiting
      { w with rows := w.rows ++ batch, unpublished := w.unpublished ++ events } =
      w.waiting ++ events := by
    simp [HandOver.waiting]
  simp only [HandOver.coming, split, List.filterMap_append, old, dispatched.announced,
    List.append_assoc]
  rfl

theorem queued_commit (dispatched : Dispatched proto w batch events) :
    HandOver.queued { w with rows := w.rows ++ batch, unpublished := w.unpublished ++ events } =
      w.queued ++ batch := by
  have whole : batch.filter (fun row => row.status = .queued) = batch :=
    List.filter_eq_self.mpr (fun row member => by simp [(dispatched.queued row member).1])
  simp [HandOver.queued, whole]

section

variable (consistent : Consistent proto w)
include consistent

theorem commit_consistent (dispatched : Dispatched proto w batch events) :
    Consistent proto
      { w with rows := w.rows ++ batch, unpublished := w.unpublished ++ events } := by
  have rows_of_queued : ∀ row ∈ w.queued, row ∈ w.rows :=
    fun row member => (List.mem_filter.mp member).1
  refine ⟨dispatched.fresh, ?_, consistent.before, ?_, ?_, ?_, consistent.own, consistent.live⟩
  · intro event member row found
    simp only [HandOver.waiting, List.mem_append] at member
    rcases member with old | old | new
    · have same := dispatched.unannounced event (List.mem_append_left _ old)
      rw [issuedRow_append same] at found
      exact consistent.events event (List.mem_append_left _ old) row found
    · have same := dispatched.unannounced event (List.mem_append_right _ old)
      rw [issuedRow_append same] at found
      exact consistent.events event (List.mem_append_right _ old) row found
    · exact dispatched.addressed event new row (issuedRow_mem found) found
  · intro queried row member
    rw [coming_commit dispatched] at member
    rcases List.mem_append.mp member with old | new
    · exact consistent.usable queried row old
    · exact (dispatched.queued row new).2
  · intro queried
    rw [coming_commit dispatched, ← List.append_assoc]
    refine List.pairwise_append.mpr ⟨consistent.line queried, dispatched.increasing, ?_⟩
    intro old member row new
    exact dispatched.above old (rows_of_queued old ((consistent.members queried old).mp member))
      row new
  · intro queried row
    rw [coming_commit dispatched, queued_commit dispatched, ← List.append_assoc, List.mem_append,
      List.mem_append (s := w.queued), consistent.members queried row]

theorem Consistent.unmoved (rows : v.rows = w.rows)
    (waiting : ∀ event ∈ v.waiting, event ∈ w.waiting)
    (queried : v.queried = true → w.queried = true)
    (coming : v.queried = true → v.coming = w.coming) (handed : v.handed = w.handed)
    (hosts : v.hosts = w.hosts) (before : v.queried = false → w.queried = false) :
    Consistent proto v := by
  refine ⟨rows ▸ consistent.ids, ?_, ?_, ?_, ?_, ?_, handed ▸ consistent.own, ?_⟩
  · intro event member row found
    rw [rows] at found
    exact consistent.events event (waiting event member) row found
  · intro not_queried
    rw [handed]
    exact consistent.before (before not_queried)
  · intro now
    rw [coming now]
    exact consistent.usable (queried now)
  · intro now
    rw [coming now, handed]
    exact consistent.line (queried now)
  · intro now row
    rw [coming now, handed, HandOver.queued, rows]
    exact consistent.members (queried now) row
  · rw [hosts, handed]
    exact consistent.live

theorem publish_consistent (room : w.phase ≠ .stopped → w.sub.queue.length < maxQueue)
    (stepped : handOverStep proto w .publish = some v) : Consistent proto v := by
  simp only [handOverStep] at stepped
  cases pending : w.unpublished with
  | nil => simp [pending] at stepped
  | cons event rest =>
    simp only [pending] at stepped
    split at stepped
    · next stopped =>
      cases stepped
      have never : w.queried = false := by simp [HandOver.queried, stopped]
      refine consistent.unmoved rfl ?_ id (fun now => ?_) rfl rfl id
      · intro other member
        simp only [HandOver.waiting, pending, List.mem_append] at member ⊢
        exact member.imp id (List.mem_cons_of_mem _)
      · have now' : w.queried = true := now
        rw [never] at now'
        cases now'
    · next running =>
      cases stepped
      have same : HandOver.waiting
          { w with unpublished := rest, sub := sendToSubscriber w.sub event } =
            w.waiting := by
        simp [HandOver.waiting, sendToSubscriber, room running, pending]
      refine consistent.unmoved rfl ?_ id (fun _ => ?_) rfl rfl id
      · rw [same]
        exact fun _ member => member
      · simp only [HandOver.coming, same]
        rfl

theorem query_consistent {order : List Command} (steady : Steady proto w (.query order))
    (stepped : handOverStep proto w (.query order) = some v) : Consistent proto v := by
  obtain ⟨increasing, usable, none_waiting⟩ := steady
  simp only [handOverStep] at stepped
  split at stepped
  · next enabled =>
    obtain ⟨subscribed, perm⟩ := enabled
    cases stepped
    have never : w.queried = false := by simp [HandOver.queried, subscribed]
    have nothing := consistent.before never
    have coming : HandOver.coming { w with phase := .replaying order } = order := by
      have same : HandOver.waiting { w with phase := .replaying order } = w.waiting := rfl
      simp [HandOver.coming, same, HandOver.replays, none_waiting]
    refine ⟨consistent.ids, consistent.events, fun now => ?_, fun _ => ?_, fun _ => ?_,
      fun _ row => ?_, consistent.own, consistent.live⟩
    · simp [HandOver.queried] at now
    · rw [coming]
      exact usable
    · rw [coming, nothing]
      exact increasing
    · rw [coming, nothing]
      exact perm.mem_iff
  · cases stepped

theorem enqueue_consistent (queried : w.queried = true) {row : Command} {rest : List Command}
    {envelope : CommandEnvelope} (parsed : proto.parse row.envelopeBytes = some envelope)
    (coming : w.coming = row :: rest) (after : v.coming = rest) (rows : v.rows = w.rows)
    (waiting : ∀ event ∈ v.waiting, event ∈ w.waiting) (now : v.queried = true)
    (handed : v.handed = w.handed ++ [(row.hostId, row)])
    (hosts : v.hosts = w.hosts.enqueue row.hostId envelope) : Consistent proto v := by
  have line : v.handed.map Prod.snd ++ v.coming = w.handed.map Prod.snd ++ w.coming := by
    simp [handed, coming, after]
  refine ⟨rows ▸ consistent.ids, ?_, ?_, ?_, ?_, ?_, ?_, ?_⟩
  · intro event member other found
    rw [rows] at found
    exact consistent.events event (waiting event member) other found
  · intro never
    rw [now] at never
    cases never
  · intro _ other member
    refine consistent.usable queried other ?_
    rw [coming]
    rw [after] at member
    exact List.mem_cons_of_mem _ member
  · intro _
    rw [line]
    exact consistent.line queried
  · intro _ other
    rw [line, HandOver.queued, rows]
    exact consistent.members queried other
  · intro entry member
    rw [handed] at member
    rcases List.mem_append.mp member with old | new
    · exact consistent.own entry old
    · rw [List.mem_singleton.mp new]
  · intro hostId
    have live := consistent.live hostId
    rw [hosts, handed, List.filter_append, List.map_append, ← live]
    by_cases same : row.hostId = hostId
    · subst same
      simp [parsed]
    · have different : hostId ≠ row.hostId := fun equal => same equal.symm
      simp [same, different, Hosts.enqueue]

theorem replay_consistent (stepped : handOverStep proto w .replay = some v) :
    Consistent proto v := by
  simp only [handOverStep] at stepped
  split at stepped
  · next rows phase =>
    cases stepped
    have queried : w.queried = true := by simp [HandOver.queried, phase]
    cases rows with
    | nil =>
      refine consistent.unmoved rfl (fun _ member => member) (fun _ => queried) ?_ rfl rfl ?_
      · simp [replayRow, HandOver.coming, HandOver.replays, HandOver.waiting, phase]
      · simp [replayRow, HandOver.queried]
    | cons row rest =>
      have coming : w.coming = row :: (rest ++ w.waiting.filterMap (issuedRow w.rows)) := by
        simp [HandOver.coming, HandOver.replays, phase]
      obtain ⟨nonempty, parses⟩ := consistent.usable queried row (by simp [coming])
      obtain ⟨envelope, parsed⟩ := Option.isSome_iff_exists.mp parses
      simp only [replayRow, nonempty, if_false, parsed]
      exact enqueue_consistent consistent queried parsed coming rfl rfl
        (fun _ member => member) rfl rfl rfl
  · cases stepped

theorem next_consistent (stepped : handOverStep proto w .next = some v) : Consistent proto v := by
  simp only [handOverStep] at stepped
  split at stepped
  · next listening =>
    have queried : w.queried = true := by simp [HandOver.queried, listening]
    split at stepped
    · cases stepped
      exact consistent.unmoved rfl (fun _ member => member) id (fun _ => rfl) rfl rfl id
    · cases queue : w.sub.queue with
      | nil => simp [queue] at stepped
      | cons event rest =>
        simp only [queue, Option.some.injEq] at stepped
        have waiting : w.waiting = event :: (rest ++ w.unpublished) := by
          simp [HandOver.waiting, queue]
        have skipped (nothing : issuedRow w.rows event = none) :
            Consistent proto { w with sub := { w.sub with queue := rest } } := by
          refine consistent.unmoved rfl ?_ id (fun _ => ?_) rfl rfl id
          · intro other member
            rw [waiting]
            exact List.mem_cons_of_mem _ member
          · simp only [HandOver.coming, waiting, List.filterMap_cons, nothing]
            rfl
        cases found : issuedRow w.rows event with
        | none =>
          cases event with
          | pendingApproval => exact stepped ▸ skipped found
          | issued commandId hostId =>
            have missing : findRow w.rows commandId = none := found
            simp only [onBusEvent, missing] at stepped
            exact stepped ▸ skipped found
        | some row =>
          have event_eq := consistent.events event (by simp [waiting]) row found
          subst event_eq
          have coming : w.coming =
              row :: (rest ++ w.unpublished).filterMap (issuedRow w.rows) := by
            simp [HandOver.coming, HandOver.replays, listening, waiting, found]
          obtain ⟨nonempty, parses⟩ := consistent.usable queried row (by simp [coming])
          obtain ⟨envelope, parsed⟩ := Option.isSome_iff_exists.mp parses
          have present : findRow w.rows row.id = some row := found
          simp only [onBusEvent, present, nonempty, if_false, parsed] at stepped
          subst stepped
          refine enqueue_consistent consistent queried parsed coming ?_ rfl ?_ queried rfl rfl
          · simp [HandOver.coming, HandOver.replays, HandOver.waiting, HandOver.enqueue,
              listening]
          · intro other member
            rw [waiting]
            exact List.mem_cons_of_mem _ member
  · cases stepped

end

theorem start_consistent (ids : (rows.map Command.id).Nodup) :
    Consistent proto (HandOver.start rows) where
  ids := ids
  events := by simp [HandOver.start, HandOver.waiting]
  before := fun _ => rfl
  usable := by simp [HandOver.start, HandOver.queried]
  line := by simp [HandOver.start, HandOver.queried]
  members := by simp [HandOver.start, HandOver.queried]
  own := by simp [HandOver.start]
  live := by simp [HandOver.start, Hosts.stateOf, HostState.new]

theorem handOverStep_consistent (w : HandOver) (event : HandOverEvent) (v : HandOver)
    (consistent : Consistent proto w) (steady : Steady proto w event)
    (stepped : handOverStep proto w event = some v) : Consistent proto v := by
  cases event with
  | commit batch events =>
    cases stepped
    exact commit_consistent consistent steady
  | publish => exact publish_consistent consistent steady stepped
  | subscribe =>
    simp only [handOverStep] at stepped
    split at stepped
    · next stopped =>
      cases stepped
      have never : w.queried = false := by simp [HandOver.queried, stopped]
      exact consistent.unmoved rfl (fun _ member => member)
        (fun now => by simp [HandOver.queried] at now)
        (fun now => by simp [HandOver.queried] at now) rfl rfl (fun _ => never)
    · cases stepped
  | query order => exact query_consistent consistent steady stepped
  | replay => exact replay_consistent consistent stepped
  | next => exact next_consistent consistent stepped

theorem increasing_nodup (increasing : Increasing rows) : rows.Nodup :=
  increasing.imp (fun less same => by
    subst same
    exact absurd (less rfl) (Nat.lt_irrefl _))

theorem consistent_handedOnce (consistent : Consistent proto w) : HandedOnce proto w := by
  cases queried : w.queried with
  | false =>
    have nothing := consistent.before queried
    refine ⟨by simp [nothing], by simp [nothing], by simp [nothing], ?_, consistent.live⟩
    intro listening
    simp [HandOver.queried, listening] at queried
  | true =>
    have line := consistent.line queried
    have members := consistent.members queried
    have handed_increasing := (List.pairwise_append.mp line).1
    have inside : ∀ entry ∈ w.handed, entry.2 ∈ w.queued := fun entry member =>
      (members entry.2).mp (List.mem_append_left _ (List.mem_map.mpr ⟨entry, member, rfl⟩))
    refine ⟨?_, fun entry member => ⟨inside entry member, consistent.own entry member⟩, ?_, ?_,
      consistent.live⟩
    · have distinct := increasing_nodup handed_increasing
      have shape : w.handed.map (fun entry => entry.2.id) =
          (w.handed.map Prod.snd).map Command.id := by simp
      rw [shape]
      refine distinct.map_on ?_
      intro first left second right same
      obtain ⟨a, here, rfl⟩ := List.mem_map.mp left
      obtain ⟨b, there, rfl⟩ := List.mem_map.mp right
      exact List.inj_on_of_nodup_map consistent.ids
        (List.mem_filter.mp (inside a here)).1 (List.mem_filter.mp (inside b there)).1 same
    · have by_host := List.pairwise_map.mp handed_increasing
      refine by_host.imp_of_mem ?_
      intro a b left right less same
      refine less ?_
      rw [consistent.own a left, consistent.own b right, same]
    · intro listening nothing row member
      have coming : w.coming = [] := by
        simp [HandOver.coming, HandOver.replays, listening, nothing]
      have handed := (members row).mpr member
      rw [coming, List.append_nil] at handed
      obtain ⟨entry, present, rfl⟩ := List.mem_map.mp handed
      have own := consistent.own entry present
      rw [own]
      exact present

end Step

/-- In every run whose events meet the condition, from any table of commands, the
bridge hands the queued commands over exactly once and in order. -/
theorem bridge_run_hands_over_once (proto : Protobuf) {rows : List Command}
    (ids : (rows.map Command.id).Nodup) {events : List HandOverEvent} {w : HandOver}
    (reached : run (handOverStep proto) (HandOver.start rows) events = some w)
    (steady : Meets (handOverStep proto) (Steady proto) (HandOver.start rows) events) :
    HandedOnce proto w :=
  consistent_handedOnce (run_keeps handOverStep_consistent (start_consistent ids) reached steady)

/-- A queued command of `h1` whose envelope holds the command id `c` and a digit. -/
def queuedRow (commandId : CommandId) (sequence : Nat) (digit : UInt8) : Command where
  id := commandId
  taskRunId := "r1"
  hostId := "h1"
  sequence := sequence
  envelopeBytes := [10, 2, 99, digit]
  risk := .high
  issuedAt := 0
  expiresAt := 0
  status := .queued
  idempotencyKey := none

def startUpEvents : List HandOverEvent :=
  [.subscribe, .query [queuedRow "c1" 1 49], .commit [queuedRow "c2" 2 50] [.issued "c2" "h1"],
    .publish, .replay, .replay, .next]

theorem start_up_hands_over_once :
    ∃ w, run (handOverStep Wire.protobuf) (HandOver.start [queuedRow "c1" 1 49]) startUpEvents =
        some w ∧ HandedOnce Wire.protobuf w := by
  have finishes : (run (handOverStep Wire.protobuf) (HandOver.start [queuedRow "c1" 1 49])
      startUpEvents).isSome := by decide
  have steady : Meets (handOverStep Wire.protobuf) (Steady Wire.protobuf)
      (HandOver.start [queuedRow "c1" 1 49]) startUpEvents := by decide
  obtain ⟨w, reached⟩ := Option.isSome_iff_exists.mp finishes
  exact ⟨w, reached, bridge_run_hands_over_once Wire.protobuf (by decide) reached steady⟩

/-- A command committed between the subscription and the start-up query is handed
over by the replay and again by its event. -/
theorem early_commit_handed_twice :
    ∃ w, run (handOverStep Wire.protobuf) (HandOver.start [])
        [.subscribe, .commit [queuedRow "c1" 1 49] [.issued "c1" "h1"], .publish,
          .query [queuedRow "c1" 1 49], .replay, .replay, .next] = some w ∧
      (w.hosts.stateOf "h1").queue = [named "c1", named "c1"] ∧
      ¬ HandedOnce Wire.protobuf w := by
  have finishes : (run (handOverStep Wire.protobuf) (HandOver.start [])
      [.subscribe, .commit [queuedRow "c1" 1 49] [.issued "c1" "h1"], .publish,
        .query [queuedRow "c1" 1 49], .replay, .replay, .next]).map
      (fun w => ((w.hosts.stateOf "h1").queue, w.handed.map (fun entry => entry.2.id))) =
        some ([named "c1", named "c1"], ["c1", "c1"]) := by decide
  obtain ⟨w, reached, outcome⟩ := Option.map_eq_some_iff.mp finishes
  obtain ⟨queue, handed⟩ := Prod.mk.inj outcome
  refine ⟨w, reached, queue, ?_⟩
  intro handedOnce
  have once := handedOnce.once
  rw [handed] at once
  exact absurd once (by decide)

end HlHelper.Live
