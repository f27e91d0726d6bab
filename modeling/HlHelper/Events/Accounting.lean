import HlHelper.Events.Bus
import Mathlib

/-! What each subscription of the bus has been handed, and that every event of it is
delivered, queued or counted. -/

namespace HlHelper.Events.PubSub

open HlHelper.Library
open scoped List

variable {Mapping Time : Type*}

/-- The payload's count of dropped events; a published event announces none. -/
def Payload.dropped : Payload Mapping → Nat
  | .published _ => 0
  | .droppedCount count => count

def Payload.isPublished : Payload Mapping → Bool
  | .published _ => true
  | .droppedCount _ => false

def Item.event? : Item Mapping Time → Option (Event Mapping Time)
  | .event published => some published
  | .sentinel => none

def onChannel (channel : String) (log : List (Event Mapping Time)) : List (Event Mapping Time) :=
  log.filter (fun event => event.channel = channel)

namespace Subscription

def delivered (sub : Subscription Mapping Time) : List (Event Mapping Time) :=
  sub.yielded.filter (·.payload.isPublished)

def queued (sub : Subscription Mapping Time) : List (Event Mapping Time) :=
  sub.queue.filterMap Item.event?

def announced (sub : Subscription Mapping Time) : Nat :=
  (sub.yielded.map (·.payload.dropped)).sum

/-- What the ring buffer held for the subscription when it was made. -/
def replayable (sub : Subscription Mapping Time) : List (Event Mapping Time) :=
  match sub.sinceSequence with
  | none => []
  | some since => sub.held.filter (fun event => since < event.sequence)

def Fitted (sub : Subscription Mapping Time) : Prop :=
  sub.maxQueue ≤ 0 ∨ sub.replayable.length ≤ sub.maxQueue

/-- What was published on the channel from the subscription to its close. -/
def live (log : List (Event Mapping Time)) (sub : Subscription Mapping Time) :
    List (Event Mapping Time) :=
  onChannel sub.channel ((log.take (sub.closedAt.getD log.length)).drop sub.opened)

/-- What was published on the channel after the start point, the moment of the
subscription or the sequence it names. -/
def awaited (log : List (Event Mapping Time)) (sub : Subscription Mapping Time) :
    List (Event Mapping Time) :=
  match sub.sinceSequence with
  | none => onChannel sub.channel (log.drop sub.opened)
  | some since => (onChannel sub.channel log).filter (fun event => since < event.sequence)

def accountedFor (sub : Subscription Mapping Time) : Nat :=
  sub.delivered.length + sub.queued.length + sub.announced + sub.droppedSinceAdvisory

end Subscription

def InOrder (events : List (Event Mapping Time)) : Prop :=
  events.Pairwise (fun earlier later => earlier.sequence < later.sequence)

instance (events : List (Event Mapping Time)) : Decidable (InOrder events) :=
  inferInstanceAs (Decidable (List.Pairwise _ _))

/-- Every event after the start point is delivered, queued or counted. -/
def NothingMissing (bus : Bus Mapping Time) (sub : Subscription Mapping Time) : Prop :=
  InOrder sub.delivered ∧ (sub.awaited bus.published).length = sub.accountedFor

instance (bus : Bus Mapping Time) (sub : Subscription Mapping Time) :
    Decidable (NothingMissing bus sub) :=
  inferInstanceAs (Decidable (_ ∧ _))

section Log

variable {log : List (Event Mapping Time)} {event : Event Mapping Time}

theorem onChannel_append (channel : String) (front back : List (Event Mapping Time)) :
    onChannel channel (front ++ back) = onChannel channel front ++ onChannel channel back := by
  simp [onChannel]

/-- The log of a bus: sequence numbers rise up to the bus's own, and payloads are those of
publishers. -/
structure Numbered (sequence : Nat) (log : List (Event Mapping Time)) : Prop where
  inOrder : InOrder log
  bounded : ∀ event ∈ log, event.sequence ≤ sequence
  published : ∀ event ∈ log, event.payload.isPublished

theorem Numbered.nil (sequence : Nat) : Numbered sequence ([] : List (Event Mapping Time)) :=
  ⟨List.Pairwise.nil, by simp, by simp⟩

theorem Numbered.mono {sequence later : Nat} (numbered : Numbered sequence log)
    (less : sequence ≤ later) : Numbered later log :=
  { numbered with bounded := fun event member => Nat.le_trans (numbered.bounded event member) less }

theorem Numbered.concat {sequence : Nat} (numbered : Numbered sequence log)
    (next : event.sequence = sequence + 1) (published : event.payload.isPublished) :
    Numbered event.sequence (log ++ [event]) where
  inOrder := by
    refine List.pairwise_append.mpr ⟨numbered.inOrder, List.pairwise_singleton _ _, ?_⟩
    intro earlier member later single
    rw [List.mem_singleton.mp single, next]
    exact Nat.lt_succ_of_le (numbered.bounded earlier member)
  bounded := by
    intro other member
    rcases List.mem_append.mp member with old | new
    · exact Nat.le_trans (numbered.bounded other old) (by omega)
    · exact Nat.le_of_eq (congrArg Event.sequence (List.mem_singleton.mp new))
  published := by
    intro other member
    rcases List.mem_append.mp member with old | new
    · exact numbered.published other old
    · rwa [List.mem_singleton.mp new]

end Log

namespace Subscription

variable {log : List (Event Mapping Time)} {sub : Subscription Mapping Time}

/-- The first events that find room in a queue that holds `used` items. -/
def room (maxQueue : Int) (used : Nat) (events : List (Event Mapping Time)) :
    List (Event Mapping Time) :=
  if maxQueue ≤ 0 then events else events.take (maxQueue.toNat - used)

def replayed (sub : Subscription Mapping Time) : List (Event Mapping Time) :=
  room sub.maxQueue 0 sub.replayable

theorem room_starts (maxQueue : Int) (used : Nat) (events : List (Event Mapping Time)) :
    room maxQueue used events <+: events := by
  unfold room
  split
  · exact List.prefix_rfl
  · exact List.take_prefix _ _

theorem replayed_of_fitted (fitted : sub.Fitted) : sub.replayed = sub.replayable := by
  unfold replayed room
  split
  · rfl
  · next bounded =>
    refine List.take_of_length_le ?_
    rcases fitted with unbounded | fits
    · exact absurd unbounded bounded
    · omega

theorem room_cons_full {maxQueue : Int} {used : Nat} (bounded : 0 < maxQueue)
    (full : maxQueue ≤ used) (events : List (Event Mapping Time)) :
    room maxQueue used events = [] := by
  have none : maxQueue.toNat - used = 0 := by omega
  simp [room, Int.not_le.mpr bounded, none]

theorem room_cons {maxQueue : Int} {used : Nat} (free : maxQueue ≤ 0 ∨ used < maxQueue)
    (event : Event Mapping Time) (events : List (Event Mapping Time)) :
    room maxQueue used (event :: events) = event :: room maxQueue (used + 1) events := by
  unfold room
  split
  · rfl
  · have more : maxQueue.toNat - used = maxQueue.toNat - (used + 1) + 1 := by omega
    rw [more, List.take_succ_cons]

theorem full_eq_false : sub.full = false ↔ sub.maxQueue ≤ 0 ∨ sub.queue.length < sub.maxQueue := by
  simp only [full, Bool.and_eq_false_iff, decide_eq_false_iff_not]
  omega

theorem full_eq_true : sub.full = true ↔ 0 < sub.maxQueue ∧ sub.maxQueue ≤ sub.queue.length := by
  simp [full]

theorem replay_eq (since : Int) (sub : Subscription Mapping Time)
    (events : List (Event Mapping Time)) :
    sub.replay since events =
      { sub with
        queue := sub.queue ++
          (room sub.maxQueue sub.queue.length
            (events.filter (fun event => since < event.sequence))).map .event } := by
  induction events generalizing sub with
  | nil => simp [replay, room]
  | cons event events ih =>
    by_cases later : since < event.sequence
    · cases state : sub.full with
      | true =>
        obtain ⟨bounded, full⟩ := full_eq_true.mp state
        simp [replay, later, putNowait, state, room_cons_full bounded full]
      | false =>
        have free := full_eq_false.mp state
        simp [replay, later, putNowait, state, ih, room_cons free]
    · simp [replay, later, ih]

def Plain (queue : List (Item Mapping Time)) : Prop := ∀ item ∈ queue, item ≠ .sentinel

def events (queue : List (Item Mapping Time)) : List (Event Mapping Time) :=
  queue.filterMap Item.event?

theorem queued_eq : sub.queued = events sub.queue := rfl

@[simp] theorem events_append (front back : List (Item Mapping Time)) :
    events (front ++ back) = events front ++ events back := List.filterMap_append

@[simp] theorem events_cons (event : Event Mapping Time) (rest : List (Item Mapping Time)) :
    events (.event event :: rest) = event :: events rest := rfl

@[simp] theorem events_nil : events ([] : List (Item Mapping Time)) = [] := rfl

@[simp] theorem events_sentinel (rest : List (Item Mapping Time)) :
    events (.sentinel :: rest) = events rest := rfl

theorem Plain.concat {queue : List (Item Mapping Time)} (plain : Plain queue)
    (event : Event Mapping Time) : Plain (queue ++ [.event event]) := by
  intro item member
  rcases List.mem_append.mp member with old | new
  · exact plain item old
  · rw [List.mem_singleton.mp new]
    simp

structure Sends (sub later : Subscription Mapping Time) (event : Event Mapping Time) : Prop where
  frame : later =
    { sub with queue := later.queue, droppedSinceAdvisory := later.droppedSinceAdvisory }
  plain : Plain later.queue
  inOrder : later.queued.Sublist (sub.queued ++ [event])
  counted : later.queued.length + later.droppedSinceAdvisory =
    sub.queued.length + sub.droppedSinceAdvisory + 1

theorem sends_room (plain : Plain sub.queue) (event : Event Mapping Time) :
    Sends sub { sub with queue := sub.queue ++ [.event event] } event where
  frame := rfl
  plain := plain.concat event
  inOrder := by simp [queued_eq]
  counted := by
    simp only [queued_eq, events_append, events_cons, events_nil, List.length_append,
      List.length_singleton]
    omega

theorem sends_dropping {first : Event Mapping Time} {rest : List (Item Mapping Time)}
    (plain : Plain sub.queue) (queue : sub.queue = .event first :: rest)
    (event : Event Mapping Time) :
    Sends sub
      { sub with
        queue := rest ++ [.event event]
        droppedSinceAdvisory := sub.droppedSinceAdvisory + 1 } event where
  frame := rfl
  plain := by
    rw [queue] at plain
    exact Plain.concat (fun item member => plain item (List.mem_cons_of_mem _ member)) event
  inOrder := by simp [queued_eq, queue]
  counted := by
    simp only [queued_eq, queue, events_append, events_cons, events_nil, List.length_append,
      List.length_cons, List.length_nil]
    omega

theorem sends_overfull {first : Event Mapping Time} {rest : List (Item Mapping Time)}
    (plain : Plain sub.queue) (queue : sub.queue = .event first :: rest)
    (event : Event Mapping Time) :
    Sends sub
      { sub with queue := rest, droppedSinceAdvisory := sub.droppedSinceAdvisory + 1 + 1 }
      event where
  frame := rfl
  plain := by
    rw [queue] at plain
    exact fun item member => plain item (List.mem_cons_of_mem _ member)
  inOrder := by
    rw [queued_eq, queued_eq, queue, events_cons, List.cons_append]
    exact List.Sublist.cons _ (List.sublist_append_left _ _)
  counted := by
    simp only [queued_eq, queue, events_cons, List.length_cons]
    omega

theorem sends_sendToSubscriber (plain : Plain sub.queue) (event : Event Mapping Time) :
    Sends sub (sub.sendToSubscriber event) event := by
  cases state : sub.full with
  | false => simpa [sendToSubscriber, putNowait, state] using sends_room plain event
  | true =>
    obtain ⟨bounded, long⟩ := full_eq_true.mp state
    cases queue : sub.queue with
    | nil =>
      rw [queue, List.length_nil] at long
      omega
    | cons item rest =>
      have first := plain item (queue ▸ List.mem_cons_self)
      cases item with
      | sentinel => exact absurd rfl first
      | event first =>
        have dropped : sub.dropOldest =
            { sub with
              queue := rest
              droppedSinceAdvisory := sub.droppedSinceAdvisory + 1 } := by
          simp [dropOldest, queue]
        simp only [sendToSubscriber, putNowait, state, if_true, dropped]
        split
        · next sent =>
          split at sent
          · cases sent
          · cases sent
            exact sends_dropping plain queue event
        · exact sends_overfull plain queue event

/-- Every event the subscription is due: what was replayed and what came while it was open. -/
def due (log : List (Event Mapping Time)) (sub : Subscription Mapping Time) :
    List (Event Mapping Time) :=
  sub.replayed ++ sub.live log

/-- The account of one subscription against the log of the bus. -/
structure Accounts (log : List (Event Mapping Time)) (sub : Subscription Mapping Time) :
    Prop where
  begun : sub.opened ≤ log.length
  ended : ∀ at_ ∈ sub.closedAt, at_ ≤ log.length
  registered : sub.registered = sub.closedAt.isNone
  plain : sub.registered → Plain sub.queue
  held : sub.held <:+ onChannel sub.channel (log.take sub.opened)
  inOrder : (sub.delivered ++ sub.queued).Sublist (sub.due log)
  counted : (sub.due log).length = sub.accountedFor

theorem replayed_sublist (sub : Subscription Mapping Time) : sub.replayed.Sublist sub.held := by
  refine (room_starts _ _ _).sublist.trans ?_
  unfold replayable
  split
  · exact List.nil_sublist _
  · exact List.filter_sublist

theorem due_sublist (held : sub.held <:+ onChannel sub.channel (log.take sub.opened)) :
    (sub.due log).Sublist (onChannel sub.channel log) := by
  have later : ((log.take (sub.closedAt.getD log.length)).drop sub.opened).Sublist
      (log.drop sub.opened) := (List.take_sublist _ _).drop _
  calc sub.due log <+ onChannel sub.channel (log.take sub.opened) ++ sub.live log :=
        (sub.replayed_sublist.trans held.sublist).append_right _
    _ <+ onChannel sub.channel (log.take sub.opened) ++
          onChannel sub.channel (log.drop sub.opened) := (later.filter _).append_left _
    _ = onChannel sub.channel log := by rw [← onChannel_append, List.take_append_drop]

theorem live_concat_open (opened : sub.closedAt = none) (begun : sub.opened ≤ log.length)
    (event : Event Mapping Time) :
    sub.live (log ++ [event]) = sub.live log ++ onChannel sub.channel [event] := by
  have whole : (log ++ [event]).take (log.length + 1) = log ++ [event] :=
    List.take_of_length_le (by simp)
  simp [live, opened, whole, List.drop_append_of_le_length begun, onChannel_append]

theorem live_concat_closed {at_ : Nat} (closed : sub.closedAt = some at_)
    (ended : at_ ≤ log.length) (event : Event Mapping Time) :
    sub.live (log ++ [event]) = sub.live log := by
  simp [live, closed, List.take_append_of_le_length ended]

section

variable (accounts : Accounts log sub)
include accounts

theorem Accounts.moved {later : Subscription Mapping Time}
    (frame : later =
      { sub with
        queue := later.queue
        waiting := later.waiting
        yielded := later.yielded
        droppedSinceAdvisory := later.droppedSinceAdvisory })
    (plain : sub.registered → Plain later.queue)
    (inOrder : later.delivered ++ later.queued = sub.delivered ++ sub.queued)
    (counted : later.announced + later.droppedSinceAdvisory =
      sub.announced + sub.droppedSinceAdvisory) : Accounts log later := by
  have due : later.due log = sub.due log := by rw [frame]; rfl
  exact
    { begun := by rw [frame]; exact accounts.begun
      ended := by rw [frame]; exact accounts.ended
      registered := by rw [frame]; exact accounts.registered
      plain := by
        intro registered
        rw [frame] at registered
        exact plain registered
      held := by rw [frame]; exact accounts.held
      inOrder := by rw [inOrder, due]; exact accounts.inOrder
      counted := by
        have before := accounts.counted
        have lengths := congrArg List.length inOrder
        rw [List.length_append, List.length_append] at lengths
        unfold accountedFor at before ⊢
        rw [due]
        omega }

theorem Accounts.concat_other {event : Event Mapping Time}
    (other : sub.registered = false ∨ event.channel ≠ sub.channel) :
    Accounts (log ++ [event]) sub := by
  have live : sub.live (log ++ [event]) = sub.live log := by
    cases closed : sub.closedAt with
    | none =>
      have registered : sub.registered = true := by simp [accounts.registered, closed]
      have different : event.channel ≠ sub.channel := by simpa [registered] using other
      simp [live_concat_open closed accounts.begun, onChannel, different]
    | some at_ => exact live_concat_closed closed (accounts.ended at_ closed) event
  exact
    { accounts with
      begun := by
        rw [List.length_append]
        exact Nat.le_add_right_of_le accounts.begun
      ended := by
        intro at_ closed
        rw [List.length_append]
        exact Nat.le_add_right_of_le (accounts.ended at_ closed)
      held := by
        rw [List.take_append_of_le_length accounts.begun]
        exact accounts.held
      inOrder := by
        rw [due, live]
        exact accounts.inOrder
      counted := by
        rw [due, live]
        exact accounts.counted }

theorem Accounts.concat_sent {event : Event Mapping Time} {later : Subscription Mapping Time}
    (registered : sub.registered) (channel : event.channel = sub.channel)
    (sends : Sends sub later event) : Accounts (log ++ [event]) later := by
  have opened : sub.closedAt = none := by simpa [accounts.registered] using registered
  have due : later.due (log ++ [event]) = sub.due log ++ [event] := by
    calc later.due (log ++ [event]) = sub.due (log ++ [event]) := by rw [sends.frame]; rfl
      _ = sub.due log ++ [event] := by
        simp [Subscription.due, live_concat_open opened accounts.begun, onChannel, channel]
  have delivered : later.delivered = sub.delivered := by rw [sends.frame]; rfl
  have announced : later.announced = sub.announced := by rw [sends.frame]; rfl
  exact
    { begun := by
        rw [sends.frame, List.length_append]
        exact Nat.le_add_right_of_le accounts.begun
      ended := by
        rw [sends.frame]
        simp [opened]
      registered := by
        rw [sends.frame]
        exact accounts.registered
      plain := fun _ => sends.plain
      held := by
        rw [sends.frame]
        simpa [List.take_append_of_le_length accounts.begun] using accounts.held
      inOrder := by
        rw [delivered, due]
        calc sub.delivered ++ later.queued <+ sub.delivered ++ (sub.queued ++ [event]) :=
              sends.inOrder.append_left _
          _ = (sub.delivered ++ sub.queued) ++ [event] := (List.append_assoc _ _ _).symm
          _ <+ sub.due log ++ [event] := accounts.inOrder.append_right _
      counted := by
        have before := accounts.counted
        have sent := sends.counted
        rw [due, List.length_append, List.length_singleton]
        unfold accountedFor at before ⊢
        rw [delivered, announced]
        omega }

theorem Accounts.cancel : Accounts log sub.cancel :=
  accounts.moved rfl accounts.plain rfl rfl

variable (published : ∀ event ∈ log, event.payload.isPublished)
include published

theorem Accounts.published_of_queued {event : Event Mapping Time} (member : event ∈ sub.queued) :
    event.payload.isPublished := by
  have inside : event ∈ sub.due log :=
    accounts.inOrder.subset (List.mem_append_right _ member)
  exact published event (List.mem_of_mem_filter ((due_sublist accounts.held).subset inside))

theorem Accounts.take : Accounts log sub.take := by
  have shorter : ∀ {item rest}, sub.queue = item :: rest → sub.registered → Plain rest :=
    fun queue registered other member =>
      accounts.plain registered other (queue ▸ List.mem_cons_of_mem _ member)
  unfold Subscription.take
  split
  · exact accounts
  · next rest queue =>
    refine accounts.moved rfl (shorter queue) ?_ rfl
    simp [delivered, queued_eq, queue]
  · next event rest queue =>
    have genuine : event.payload.isPublished := by
      apply accounts.published_of_queued published
      rw [queued_eq, queue, events_cons]
      exact List.mem_cons_self
    refine accounts.moved rfl (shorter queue) ?_ ?_
    · simp [delivered, queued_eq, queue, genuine]
    · cases payload : event.payload with
      | published mapping => simp [announced, payload, Payload.dropped]
      | droppedCount count => simp [payload, Payload.isPublished] at genuine

theorem Accounts.anext (now : Time) : Accounts log (sub.anext now) := by
  unfold Subscription.anext
  split
  · exact accounts
  · split
    · refine accounts.moved rfl accounts.plain ?_ ?_
      · simp [delivered, queued_eq, advisory, Payload.isPublished]
      · simp [announced, advisory, Payload.dropped]
    · split
      · exact accounts.moved rfl accounts.plain rfl rfl
      · exact accounts.take published

theorem Accounts.resume : Accounts log sub.resume := by
  unfold Subscription.resume
  split
  · have woken : Accounts log { sub with waiting := sub.waiting - 1 } :=
      accounts.moved rfl accounts.plain rfl rfl
    exact woken.take published
  · exact accounts

end

def shut (sub : Subscription Mapping Time) (published : Nat) : Subscription Mapping Time :=
  { sub with
    closed := true
    registered := false
    closedAt := sub.closedAt <|> some published }

theorem live_shut : (sub.shut log.length).live log = sub.live log := by
  cases closed : sub.closedAt <;> simp [live, shut, closed]

theorem Accounts.shut (accounts : Accounts log sub) : Accounts log (sub.shut log.length) where
  __ := accounts
  ended := by
    intro at_ found
    cases closed : sub.closedAt with
    | none =>
      obtain rfl : log.length = at_ := by simpa [Subscription.shut, closed] using found
      exact Nat.le_refl _
    | some before =>
      obtain rfl : before = at_ := by simpa [Subscription.shut, closed] using found
      exact accounts.ended before closed
  registered := by cases closed : sub.closedAt <;> simp [Subscription.shut, closed]
  plain := by simp [Subscription.shut]
  inOrder := by
    rw [due, live_shut]
    exact accounts.inOrder
  counted := by
    rw [due, live_shut]
    exact accounts.counted

theorem Accounts.close (accounts : Accounts log sub) : Accounts log (sub.close log.length) := by
  change Accounts log
    (((sub.shut log.length).putNowait .sentinel).getD (sub.shut log.length))
  unfold putNowait
  split
  · exact accounts.shut
  · refine accounts.shut.moved rfl (by simp [Subscription.shut]) ?_ rfl
    simp [delivered, queued_eq, events, Item.event?]

theorem accounts_subscribe {bus : Bus Mapping Time} (channel : String)
    (sinceSequence : Option Int) (maxQueue : Int)
    (held : bus.ring channel <:+ onChannel channel bus.published)
    (made : Subscription Mapping Time)
    (replayed : made =
      { bus.register channel sinceSequence maxQueue with
        queue := (bus.register channel sinceSequence maxQueue).replayed.map .event }) :
    Accounts bus.published made := by
  have due : made.due bus.published =
      (bus.register channel sinceSequence maxQueue).replayed := by
    subst replayed
    simp [Subscription.due, live, Subscription.replayed, replayable, Bus.register, onChannel]
  have queued : made.queued = (bus.register channel sinceSequence maxQueue).replayed := by
    subst replayed
    simp [queued_eq, events, Item.event?, Function.comp_def]
  have delivered : made.delivered = [] := by
    subst replayed
    rfl
  exact
    { begun := by subst replayed; exact Nat.le_refl _
      ended := by subst replayed; simp [Bus.register]
      registered := by subst replayed; rfl
      plain := by
        subst replayed
        intro registered item member
        obtain ⟨event, inside, rfl⟩ := List.mem_map.mp member
        simp
      held := by subst replayed; simpa [Bus.register] using held
      inOrder := by rw [due, queued, delivered, List.nil_append]
      counted := by
        rw [due, accountedFor, queued, delivered]
        subst replayed
        simp [Bus.register, announced] }

end Subscription

/-- A buffered event of a channel was published on it, and none published later is missing
from the buffer. -/
def Buffered (log : List (Event Mapping Time))
    (rings : OrderedMap String (List (Event Mapping Time))) : Prop :=
  ∀ entry ∈ rings.entries, entry.2 <:+ onChannel entry.1 log

structure Consistent (bus : Bus Mapping Time) : Prop where
  numbered : Numbered bus.sequence bus.published
  buffered : Buffered bus.published bus.ringBuffers
  accounts : ∀ sub ∈ bus.subscriptions, sub.Accounts bus.published

namespace Bus

variable {bus : Bus Mapping Time}

theorem ring_suffix {log : List (Event Mapping Time)} (buffered : Buffered log bus.ringBuffers)
    (channel : String) : bus.ring channel <:+ onChannel channel log := by
  unfold ring
  cases found : bus.ringBuffers.get? channel with
  | none => exact List.nil_suffix
  | some ring => exact buffered _ (OrderedMap.get?_eq_some_iff.mp found)

/-- Making room for a channel changes only the ring buffers. -/
structure Claims (bus later : Bus Mapping Time) : Prop where
  frame : later = { bus with ringBuffers := later.ringBuffers }
  buffered : Buffered bus.published bus.ringBuffers → Buffered bus.published later.ringBuffers

theorem claims_claimRing (bus : Bus Mapping Time) (channel : String) :
    Claims bus (bus.claimRing channel).1 := by
  have popped : Buffered bus.published bus.ringBuffers →
      Buffered bus.published bus.ringBuffers.popFirst :=
    fun buffered entry member => buffered entry (List.mem_of_mem_tail member)
  have inserted : ∀ rings, Buffered bus.published rings →
      Buffered bus.published (OrderedMap.insert rings channel []) := by
    intro rings buffered entry member
    rcases OrderedMap.mem_entries_insert member with ⟨old, _⟩ | rfl
    · exact buffered entry old
    · exact List.nil_suffix
  unfold claimRing
  split
  · exact ⟨rfl, fun buffered entry member =>
      buffered entry (OrderedMap.mem_entries_moveToEnd member)⟩
  · dsimp only
    split
    · exact ⟨rfl, id⟩
    · split
      · split
        · exact ⟨rfl, popped⟩
        · exact ⟨rfl, fun buffered => inserted _ (popped buffered)⟩
      · split
        · exact ⟨rfl, id⟩
        · exact ⟨rfl, inserted _⟩

theorem appendBounded_suffix (size : Int) (ring : List (Event Mapping Time))
    (event : Event Mapping Time) : appendBounded size ring event <:+ ring ++ [event] :=
  List.drop_suffix _ _

theorem buffered_deliver (buffered : Buffered bus.published bus.ringBuffers)
    (event : Event Mapping Time) :
    Buffered (bus.published ++ [event]) (bus.deliver event).ringBuffers := by
  intro entry member
  rcases OrderedMap.mem_entries_insert member with ⟨old, other⟩ | rfl
  · have same : onChannel entry.1 (bus.published ++ [event]) = onChannel entry.1 bus.published := by
      simp [onChannel, Ne.symm other]
    rw [same]
    exact buffered entry old
  · obtain ⟨lost, whole⟩ := ring_suffix buffered event.channel
    refine (appendBounded_suffix _ _ _).trans ⟨lost, ?_⟩
    rw [onChannel_append, ← whole, List.append_assoc]
    simp [onChannel]

theorem accounts_deliver {sub : Subscription Mapping Time} {log : List (Event Mapping Time)}
    (accounts : sub.Accounts log) (event : Event Mapping Time) :
    Subscription.Accounts (log ++ [event])
      (if sub.registered && sub.channel = event.channel then sub.sendToSubscriber event
        else sub) := by
  split
  · next chosen =>
    obtain ⟨registered, channel⟩ : sub.registered = true ∧ sub.channel = event.channel := by
      simpa using chosen
    exact accounts.concat_sent registered channel.symm
      (Subscription.sends_sendToSubscriber (accounts.plain registered) event)
  · next passed =>
    refine accounts.concat_other ?_
    cases registered : sub.registered with
    | false => exact .inl rfl
    | true => exact .inr (fun channel => passed (by simp [registered, channel]))

theorem consistent_deliver (consistent : Consistent bus) {event : Event Mapping Time}
    (next : event.sequence = bus.sequence + 1) (published : event.payload.isPublished) :
    Consistent ({ bus with sequence := bus.sequence + 1 }.deliver event) where
  numbered := by
    have numbered := consistent.numbered.concat next published
    rwa [next] at numbered
  buffered := buffered_deliver consistent.buffered event
  accounts := by
    intro later member
    obtain ⟨sub, inside, rfl⟩ := List.mem_map.mp member
    exact accounts_deliver (consistent.accounts sub inside) event

theorem consistent_publish (consistent : Consistent bus) (channel : String) (payload : Mapping)
    (now : Time) : Consistent (bus.publish channel payload now).1 := by
  have claims := claims_claimRing { bus with sequence := bus.sequence + 1 } channel
  have buffered := claims.buffered consistent.buffered
  unfold publish
  rcases claimed : claimRing { bus with sequence := bus.sequence + 1 } channel with ⟨later, raised⟩
  rw [claimed] at claims buffered
  have frame : later = { { bus with ringBuffers := later.ringBuffers } with
      sequence := bus.sequence + 1 } := claims.frame
  have ready : Consistent { bus with ringBuffers := later.ringBuffers } :=
    { consistent with buffered := buffered }
  cases raised with
  | some raised =>
    rw [frame]
    exact { ready with numbered := consistent.numbered.mono (Nat.le_succ _) }
  | none =>
    rw [frame]
    exact consistent_deliver ready rfl rfl

theorem subscribe_replays (bus : Bus Mapping Time) (channel : String)
    (sinceSequence : Option Int) (maxQueue : Int) :
    (bus.subscribe channel sinceSequence maxQueue).subscriptions =
      bus.subscriptions ++
        [{ bus.register channel sinceSequence maxQueue with
          queue := (bus.register channel sinceSequence maxQueue).replayed.map .event }] := by
  cases sinceSequence with
  | none => simp [subscribe, register, Subscription.replayed, Subscription.replayable,
      Subscription.room]
  | some since =>
    simp [subscribe, Subscription.replay_eq, register, Subscription.replayed,
      Subscription.replayable]

theorem consistent_subscribe (consistent : Consistent bus) (channel : String)
    (sinceSequence : Option Int) (maxQueue : Int) :
    Consistent (bus.subscribe channel sinceSequence maxQueue) where
  numbered := consistent.numbered
  buffered := fun entry member =>
    consistent.buffered entry (OrderedMap.mem_entries_moveToEnd member)
  accounts := by
    intro sub member
    rw [subscribe_replays] at member
    rcases List.mem_append.mp member with old | new
    · exact consistent.accounts sub old
    · exact Subscription.accounts_subscribe channel sinceSequence maxQueue
        (ring_suffix consistent.buffered channel) sub (List.mem_singleton.mp new)

theorem consistent_modify (consistent : Consistent bus) (index : Nat)
    (change : Subscription Mapping Time → Subscription Mapping Time)
    (keeps : ∀ sub, sub.Accounts bus.published → (change sub).Accounts bus.published) :
    Consistent { bus with subscriptions := bus.subscriptions.modify index change } :=
  { consistent with
    accounts := by
      intro sub member
      obtain ⟨place, found⟩ := List.getElem?_of_mem member
      rw [List.getElem?_modify, Option.map_eq_map, Option.map_eq_some_iff] at found
      obtain ⟨old, there, rfl⟩ := found
      have accounts := consistent.accounts old (List.mem_of_getElem? there)
      split
      · exact keeps old accounts
      · exact accounts }

theorem consistent_step (consistent : Consistent bus) (step : Step Mapping Time) :
    Consistent (bus.step step) := by
  have published := consistent.numbered.published
  cases step with
  | publish channel payload now => exact consistent_publish consistent channel payload now
  | subscribe channel sinceSequence maxQueue =>
    exact consistent_subscribe consistent channel sinceSequence maxQueue
  | close sub => exact consistent_modify consistent sub _ (fun _ accounts => accounts.close)
  | anext sub now =>
    exact consistent_modify consistent sub _ (fun _ accounts => accounts.anext published now)
  | resume sub =>
    exact consistent_modify consistent sub _ (fun _ accounts => accounts.resume published)
  | cancel sub => exact consistent_modify consistent sub _ (fun _ accounts => accounts.cancel)

end Bus

theorem consistent_after (ringBufferSize maxChannels : Int) (steps : List (Step Mapping Time)) :
    Consistent (after ringBufferSize maxChannels steps) := by
  induction steps using List.reverseRecOn with
  | nil => exact ⟨Numbered.nil 0, fun _ member => absurd member List.not_mem_nil, by
      simp [after, Bus.new]⟩
  | append_singleton steps step ih =>
    have next : after ringBufferSize maxChannels (steps ++ [step]) =
        (after ringBufferSize maxChannels steps).step step := by simp [after]
    rw [next]
    exact Bus.consistent_step ih step

/-- The account of a subscription whose replay found room: what the ring buffer held behind
the start point and what came while it was open is delivered, queued or counted. The buffer
held the newest events of the channel. -/
structure Accounted (bus : Bus Mapping Time) (sub : Subscription Mapping Time) : Prop where
  inOrder : InOrder sub.delivered
  received : sub.delivered ++ sub.queued <+ sub.replayable ++ sub.live bus.published
  newest : sub.held <:+ onChannel sub.channel (bus.published.take sub.opened)
  counted : sub.Fitted →
    (sub.replayable ++ sub.live bus.published).length = sub.accountedFor

theorem accounting (ringBufferSize maxChannels : Int) (steps : List (Step Mapping Time)) :
    ∀ sub ∈ (after ringBufferSize maxChannels steps).subscriptions,
      Accounted (after ringBufferSize maxChannels steps) sub := by
  intro sub member
  have consistent := consistent_after ringBufferSize maxChannels steps
  have accounts := consistent.accounts sub member
  have inLog : sub.delivered <+ (after ringBufferSize maxChannels steps).published :=
    ((List.sublist_append_left _ _).trans accounts.inOrder).trans
      ((Subscription.due_sublist accounts.held).trans List.filter_sublist)
  exact
    { inOrder := consistent.numbered.inOrder.sublist inLog
      received := accounts.inOrder.trans
        ((Subscription.room_starts _ _ _).sublist.append_right _)
      newest := accounts.held
      counted := fun fitted => by
        rw [← accounts.counted, Subscription.due, Subscription.replayed_of_fitted fitted] }

theorem resumed_subscription_accounted :
    ∃ sub ∈ (after 4 1024 ([.publish "audit" () (), .subscribe "audit" (some 0) 8, .anext 0 (),
        .publish "audit" () ()] : List (Step Unit Unit))).subscriptions,
      Accounted (after 4 1024 [.publish "audit" () (), .subscribe "audit" (some 0) 8, .anext 0 (),
        .publish "audit" () ()]) sub :=
  ⟨_, List.mem_cons_self, accounting 4 1024 _ _ List.mem_cons_self⟩

theorem overwritten_event_missing :
    ¬ ∀ (ringBufferSize maxChannels : Int) (steps : List (Step Unit Unit)),
      ∀ sub ∈ (after ringBufferSize maxChannels steps).subscriptions,
        NothingMissing (after ringBufferSize maxChannels steps) sub := by
  intro claimed
  have missing : ¬ ∀ sub ∈ (after 1 1024 [.publish "audit" () (), .publish "audit" () (),
      .subscribe "audit" (some 0) 1024]).subscriptions,
      NothingMissing (after 1 1024 ([.publish "audit" () (), .publish "audit" () (),
        .subscribe "audit" (some 0) 1024] : List (Step Unit Unit))) sub := by decide
  exact missing (claimed 1 1024 _)

end HlHelper.Events.PubSub
