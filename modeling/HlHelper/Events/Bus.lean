import HlHelper.Library.OrderedMap

/-! The event bus of `events/bus.py`: sequence numbers, ring buffers, subscriptions with
their queues. -/

namespace HlHelper.Events.PubSub

open HlHelper.Library

/-- What a publisher passes, or the payload of an advisory. -/
inductive Payload (Mapping : Type*) where
  | published (mapping : Mapping)
  | droppedCount (count : Nat)
  deriving DecidableEq, Repr

structure Event (Mapping Time : Type*) where
  sequence : Nat
  channel : String
  payload : Payload Mapping
  timestamp : Time
  deriving DecidableEq, Repr

inductive Item (Mapping Time : Type*) where
  | event (event : Event Mapping Time)
  | sentinel
  deriving DecidableEq, Repr

/-- The first seven fields are those of the `Subscription`, its queue and its place in
`_subscriptions`; `waiting` counts the readers inside `queue.get()`. The others keep the
history: how many events the bus had published when the subscription was made and when it
was closed, the channel's ring buffer at its making, and what its readers got. -/
structure Subscription (Mapping Time : Type*) where
  channel : String
  queue : List (Item Mapping Time)
  maxQueue : Int
  registered : Bool
  closed : Bool
  droppedSinceAdvisory : Nat
  waiting : Nat
  sinceSequence : Option Int
  opened : Nat
  closedAt : Option Nat
  held : List (Event Mapping Time)
  yielded : List (Event Mapping Time)
  deriving DecidableEq, Repr

/-- `published` is the history: every event that `publish` returned. -/
structure Bus (Mapping Time : Type*) where
  ringBufferSize : Int
  maxChannels : Int
  sequence : Nat
  subscriptions : List (Subscription Mapping Time)
  ringBuffers : OrderedMap String (List (Event Mapping Time))
  published : List (Event Mapping Time)
  deriving DecidableEq

variable {Mapping Time : Type*}

namespace Subscription

def full (sub : Subscription Mapping Time) : Bool :=
  decide (0 < sub.maxQueue) && decide (sub.maxQueue ≤ sub.queue.length)

def putNowait (sub : Subscription Mapping Time) (item : Item Mapping Time) :
    Option (Subscription Mapping Time) :=
  if sub.full then none else some { sub with queue := sub.queue ++ [item] }

/-- `get_nowait` and the count, in the handler of `QueueFull`. -/
def dropOldest (sub : Subscription Mapping Time) : Subscription Mapping Time :=
  match sub.queue with
  | [] => sub
  | _ :: rest =>
    { sub with queue := rest, droppedSinceAdvisory := sub.droppedSinceAdvisory + 1 }

def sendToSubscriber (sub : Subscription Mapping Time) (event : Event Mapping Time) :
    Subscription Mapping Time :=
  match sub.putNowait (.event event) with
  | some sub => sub
  | none =>
    let sub := sub.dropOldest
    match sub.putNowait (.event event) with
    | some sub => sub
    | none => { sub with droppedSinceAdvisory := sub.droppedSinceAdvisory + 1 }

/-- The replay loop of `subscribe`, which a full queue breaks off. -/
def replay (since : Int) :
    Subscription Mapping Time → List (Event Mapping Time) → Subscription Mapping Time
  | sub, [] => sub
  | sub, event :: events =>
    if since < event.sequence then
      match sub.putNowait (.event event) with
      | some sub => replay since sub events
      | none => sub
    else replay since sub events

def close (sub : Subscription Mapping Time) (published : Nat) : Subscription Mapping Time :=
  let sub :=
    { sub with
      closed := true
      registered := false
      closedAt := sub.closedAt <|> some published }
  (sub.putNowait .sentinel).getD sub

/-- Hands the item that `queue.get()` returned to a reader; the sentinel ends it. -/
def take (sub : Subscription Mapping Time) : Subscription Mapping Time :=
  match sub.queue with
  | [] => sub
  | .sentinel :: rest => { sub with queue := rest }
  | .event event :: rest => { sub with queue := rest, yielded := sub.yielded ++ [event] }

def advisory (sub : Subscription Mapping Time) (now : Time) : Event Mapping Time :=
  ⟨0, "_backpressure." ++ sub.channel, .droppedCount sub.droppedSinceAdvisory, now⟩

/-- `__anext__` up to its return or to the wait inside `queue.get()`. -/
def anext (sub : Subscription Mapping Time) (now : Time) : Subscription Mapping Time :=
  if sub.closed then sub
  else if 0 < sub.droppedSinceAdvisory then
    { sub with yielded := sub.yielded ++ [sub.advisory now], droppedSinceAdvisory := 0 }
  else if sub.queue.isEmpty then { sub with waiting := sub.waiting + 1 }
  else sub.take

end Subscription

namespace Bus

def new (ringBufferSize maxChannels : Int) : Bus Mapping Time :=
  ⟨ringBufferSize, maxChannels, 0, [], OrderedMap.empty, []⟩

/-- The exceptions of `popitem` on an empty dict and of a negative `maxlen`. -/
inductive Raised where
  | keyError
  | valueError
  deriving DecidableEq, Repr

/-- The part of `publish` that finds or makes the channel's ring buffer. -/
def claimRing (bus : Bus Mapping Time) (channel : String) : Bus Mapping Time × Option Raised :=
  if channel ∈ bus.ringBuffers.keys then
    ({ bus with ringBuffers := bus.ringBuffers.moveToEnd channel }, none)
  else
    let crowded := decide (bus.maxChannels ≤ bus.ringBuffers.entries.length)
    if crowded && bus.ringBuffers.entries.isEmpty then (bus, some .keyError)
    else
      let bus :=
        if crowded then { bus with ringBuffers := bus.ringBuffers.popFirst } else bus
      if bus.ringBufferSize < 0 then (bus, some .valueError)
      else ({ bus with ringBuffers := bus.ringBuffers.insert channel [] }, none)

/-- `append` of a `deque` with `maxlen`. -/
def appendBounded (size : Int) (ring : List (Event Mapping Time)) (event : Event Mapping Time) :
    List (Event Mapping Time) :=
  (ring ++ [event]).drop (ring.length + 1 - size.toNat)

def ring (bus : Bus Mapping Time) (channel : String) : List (Event Mapping Time) :=
  (bus.ringBuffers.get? channel).getD []

/-- The part of `publish` behind the ring buffer's making. -/
def deliver (bus : Bus Mapping Time) (event : Event Mapping Time) : Bus Mapping Time :=
  { bus with
    ringBuffers := bus.ringBuffers.insert event.channel
      (appendBounded bus.ringBufferSize (bus.ring event.channel) event)
    subscriptions := bus.subscriptions.map (fun sub =>
      if sub.registered && sub.channel = event.channel then sub.sendToSubscriber event else sub)
    published := bus.published ++ [event] }

def publish (bus : Bus Mapping Time) (channel : String) (payload : Mapping) (now : Time) :
    Bus Mapping Time × Except Raised (Event Mapping Time) :=
  let event := ⟨bus.sequence + 1, channel, .published payload, now⟩
  match claimRing { bus with sequence := bus.sequence + 1 } channel with
  | (bus, some raised) => (bus, .error raised)
  | (bus, none) => (bus.deliver event, .ok event)

/-- `subscribe` without the replay. -/
def register (bus : Bus Mapping Time) (channel : String) (sinceSequence : Option Int)
    (maxQueue : Int) : Subscription Mapping Time :=
  { channel := channel
    queue := []
    maxQueue := maxQueue
    registered := true
    closed := false
    droppedSinceAdvisory := 0
    waiting := 0
    sinceSequence := sinceSequence
    opened := bus.published.length
    closedAt := none
    held := bus.ring channel
    yielded := [] }

def subscribe (bus : Bus Mapping Time) (channel : String) (sinceSequence : Option Int)
    (maxQueue : Int) : Bus Mapping Time :=
  let sub := bus.register channel sinceSequence maxQueue
  let sub :=
    match sinceSequence with
    | none => sub
    | some since => sub.replay since (bus.ring channel)
  { bus with
    subscriptions := bus.subscriptions ++ [sub]
    ringBuffers := bus.ringBuffers.moveToEnd channel }

end Bus

/-- What happens between two awaits: a call of the bus or of a subscription, given by its
place in the order of `subscribe` calls, or a reader that gets its item or is cancelled. -/
inductive Step (Mapping Time : Type*) where
  | publish (channel : String) (payload : Mapping) (now : Time)
  | subscribe (channel : String) (sinceSequence : Option Int) (maxQueue : Int)
  | close (sub : Nat)
  | anext (sub : Nat) (now : Time)
  | resume (sub : Nat)
  | cancel (sub : Nat)
  deriving DecidableEq, Repr

/-- A waiting reader goes on once the queue holds an item. -/
def Subscription.resume (sub : Subscription Mapping Time) : Subscription Mapping Time :=
  if 0 < sub.waiting ∧ sub.queue ≠ [] then { sub with waiting := sub.waiting - 1 }.take else sub

def Subscription.cancel (sub : Subscription Mapping Time) : Subscription Mapping Time :=
  { sub with waiting := sub.waiting - 1 }

def Bus.step (bus : Bus Mapping Time) : Step Mapping Time → Bus Mapping Time
  | .publish channel payload now => (bus.publish channel payload now).1
  | .subscribe channel sinceSequence maxQueue => bus.subscribe channel sinceSequence maxQueue
  | .close sub =>
    { bus with
      subscriptions := bus.subscriptions.modify sub (·.close bus.published.length) }
  | .anext sub now => { bus with subscriptions := bus.subscriptions.modify sub (·.anext now) }
  | .resume sub => { bus with subscriptions := bus.subscriptions.modify sub (·.resume) }
  | .cancel sub => { bus with subscriptions := bus.subscriptions.modify sub (·.cancel) }

def after (ringBufferSize maxChannels : Int) (steps : List (Step Mapping Time)) :
    Bus Mapping Time :=
  steps.foldl Bus.step (Bus.new ringBufferSize maxChannels)


end HlHelper.Events.PubSub
