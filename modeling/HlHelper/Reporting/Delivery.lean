import HlHelper.Inbound.RecvLoop
import HlHelper.Outbox.Queue
import HlHelper.Reporting.Numbering

/-! The outbox of an agent, the drain of each stream, and what the transport carries. -/

namespace HlHelper.Reporting

open Inbound Library Outbox Results

/-- A result in the outbox, with its number among the queued ones. -/
structure Queued where
  nth : Nat
  env : ResultEnvelope
  deriving DecidableEq, Inhabited

def isResult : AgentToServer → Bool
  | .result _ => true
  | _ => false

/-- A message that `Send` has returned for: a queued result or no result. An update sends none:
without a pinned key `Apply` panics, and the process ends. -/
inductive Sent where
  | result (item : Queued)
  | other (msg : AgentToServer) (plain : isResult msg = false)

def Sent.message : Sent → AgentToServer
  | .result item => .result item.env
  | .other msg _ => msg

def Sent.nths : Sent → List Nat
  | .result item => [item.nth]
  | .other _ _ => []

/-- A stream and its drain: the peeked entries that are still to be sent, the entry that
was sent and is not yet acknowledged, and the messages that were sent and not received. -/
structure Drain where
  up : Bool
  batch : List (Nat × Queued)
  unacked : Option (Nat × Queued)
  inFlight : List Sent

/-- The peeked entries that the drain has not acknowledged, in its order. -/
def Drain.held (x : Drain) : List (Nat × Queued) := x.unacked.toList ++ x.batch

def Drain.results (x : Drain) : List Queued :=
  x.inFlight.filterMap (fun sent =>
    match sent with
    | .result item => some item
    | .other _ _ => none)

/-- `evicted` and `received` number the results that the caps have removed and that the
server has got. -/
structure Delivery where
  outbox : Queue Queued
  drains : Nat → Option Drain
  evicted : List Nat
  received : List Nat

def Delivery.start : Delivery := ⟨Queue.empty, fun _ => none, [], []⟩

inductive DrainEvent where
  | peek (i : Nat)
  | send (i : Nat)
  | ack (i : Nat) (ok : Bool)
  | post (i : Nat) (msg : AgentToServer)
  | breakOff (i : Nat)
  | lose (i : Nat)

namespace Delivery

def set (d : Delivery) (i : Nat) (x : Drain) : Delivery :=
  { d with drains := Function.update d.drains i (some x) }

def connect (d : Delivery) (i : Nat) : Option Delivery :=
  match d.drains i with
  | some _ => none
  | none => some (d.set i ⟨true, [], none, []⟩)

/-- `Append`, and the entries that it evicts. -/
def append (d : Delivery) (item : Queued) (evicted : Nat) : Delivery :=
  let items := d.outbox.items ++ [(d.outbox.nextID, item)]
  { d with
    outbox := d.outbox.append item evicted
    evicted := d.evicted ++ (items.take evicted).map (fun entry => entry.2.nth) }

def peek (d : Delivery) (i : Nat) : Option Delivery :=
  match d.drains i with
  | some ⟨up, [], none, inFlight⟩ => some (d.set i ⟨up, d.outbox.peek 10, none, inFlight⟩)
  | _ => none

/-- A `Send` that fails ends the drain. -/
def send (d : Delivery) (i : Nat) : Option Delivery :=
  match d.drains i with
  | some ⟨true, entry :: rest, none, inFlight⟩ =>
    some (d.set i ⟨true, rest, some entry, inFlight ++ [.result entry.2]⟩)
  | some ⟨false, _ :: _, none, inFlight⟩ => some (d.set i ⟨false, [], none, inFlight⟩)
  | _ => none

/-- `Ack` right after `Send`. -/
def ack (d : Delivery) (i : Nat) (ok : Bool) : Option Delivery :=
  match d.drains i with
  | some ⟨up, batch, some entry, inFlight⟩ =>
    let drained := d.set i ⟨up, batch, none, inFlight⟩
    some (if ok then { drained with outbox := d.outbox.ack entry.1 } else drained)
  | _ => none

def post (d : Delivery) (i : Nat) (sent : Sent) : Option Delivery :=
  match d.drains i with
  | some ⟨true, batch, unacked, inFlight⟩ =>
    some (d.set i ⟨true, batch, unacked, inFlight ++ [sent]⟩)
  | _ => none

/-- From now on `Send` fails. -/
def breakOff (d : Delivery) (i : Nat) : Option Delivery :=
  (d.drains i).map (fun x => d.set i { x with up := false })

def lose (d : Delivery) (i : Nat) : Option Delivery :=
  match d.drains i with
  | some ⟨false, batch, unacked, _⟩ => some (d.set i ⟨false, batch, unacked, []⟩)
  | _ => none

def receive (d : Delivery) (i : Nat) : Option (Sent × Delivery) :=
  match d.drains i with
  | some ⟨up, batch, unacked, sent :: rest⟩ =>
    some (sent,
      { d with received := d.received ++ sent.nths }.set i ⟨up, batch, unacked, rest⟩)
  | _ => none

/-- The end of the agent's process and the next start, which opens the outbox again. -/
def crash (d : Delivery) : Delivery :=
  { d with
    outbox := d.outbox.reopen
    drains := fun i => (d.drains i).map (fun x => ⟨false, [], none, x.inFlight⟩) }

def step (d : Delivery) : DrainEvent → Option Delivery
  | .peek i => d.peek i
  | .send i => d.send i
  | .ack i ok => d.ack i ok
  | .post i msg => if plain : isResult msg = false then d.post i (.other msg plain) else none
  | .breakOff i => d.breakOff i
  | .lose i => d.lose i

def accompany (d : Delivery) (before after : Numbering) : LocalEvent → Option Delivery
  | .connect i => d.connect i
  | .finish _ _ _ _ evicted =>
    match after.log[before.log.length]? with
    | none => none
    | some entry => some (d.append ⟨before.log.length, entry.2⟩ evicted)
  | .fail _ drawn => some (if drawn then { d with outbox := d.outbox.skip } else d)
  | .crash => some d.crash
  | .command _ _ _ | .openSeq _ _ | .writeSeq _ _ | .openHash _ _ | .writeHash _ _ => some d

def Waits (d : Delivery) (nth : Nat) : Prop :=
  nth ∈ d.outbox.items.map (fun entry => entry.2.nth)

def Travels (d : Delivery) (nth : Nat) : Prop :=
  ∃ i x, d.drains i = some x ∧ nth ∈ x.results.map Queued.nth

inductive Drained (d : Delivery) : DrainEvent → Delivery → Prop
  | peek {i : Nat} {x : Drain} (found : d.drains i = some x) (sent : x.batch = [])
      (acked : x.unacked = none) :
      Drained d (.peek i) (d.set i { x with batch := d.outbox.peek 10 })
  | send {i : Nat} {x : Drain} {entry : Nat × Queued} {rest : List (Nat × Queued)}
      (found : d.drains i = some x) (next : x.batch = entry :: rest) (acked : x.unacked = none)
      (up : x.up = true) :
      Drained d (.send i) (d.set i { x with
        batch := rest, unacked := some entry, inFlight := x.inFlight ++ [.result entry.2] })
  | drop {i : Nat} {x : Drain} (found : d.drains i = some x) (acked : x.unacked = none)
      (down : x.up = false) : Drained d (.send i) (d.set i { x with batch := [] })
  | ack {i : Nat} {x : Drain} {entry : Nat × Queued} (found : d.drains i = some x)
      (sent : x.unacked = some entry) :
      Drained d (.ack i true)
        ({ d with outbox := d.outbox.ack entry.1 }.set i { x with unacked := none })
  | keep {i : Nat} {x : Drain} (found : d.drains i = some x) :
      Drained d (.ack i false) (d.set i { x with unacked := none })
  | post {i : Nat} {msg : AgentToServer} {x : Drain} {sent : Sent} (found : d.drains i = some x)
      (other : ∀ item, sent ≠ .result item) :
      Drained d (.post i msg) (d.set i { x with inFlight := x.inFlight ++ [sent] })
  | breakOff {i : Nat} {x : Drain} (found : d.drains i = some x) :
      Drained d (.breakOff i) (d.set i { x with up := false })
  | lose {i : Nat} {x : Drain} (found : d.drains i = some x) (down : x.up = false) :
      Drained d (.lose i) (d.set i { x with inFlight := [] })

section Inversion

variable {d t : Delivery}

@[simp] theorem set_drains (d : Delivery) (i : Nat) (x : Drain) :
    (d.set i x).drains = Function.update d.drains i (some x) := rfl

@[simp] theorem set_outbox (d : Delivery) (i : Nat) (x : Drain) :
    (d.set i x).outbox = d.outbox := rfl

theorem post_eq_some {i : Nat} {sent : Sent} (posted : d.post i sent = some t) :
    ∃ x, d.drains i = some x ∧ t = d.set i { x with inFlight := x.inFlight ++ [sent] } := by
  unfold post at posted
  split at posted
  · next batch unacked inFlight found =>
    cases posted
    exact ⟨_, found, rfl⟩
  · cases posted

theorem drained_of_step {event : DrainEvent} (stepped : d.step event = some t) :
    Drained d event t := by
  cases event with
  | peek i =>
    simp only [step, peek] at stepped
    split at stepped
    · next found =>
      cases stepped
      exact .peek found rfl rfl
    · cases stepped
  | send i =>
    simp only [step, send] at stepped
    split at stepped
    · next found =>
      cases stepped
      exact .send found rfl rfl rfl
    · next found =>
      cases stepped
      exact .drop found rfl rfl
    · cases stepped
  | ack i ok =>
    simp only [step, ack] at stepped
    split at stepped
    · next found =>
      cases ok with
      | true =>
        cases stepped
        exact .ack found rfl
      | false =>
        cases stepped
        exact .keep found
    · cases stepped
  | post i msg =>
    simp only [step] at stepped
    split at stepped
    · obtain ⟨x, found, rfl⟩ := post_eq_some stepped
      refine .post found ?_
      intro item same
      cases same
    · cases stepped
  | breakOff i =>
    obtain ⟨x, found, rfl⟩ := Option.map_eq_some_iff.mp stepped
    exact .breakOff found
  | lose i =>
    simp only [step, lose] at stepped
    split at stepped
    · next found =>
      cases stepped
      exact .lose found rfl
    · cases stepped

theorem connect_eq_some {i : Nat} (joined : d.connect i = some t) :
    d.drains i = none ∧ t = d.set i ⟨true, [], none, []⟩ := by
  unfold connect at joined
  split at joined
  · cases joined
  · next free =>
    cases joined
    exact ⟨free, rfl⟩

theorem receive_eq_some {i : Nat} {sent : Sent} (read : d.receive i = some (sent, t)) :
    ∃ x rest, d.drains i = some x ∧ x.inFlight = sent :: rest ∧
      t = { d with received := d.received ++ sent.nths }.set i { x with inFlight := rest } := by
  unfold receive at read
  split at read
  · next found =>
    cases read
    exact ⟨_, _, found, rfl, rfl⟩
  · cases read

end Inversion

end Delivery

end HlHelper.Reporting
