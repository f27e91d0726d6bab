import Mathlib.Logic.Function.Basic
import HlHelper.Envelope
import HlHelper.Library.OrderedMap

/-! The in-memory per-host command store of the stream server, `grpc/dispatcher.py`. -/

namespace HlHelper.Live

open HlHelper.Library

def named (commandId : CommandId) : CommandEnvelope :=
  { (default : CommandEnvelope) with commandId := commandId }

/-- `_HostState`: the queue, the commands sent and not acked in the order they
were first sent, and the two flags. -/
structure HostState where
  queue : List CommandEnvelope
  unacked : OrderedMap CommandId CommandEnvelope
  connected : Bool
  terminateEvent : Bool
  deriving DecidableEq

def HostState.new : HostState := ⟨[], OrderedMap.empty, false, false⟩

/-- The dictionary `_hosts`. -/
abbrev Hosts := HostId → Option HostState

namespace Hosts

def stateOf (hosts : Hosts) (hostId : HostId) : HostState := (hosts hostId).getD .new

def set (hosts : Hosts) (hostId : HostId) (state : HostState) : Hosts :=
  Function.update hosts hostId (some state)

def enqueue (hosts : Hosts) (hostId : HostId) (envelope : CommandEnvelope) : Hosts :=
  let state := hosts.stateOf hostId
  hosts.set hostId { state with queue := state.queue ++ [envelope] }

/-- The drained queue goes behind the unacked commands, which stay unacked. -/
def register (hosts : Hosts) (hostId : HostId) : Except String Hosts :=
  let state := hosts.stateOf hostId
  if state.connected then
    .error ("host " ++ hostId ++ " already has an active stream")
  else
    let pending := state.queue
    .ok (hosts.set hostId
      { state with connected := true, queue := state.unacked.values ++ pending })

def unregister (hosts : Hosts) (hostId : HostId) : Hosts :=
  match hosts hostId with
  | none => hosts
  | some state => hosts.set hostId { state with connected := false }

def markInFlight (hosts : Hosts) (hostId : HostId) (envelope : CommandEnvelope) : Hosts :=
  let state := hosts.stateOf hostId
  hosts.set hostId { state with unacked := state.unacked.insert envelope.commandId envelope }

def ack (hosts : Hosts) (hostId : HostId) (commandId : CommandId) : Bool × Hosts :=
  match hosts hostId with
  | none => (false, hosts)
  | some state =>
    match state.unacked.get? commandId with
    | none => (false, hosts)
    | some _ => (true, hosts.set hostId { state with unacked := state.unacked.erase commandId })

def terminate (hosts : Hosts) (hostId : HostId) : Bool × Hosts :=
  match hosts hostId with
  | none => (false, hosts)
  | some state =>
    if state.connected then (true, hosts.set hostId { state with terminateEvent := true })
    else (false, hosts)

/-- `queue.get()` once an item is there. -/
def pull (hosts : Hosts) (hostId : HostId) : Option (CommandEnvelope × Hosts) :=
  let state := hosts.stateOf hostId
  match state.queue with
  | [] => none
  | envelope :: rest => some (envelope, hosts.set hostId { state with queue := rest })

variable {hosts : Hosts} {hostId other : HostId}

@[simp] theorem stateOf_set_same (state : HostState) :
    (hosts.set hostId state).stateOf hostId = state := by
  simp [stateOf, set]

@[simp] theorem stateOf_set_other (different : other ≠ hostId) (state : HostState) :
    (hosts.set hostId state).stateOf other = hosts.stateOf other := by
  simp [stateOf, set, Function.update_of_ne different]

@[simp] theorem stateOf_enqueue (envelope : CommandEnvelope) :
    (hosts.enqueue hostId envelope).stateOf hostId =
      { hosts.stateOf hostId with queue := (hosts.stateOf hostId).queue ++ [envelope] } :=
  stateOf_set_same _

@[simp] theorem stateOf_markInFlight (envelope : CommandEnvelope) :
    (hosts.markInFlight hostId envelope).stateOf hostId =
      { hosts.stateOf hostId with
        unacked := (hosts.stateOf hostId).unacked.insert envelope.commandId envelope } :=
  stateOf_set_same _

theorem register_eq_ok {after : Hosts} :
    hosts.register hostId = .ok after ↔
      (hosts.stateOf hostId).connected = false ∧
        after = hosts.set hostId
          { hosts.stateOf hostId with
            connected := true
            queue := (hosts.stateOf hostId).unacked.values ++ (hosts.stateOf hostId).queue } := by
  unfold register
  cases connected : (hosts.stateOf hostId).connected with
  | true => simp [connected]
  | false =>
    simp only [connected, Bool.false_eq_true, if_false, Except.ok.injEq, true_and]
    exact eq_comm

theorem pull_eq_some {envelope : CommandEnvelope} {after : Hosts} :
    hosts.pull hostId = some (envelope, after) ↔
      ∃ rest, (hosts.stateOf hostId).queue = envelope :: rest ∧
        after = hosts.set hostId { hosts.stateOf hostId with queue := rest } := by
  unfold pull
  cases queue : (hosts.stateOf hostId).queue with
  | nil => simp [queue]
  | cons first rest =>
    simp only [queue, Option.some.injEq, Prod.mk.injEq, List.cons.injEq]
    constructor
    · rintro ⟨rfl, rfl⟩
      exact ⟨rest, ⟨rfl, rfl⟩, rfl⟩
    · rintro ⟨_, ⟨rfl, rfl⟩, rfl⟩
      exact ⟨rfl, rfl⟩

theorem ack_cases (hosts : Hosts) (hostId : HostId) (commandId : CommandId) :
    (commandId ∉ (hosts.stateOf hostId).unacked.keys ∧
      hosts.ack hostId commandId = (false, hosts)) ∨
    (commandId ∈ (hosts.stateOf hostId).unacked.keys ∧
      hosts.ack hostId commandId = (true, hosts.set hostId
        { hosts.stateOf hostId with
          unacked := (hosts.stateOf hostId).unacked.erase commandId })) := by
  unfold ack stateOf
  cases present : hosts hostId with
  | none => simp [HostState.new]
  | some state =>
    cases found : state.unacked.get? commandId with
    | none => simp [found, OrderedMap.get?_eq_none_iff.mp found]
    | some envelope =>
      have member : commandId ∈ state.unacked.keys := by
        by_contra absent
        rw [OrderedMap.get?_eq_none_iff.mpr absent] at found
        cases found
      simp [found, member]

theorem unregister_commands (hosts : Hosts) (hostId other : HostId) :
    ((hosts.unregister hostId).stateOf other).queue = (hosts.stateOf other).queue ∧
      ((hosts.unregister hostId).stateOf other).unacked = (hosts.stateOf other).unacked := by
  unfold unregister
  cases present : hosts hostId with
  | none => exact ⟨rfl, rfl⟩
  | some state =>
    by_cases same : other = hostId
    · subst same
      simp [stateOf, present, set]
    · simp [same]

theorem terminate_commands (hosts : Hosts) (hostId other : HostId) :
    ((hosts.terminate hostId).2.stateOf other).queue = (hosts.stateOf other).queue ∧
      ((hosts.terminate hostId).2.stateOf other).unacked = (hosts.stateOf other).unacked := by
  unfold terminate
  cases present : hosts hostId with
  | none => exact ⟨rfl, rfl⟩
  | some state =>
    by_cases same : other = hostId
    · subst same
      cases connected : state.connected <;> simp [connected, stateOf, present, set]
    · cases connected : state.connected <;> simp [connected, same]

theorem terminate_connected (hosts : Hosts) (hostId : HostId) :
    ((hosts.terminate hostId).2.stateOf hostId).connected = (hosts.stateOf hostId).connected := by
  unfold terminate
  cases present : hosts hostId with
  | none => rfl
  | some state => cases connected : state.connected <;> simp [connected, stateOf, present, set]

end Hosts

end HlHelper.Live
