import HlHelper.Library.Runs
import HlHelper.Live.HostStore

/-! Runs of the command store with the history of each host: what was enqueued,
what was acked and what a stream holds between its pull and its mark. -/

namespace HlHelper.Live

open HlHelper.Library

structure History where
  enqueued : List CommandEnvelope
  acked : List CommandId
  hand : List CommandEnvelope
  latePulls : List CommandId
  deriving DecidableEq

def History.new : History := ⟨[], [], [], []⟩

/-- The enqueued commands that are not acked, oldest first. -/
def History.live (history : History) : List CommandEnvelope :=
  history.enqueued.filter (fun envelope => envelope.commandId ∉ history.acked)

structure Store where
  hosts : Hosts
  history : HostId → History

def Store.new : Store := ⟨fun _ => none, fun _ => .new⟩

inductive StoreOp where
  | enqueue (hostId : HostId) (envelope : CommandEnvelope)
  | register (hostId : HostId)
  | pull (hostId : HostId)
  | markInFlight (hostId : HostId) (envelope : CommandEnvelope)
  | ack (hostId : HostId) (commandId : CommandId)
  | unregister (hostId : HostId)
  | terminate (hostId : HostId)
  deriving DecidableEq

def Store.record (s : Store) (hosts : Hosts) (hostId : HostId) (history : History) : Store :=
  ⟨hosts, Function.update s.history hostId history⟩

/-- A pull waits while the queue is empty; every other operation goes through. -/
def storeStep (s : Store) : StoreOp → Option Store
  | .enqueue hostId envelope =>
    let history := s.history hostId
    some (s.record (s.hosts.enqueue hostId envelope) hostId
      { history with enqueued := history.enqueued ++ [envelope] })
  | .register hostId =>
    match s.hosts.register hostId with
    | .error _ => some s
    | .ok hosts => some { s with hosts := hosts }
  | .pull hostId =>
    match s.hosts.pull hostId with
    | none => none
    | some (envelope, hosts) =>
      let history := s.history hostId
      let late := if envelope.commandId ∈ history.acked then [envelope.commandId] else []
      some (s.record hosts hostId
        { history with
          hand := history.hand ++ [envelope]
          latePulls := history.latePulls ++ late })
  | .markInFlight hostId envelope =>
    let history := s.history hostId
    some (s.record (s.hosts.markInFlight hostId envelope) hostId
      { history with hand := history.hand.erase envelope })
  | .ack hostId commandId =>
    match s.hosts.ack hostId commandId with
    | (false, hosts) => some { s with hosts := hosts }
    | (true, hosts) =>
      let history := s.history hostId
      some (s.record hosts hostId
        { history with acked := history.acked ++ [commandId] })
  | .unregister hostId => some { s with hosts := s.hosts.unregister hostId }
  | .terminate hostId => some { s with hosts := (s.hosts.terminate hostId).2 }

def ids (envelopes : List CommandEnvelope) : List CommandId :=
  envelopes.map CommandEnvelope.commandId

/-- The unacked commands that are neither queued again nor pulled again. -/
def Store.notRequeued (s : Store) (hostId : HostId) : List CommandEnvelope :=
  (s.hosts.stateOf hostId).unacked.values.filter (fun envelope =>
    envelope.commandId ∉ ids ((s.hosts.stateOf hostId).queue ++ (s.history hostId).hand))

def Store.copies (s : Store) (hostId : HostId) : List CommandEnvelope :=
  (s.hosts.stateOf hostId).queue ++ s.notRequeued hostId ++ (s.history hostId).hand

/-- Every command that is enqueued and not acked occurs exactly once, an acked
one nowhere, and none is pulled after its ack. -/
structure ExactlyOnce (s : Store) (hostId : HostId) : Prop where
  once : ∀ envelope ∈ (s.history hostId).enqueued,
    envelope.commandId ∉ (s.history hostId).acked →
      envelope ∈ s.copies hostId ∧ (ids (s.copies hostId)).count envelope.commandId = 1
  gone : ∀ commandId ∈ (s.history hostId).acked,
    commandId ∉ ids (s.copies hostId) ∧
      commandId ∉ (s.hosts.stateOf hostId).unacked.keys
  never_late : (s.history hostId).latePulls = []

/-- After a register the queue starts with the unacked commands and holds every
command that is not acked, in the order in which they were enqueued. -/
structure Replayed (s : Store) (hostId : HostId) : Prop where
  unacked_first : ∃ pending,
    (s.hosts.stateOf hostId).queue = (s.hosts.stateOf hostId).unacked.values ++ pending
  in_order : (s.hosts.stateOf hostId).queue = (s.history hostId).live

/-- The condition on the state before an operation: command ids are new, no
unacked command still waits in the queue when the host registers again, a stream
marks what it pulled before anything else is pulled, and no copy of a command is
queued or held when its ack arrives. -/
def Orderly (s : Store) : StoreOp → Prop
  | .enqueue hostId envelope => envelope.commandId ∉ ids (s.history hostId).enqueued
  | .register hostId =>
    (s.hosts.stateOf hostId).connected = true ∨
      (s.history hostId).hand = [] ∧
        ∀ envelope ∈ (s.hosts.stateOf hostId).unacked.values,
          envelope ∉ (s.hosts.stateOf hostId).queue
  | .pull hostId => (s.history hostId).hand = []
  | .markInFlight hostId envelope => envelope ∈ (s.history hostId).hand
  | .ack hostId commandId =>
    commandId ∈ (s.hosts.stateOf hostId).unacked.keys →
      commandId ∉ ids ((s.hosts.stateOf hostId).queue ++ (s.history hostId).hand)
  | .unregister _ => True
  | .terminate _ => True

instance decidableOrderly (s : Store) : ∀ op, Decidable (Orderly s op)
  | .enqueue _ _ => inferInstanceAs (Decidable (_ ∉ _))
  | .register _ => inferInstanceAs (Decidable (_ ∨ _ ∧ ∀ envelope ∈ _, _))
  | .pull _ => inferInstanceAs (Decidable (_ = _))
  | .markInFlight _ _ => inferInstanceAs (Decidable (_ ∈ _))
  | .ack _ _ => inferInstanceAs (Decidable (_ → _ ∉ _))
  | .unregister _ => isTrue trivial
  | .terminate _ => isTrue trivial

/-- How the commands of a host lie: `front` was sent, `middle` and `fresh` are in
a stream's hand, `replay` is queued once more and `pending` was never pulled. -/
structure Layout where
  front : List CommandEnvelope
  middle : List CommandEnvelope
  replay : List CommandEnvelope
  fresh : List CommandEnvelope
  pending : List CommandEnvelope

structure Arranged (state : HostState) (history : History) (l : Layout) : Prop where
  queue : state.queue = l.replay ++ l.pending
  unacked : state.unacked.values = l.front ++ l.middle ++ l.replay
  hand : history.hand = l.middle ++ l.fresh
  live : history.live = l.front ++ l.middle ++ l.replay ++ l.fresh ++ l.pending
  held : history.hand.length ≤ 1
  fresh_last : l.fresh ≠ [] → l.replay = []

def Keyed (unacked : OrderedMap CommandId CommandEnvelope) : Prop :=
  ∀ entry ∈ unacked.entries, entry.1 = entry.2.commandId

structure Sound (state : HostState) (history : History) : Prop where
  distinct : (ids history.enqueued).Nodup
  known : ∀ commandId ∈ history.acked, commandId ∈ ids history.enqueued
  keyed : Keyed state.unacked
  never_late : history.latePulls = []
  arranged : ∃ l, Arranged state history l

variable {unacked : OrderedMap CommandId CommandEnvelope}

theorem keys_eq_ids (keyed : Keyed unacked) : unacked.keys = ids unacked.values := by
  simp only [OrderedMap.keys, ids, OrderedMap.values, List.map_map]
  exact List.map_congr_left (fun entry member => keyed entry member)

theorem values_erase (keyed : Keyed unacked) (commandId : CommandId) :
    (unacked.erase commandId).values =
      unacked.values.filter (fun envelope => envelope.commandId ≠ commandId) := by
  simp only [OrderedMap.values, OrderedMap.erase, List.filter_map]
  congr 1
  refine List.filter_congr (fun entry member => ?_)
  simp [keyed entry member]

theorem keyed_erase (keyed : Keyed unacked) (commandId : CommandId) :
    Keyed (unacked.erase commandId) :=
  fun entry member => keyed entry (List.mem_filter.mp member).1

theorem keyed_insert (keyed : Keyed unacked) (envelope : CommandEnvelope) :
    Keyed (unacked.insert envelope.commandId envelope) := by
  intro entry member
  by_cases present : envelope.commandId ∈ unacked.keys
  · rw [OrderedMap.entries_insert_of_mem present] at member
    obtain ⟨old, inside, rfl⟩ := List.mem_map.mp member
    unfold OrderedMap.replace
    split
    · rfl
    · exact keyed old inside
  · rw [OrderedMap.entries_insert_of_not_mem present] at member
    rcases List.mem_append.mp member with inside | single
    · exact keyed entry inside
    · rw [List.mem_singleton.mp single]

theorem ids_sublist {first second : List CommandEnvelope} (sub : first.Sublist second) :
    (ids first).Sublist (ids second) := sub.map _

theorem live_nodup {history : History} (distinct : (ids history.enqueued).Nodup) :
    (ids history.live).Nodup := distinct.sublist (ids_sublist List.filter_sublist)

theorem new_sound : Sound .new .new where
  distinct := List.nodup_nil
  known := fun _ member => by simp [History.new] at member
  keyed := fun _ member => by simp [HostState.new, OrderedMap.empty] at member
  never_late := rfl
  arranged := ⟨⟨[], [], [], [], []⟩, rfl, rfl, rfl, rfl, by simp [History.new], by simp⟩

theorem ids_filter_of_not_mem {envelopes : List CommandEnvelope} {commandId : CommandId}
    (absent : commandId ∉ ids envelopes) :
    envelopes.filter (fun envelope => envelope.commandId ≠ commandId) = envelopes := by
  refine List.filter_eq_self.mpr (fun envelope member => ?_)
  have different : envelope.commandId ≠ commandId := by
    rintro rfl
    exact absent (List.mem_map.mpr ⟨envelope, member, rfl⟩)
  simpa using different

section Steps

variable {state : HostState} {history : History} (sound : Sound state history)
include sound

theorem enqueue_sound {envelope : CommandEnvelope}
    (fresh : envelope.commandId ∉ ids history.enqueued) :
    Sound { state with queue := state.queue ++ [envelope] }
      { history with enqueued := history.enqueued ++ [envelope] } := by
  obtain ⟨l, arranged⟩ := sound.arranged
  have not_acked : envelope.commandId ∉ history.acked :=
    fun member => fresh (sound.known _ member)
  refine ⟨?_, ?_, sound.keyed, sound.never_late,
    ⟨{ l with pending := l.pending ++ [envelope] }, ?_, arranged.unacked, arranged.hand, ?_,
      arranged.held, arranged.fresh_last⟩⟩
  · simp only [ids, List.map_append, List.map_cons, List.map_nil]
    exact List.nodup_append.mpr ⟨sound.distinct, List.nodup_singleton _, by
      intro a member b single same
      rw [List.mem_singleton] at single
      exact fresh (single ▸ same ▸ member)⟩
  · intro commandId member
    simp only [ids, List.map_append, List.mem_append]
    exact .inl (sound.known commandId member)
  · simp [arranged.queue]
  · have before := arranged.live
    simp only [History.live] at before ⊢
    rw [List.filter_append, before]
    simp [not_acked]

theorem register_sound (idle : history.hand = [])
    (requeued : ∀ envelope ∈ state.unacked.values, envelope ∉ state.queue) :
    Sound { state with connected := true, queue := state.unacked.values ++ state.queue }
        history ∧
      state.unacked.values ++ state.queue = history.live := by
  obtain ⟨l, arranged⟩ := sound.arranged
  have empty_hand := arranged.hand
  rw [idle, eq_comm, List.append_eq_nil_iff] at empty_hand
  have no_replay : l.replay = [] := by
    rw [List.eq_nil_iff_forall_not_mem]
    intro envelope member
    refine requeued envelope ?_ ?_
    · rw [arranged.unacked]
      exact List.mem_append_right _ member
    · rw [arranged.queue]
      exact List.mem_append_left _ member
  have unacked := arranged.unacked
  have queue := arranged.queue
  have live := arranged.live
  simp only [empty_hand.1, empty_hand.2, no_replay, List.append_nil, List.nil_append]
    at unacked queue live
  refine ⟨⟨sound.distinct, sound.known, sound.keyed, sound.never_late,
    ⟨⟨[], [], l.front, [], l.pending⟩, ?_, ?_, ?_, ?_, arranged.held, by simp⟩⟩, ?_⟩
  · simp [unacked, queue]
  · simp [unacked]
  · simp [idle]
  · simp [live]
  · rw [unacked, queue, live]

theorem queued_not_acked {envelope : CommandEnvelope} (queued : envelope ∈ state.queue) :
    envelope.commandId ∉ history.acked := by
  obtain ⟨l, arranged⟩ := sound.arranged
  have live : envelope ∈ history.live := by
    rw [arranged.queue] at queued
    rw [arranged.live]
    rcases List.mem_append.mp queued with inside | inside <;> simp [inside]
  simpa using (List.mem_filter.mp live).2

theorem pull_sound (idle : history.hand = []) {envelope : CommandEnvelope}
    {rest : List CommandEnvelope} (queue : state.queue = envelope :: rest) :
    Sound { state with queue := rest }
      { history with
        hand := history.hand ++ [envelope]
        latePulls := history.latePulls ++
          if envelope.commandId ∈ history.acked then [envelope.commandId] else [] } := by
  have queued : envelope ∈ state.queue := by simp [queue]
  have not_acked := queued_not_acked sound queued
  obtain ⟨l, arranged⟩ := sound.arranged
  have empty_hand := arranged.hand
  rw [idle, eq_comm, List.append_eq_nil_iff] at empty_hand
  have shape := arranged.queue
  have unacked := arranged.unacked
  have live := arranged.live
  simp only [empty_hand.1, empty_hand.2, List.append_nil] at unacked live
  rw [queue] at shape
  refine ⟨sound.distinct, sound.known, sound.keyed, by simp [not_acked, sound.never_late], ?_⟩
  cases replay : l.replay with
  | nil =>
    simp only [replay, List.nil_append, List.append_nil] at shape unacked live
    refine ⟨⟨l.front, [], [], [envelope], rest⟩, rfl, ?_, ?_, ?_, ?_, ?_⟩
    · simp [unacked]
    · simp [idle]
    · simpa [History.live, ← shape] using live
    · simp [idle]
    · simp
  | cons first replay' =>
    simp only [replay, List.cons_append, List.cons.injEq] at shape
    obtain ⟨rfl, rfl⟩ := shape
    refine ⟨⟨l.front, [envelope], replay', [], l.pending⟩, rfl, ?_, ?_, ?_, ?_, ?_⟩
    · simp [unacked, replay]
    · simp [idle]
    · simpa [History.live, replay] using live
    · simp [idle]
    · simp

theorem mark_sound {envelope : CommandEnvelope} (held : envelope ∈ history.hand) :
    Sound { state with unacked := state.unacked.insert envelope.commandId envelope }
      { history with hand := history.hand.erase envelope } := by
  obtain ⟨l, arranged⟩ := sound.arranged
  have single : history.hand = [envelope] := by
    obtain ⟨before, after, split⟩ := List.append_of_mem held
    have size := arranged.held
    rw [split] at size ⊢
    simp only [List.length_append, List.length_cons] at size
    have none_before : before = [] := List.length_eq_zero_iff.mp (by omega)
    have none_after : after = [] := List.length_eq_zero_iff.mp (by omega)
    simp [none_before, none_after]
  have hand := arranged.hand
  rw [single] at hand
  have unacked := arranged.unacked
  have live := arranged.live
  have distinct := live_nodup sound.distinct
  have erased : history.hand.erase envelope = [] := by simp [single]
  refine ⟨sound.distinct, sound.known, keyed_insert sound.keyed envelope, sound.never_late, ?_⟩
  cases middle : l.middle with
  | nil =>
    simp only [middle, List.nil_append] at hand
    have no_replay := arranged.fresh_last (by simp [← hand])
    simp only [middle, no_replay, ← hand, List.append_nil] at unacked live
    have absent : envelope.commandId ∉ state.unacked.keys := by
      rw [keys_eq_ids sound.keyed, unacked]
      rw [live] at distinct
      simp only [ids, List.map_append, List.map_cons, List.append_assoc,
        List.singleton_append, List.nodup_append, List.nodup_cons] at distinct
      intro member
      exact distinct.2.2 _ member _ (List.mem_cons_self ..) rfl
    refine ⟨⟨l.front ++ [envelope], [], [], [], l.pending⟩, ?_, ?_, ?_, ?_, ?_, ?_⟩
    · simp [arranged.queue, no_replay]
    · simp [OrderedMap.values_insert_of_not_mem absent, unacked]
    · simp [erased]
    · simpa [History.live] using live
    · simp [erased]
    · simp
  | cons first middle' =>
    rw [middle, List.cons_append, List.cons.injEq] at hand
    obtain ⟨rfl, tail⟩ := hand
    obtain ⟨rfl, no_fresh⟩ := List.append_eq_nil_iff.mp tail.symm
    have present : (envelope.commandId, envelope) ∈ state.unacked.entries := by
      have member : envelope ∈ state.unacked.values := by
        rw [unacked, middle]
        simp
      obtain ⟨entry, inside, same⟩ := List.mem_map.mp member
      have key := sound.keyed entry inside
      rw [same] at key
      have entry_eq : entry = (envelope.commandId, envelope) := Prod.ext key same
      rwa [← entry_eq]
    refine ⟨⟨l.front ++ [envelope], [], l.replay, [], l.pending⟩, ?_, ?_, ?_, ?_, ?_, ?_⟩
    · exact arranged.queue
    · simp [OrderedMap.insert_same present, unacked, middle]
    · simp [erased]
    · simpa [History.live, middle, no_fresh] using live
    · simp [erased]
    · simp

theorem ack_sound {commandId : CommandId} (present : commandId ∈ state.unacked.keys)
    (no_copy : commandId ∉ ids (state.queue ++ history.hand)) :
    Sound { state with unacked := state.unacked.erase commandId }
      { history with acked := history.acked ++ [commandId] } := by
  obtain ⟨l, arranged⟩ := sound.arranged
  simp only [ids, List.map_append, List.mem_append, not_or, arranged.queue, arranged.hand]
    at no_copy
  obtain ⟨⟨replay, pending⟩, middle, fresh⟩ := no_copy
  have live : History.live { history with acked := history.acked ++ [commandId] } =
      history.live.filter (fun envelope => envelope.commandId ≠ commandId) := by
    simp only [History.live, List.filter_filter]
    refine List.filter_congr (fun envelope _ => ?_)
    simp [not_or, and_comm]
  refine ⟨sound.distinct, ?_, keyed_erase sound.keyed commandId, sound.never_late,
    ⟨{ l with front := l.front.filter (fun envelope => envelope.commandId ≠ commandId) },
      arranged.queue, ?_, arranged.hand, ?_, arranged.held, arranged.fresh_last⟩⟩
  · intro other member
    rcases List.mem_append.mp member with old | new
    · exact sound.known other old
    · obtain rfl := List.mem_singleton.mp new
      rw [keys_eq_ids sound.keyed] at present
      obtain ⟨envelope, inside, rfl⟩ := List.mem_map.mp present
      have alive : envelope ∈ history.live := by
        rw [arranged.unacked] at inside
        rw [arranged.live]
        simp only [List.mem_append] at inside ⊢
        exact .inl (.inl inside)
      exact List.mem_map.mpr ⟨envelope, (List.mem_filter.mp alive).1, rfl⟩
  · rw [values_erase sound.keyed, arranged.unacked, List.filter_append, List.filter_append,
      ids_filter_of_not_mem middle, ids_filter_of_not_mem replay]
  · rw [live, arranged.live, List.filter_append, List.filter_append, List.filter_append,
      List.filter_append, ids_filter_of_not_mem middle, ids_filter_of_not_mem replay,
      ids_filter_of_not_mem fresh, ids_filter_of_not_mem pending]

end Steps

theorem Sound.same_commands {state other : HostState} {history : History}
    (sound : Sound state history) (queue : other.queue = state.queue)
    (unacked : other.unacked = state.unacked) : Sound other history := by
  obtain ⟨l, arranged⟩ := sound.arranged
  exact ⟨sound.distinct, sound.known, unacked ▸ sound.keyed, sound.never_late,
    ⟨l, queue.trans arranged.queue, unacked ▸ arranged.unacked, arranged.hand, arranged.live,
      arranged.held, arranged.fresh_last⟩⟩

def Store.Sound (s : Store) : Prop :=
  ∀ hostId, Live.Sound (s.hosts.stateOf hostId) (s.history hostId)

theorem Store.Sound.record {s : Store} (sound : s.Sound) (hostId : HostId) {state : HostState}
    {history : History} (changed : Live.Sound state history) :
    (s.record (s.hosts.set hostId state) hostId history).Sound := by
  intro other
  by_cases same : other = hostId
  · subst same
    simpa [Store.record] using changed
  · simpa [Store.record, same] using sound other

theorem storeStep_sound (s : Store) (op : StoreOp) (t : Store) (sound : s.Sound)
    (orderly : Orderly s op) (stepped : storeStep s op = some t) : t.Sound := by
  cases op with
  | enqueue hostId envelope =>
    cases stepped
    exact sound.record hostId (enqueue_sound (sound hostId) orderly)
  | register hostId =>
    simp only [storeStep] at stepped
    cases registered : s.hosts.register hostId with
    | error error =>
      simp only [registered, Option.some.injEq] at stepped
      exact stepped ▸ sound
    | ok hosts =>
      simp only [registered, Option.some.injEq] at stepped
      obtain ⟨free, rfl⟩ := Hosts.register_eq_ok.mp registered
      rcases orderly with busy | ⟨idle, requeued⟩
      · simp [free] at busy
      · subst stepped
        have kept := (register_sound (sound hostId) idle requeued).1
        simpa [Store.record] using sound.record hostId kept
  | pull hostId =>
    simp only [storeStep] at stepped
    cases pulled : s.hosts.pull hostId with
    | none => simp [pulled] at stepped
    | some result =>
      obtain ⟨envelope, hosts⟩ := result
      simp only [pulled, Option.some.injEq] at stepped
      obtain ⟨rest, queue, rfl⟩ := Hosts.pull_eq_some.mp pulled
      exact stepped ▸ sound.record hostId (pull_sound (sound hostId) orderly queue)
  | markInFlight hostId envelope =>
    cases stepped
    exact sound.record hostId (mark_sound (sound hostId) orderly)
  | ack hostId commandId =>
    simp only [storeStep] at stepped
    rcases Hosts.ack_cases s.hosts hostId commandId with ⟨_, result⟩ | ⟨present, result⟩
    · simp only [result, Option.some.injEq] at stepped
      exact stepped ▸ sound
    · simp only [result, Option.some.injEq] at stepped
      exact stepped ▸ sound.record hostId (ack_sound (sound hostId) present (orderly present))
  | unregister hostId =>
    cases stepped
    intro other
    obtain ⟨queue, unacked⟩ := Hosts.unregister_commands s.hosts hostId other
    exact (sound other).same_commands queue unacked
  | terminate hostId =>
    cases stepped
    intro other
    obtain ⟨queue, unacked⟩ := Hosts.terminate_commands s.hosts hostId other
    exact (sound other).same_commands queue unacked

theorem new_store_sound : Store.new.Sound := fun _ => new_sound

theorem copies_perm {s : Store} {hostId : HostId}
    (sound : Live.Sound (s.hosts.stateOf hostId) (s.history hostId)) :
    (s.copies hostId).Perm (s.history hostId).live := by
  obtain ⟨l, arranged⟩ := sound.arranged
  have distinct := live_nodup sound.distinct
  rw [arranged.live] at distinct
  have front : s.notRequeued hostId = l.front := by
    have values : (s.hosts.stateOf hostId).unacked.values = l.front ++ (l.middle ++ l.replay) := by
      rw [arranged.unacked, List.append_assoc]
    have kept : l.front.filter (fun envelope =>
        envelope.commandId ∉ ids (l.replay ++ l.pending ++ (l.middle ++ l.fresh))) = l.front := by
      refine List.filter_eq_self.mpr (fun envelope member => ?_)
      have apart : ∀ other ∈ l.middle ++ l.replay ++ l.fresh ++ l.pending,
          envelope.commandId ≠ other.commandId := by
        intro other inside
        simp only [List.append_assoc, ids, List.map_append] at distinct
        have separate := (List.nodup_append.mp distinct).2.2 envelope.commandId
          (List.mem_map.mpr ⟨envelope, member, rfl⟩) other.commandId
        refine separate ?_
        simp only [List.append_assoc, List.mem_append] at inside
        simp only [List.mem_append, List.mem_map]
        rcases inside with inside | inside | inside | inside
        · exact .inl ⟨other, inside, rfl⟩
        · exact .inr (.inl ⟨other, inside, rfl⟩)
        · exact .inr (.inr (.inl ⟨other, inside, rfl⟩))
        · exact .inr (.inr (.inr ⟨other, inside, rfl⟩))
      simp only [decide_eq_true_eq]
      intro inside
      obtain ⟨other, found, same⟩ := List.mem_map.mp inside
      refine apart other ?_ same.symm
      simp only [List.mem_append] at found ⊢
      tauto
    have dropped : (l.middle ++ l.replay).filter (fun envelope =>
        envelope.commandId ∉ ids (l.replay ++ l.pending ++ (l.middle ++ l.fresh))) = [] := by
      refine List.filter_eq_nil_iff.mpr (fun envelope member => ?_)
      simp only [decide_eq_true_eq, not_not]
      refine List.mem_map.mpr ⟨envelope, ?_, rfl⟩
      simp only [List.mem_append] at member ⊢
      tauto
    unfold Store.notRequeued
    rw [values, arranged.queue, arranged.hand, List.filter_append, kept, dropped, List.append_nil]
  unfold Store.copies
  rw [front, arranged.queue, arranged.hand, arranged.live]
  refine List.perm_iff_count.mpr (fun envelope => ?_)
  simp only [List.count_append]
  omega

theorem sound_exactlyOnce {s : Store} {hostId : HostId}
    (sound : Live.Sound (s.hosts.stateOf hostId) (s.history hostId)) : ExactlyOnce s hostId := by
  have perm := copies_perm sound
  have distinct := live_nodup sound.distinct
  have none_acked : ∀ commandId ∈ (s.history hostId).acked,
      commandId ∉ ids (s.history hostId).live := by
    intro commandId acked member
    obtain ⟨envelope, inside, rfl⟩ := List.mem_map.mp member
    exact absurd acked (by simpa using (List.mem_filter.mp inside).2)
  refine ⟨?_, ?_, sound.never_late⟩
  · intro envelope enqueued not_acked
    have live : envelope ∈ (s.history hostId).live :=
      List.mem_filter.mpr ⟨enqueued, by simpa using not_acked⟩
    refine ⟨perm.mem_iff.mpr live, ?_⟩
    have same : (ids (s.copies hostId)).count envelope.commandId =
        (ids (s.history hostId).live).count envelope.commandId := (perm.map _).count_eq _
    rw [same]
    exact List.count_eq_one_of_mem distinct (List.mem_map.mpr ⟨envelope, live, rfl⟩)
  · intro commandId acked
    refine ⟨fun member => none_acked commandId acked ((perm.map _).mem_iff.mp member), ?_⟩
    rw [keys_eq_ids sound.keyed]
    intro member
    obtain ⟨envelope, inside, rfl⟩ := List.mem_map.mp member
    obtain ⟨l, arranged⟩ := sound.arranged
    refine none_acked _ acked (List.mem_map.mpr ⟨envelope, ?_, rfl⟩)
    rw [arranged.unacked] at inside
    rw [arranged.live]
    simp only [List.mem_append] at inside ⊢
    exact .inl (.inl inside)

/-- In every run whose operations meet the condition, the host's commands are
there exactly once, and every register replays them in order. -/
theorem store_run_exactly_once {ops : List StoreOp} {s : Store}
    (reached : run storeStep Store.new ops = some s)
    (orderly : Meets storeStep Orderly Store.new ops) (hostId : HostId) :
    ExactlyOnce s hostId ∧
      ∀ t, (s.hosts.stateOf hostId).connected = false → Orderly s (.register hostId) →
        storeStep s (.register hostId) = some t → Replayed t hostId := by
  have sound : s.Sound := run_keeps storeStep_sound new_store_sound reached orderly
  refine ⟨sound_exactlyOnce (sound hostId), ?_⟩
  intro t free condition stepped
  rcases condition with busy | ⟨idle, requeued⟩
  · simp [free] at busy
  · have ordered := (register_sound (sound hostId) idle requeued).2
    have registered : s.hosts.register hostId = .ok _ := Hosts.register_eq_ok.mpr ⟨free, rfl⟩
    simp only [storeStep, registered, Option.some.injEq] at stepped
    subst stepped
    exact ⟨⟨(s.hosts.stateOf hostId).queue, by simp⟩, by simpa using ordered⟩

def reconnectOps : List StoreOp :=
  [.enqueue "h1" (named "c1"), .register "h1", .pull "h1", .markInFlight "h1" (named "c1"),
    .enqueue "h1" (named "c2"), .unregister "h1", .register "h1", .pull "h1",
    .markInFlight "h1" (named "c1"), .ack "h1" "c1", .pull "h1", .markInFlight "h1" (named "c2"),
    .ack "h1" "c2", .unregister "h1"]

theorem reconnect_exactly_once :
    ∃ s, run storeStep Store.new reconnectOps = some s ∧ ExactlyOnce s "h1" := by
  have finishes : (run storeStep Store.new reconnectOps).isSome := by decide
  have orderly : Meets storeStep Orderly Store.new reconnectOps := by decide
  obtain ⟨s, reached⟩ := Option.isSome_iff_exists.mp finishes
  exact ⟨s, reached, (store_run_exactly_once reached orderly "h1").1⟩

/-- A host that reconnects twice before it is sent anything has its one unacked
command in the queue twice. -/
theorem double_reconnect_duplicates :
    ∃ s, run storeStep Store.new
        [.enqueue "h1" (named "c1"), .register "h1", .pull "h1", .markInFlight "h1" (named "c1"),
          .unregister "h1", .register "h1", .unregister "h1", .register "h1"] = some s ∧
      (s.hosts.stateOf "h1").queue = [named "c1", named "c1"] ∧ ¬ ExactlyOnce s "h1" := by
  refine ⟨_, rfl, rfl, ?_⟩
  intro exactly
  have once := (exactly.once (named "c1") (by decide) (by decide)).2
  exact absurd once (by decide)

end HlHelper.Live
