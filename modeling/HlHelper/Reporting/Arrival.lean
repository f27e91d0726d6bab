import HlHelper.Reporting.System

/-! Where the queued results are. `Ack` does not wait for the server, so a result can be
lost with the stream it was sent on. -/

namespace HlHelper.Reporting

open Inbound Library Results

/-- What a broken stream loses was received, or still waits and is not about to be
acknowledged. -/
def Delivery.Kept (d : Delivery) : DrainEvent → Prop
  | .lose i => ∀ x ∈ d.drains i, ∀ item ∈ x.results,
      item.nth ∈ d.received ∨ d.Waits item.nth ∧ ∀ entry ∈ x.unacked, entry.2 ≠ item
  | _ => True

/-- An entry is acknowledged when its result is no longer in flight. -/
def Delivery.Settled (d : Delivery) : DrainEvent → Prop
  | .ack i true => ∀ x ∈ d.drains i, ∀ entry ∈ x.unacked, entry.2 ∉ x.results
  | _ => True

def Kept (s : System) : Event → Prop
  | .drain event => s.delivery.Kept event
  | _ => True

def Settled (s : System) : Event → Prop
  | .drain event => s.delivery.Settled event
  | _ => True

section Decidable

variable (d : Delivery) (s : System)

instance (nth : Nat) : Decidable (d.Waits nth) :=
  inferInstanceAs (Decidable (nth ∈ d.outbox.items.map (fun entry => entry.2.nth)))

instance : ∀ event, Decidable (d.Kept event)
  | .lose i => inferInstanceAs (Decidable (∀ x ∈ d.drains i, ∀ item ∈ x.results, _))
  | .peek _ | .send _ | .ack _ _ | .post _ _ | .breakOff _ => isTrue trivial

instance : ∀ event, Decidable (d.Settled event)
  | .ack i true => inferInstanceAs (Decidable (∀ x ∈ d.drains i, ∀ entry ∈ x.unacked, _))
  | .ack _ false | .peek _ | .send _ | .post _ _ | .breakOff _ | .lose _ => isTrue trivial

instance : ∀ event, Decidable (Kept s event)
  | .drain event => inferInstanceAs (Decidable (s.delivery.Kept event))
  | .agent _ | .receive _ _ _ _ | .foreign _ _ _ _ _ | .plan _ _ _ => isTrue trivial

instance : ∀ event, Decidable (Settled s event)
  | .drain event => inferInstanceAs (Decidable (s.delivery.Settled event))
  | .agent _ | .receive _ _ _ _ | .foreign _ _ _ _ _ | .plan _ _ _ => isTrue trivial

end Decidable

namespace Delivery

variable {d t : Delivery} {count : Nat}

/-- The entry is of the outbox, or was and its id is not used again. -/
structure Names (d : Delivery) (entry : Nat × Queued) : Prop where
  drawn : entry.1 < d.outbox.nextID
  only : ∀ content, (entry.1, content) ∈ d.outbox.items → content = entry.2

theorem names_of_mem {entry : Nat × Queued} (member : entry ∈ d.outbox.items) : d.Names entry where
  drawn := d.outbox.fresh entry member
  only := fun _ other => Outbox.Queue.content_eq other member

/-- Each of the first `count` results is somewhere, and what a drain is about to
acknowledge was not lost. -/
structure Accounted (d : Delivery) (count : Nat) : Prop where
  placed : ∀ nth, nth < count →
    d.Waits nth ∨ nth ∈ d.evicted ∨ d.Travels nth ∨ nth ∈ d.received
  sent : ∀ i x entry, d.drains i = some x → x.unacked = some entry →
    entry.2 ∈ x.results ∨ entry.2.nth ∈ d.received
  named : ∀ i x entry, d.drains i = some x → entry ∈ x.held → d.Names entry

theorem start_accounted : Accounted start 0 := by
  constructor
  · intro nth small
    exact absurd small (Nat.not_lt_zero nth)
  · intro i x entry found
    cases found
  · intro i x entry found
    cases found

theorem Accounted.set (accounted : Accounted d count) {i : Nat} {x : Drain}
    (carried : ∀ old, d.drains i = some old → ∀ item ∈ old.results,
      item ∈ x.results ∨ item.nth ∈ d.received ∨ d.Waits item.nth)
    (sent : ∀ entry, x.unacked = some entry → entry.2 ∈ x.results ∨ entry.2.nth ∈ d.received)
    (named : ∀ entry ∈ x.held, d.Names entry) : Accounted (d.set i x) count := by
  constructor
  · intro nth small
    rcases accounted.placed nth small with waits | gone | ⟨j, old, found, travels⟩ | arrived
    · exact .inl waits
    · exact .inr (.inl gone)
    · by_cases same : j = i
      · subst same
        obtain ⟨item, inside, rfl⟩ := List.mem_map.mp travels
        rcases carried old found item inside with kept | arrived | waits
        · refine .inr (.inr (.inl ⟨j, x, ?_, List.mem_map_of_mem kept⟩))
          exact Function.update_self ..
        · exact .inr (.inr (.inr arrived))
        · exact .inl waits
      · refine .inr (.inr (.inl ⟨j, old, ?_, travels⟩))
        rw [set_drains, Function.update_of_ne same]
        exact found
    · exact .inr (.inr (.inr arrived))
  · intro j y entry found unacked
    rcases update_eq_some.mp found with ⟨_, new⟩ | ⟨_, old⟩
    · cases new
      exact sent entry unacked
    · exact accounted.sent j y entry old unacked
  · intro j y entry found member
    rcases update_eq_some.mp found with ⟨_, new⟩ | ⟨_, old⟩
    · cases new
      obtain ⟨drawn, only⟩ := named entry member
      exact ⟨drawn, only⟩
    · obtain ⟨drawn, only⟩ := accounted.named j y entry old member
      exact ⟨drawn, only⟩

theorem Accounted.modify (accounted : Accounted d count) {i : Nat} {x y : Drain}
    (found : d.drains i = some x) (carried : ∀ item ∈ x.results, item ∈ y.results)
    (sent : ∀ entry, y.unacked = some entry → entry.2 ∈ y.results ∨ entry.2.nth ∈ d.received)
    (held : ∀ entry ∈ y.held, entry ∈ x.held) : Accounted (d.set i y) count := by
  apply accounted.set
  · intro old same item inside
    cases found.symm.trans same
    exact .inl (carried item inside)
  · exact sent
  · intro entry member
    exact accounted.named i x entry found (held entry member)

theorem results_append (x : Drain) (sent : Sent) :
    ({ x with inFlight := x.inFlight ++ [sent] } : Drain).results =
      x.results ++ Drain.results ⟨true, [], none, [sent]⟩ := by
  simp [Drain.results]

section

variable (accounted : Accounted d count)
include accounted

theorem Accounted.ack {i : Nat} {x : Drain} {entry : Nat × Queued} (found : d.drains i = some x)
    (sent : x.unacked = some entry) :
    Accounted { d with outbox := d.outbox.ack entry.1 } count := by
  have held : entry ∈ x.held := by simp [Drain.held, sent]
  have only := (accounted.named i x entry found held).only
  constructor
  · intro nth small
    rcases accounted.placed nth small with waits | elsewhere
    · obtain ⟨item, inside, rfl⟩ := List.mem_map.mp waits
      by_cases same : item.1 = entry.1
      · have content : item.2 = entry.2 := only item.2 (same ▸ inside)
        rw [content]
        rcases accounted.sent i x entry found sent with travels | arrived
        · exact .inr (.inr (.inl ⟨i, x, found, List.mem_map_of_mem travels⟩))
        · exact .inr (.inr (.inr arrived))
      · exact .inl (List.mem_map_of_mem (Outbox.Queue.mem_ack.mpr ⟨inside, same⟩))
    · exact .inr elsewhere
  · exact accounted.sent
  · intro j y other there member
    obtain ⟨drawn, names⟩ := accounted.named j y other there member
    exact ⟨drawn, fun content inside => names content (Outbox.Queue.mem_ack.mp inside).1⟩

theorem drained_accounted {event : DrainEvent} (kept : d.Kept event) (drained : Drained d event t) :
    Accounted t count := by
  cases drained with
  | @peek i x found batch acked =>
    apply accounted.set
    · intro old same item inside
      cases found.symm.trans same
      exact .inl inside
    · intro entry same
      simp [acked] at same
    · intro entry member
      apply names_of_mem
      have peeked : entry ∈ d.outbox.peek 10 := by simpa [Drain.held, acked] using member
      exact List.mem_of_mem_take peeked
  | @send i x entry rest found next acked up =>
    have more := results_append x (.result entry.2)
    apply accounted.modify found
    · intro item inside
      exact more ▸ List.mem_append_left _ inside
    · intro other same
      cases same
      exact .inl (more ▸ List.mem_append_right _ List.mem_cons_self)
    · intro other member
      simpa [Drain.held, acked, next] using member
  | @drop i x found acked down =>
    apply accounted.modify found
    · exact fun item inside => inside
    · intro entry same
      simp [acked] at same
    · intro entry member
      simp [Drain.held, acked] at member
  | @ack i x entry found sent =>
    apply (accounted.ack found sent).modify found
    · exact fun item inside => inside
    · intro other same
      cases same
    · intro other member
      exact List.mem_append_right _ (by simpa [Drain.held] using member)
  | @keep i x found =>
    apply accounted.modify found
    · exact fun item inside => inside
    · intro other same
      cases same
    · intro other member
      exact List.mem_append_right _ (by simpa [Drain.held] using member)
  | @post i msg x sent found other =>
    have more := results_append x sent
    apply accounted.modify found
    · intro item inside
      exact more ▸ List.mem_append_left _ inside
    · intro entry same
      rcases accounted.sent i x entry found same with travels | arrived
      · exact .inl (more ▸ List.mem_append_left _ travels)
      · exact .inr arrived
    · exact fun entry member => member
  | @breakOff i x found =>
    apply accounted.modify found
    · exact fun item inside => inside
    · exact fun entry same => accounted.sent i x entry found same
    · exact fun entry member => member
  | @lose i x found down =>
    have kept := kept x found
    apply accounted.set
    · intro old same item inside
      cases found.symm.trans same
      exact .inr ((kept item inside).imp_right And.left)
    · intro entry same
      rcases accounted.sent i x entry found same with travels | arrived
      · rcases kept entry.2 travels with arrived | ⟨_, apart⟩
        · exact .inr arrived
        · exact absurd rfl (apart entry same)
      · exact .inr arrived
    · exact fun entry member => accounted.named i x entry found member

theorem receive_accounted {i : Nat} {sent : Sent} (read : d.receive i = some (sent, t)) :
    Accounted t count := by
  obtain ⟨x, rest, found, flight, rfl⟩ := receive_eq_some read
  have arrives : ∀ nth, nth ∈ d.received → nth ∈ d.received ++ sent.nths :=
    fun nth member => List.mem_append_left _ member
  have more : Accounted { d with received := d.received ++ sent.nths } count := by
    constructor
    · intro nth small
      rcases accounted.placed nth small with waits | gone | travels | arrived
      · exact .inl waits
      · exact .inr (.inl gone)
      · exact .inr (.inr (.inl travels))
      · exact .inr (.inr (.inr (arrives nth arrived)))
    · intro j y entry there unacked
      exact (accounted.sent j y entry there unacked).imp_right (arrives _)
    · intro j y entry there member
      obtain ⟨drawn, only⟩ := accounted.named j y entry there member
      exact ⟨drawn, only⟩
  have split : ∀ item ∈ x.results,
      item ∈ ({ x with inFlight := rest } : Drain).results ∨ item.nth ∈ sent.nths := by
    intro item inside
    simp only [Drain.results, flight] at inside ⊢
    cases sent with
    | result first =>
      rcases List.mem_cons.mp inside with same | later
      · exact .inr (by simp [Sent.nths, same])
      · exact .inl later
    | other msg plain => exact .inl inside
  apply more.set
  · intro old same item inside
    cases found.symm.trans same
    rcases split item inside with later | first
    · exact .inl later
    · exact .inr (.inl (List.mem_append_right _ first))
  · intro entry unacked
    rcases accounted.sent i x entry found unacked with travels | arrived
    · exact (split entry.2 travels).imp_right (List.mem_append_right _)
    · exact .inr (arrives _ arrived)
  · exact fun entry member => more.named i x entry found member

theorem connect_accounted {i : Nat} (joined : d.connect i = some t) : Accounted t count := by
  obtain ⟨free, rfl⟩ := connect_eq_some joined
  apply accounted.set
  · intro old same
    cases free.symm.trans same
  · intro entry same
    cases same
  · intro entry member
    simp [Drain.held] at member

end

theorem waits_append {item : Queued} {evicted nth : Nat}
    (waits : nth ∈ (d.outbox.items ++ [(d.outbox.nextID, item)]).map (fun entry => entry.2.nth)) :
    (d.append item evicted).Waits nth ∨ nth ∈ (d.append item evicted).evicted := by
  rw [← List.take_append_drop evicted (d.outbox.items ++ [(d.outbox.nextID, item)]),
    List.map_append] at waits
  rcases List.mem_append.mp waits with first | later
  · exact .inr (List.mem_append_right _ first)
  · exact .inl later

theorem append_accounted (accounted : Accounted d count) (env : ResultEnvelope) (evicted : Nat) :
    Accounted (d.append ⟨count, env⟩ evicted) (count + 1) := by
  constructor
  · intro nth small
    have waiting : d.Waits nth ∨ nth = count →
        (d.append ⟨count, env⟩ evicted).Waits nth ∨
          nth ∈ (d.append ⟨count, env⟩ evicted).evicted := by
      intro either
      apply waits_append
      rw [List.map_append]
      rcases either with waits | new
      · exact List.mem_append_left _ waits
      · exact List.mem_append_right _ (by simp [new])
    rcases Nat.lt_or_eq_of_le (Nat.le_of_lt_succ small) with old | new
    · rcases accounted.placed nth old with waits | gone | travels | arrived
      · exact (waiting (.inl waits)).imp_right .inl
      · exact .inr (.inl (List.mem_append_left _ gone))
      · exact .inr (.inr (.inl travels))
      · exact .inr (.inr (.inr arrived))
    · exact (waiting (.inr new)).imp_right .inl
  · exact accounted.sent
  · intro i x entry found member
    obtain ⟨drawn, only⟩ := accounted.named i x entry found member
    refine ⟨Nat.lt_succ_of_lt drawn, ?_⟩
    intro content inside
    rcases Outbox.Queue.mem_append inside with old | new
    · exact only content old
    · exact absurd (Prod.mk.inj new).1 (Nat.ne_of_lt drawn)

theorem skip_accounted (accounted : Accounted d count) :
    Accounted { d with outbox := d.outbox.skip } count where
  __ := accounted
  named := by
    intro i x entry found member
    obtain ⟨drawn, only⟩ := accounted.named i x entry found member
    exact ⟨Nat.lt_succ_of_lt drawn, only⟩

theorem crash_drains {i : Nat} {x : Drain} (found : d.crash.drains i = some x) :
    ∃ old, d.drains i = some old ∧ x = ⟨false, [], none, old.inFlight⟩ := by
  obtain ⟨old, there, same⟩ := Option.map_eq_some_iff.mp found
  exact ⟨old, there, same.symm⟩

theorem crash_accounted (accounted : Accounted d count) : Accounted d.crash count := by
  constructor
  · intro nth small
    rcases accounted.placed nth small with waits | gone | ⟨i, x, found, travels⟩ | arrived
    · exact .inl waits
    · exact .inr (.inl gone)
    · refine .inr (.inr (.inl ⟨i, ⟨false, [], none, x.inFlight⟩, ?_, travels⟩))
      simp [crash, found]
    · exact .inr (.inr (.inr arrived))
  · intro i x entry found unacked
    obtain ⟨old, -, rfl⟩ := crash_drains found
    cases unacked
  · intro i x entry found member
    obtain ⟨old, -, rfl⟩ := crash_drains found
    simp [Drain.held] at member

/-- Each of the first `count` results waits, was evicted or was received. -/
def Confirmed (d : Delivery) (count : Nat) : Prop :=
  ∀ nth, nth < count → d.Waits nth ∨ nth ∈ d.evicted ∨ nth ∈ d.received

theorem drained_confirmed (accounted : Accounted d count) (confirmed : Confirmed d count)
    {event : DrainEvent} (settled : d.Settled event) (drained : Drained d event t) :
    Confirmed t count := by
  cases drained with
  | @ack i x entry found sent =>
    intro nth small
    rcases confirmed nth small with waits | elsewhere
    · obtain ⟨item, inside, rfl⟩ := List.mem_map.mp waits
      by_cases same : item.1 = entry.1
      · have held : entry ∈ x.held := by simp [Drain.held, sent]
        have only := (accounted.named i x entry found held).only
        have content : item.2 = entry.2 := only item.2 (same ▸ inside)
        have landed := settled x found entry sent
        have arrived := (accounted.sent i x entry found sent).resolve_left landed
        exact .inr (.inr (content ▸ arrived))
      · exact .inl (List.mem_map_of_mem (Outbox.Queue.mem_ack.mpr ⟨inside, same⟩))
    · exact .inr elsewhere
  | peek | send | drop | keep | post | breakOff | lose => exact confirmed

theorem append_confirmed (confirmed : Confirmed d count) (env : ResultEnvelope) (evicted : Nat) :
    Confirmed (d.append ⟨count, env⟩ evicted) (count + 1) := by
  intro nth small
  have waiting : nth ∈ (d.outbox.items ++ [(d.outbox.nextID, Queued.mk count env)]).map
      (fun entry => entry.2.nth) ∨ nth ∈ d.evicted ∨ nth ∈ d.received := by
    rw [List.map_append]
    rcases Nat.lt_or_eq_of_le (Nat.le_of_lt_succ small) with old | new
    · exact (confirmed nth old).imp_left (List.mem_append_left _)
    · exact .inl (List.mem_append_right _ (by simp [new]))
  rcases waiting with waits | gone | arrived
  · exact (waits_append waits).imp_right .inl
  · exact .inr (.inl (List.mem_append_left _ gone))
  · exact .inr (.inr arrived)

structure Ordered (d : Delivery) (count : Nat) : Prop where
  sorted : d.outbox.items.Pairwise (fun first second => first.2.nth < second.2.nth)
  below : ∀ entry ∈ d.outbox.items, entry.2.nth < count

theorem start_ordered : Ordered start 0 where
  sorted := List.Pairwise.nil
  below := by simp [start, Outbox.Queue.empty]

theorem append_ordered (ordered : Ordered d count) (env : ResultEnvelope) (evicted : Nat) :
    Ordered (d.append ⟨count, env⟩ evicted) (count + 1) := by
  constructor
  · apply List.Pairwise.sublist (List.drop_sublist _ _)
    apply List.pairwise_append.mpr
    refine ⟨ordered.sorted, List.pairwise_singleton _ _, ?_⟩
    intro entry old other new
    rw [List.mem_singleton.mp new]
    exact ordered.below entry old
  · intro entry member
    rcases Outbox.Queue.mem_append member with old | new
    · exact Nat.lt_succ_of_lt (ordered.below entry old)
    · rw [new]
      exact Nat.lt_succ_self count

theorem drained_ordered (ordered : Ordered d count) {event : DrainEvent}
    (drained : Drained d event t) : Ordered t count := by
  cases drained with
  | ack found sent =>
    constructor
    · exact ordered.sorted.filter _
    · exact fun entry member => ordered.below entry (Outbox.Queue.mem_ack.mp member).1
  | peek | send | drop | keep | post | breakOff | lose => exact ⟨ordered.sorted, ordered.below⟩

end Delivery

section Steps

variable {sql : Tasks.SqlOrder} {setting : Setting} {s t : System} {event : Event}

def System.Accounted (s : System) : Prop := s.delivery.Accounted s.numbering.log.length

def System.Confirmed (s : System) : Prop := s.delivery.Confirmed s.numbering.log.length

def System.Ordered (s : System) : Prop := s.delivery.Ordered s.numbering.log.length

theorem step_accounted (accounted : s.Accounted) (kept : Kept s event)
    (stepped : s.step sql setting event = some t) : t.Accounted := by
  unfold System.Accounted at accounted ⊢
  cases stepped_of_step stepped with
  | connect numbered same joined =>
    rw [same]
    exact Delivery.connect_accounted accounted joined
  | finish numbered queued =>
    rw [queued, List.length_append]
    exact Delivery.append_accounted accounted _ _
  | @fail e drawn numbering numbered same =>
    rw [same]
    cases drawn with
    | true => exact Delivery.skip_accounted accounted
    | false => exact accounted
  | crash => exact Delivery.crash_accounted accounted
  | quiet numbered same =>
    rw [same]
    exact accounted
  | drain drained =>
    exact Delivery.drained_accounted accounted kept (Delivery.drained_of_step drained)
  | receive read => exact Delivery.receive_accounted accounted read
  | foreign | plan => exact accounted

theorem step_confirmed (accounted : s.Accounted) (confirmed : s.Confirmed)
    (settled : Settled s event) (stepped : s.step sql setting event = some t) : t.Confirmed := by
  unfold System.Confirmed at confirmed ⊢
  cases stepped_of_step stepped with
  | connect numbered same joined =>
    obtain ⟨-, rfl⟩ := Delivery.connect_eq_some joined
    rw [same]
    exact confirmed
  | finish numbered queued =>
    rw [queued, List.length_append]
    exact Delivery.append_confirmed confirmed _ _
  | @fail e drawn numbering numbered same =>
    rw [same]
    cases drawn with
    | true => exact confirmed
    | false => exact confirmed
  | crash => exact confirmed
  | quiet numbered same =>
    rw [same]
    exact confirmed
  | drain drained =>
    have moved := Delivery.drained_of_step drained
    exact Delivery.drained_confirmed accounted confirmed settled moved
  | receive read =>
    obtain ⟨x, rest, -, -, rfl⟩ := Delivery.receive_eq_some read
    intro nth small
    rcases confirmed nth small with waits | gone | arrived
    · exact .inl waits
    · exact .inr (.inl gone)
    · exact .inr (.inr (List.mem_append_left _ arrived))
  | foreign | plan => exact confirmed

theorem step_ordered (ordered : s.Ordered) (stepped : s.step sql setting event = some t) :
    t.Ordered := by
  unfold System.Ordered at ordered ⊢
  cases stepped_of_step stepped with
  | connect numbered same joined =>
    obtain ⟨-, rfl⟩ := Delivery.connect_eq_some joined
    rw [same]
    exact ⟨ordered.sorted, ordered.below⟩
  | finish numbered queued =>
    rw [queued, List.length_append]
    exact Delivery.append_ordered ordered _ _
  | @fail e drawn numbering numbered same =>
    rw [same]
    cases drawn with
    | true => exact ⟨ordered.sorted, ordered.below⟩
    | false => exact ordered
  | crash => exact ⟨ordered.sorted, ordered.below⟩
  | quiet numbered same =>
    rw [same]
    exact ordered
  | drain drained => exact Delivery.drained_ordered ordered (Delivery.drained_of_step drained)
  | receive read =>
    obtain ⟨x, rest, -, -, rfl⟩ := Delivery.receive_eq_some read
    exact ⟨ordered.sorted, ordered.below⟩
  | foreign | plan => exact ordered

end Steps

end HlHelper.Reporting
