import HlHelper.Reporting.Arrival

/-! A drain that keeps running sends every result that waits, and what was sent is
received unless a broken stream loses it after its `Ack`. -/

namespace HlHelper.Reporting

open Inbound Library Results

namespace Delivery

variable {d t : Delivery} {i nth : Nat}

def Up (d : Delivery) (i : Nat) : Prop := ∃ x, d.drains i = some x ∧ x.up = true

/-- What the drain of the stream has peeked and not acknowledged. -/
def heldBy (d : Delivery) (i : Nat) : List (Nat × Queued) :=
  ((d.drains i).map Drain.held).getD []

/-- How many results wait that were queued up to the given one. -/
def ahead (d : Delivery) (nth : Nat) : Nat :=
  d.outbox.items.countP (fun entry => entry.2.nth ≤ nth)

def backlog (d : Delivery) (i nth : Nat) : Nat :=
  d.outbox.items.countP (fun entry => entry.2.nth ≤ nth ∧ entry ∉ d.heldBy i)

theorem heldBy_eq {x : Drain} (found : d.drains i = some x) : d.heldBy i = x.held := by
  simp [heldBy, found]

theorem heldBy_set_self (d : Delivery) (i : Nat) (x : Drain) : (d.set i x).heldBy i = x.held :=
  heldBy_eq (Function.update_self ..)

theorem heldBy_set_ne {j : Nat} (other : j ≠ i) (x : Drain) :
    (d.set i x).heldBy j = d.heldBy j := by
  simp [heldBy, Function.update_of_ne other]

theorem backlog_le_ahead (d : Delivery) (i nth : Nat) : d.backlog i nth ≤ d.ahead nth := by
  apply List.countP_mono_left
  intro entry _ counted
  simp only [decide_eq_true_eq] at counted ⊢
  exact counted.1

theorem backlog_le (waiting : t.outbox.items.Sublist d.outbox.items)
    (held : ∀ entry ∈ t.outbox.items, entry ∈ d.heldBy i → entry ∈ t.heldBy i) :
    t.backlog i nth ≤ d.backlog i nth := by
  calc t.backlog i nth
      ≤ t.outbox.items.countP (fun entry => entry.2.nth ≤ nth ∧ entry ∉ d.heldBy i) := by
        apply List.countP_mono_left
        intro entry member counted
        simp only [decide_eq_true_eq] at counted ⊢
        exact ⟨counted.1, mt (held entry member) counted.2⟩
    _ ≤ d.backlog i nth := waiting.countP_le

theorem backlog_peek {x : Drain} (sorted : d.outbox.items.Pairwise
      (fun first second => first.2.nth < second.2.nth))
    (found : d.drains i = some x) (idle : x.batch = [] ∧ x.unacked = none) (waits : d.Waits nth) :
    (d.set i { x with batch := d.outbox.peek 10 }).backlog i nth + 1 ≤ d.backlog i nth := by
  have before : d.heldBy i = [] := by
    rw [heldBy_eq found]
    simp [Drain.held, idle.1, idle.2]
  have after :
      (d.set i { x with batch := d.outbox.peek 10 }).heldBy i = d.outbox.items.take 10 := by
    rw [heldBy_set_self]
    simp [Drain.held, idle.2, Outbox.Queue.peek]
  unfold backlog
  rw [before, after, set_outbox]
  obtain ⟨entry, member, rfl⟩ := List.mem_map.mp waits
  cases shape : d.outbox.items with
  | nil => simp [shape] at member
  | cons first rest =>
    rw [shape] at member sorted
    have least : first.2.nth ≤ entry.2.nth := by
      rcases List.mem_cons.mp member with same | later
      · rw [same]
      · exact ((List.pairwise_cons.mp sorted).1 entry later).le
    have fewer : rest.countP (fun other => other.2.nth ≤ entry.2.nth ∧
        other ∉ (first :: rest).take 10) ≤
          rest.countP (fun other => other.2.nth ≤ entry.2.nth ∧ other ∉ ([] : List _)) := by
      apply List.countP_mono_left
      intro other _ counted
      simp only [decide_eq_true_eq] at counted ⊢
      exact ⟨counted.1, List.not_mem_nil⟩
    rw [List.countP_cons_of_neg (by simp), List.countP_cons_of_pos (by simpa using least)]
    exact Nat.succ_le_succ fewer

theorem backlog_set {j : Nat} {x y : Drain} (found : d.drains j = some x)
    (held : ∀ entry ∈ x.held, entry ∈ y.held) : (d.set j y).backlog i nth ≤ d.backlog i nth := by
  apply backlog_le
  · exact List.Sublist.refl _
  · intro entry _ member
    by_cases same : i = j
    · subst same
      rw [heldBy_set_self]
      exact held entry (heldBy_eq found ▸ member)
    · rw [heldBy_set_ne same]
      exact member

theorem backlog_set_ne {j : Nat} (other : i ≠ j) (y : Drain) :
    (d.set j y).backlog i nth = d.backlog i nth := by
  simp [backlog, heldBy_set_ne other]

theorem up_set {j : Nat} {x y : Drain} (found : d.drains j = some x) (same : y.up = x.up)
    (up : d.Up i) : (d.set j y).Up i := by
  obtain ⟨old, there, running⟩ := up
  by_cases equal : i = j
  · subst equal
    cases found.symm.trans there
    exact ⟨y, Function.update_self .., same.trans running⟩
  · refine ⟨old, ?_, running⟩
    rw [set_drains, Function.update_of_ne equal]
    exact there

theorem backlog_append {count : Nat} (small : nth < count) (env : ResultEnvelope) (evicted : Nat) :
    (d.append ⟨count, env⟩ evicted).backlog i nth ≤ d.backlog i nth := by
  have new : ¬ count ≤ nth := Nat.not_le.mpr small
  calc (d.append ⟨count, env⟩ evicted).backlog i nth
      ≤ (d.outbox.items ++ [(d.outbox.nextID, Queued.mk count env)]).countP
          (fun entry => entry.2.nth ≤ nth ∧ entry ∉ d.heldBy i) :=
        (List.drop_sublist _ _).countP_le
    _ = d.backlog i nth := by
        rw [List.countP_append, backlog]
        simp [new]

end Delivery

/-- The stream is not broken, `Ack` does not fail on it, and the agent's process runs on. -/
def Event.KeepsUp (i : Nat) : Event → Prop
  | .agent .crash => False
  | .drain (.breakOff j) => j ≠ i
  | .drain (.ack j false) => j ≠ i
  | _ => True

def Event.peeks (i : Nat) : Event → Bool
  | .drain (.peek j) => j = i
  | _ => false

namespace Delivery

variable {d t : Delivery} {i nth count : Nat}

theorem drained_up {event : DrainEvent} (keeps : Event.KeepsUp i (.drain event)) (up : d.Up i)
    (drained : Drained d event t) : t.Up i := by
  cases drained with
  | peek found => exact up_set found rfl up
  | send found => exact up_set found rfl up
  | drop found => exact up_set found rfl up
  | @ack j x entry found =>
    exact up_set (d := { d with outbox := d.outbox.ack entry.1 }) found rfl up
  | keep found => exact up_set found rfl up
  | post found => exact up_set found rfl up
  | @breakOff j x found =>
    obtain ⟨old, there, running⟩ := up
    refine ⟨old, ?_, running⟩
    rw [set_drains, Function.update_of_ne (Ne.symm keeps)]
    exact there
  | lose found => exact up_set found rfl up

theorem drained_backlog (ordered : Ordered d count) {event : DrainEvent}
    (keeps : Event.KeepsUp i (.drain event)) (up : d.Up i) (drained : Drained d event t)
    (waits : t.Waits nth) :
    t.backlog i nth + (if Event.peeks i (.drain event) then 1 else 0) ≤ d.backlog i nth := by
  cases drained with
  | @peek j x found sent acked =>
    by_cases same : j = i
    · subst same
      rw [if_pos (by simp [Event.peeks])]
      exact backlog_peek ordered.sorted found ⟨sent, acked⟩ waits
    · rw [if_neg (by simpa [Event.peeks] using same), backlog_set_ne (Ne.symm same)]
      exact Nat.le_refl _
  | @send j x entry rest found next acked =>
    apply backlog_set found
    intro other member
    simpa [Drain.held, next, acked] using member
  | @drop j x found acked down =>
    have other : i ≠ j := by
      intro same
      subst same
      obtain ⟨old, there, running⟩ := up
      cases found.symm.trans there
      simp [down] at running
    exact (backlog_set_ne other _).le
  | @ack j x entry found sent =>
    apply backlog_le List.filter_sublist
    intro other member held
    obtain ⟨inside, apart⟩ := Outbox.Queue.mem_ack.mp member
    by_cases same : i = j
    · subst same
      rw [heldBy_eq found] at held
      rw [heldBy_set_self]
      simp only [Drain.held, sent, Option.toList_some, List.singleton_append,
        List.mem_cons] at held
      rcases held with first | later
      · exact absurd (congrArg Prod.fst first) apart
      · simpa [Drain.held] using later
    · rw [heldBy_set_ne same]
      exact held
  | @keep j x found =>
    exact (backlog_set_ne (Ne.symm keeps) _).le
  | post found => exact backlog_set found fun entry member => member
  | breakOff found => exact backlog_set found fun entry member => member
  | lose found => exact backlog_set found fun entry member => member

end Delivery

section Steps

variable {sql : Tasks.SqlOrder} {setting : Setting} {s t : System} {event : Event} {i nth : Nat}

theorem step_log_le (stepped : s.step sql setting event = some t) :
    s.numbering.log.length ≤ t.numbering.log.length := by
  cases stepped_of_step stepped with
  | connect numbered same => rw [same]
  | finish numbered queued =>
    rw [queued, List.length_append]
    exact Nat.le_add_right _ _
  | fail numbered same => rw [same]
  | quiet numbered same => rw [same]
  | crash | drain | receive | foreign | plan => exact Nat.le_refl _

theorem step_waits (small : nth < s.numbering.log.length)
    (stepped : s.step sql setting event = some t) (waits : t.delivery.Waits nth) :
    s.delivery.Waits nth := by
  cases stepped_of_step stepped with
  | connect numbered same joined =>
    obtain ⟨-, rfl⟩ := Delivery.connect_eq_some joined
    exact waits
  | finish numbered queued =>
    obtain ⟨entry, member, rfl⟩ := List.mem_map.mp waits
    rcases Outbox.Queue.mem_append member with old | new
    · exact List.mem_map_of_mem old
    · rw [new] at small
      exact absurd small (Nat.lt_irrefl _)
  | @fail e drawn numbering numbered same =>
    cases drawn with
    | true => exact waits
    | false => exact waits
  | drain drained =>
    cases Delivery.drained_of_step drained with
    | ack found sent =>
      obtain ⟨entry, member, rfl⟩ := List.mem_map.mp waits
      exact List.mem_map_of_mem (Outbox.Queue.mem_ack.mp member).1
    | peek | send | drop | keep | post | breakOff | lose => exact waits
  | receive read =>
    obtain ⟨x, rest, -, -, rfl⟩ := Delivery.receive_eq_some read
    exact waits
  | crash | quiet | foreign | plan => exact waits

theorem connect_ne {d e : Delivery} {j : Nat} (up : d.Up i) (joined : d.connect j = some e) :
    i ≠ j ∧ e = d.set j ⟨true, [], none, []⟩ := by
  obtain ⟨free, shape⟩ := Delivery.connect_eq_some joined
  refine ⟨?_, shape⟩
  intro same
  subst same
  obtain ⟨old, there, -⟩ := up
  cases free.symm.trans there

theorem step_up (keeps : event.KeepsUp i) (up : s.delivery.Up i)
    (stepped : s.step sql setting event = some t) : t.delivery.Up i := by
  cases stepped_of_step stepped with
  | connect numbered same joined =>
    obtain ⟨other, rfl⟩ := connect_ne up joined
    obtain ⟨old, there, running⟩ := up
    refine ⟨old, ?_, running⟩
    rw [Delivery.set_drains, Function.update_of_ne other]
    exact there
  | @fail e drawn numbering numbered same =>
    cases drawn with
    | true => exact up
    | false => exact up
  | crash => exact keeps.elim
  | drain drained => exact Delivery.drained_up keeps up (Delivery.drained_of_step drained)
  | receive read =>
    obtain ⟨x, rest, found, -, rfl⟩ := Delivery.receive_eq_some read
    exact Delivery.up_set (d := { s.delivery with received := _ }) found rfl up
  | finish | quiet | foreign | plan => exact up

theorem step_backlog (ordered : s.Ordered) (small : nth < s.numbering.log.length)
    (keeps : event.KeepsUp i) (up : s.delivery.Up i)
    (stepped : s.step sql setting event = some t) (waits : t.delivery.Waits nth) :
    t.delivery.backlog i nth + (if event.peeks i then 1 else 0) ≤ s.delivery.backlog i nth := by
  cases stepped_of_step stepped with
  | connect numbered same joined =>
    obtain ⟨other, rfl⟩ := connect_ne up joined
    exact (Delivery.backlog_set_ne other _).le
  | finish numbered queued => exact Delivery.backlog_append small _ _
  | @fail e drawn numbering numbered same =>
    cases drawn with
    | true => exact Nat.le_refl _
    | false => exact Nat.le_refl _
  | crash => exact keeps.elim
  | drain drained =>
    exact Delivery.drained_backlog ordered keeps up (Delivery.drained_of_step drained) waits
  | receive read =>
    obtain ⟨x, rest, found, -, rfl⟩ := Delivery.receive_eq_some read
    exact Delivery.backlog_set (d := { s.delivery with received := _ }) found
      fun entry member => member
  | quiet | foreign | plan => exact Nat.le_refl _

/-- As long as a result waits, each `Peek` of a drain that keeps up makes its backlog
shorter. -/
theorem run_backlog {events : List Event} (ordered : s.Ordered)
    (small : nth < s.numbering.log.length) (up : s.delivery.Up i)
    (keeps : ∀ event ∈ events, event.KeepsUp i)
    (reached : run (System.step sql setting) s events = some t) (waits : t.delivery.Waits nth) :
    s.delivery.Waits nth ∧ events.countP (Event.peeks i) ≤ s.delivery.backlog i nth := by
  induction events generalizing s with
  | nil =>
    obtain rfl : s = t := by simpa [run] using reached
    exact ⟨waits, Nat.zero_le _⟩
  | cons event events ih =>
    obtain ⟨u, stepped, rest⟩ := run_cons_eq_some.mp reached
    obtain ⟨here, later⟩ := List.forall_mem_cons.mp keeps
    have bound := Nat.lt_of_lt_of_le small (step_log_le stepped)
    obtain ⟨waiting, fewer⟩ :=
      ih (step_ordered ordered stepped) bound (step_up here up stepped) later rest
    refine ⟨step_waits small stepped waiting, ?_⟩
    calc (event :: events).countP (Event.peeks i)
        = events.countP (Event.peeks i) + (if event.peeks i then 1 else 0) :=
          List.countP_cons
      _ ≤ u.delivery.backlog i nth + (if event.peeks i then 1 else 0) :=
          Nat.add_le_add_right fewer _
      _ ≤ s.delivery.backlog i nth :=
          step_backlog ordered small here up stepped waiting

end Steps

section Runs

variable {sql : Tasks.SqlOrder} {setting : Setting} {db : Db} {s t : System}
  {events : List Event}

section

variable (reached : run (System.step sql setting) (.start db) events = some s)
include reached

theorem run_ordered : s.Ordered := by
  apply run_preserves ?_ ?_ reached
  · intro before event after ordered stepped
    exact step_ordered ordered stepped
  · exact Delivery.start_ordered

theorem run_accounted (kept : Meets (System.step sql setting) Kept (.start db) events) :
    s.Accounted := by
  apply run_keeps ?_ ?_ reached kept
  · intro before event after accounted kept stepped
    exact step_accounted accounted kept stepped
  · exact Delivery.start_accounted

theorem run_confirmed
    (met : Meets (System.step sql setting) (fun s event => Kept s event ∧ Settled s event)
      (.start db) events) : s.Confirmed := by
  have both : s.Accounted ∧ s.Confirmed := by
    apply run_keeps ?_ ?_ reached met
    · intro before event after sound allowed stepped
      constructor
      · exact step_accounted sound.1 allowed.1 stepped
      · exact step_confirmed sound.1 sound.2 allowed.2 stepped
    · refine ⟨Delivery.start_accounted, ?_⟩
      intro nth small
      exact absurd small (Nat.not_lt_zero nth)
  exact both.2

end

end Runs

/-- While no broken stream loses what was acknowledged, every queued result waits, was
evicted, is in flight or was received, and a drain that keeps up gets it to the server. If
moreover `Ack` is called only for what is no longer in flight, a result leaves the outbox
only after it was received. -/
theorem results_reach_server (sql : Tasks.SqlOrder) (setting : Setting) (db : Db)
    (events : List Event) (s : System)
    (reached : run (System.step sql setting) (.start db) events = some s)
    (kept : Meets (System.step sql setting) Kept (.start db) events) :
    (∀ nth, nth < s.numbering.log.length → s.delivery.Waits nth ∨ nth ∈ s.delivery.evicted ∨
      s.delivery.Travels nth ∨ nth ∈ s.delivery.received) ∧
    (Meets (System.step sql setting) (fun s event => Kept s event ∧ Settled s event)
        (.start db) events →
      ∀ nth, nth < s.numbering.log.length → s.delivery.Waits nth ∨ nth ∈ s.delivery.evicted ∨
        nth ∈ s.delivery.received) ∧
    (∀ more t i nth, run (System.step sql setting) s more = some t →
      Meets (System.step sql setting) Kept s more → nth < s.numbering.log.length →
      s.delivery.Up i → (∀ event ∈ more, event.KeepsUp i) →
      s.delivery.ahead nth < more.countP (Event.peeks i) → ¬ t.delivery.Travels nth →
        nth ∈ t.delivery.evicted ∨ nth ∈ t.delivery.received) := by
  have accounted := run_accounted reached kept
  refine ⟨accounted.placed, fun met => run_confirmed reached met, ?_⟩
  intro more t i nth continued keptMore small up keeps enough landed
  have later : t.Accounted := by
    apply run_keeps ?_ accounted continued keptMore
    intro before event after accounted kept stepped
    exact step_accounted accounted kept stepped
  have sent : ¬ t.delivery.Waits nth := by
    intro waits
    have fewer := (run_backlog (run_ordered reached) small up keeps continued waits).2
    have bound := s.delivery.backlog_le_ahead i nth
    omega
  have known : ∀ (before : System) (event : Event) (after : System),
      nth < before.numbering.log.length → before.step sql setting event = some after →
      nth < after.numbering.log.length :=
    fun before event after small stepped => Nat.lt_of_lt_of_le small (step_log_le stepped)
  have bound := run_preserves known small continued
  rcases later.placed nth bound with waits | gone | travels | arrived
  · exact absurd waits sent
  · exact .inl gone
  · exact absurd travels landed
  · exact .inr arrived

def queueOne : List Event :=
  [.agent (.connect 0), .agent (.command 0 0 "c1"),
    .agent (.finish 0 default ⟨0, 0⟩ ⟨1, 0⟩ 0)]

def drainOne : List Event :=
  [.drain (.peek 0), .drain (.send 0), .receive 0 default "r1" false, .drain (.ack 0 true),
    .drain (.peek 0)]

theorem queued_result_reaches_server :
    ∃ s t, run (System.step Tasks.firstOfLatest oneAgent) (.start Db.empty) queueOne = some s ∧
      run (System.step Tasks.firstOfLatest oneAgent) s drainOne = some t ∧
      (0 ∈ t.delivery.evicted ∨ 0 ∈ t.delivery.received) := by
  refine ⟨_, _, rfl, rfl, ?_⟩
  have reach :=
    results_reach_server Tasks.firstOfLatest oneAgent Db.empty queueOne _ rfl (by decide)
  refine reach.2.2 drainOne _ 0 0 rfl (by decide) (by decide) ⟨_, rfl, rfl⟩ ?_ (by decide) ?_
  · simp [drainOne, Event.KeepsUp]
  · rintro ⟨i, x, found, travels⟩
    cases i with
    | zero =>
      cases found
      cases travels
    | succ i => cases found

theorem acknowledged_result_lost :
    ∃ s, run (System.step Tasks.firstOfLatest oneAgent) (.start Db.empty)
        (queueOne ++ [.drain (.peek 0), .drain (.send 0), .drain (.ack 0 true),
          .drain (.breakOff 0), .drain (.lose 0)]) = some s ∧
      s.numbering.log.length = 1 ∧ ¬ s.delivery.Waits 0 ∧ s.delivery.evicted = [] ∧
      s.delivery.received = [] ∧ ¬ s.delivery.Travels 0 := by
  refine ⟨_, rfl, rfl, by decide, rfl, rfl, ?_⟩
  rintro ⟨i, x, found, travels⟩
  cases i with
  | zero =>
    cases found
    cases travels
  | succ i => cases found

end HlHelper.Reporting
