import HlHelper.Inbound.Standing
import HlHelper.Reporting.System

/-! What the server makes of the results of an unmodified agent. -/

namespace HlHelper.Reporting

open Audit (Datetime)
open Inbound Library Results

/-- The result can still arrive: it waits, is in a drain's batch or is in flight. -/
def Delivery.Pending (d : Delivery) (item : Queued) : Prop :=
  item ∈ d.outbox.items.map Prod.snd ∨
    ∃ i x, d.drains i = some x ∧ (item ∈ x.batch.map Prod.snd ∨ item ∈ x.results)

/-- The result was received before, and its row is stored. -/
def System.Stored (setting : Setting) (s : System) (item : Queued) : Prop :=
  item.nth ∈ s.delivery.received ∧
    ∃ now resultId, rowOf item.env setting.hostId now resultId ∈ s.db.results

/-- Results are numbered in order; and when one is received, its number fits the column and each
older one that can still arrive is stored. -/
def Untroubled (sql : Tasks.SqlOrder) (setting : Setting) (s : System) : Event → Prop
  | .agent event => s.numbering.SeqOrderly event
  | .receive i _ _ _ => ∀ x ∈ s.delivery.drains i, ∀ sent ∈ x.inFlight.head?,
      match sent with
      | .result item => item.env.sequence < sql.intLimit ∧
          ∀ other, s.delivery.Pending other → other.nth < item.nth → s.Stored setting other
      | .other _ _ => True
  | _ => True

def System.Accepts (sql : Tasks.SqlOrder) (setting : Setting) (s : System) (env : ResultEnvelope)
    (now : Datetime) (resultId : String) (raced : Bool) : Prop :=
  ∃ row warning, (handle sql setting.sha setting.proto setting.ed s.db env setting.hostId now
    resultId raced).1 = .ok (row, warning)

/-- The next result that the agent sent is accepted, or is one that is stored. -/
def Unrejected (sql : Tasks.SqlOrder) (setting : Setting) (s : System) : Event → Prop
  | .receive i now resultId raced => ∀ x ∈ s.delivery.drains i, ∀ sent ∈ x.inFlight.head?,
      match sent with
      | .result item =>
        s.Accepts sql setting item.env now resultId raced ∨ s.Stored setting item
      | .other _ _ => True
  | _ => True

/-- The host is enrolled with the agent's key, and has no results yet. -/
structure Enrolled (setting : Setting) (db : Db) : Prop where
  standing : InGoodStanding db setting.hostId (setting.ed.publicKey setting.secret)
  fresh : ∀ row ∈ db.results, row.hostId ≠ setting.hostId

section Pending

namespace Delivery

variable {d t : Delivery} {item : Queued}

theorem pending_set {i : Nat} {x y : Drain} (found : d.drains i = some x)
    (pending : (d.set i y).Pending item)
    (batch : ∀ entry ∈ y.batch, entry ∈ x.batch ∨ entry ∈ d.outbox.items)
    (flight : ∀ item ∈ y.results, item ∈ x.results ∨ item ∈ x.batch.map Prod.snd) :
    d.Pending item := by
  rcases pending with waits | ⟨j, z, there, sends⟩
  · exact .inl waits
  · rcases update_eq_some.mp there with ⟨_, new⟩ | ⟨_, old⟩
    · cases new
      rcases sends with batched | travels
      · obtain ⟨entry, inside, rfl⟩ := List.mem_map.mp batched
        rcases batch entry inside with before | waits
        · exact .inr ⟨i, x, found, .inl (List.mem_map_of_mem before)⟩
        · exact .inl (List.mem_map_of_mem waits)
      · rcases flight item travels with before | batched
        · exact .inr ⟨i, x, found, .inr before⟩
        · exact .inr ⟨i, x, found, .inl batched⟩
    · exact .inr ⟨j, z, old, sends⟩

theorem drained_pending {event : DrainEvent} (drained : Drained d event t)
    (pending : t.Pending item) : d.Pending item := by
  cases drained with
  | peek found sent acked =>
    refine pending_set found pending ?_ (fun other inside => .inl inside)
    intro entry inside
    exact .inr (List.mem_of_mem_take inside)
  | @send i x entry rest found next acked up =>
    refine pending_set found pending ?_ ?_
    · intro other inside
      exact .inl (next ▸ List.mem_cons_of_mem _ inside)
    · intro other inside
      have more : other ∈ x.results ∨ other = entry.2 := by
        simpa [Drain.results] using inside
      rcases more with before | same
      · exact .inl before
      · exact .inr (by simp [next, same])
  | drop found acked down =>
    refine pending_set found pending ?_ (fun other inside => .inl inside)
    intro entry inside
    cases inside
  | @ack i x entry found sent =>
    have before : { d with outbox := d.outbox.ack entry.1 }.Pending item :=
      pending_set found pending (fun other inside => .inl inside)
      (fun other inside => .inl inside)
    rcases before with waits | sends
    · obtain ⟨other, inside, rfl⟩ := List.mem_map.mp waits
      exact .inl (List.mem_map_of_mem (Outbox.Queue.mem_ack.mp inside).1)
    · exact .inr sends
  | keep found =>
    exact pending_set found pending (fun other inside => .inl inside)
      (fun other inside => .inl inside)
  | @post i msg x sent found other =>
    refine pending_set found pending (fun entry inside => .inl inside) ?_
    intro entry inside
    cases sent with
    | result item => exact absurd rfl (other item)
    | other msg plain => exact .inl (by simpa [Drain.results] using inside)
  | breakOff found =>
    exact pending_set found pending (fun other inside => .inl inside)
      (fun other inside => .inl inside)
  | lose found down =>
    refine pending_set found pending (fun other inside => .inl inside) ?_
    intro other inside
    cases inside

theorem drained_received {event : DrainEvent} (drained : Drained d event t) :
    t.received = d.received := by
  cases drained <;> rfl

theorem receive_pending {i : Nat} {sent : Sent} (read : d.receive i = some (sent, t))
    (pending : t.Pending item) : d.Pending item := by
  obtain ⟨x, rest, found, flight, rfl⟩ := receive_eq_some read
  have before : { d with received := d.received ++ sent.nths }.Pending item := by
    refine pending_set found pending (fun other inside => .inl inside) ?_
    intro other inside
    obtain ⟨message, later, same⟩ := List.mem_filterMap.mp inside
    refine .inl (List.mem_filterMap.mpr ⟨message, ?_, same⟩)
    rw [flight]
    exact List.mem_cons_of_mem _ later
  exact before

theorem crash_pending (pending : d.crash.Pending item) : d.Pending item := by
  rcases pending with waits | ⟨i, x, found, sends⟩
  · exact .inl waits
  · obtain ⟨old, there, same⟩ := Option.map_eq_some_iff.mp found
    subst same
    rcases sends with batched | travels
    · cases batched
    · exact .inr ⟨i, old, there, .inr travels⟩

theorem connect_pending {i : Nat} (joined : d.connect i = some t) (pending : t.Pending item) :
    d.Pending item := by
  obtain ⟨-, rfl⟩ := connect_eq_some joined
  rcases pending with waits | ⟨j, x, there, sends⟩
  · exact .inl waits
  · rcases update_eq_some.mp there with ⟨_, new⟩ | ⟨_, old⟩
    · cases new
      rcases sends with batched | travels
      · cases batched
      · cases travels
    · exact .inr ⟨j, x, old, sends⟩

theorem append_pending {new : Queued} {evicted : Nat}
    (pending : (d.append new evicted).Pending item) : d.Pending item ∨ item = new := by
  rcases pending with waits | sends
  · obtain ⟨entry, member, rfl⟩ := List.mem_map.mp waits
    rcases Outbox.Queue.mem_append member with old | added
    · exact .inl (.inl (List.mem_map_of_mem old))
    · exact .inr (congrArg Prod.snd added)
  · exact .inl (.inr sends)

end Delivery

end Pending

structure Honest (setting : Setting) (s : System) : Prop where
  numbered : SeqSound s.numbering
  signed : ∀ entry ∈ s.numbering.log, entry.2.hostId = setting.hostId ∧
    verifyResult setting.proto setting.ed entry.2 (setting.ed.publicKey setting.secret) = true
  standing : InGoodStanding s.db setting.hostId (setting.ed.publicKey setting.secret)
  rows : ∀ row ∈ s.db.results, row.hostId = setting.hostId →
    ∃ entry ∈ s.numbering.log, row.sequence = entry.2.sequence
  known : ∀ item, s.delivery.Pending item → ∃ i, s.numbering.log[item.nth]? = some (i, item.env)
  newer : ∀ item, s.delivery.Pending item → s.Stored setting item ∨
    ∀ row ∈ s.db.results, row.hostId = setting.hostId → row.sequence < item.env.sequence

section Steps

variable {sql : Tasks.SqlOrder} {setting : Setting} {s t : System}

theorem start_honest {db : Db} (enrolled : Enrolled setting db) :
    Honest setting (System.start db) := by
  have empty : ∀ item, ¬ (System.start db).delivery.Pending item := by
    rintro item (waits | ⟨i, x, found, -⟩)
    · cases waits
    · cases found
  constructor
  · exact start_seqSound
  · intro entry member
    cases member
  · exact enrolled.standing
  · intro row member own
    exact absurd own (enrolled.fresh row member)
  · exact fun item pending => absurd pending (empty item)
  · exact fun item pending => absurd pending (empty item)

theorem System.Stored.mono {item : Queued} (stored : s.Stored setting item)
    (received : s.delivery.received ⊆ t.delivery.received)
    (results : s.db.results ⊆ t.db.results) : t.Stored setting item := by
  obtain ⟨got, now, resultId, row⟩ := stored
  exact ⟨received got, now, resultId, results row⟩

theorem Honest.frame (honest : Honest setting s) (numbered : SeqSound t.numbering)
    (log : t.numbering.log = s.numbering.log)
    (standing : InGoodStanding t.db setting.hostId (setting.ed.publicKey setting.secret))
    (received : s.delivery.received ⊆ t.delivery.received)
    (results : ∀ row, row.hostId = setting.hostId → (row ∈ t.db.results ↔ row ∈ s.db.results))
    (pending : ∀ item, t.delivery.Pending item → s.delivery.Pending item) : Honest setting t := by
  constructor
  · exact numbered
  · rw [log]
    exact honest.signed
  · exact standing
  · rw [log]
    exact fun row member own => honest.rows row ((results row own).mp member) own
  · rw [log]
    exact fun item there => honest.known item (pending item there)
  · intro item there
    rcases honest.newer item (pending item there) with ⟨got, now, resultId, stored⟩ | above
    · exact .inl ⟨received got, now, resultId, (results _ rfl).mpr stored⟩
    · exact .inr fun row member own => above row ((results row own).mp member) own

theorem signed_finish {n m : Numbering} {e : Nat} {result : ResultEnvelope}
    {started completed : Timestamp} {evicted : Nat} {entry : Nat × ResultEnvelope}
    (stepped : n.step setting (.finish e result started completed evicted) = some m)
    (queued : m.log = n.log ++ [entry]) :
    entry.2.hostId = setting.hostId ∧
      verifyResult setting.proto setting.ed entry.2 (setting.ed.publicKey setting.secret) =
        true := by
  cases numbered_of_step stepped with
  | finish claimed loaded =>
    have same := List.singleton_inj.mp (List.append_cancel_left queued)
    rw [← same]
    exact ⟨rfl, verifyResult_buildAndSign⟩

theorem head_pending {d : Delivery} {i : Nat} {x : Drain} {item : Queued}
    (found : d.drains i = some x) (head : Sent.result item ∈ x.inFlight.head?) :
    d.Pending item := by
  refine .inr ⟨i, x, found, .inr ?_⟩
  apply List.mem_filterMap.mpr
  exact ⟨_, List.mem_of_head? head, rfl⟩

variable (honest : Honest setting s)
include honest

theorem finish_honest {numbering : Numbering} {evicted : Nat} {entry : Nat × ResultEnvelope}
    (numbered : SeqSound numbering) (queued : numbering.log = s.numbering.log ++ [entry])
    (signed : entry.2.hostId = setting.hostId ∧
      verifyResult setting.proto setting.ed entry.2 (setting.ed.publicKey setting.secret) = true) :
    Honest setting
      ⟨numbering, s.delivery.append ⟨s.numbering.log.length, entry.2⟩ evicted, s.db⟩ := by
  have above : ∀ old ∈ s.numbering.log, old.2.sequence < entry.2.sequence := by
    have increasing := numbered.increasing
    rw [queued] at increasing
    intro old member
    exact (List.pairwise_append.mp increasing).2.2 old member entry List.mem_cons_self
  constructor
  · exact numbered
  · intro other member
    change other ∈ numbering.log at member
    rw [queued] at member
    rcases List.mem_append.mp member with old | new
    · exact honest.signed other old
    · rw [List.mem_singleton.mp new]
      exact signed
  · exact honest.standing
  · intro row member own
    obtain ⟨other, inside, same⟩ := honest.rows row member own
    refine ⟨other, ?_, same⟩
    change other ∈ numbering.log
    rw [queued]
    exact List.mem_append_left _ inside
  · intro item pending
    change ∃ i, numbering.log[item.nth]? = some (i, item.env)
    rw [queued]
    rcases Delivery.append_pending pending with old | new
    · obtain ⟨i, found⟩ := honest.known item old
      exact ⟨i, getElem?_extend found⟩
    · rw [new]
      exact ⟨entry.1, getElem?_last⟩
  · intro item pending
    rcases Delivery.append_pending pending with old | new
    · exact honest.newer item old
    · refine .inr fun row member own => ?_
      obtain ⟨other, inside, same⟩ := honest.rows row member own
      rw [same, new]
      exact above other inside

theorem Honest.sequence_lt {item other : Queued} (pending : s.delivery.Pending item)
    (also : s.delivery.Pending other) (later : item.nth < other.nth) :
    item.env.sequence < other.env.sequence := by
  obtain ⟨i, found⟩ := honest.known item pending
  obtain ⟨j, after⟩ := honest.known other also
  obtain ⟨small, first⟩ := List.getElem?_eq_some_iff.mp found
  obtain ⟨bound, second⟩ := List.getElem?_eq_some_iff.mp after
  have less := List.pairwise_iff_getElem.mp honest.numbered.increasing item.nth other.nth small
    bound later
  rw [first, second] at less
  exact less

theorem Honest.env_eq {item other : Queued} (pending : s.delivery.Pending item)
    (also : s.delivery.Pending other) (same : item.nth = other.nth) : item.env = other.env := by
  obtain ⟨i, found⟩ := honest.known item pending
  obtain ⟨j, after⟩ := honest.known other also
  rw [same, after] at found
  exact (Prod.mk.inj (Option.some.inj found)).2.symm

theorem Honest.handles {item : Queued} (pending : s.delivery.Pending item)
    (held : item.env.sequence < sql.intLimit) (now : Datetime) (resultId : String) (raced : Bool) :
    (s.recv sql setting setting.hostId now resultId raced (.result item.env)).hosts = s.db.hosts ∧
      (s.Accepts sql setting item.env now resultId raced ∨ s.Stored setting item) := by
  obtain ⟨i, found⟩ := honest.known item pending
  obtain ⟨own, signed⟩ := honest.signed _ (List.mem_of_getElem? found)
  obtain ⟨host, there, key, -⟩ := honest.standing
  rw [← key] at signed
  have handled := @handle_signed sql setting.sha setting.proto setting.ed s.db setting.hostId
    item.env now resultId raced host there own signed
  refine ⟨handled.1, ?_⟩
  rcases honest.newer item pending with stored | above
  · exact .inr stored
  · exact .inl (handled.2 held above)

theorem Honest.store {item : Queued} {now : Datetime} {resultId : String}
    (pending : s.delivery.Pending item) (numbering : t.numbering = s.numbering)
    (standing : InGoodStanding t.db setting.hostId (setting.ed.publicKey setting.secret))
    (received : t.delivery.received = s.delivery.received ++ [item.nth])
    (added : t.db.results = s.db.results ++ [rowOf item.env setting.hostId now resultId])
    (older : ∀ other, s.delivery.Pending other → other.nth < item.nth → s.Stored setting other)
    (fewer : ∀ other, t.delivery.Pending other → s.delivery.Pending other) : Honest setting t := by
  have got : s.delivery.received ⊆ t.delivery.received :=
    received ▸ List.subset_append_left _ _
  have rows : s.db.results ⊆ t.db.results := added ▸ List.subset_append_left _ _
  have arrived : item.nth ∈ t.delivery.received := by simp [received]
  have stored : rowOf item.env setting.hostId now resultId ∈ t.db.results := by simp [added]
  have row_cases : ∀ row ∈ t.db.results, row ∈ s.db.results ∨
      row.sequence = item.env.sequence := by
    intro row member
    rw [added] at member
    rcases List.mem_append.mp member with old | new
    · exact .inl old
    · rw [List.mem_singleton.mp new]
      exact .inr rfl
  constructor
  · rw [numbering]
    exact honest.numbered
  · rw [numbering]
    exact honest.signed
  · exact standing
  · intro row member own
    rw [numbering]
    rcases row_cases row member with old | same
    · exact honest.rows row old own
    · obtain ⟨j, there⟩ := honest.known item pending
      exact ⟨_, List.mem_of_getElem? there, same⟩
  · rw [numbering]
    exact fun other there => honest.known other (fewer other there)
  · intro other there
    have before := fewer other there
    rcases Nat.lt_trichotomy other.nth item.nth with earlier | same | later
    · exact .inl ((older other before earlier).mono got rows)
    · refine .inl ⟨same ▸ arrived, now, resultId, ?_⟩
      rw [honest.env_eq before pending same]
      exact stored
    · rcases honest.newer other before with kept | above
      · exact .inl (kept.mono got rows)
      · refine .inr fun row member own => ?_
        rcases row_cases row member with old | same
        · exact above row old own
        · rw [same]
          exact honest.sequence_lt pending before later

theorem receive_honest {i : Nat} {now : Datetime} {resultId : String} {raced : Bool} {sent : Sent}
    {delivery : Delivery} (untroubled : Untroubled sql setting s (.receive i now resultId raced))
    (read : s.delivery.receive i = some (sent, delivery)) : Honest setting ⟨s.numbering, delivery,
      s.recv sql setting setting.hostId now resultId raced sent.message⟩ := by
  have fewer := fun item => @Delivery.receive_pending s.delivery delivery item i sent read
  obtain ⟨x, rest, found, flight, rfl⟩ := Delivery.receive_eq_some read
  have head : sent ∈ x.inFlight.head? := by
    rw [flight]
    rfl
  have allowed := untroubled x found sent head
  have got : s.delivery.received ⊆ s.delivery.received ++ sent.nths :=
    List.subset_append_left _ _
  cases sent with
  | other msg plain =>
    have noResult : ∀ env, msg ≠ .result env := by
      intro env same
      rw [same] at plain
      cases plain
    apply honest.frame
    · exact honest.numbered
    · rfl
    · exact recvMessage_standing honest.standing fun env same => absurd same (noResult env)
    · exact got
    · intro row _
      have stored := recvMessage_results sql setting.sha setting.proto setting.ed s.db
        setting.hostId now resultId raced msg
      rcases stored with same | ⟨env, result, _⟩
      · exact iff_of_eq (congrArg (row ∈ ·) same)
      · exact absurd result (noResult env)
    · exact fewer
  | result item =>
    have pending := head_pending found head
    have handled := @Honest.handles sql setting s honest item pending allowed.1 now resultId raced
    have standing := honest.standing.congr handled.1
    rcases handle_results sql setting.sha setting.proto setting.ed s.db item.env
      setting.hostId now resultId raced with same | added
    · exact honest.frame honest.numbered rfl standing got
        (fun row _ => iff_of_eq (congrArg (row ∈ ·) same)) fewer
    · exact honest.store pending rfl standing rfl added allowed.2 fewer

theorem Honest.sound {event : LocalEvent} {numbering : Numbering}
    (untroubled : Untroubled sql setting s (.agent event))
    (numbered : s.numbering.step setting event = some numbering) : SeqSound numbering :=
  step_seqSound honest.numbered untroubled numbered

theorem step_honest {event : Event} (untroubled : Untroubled sql setting s event)
    (stepped : s.step sql setting event = some t) : Honest setting t := by
  cases stepped_of_step stepped with
  | connect numbered same joined =>
    have fewer := fun item => @Delivery.connect_pending _ _ item _ joined
    obtain ⟨-, rfl⟩ := Delivery.connect_eq_some joined
    exact honest.frame (honest.sound untroubled numbered) same honest.standing
      (List.Subset.refl _) (fun _ _ => Iff.rfl) fewer
  | finish numbered queued =>
    exact finish_honest honest (honest.sound untroubled numbered) queued
      (signed_finish numbered queued)
  | @fail e drawn numbering numbered same =>
    have sound := honest.sound untroubled numbered
    cases drawn with
    | true =>
      exact honest.frame sound same honest.standing (List.Subset.refl _)
        (fun _ _ => Iff.rfl) fun item pending => pending
    | false =>
      exact honest.frame sound same honest.standing (List.Subset.refl _)
        (fun _ _ => Iff.rfl) fun item pending => pending
  | crash =>
    exact honest.frame (honest.sound untroubled rfl) rfl honest.standing (List.Subset.refl _)
      (fun _ _ => Iff.rfl) fun item pending => Delivery.crash_pending pending
  | quiet numbered same =>
    exact honest.frame (honest.sound untroubled numbered) same honest.standing
      (List.Subset.refl _) (fun _ _ => Iff.rfl) fun item pending => pending
  | drain drained =>
    have moved := Delivery.drained_of_step drained
    have received := Delivery.drained_received moved
    exact honest.frame honest.numbered rfl honest.standing
      (fun nth member => received.symm ▸ member) (fun _ _ => Iff.rfl)
      fun item pending => Delivery.drained_pending moved pending
  | receive read => exact receive_honest honest untroubled read
  | @foreign hostId msg now resultId raced other =>
    apply honest.frame
    · exact honest.numbered
    · rfl
    · exact recvMessage_standing honest.standing fun _ _ => other
    · exact List.Subset.refl _
    · intro row own
      have stored := recvMessage_results sql setting.sha setting.proto setting.ed s.db hostId now
        resultId raced msg
      rcases stored with same | ⟨env, -, added⟩
      · exact iff_of_eq (congrArg (row ∈ ·) same)
      · change row ∈ (recvMessage sql setting.sha setting.proto setting.ed s.db hostId now
          resultId raced msg).results ↔ _
        rw [added, List.mem_append, List.mem_singleton]
        constructor
        · rintro (old | new)
          · exact old
          · rw [new] at own
            exact absurd own other
        · exact .inl
    · exact fun item pending => pending
  | plan =>
    exact honest.frame honest.numbered rfl (honest.standing.congr rfl) (List.Subset.refl _)
      (fun _ _ => Iff.rfl) fun item pending => pending

theorem untroubled_unrejected {event : Event} (untroubled : Untroubled sql setting s event) :
    Unrejected sql setting s event := by
  cases event with
  | receive i now resultId raced =>
    intro x found sent head
    have allowed := untroubled x found sent head
    cases sent with
    | result item => exact (honest.handles (head_pending found head) allowed.1 now resultId raced).2
    | other msg plain => trivial
  | agent | drain | foreign | plan => trivial

end Steps

/-- In every run in which results are numbered in order and in range and none overtakes an older
one that is not stored, each result of the agent is accepted or stored already, and the host is
never quarantined. -/
theorem honest_agent_accepted (sql : Tasks.SqlOrder) (setting : Setting) (db : Db)
    (enrolled : Enrolled setting db) (events : List Event)
    (finishes : (run (System.step sql setting) (.start db) events).isSome)
    (met : Meets (System.step sql setting) (Untroubled sql setting) (.start db) events) :
    Meets (System.step sql setting) (Unrejected sql setting) (.start db) events ∧
      ∀ s, run (System.step sql setting) (.start db) events = some s →
        ∃ host, findKey Host.id s.db.hosts setting.hostId = some host ∧
          host.status ≠ .quarantined := by
  have keep : ∀ (s : System) (event : Event) (t : System), Honest setting s →
      Untroubled sql setting s event → s.step sql setting event = some t → Honest setting t :=
    fun s event t honest untroubled stepped => step_honest honest untroubled stepped
  constructor
  · apply meets_of_keeps keep ?_ (start_honest enrolled) finishes met
    intro s event t honest untroubled _
    exact untroubled_unrejected honest untroubled
  · intro s reached
    obtain ⟨host, found, -, status⟩ := (run_keeps keep (start_honest enrolled) reached met).standing
    exact ⟨host, found, status⟩

def honestRun : List Event :=
  [.agent (.connect 0), .agent (.command 0 0 "c1"),
    .agent (.finish 0 default ⟨0, 0⟩ ⟨1, 0⟩ 0), .drain (.peek 0), .drain (.send 0),
    .receive 0 default "r1" false]

theorem honest_run_accepted :
    Meets (System.step Tasks.firstOfLatest oneAgent) (Unrejected Tasks.firstOfLatest oneAgent)
      (.start oneHost) honestRun := by
  have enrolled : Enrolled oneAgent oneHost := by
    constructor
    · exact ⟨_, rfl, rfl, by decide⟩
    · intro row member
      cases member
  refine (honest_agent_accepted Tasks.firstOfLatest oneAgent oneHost enrolled honestRun rfl ?_).1
  refine ⟨trivial, fun _ connected => ?_⟩
  cases connected
  refine ⟨trivial, fun _ commanded => ?_⟩
  cases commanded
  refine ⟨?_, fun _ finished => ?_⟩
  · change ∀ claim ∈ Numbering.claim _ 0, _
    decide
  cases finished
  refine ⟨trivial, fun _ peeked => ?_⟩
  cases peeked
  refine ⟨trivial, fun _ sent => ?_⟩
  cases sent
  refine ⟨?_, fun _ _ => trivial⟩
  intro x found message head
  cases found
  cases head
  refine ⟨by decide, fun other _ older => ?_⟩
  exact absurd older (Nat.not_lt_zero _)

/-- Two streams that overlap number two results alike, and both are sent on the second one. -/
def overlappingStreams : List Event :=
  [.agent (.connect 0), .agent (.command 0 0 "c1"), .agent (.connect 1),
    .agent (.command 1 1 "c2"), .agent (.finish 1 default ⟨0, 0⟩ ⟨1, 0⟩ 0),
    .agent (.finish 0 default ⟨0, 0⟩ ⟨2, 0⟩ 0), .drain (.peek 1), .drain (.send 1),
    .drain (.ack 1 true), .drain (.send 1), .receive 1 default "r1" false]

theorem repeated_number_rejected :
    ∃ s, run (System.step Tasks.firstOfLatest oneAgent) (.start oneHost) overlappingStreams =
        some s ∧
      ¬ Unrejected Tasks.firstOfLatest oneAgent s (.receive 1 default "r2" false) := by
  refine ⟨_, rfl, fun unrejected => ?_⟩
  rcases unrejected _ rfl _ rfl with ⟨row, warning, accepted⟩ | ⟨arrived, -⟩
  · have stored : _ = true := congrArg (fun outcome => outcome.toOption.isSome) accepted
    exact absurd stored (by decide)
  · exact absurd arrived (by decide)

end HlHelper.Reporting
