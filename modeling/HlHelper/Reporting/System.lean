import HlHelper.Reporting.Delivery
import HlHelper.Reporting.Linear

/-! An agent, the transport and the server that receives its results. -/

namespace HlHelper.Reporting

open Audit (Datetime)
open Inbound Library Results

structure System where
  numbering : Numbering
  delivery : Delivery
  db : Db

def System.start (db : Db) : System := ⟨.start, .start, db⟩

/-- `receive` handles the next message of a stream, `foreign` one of another host, and
`plan` is the rest of the server as far as it writes tasks, runs and commands. -/
inductive Event where
  | agent (event : LocalEvent)
  | drain (event : DrainEvent)
  | receive (i : Nat) (now : Datetime) (resultId : String) (raced : Bool)
  | foreign (hostId : HostId) (msg : AgentToServer) (now : Datetime) (resultId : String)
      (raced : Bool)
  | plan (tasks : List Task) (runs : List RunRow) (commands : List Command)

section Step

variable (sql : Tasks.SqlOrder) (setting : Setting)

def System.recv (s : System) (hostId : HostId) (now : Datetime) (resultId : String) (raced : Bool)
    (msg : AgentToServer) : Db :=
  recvMessage sql setting.sha setting.proto setting.ed s.db hostId now resultId raced msg

def System.step (s : System) : Event → Option System
  | .agent event =>
    match s.numbering.step setting event with
    | none => none
    | some numbering =>
      (s.delivery.accompany s.numbering numbering event).map
        (fun delivery => { s with numbering := numbering, delivery := delivery })
  | .drain event =>
    (s.delivery.step event).map (fun delivery => { s with delivery := delivery })
  | .receive i now resultId raced =>
    (s.delivery.receive i).map (fun (sent, delivery) =>
      { s with
        delivery := delivery
        db := s.recv sql setting setting.hostId now resultId raced sent.message })
  | .foreign hostId msg now resultId raced =>
    if hostId = setting.hostId then none
    else some { s with db := s.recv sql setting hostId now resultId raced msg }
  | .plan tasks runs commands =>
    some { s with db := { s.db with tasks := tasks, runs := runs, commands := commands } }

end Step

inductive Stepped (sql : Tasks.SqlOrder) (setting : Setting) (s : System) : Event → System → Prop
  | connect {i : Nat} {numbering : Numbering} {delivery : Delivery}
      (numbered : s.numbering.step setting (.connect i) = some numbering)
      (same : numbering.log = s.numbering.log) (joined : s.delivery.connect i = some delivery) :
      Stepped sql setting s (.agent (.connect i)) ⟨numbering, delivery, s.db⟩
  | finish {e : Nat} {result : ResultEnvelope} {started completed : Timestamp} {evicted : Nat}
      {numbering : Numbering} {entry : Nat × ResultEnvelope}
      (numbered : s.numbering.step setting (.finish e result started completed evicted) =
        some numbering)
      (queued : numbering.log = s.numbering.log ++ [entry]) :
      Stepped sql setting s (.agent (.finish e result started completed evicted))
        ⟨numbering, s.delivery.append ⟨s.numbering.log.length, entry.2⟩ evicted, s.db⟩
  | fail {e : Nat} {drawn : Bool} {numbering : Numbering}
      (numbered : s.numbering.step setting (.fail e drawn) = some numbering)
      (same : numbering.log = s.numbering.log) :
      Stepped sql setting s (.agent (.fail e drawn))
        ⟨numbering, if drawn then { s.delivery with outbox := s.delivery.outbox.skip }
          else s.delivery, s.db⟩
  | crash : Stepped sql setting s (.agent .crash) ⟨s.numbering.crash, s.delivery.crash, s.db⟩
  | quiet {event : LocalEvent} {numbering : Numbering}
      (numbered : s.numbering.step setting event = some numbering)
      (same : numbering.log = s.numbering.log) :
      Stepped sql setting s (.agent event) ⟨numbering, s.delivery, s.db⟩
  | drain {event : DrainEvent} {delivery : Delivery}
      (drained : s.delivery.step event = some delivery) :
      Stepped sql setting s (.drain event) ⟨s.numbering, delivery, s.db⟩
  | receive {i : Nat} {now : Datetime} {resultId : String} {raced : Bool} {sent : Sent}
      {delivery : Delivery} (read : s.delivery.receive i = some (sent, delivery)) :
      Stepped sql setting s (.receive i now resultId raced)
        ⟨s.numbering, delivery,
          s.recv sql setting setting.hostId now resultId raced sent.message⟩
  | foreign {hostId : HostId} {msg : AgentToServer} {now : Datetime} {resultId : String}
      {raced : Bool} (other : hostId ≠ setting.hostId) :
      Stepped sql setting s (.foreign hostId msg now resultId raced)
        ⟨s.numbering, s.delivery, s.recv sql setting hostId now resultId raced msg⟩
  | plan {tasks : List Task} {runs : List RunRow} {commands : List Command} :
      Stepped sql setting s (.plan tasks runs commands)
        ⟨s.numbering, s.delivery, { s.db with tasks := tasks, runs := runs, commands := commands }⟩

section Inversion

variable {sql : Tasks.SqlOrder} {setting : Setting} {s t : System}

def LocalEvent.isFinish : LocalEvent → Bool
  | .finish _ _ _ _ _ => true
  | _ => false

theorem log_finish {n m : Numbering} {e : Nat} {result : ResultEnvelope}
    {started completed : Timestamp} {evicted : Nat}
    (stepped : n.step setting (.finish e result started completed evicted) = some m) :
    ∃ entry, m.log = n.log ++ [entry] := by
  cases numbered_of_step stepped with
  | finish claimed loaded => exact ⟨_, rfl⟩

theorem log_step {n m : Numbering} {event : LocalEvent} (stepped : n.step setting event = some m)
    (other : event.isFinish = false) : m.log = n.log := by
  cases numbered_of_step stepped with
  | finish claimed loaded => cases other
  | connect | command | fail | truncateSeq | keepSeq | saveSeq | unsavedSeq | truncateHash
  | keepHash | saveHash | unsavedHash | crash => rfl

theorem agent_stepped {event : LocalEvent} (stepped : s.step sql setting (.agent event) = some t) :
    Stepped sql setting s (.agent event) t := by
  simp only [System.step] at stepped
  split at stepped
  · cases stepped
  · next numbering numbered =>
    obtain ⟨delivery, moved, rfl⟩ := Option.map_eq_some_iff.mp stepped
    cases event with
    | connect i => exact .connect numbered (log_step numbered rfl) moved
    | finish e result started completed evicted =>
      obtain ⟨entry, queued⟩ := log_finish numbered
      have last : numbering.log[s.numbering.log.length]? = some entry := by
        rw [queued]
        exact getElem?_last
      simp only [Delivery.accompany, last, Option.some.injEq] at moved
      rw [← moved]
      exact .finish numbered queued
    | fail e drawn =>
      cases moved
      exact .fail numbered (log_step numbered rfl)
    | crash =>
      cases moved
      cases numbered
      exact .crash
    | command e i commandId =>
      cases moved
      exact .quiet numbered (log_step numbered rfl)
    | openSeq e ok =>
      cases moved
      exact .quiet numbered (log_step numbered rfl)
    | writeSeq e ok =>
      cases moved
      exact .quiet numbered (log_step numbered rfl)
    | openHash e ok =>
      cases moved
      exact .quiet numbered (log_step numbered rfl)
    | writeHash e ok =>
      cases moved
      exact .quiet numbered (log_step numbered rfl)

theorem stepped_of_step {event : Event} (stepped : s.step sql setting event = some t) :
    Stepped sql setting s event t := by
  cases event with
  | agent event => exact agent_stepped stepped
  | drain event =>
    obtain ⟨delivery, drained, rfl⟩ := Option.map_eq_some_iff.mp stepped
    exact .drain drained
  | receive i now resultId raced =>
    obtain ⟨⟨sent, delivery⟩, read, rfl⟩ := Option.map_eq_some_iff.mp stepped
    exact .receive read
  | foreign hostId msg now resultId raced =>
    simp only [System.step] at stepped
    split at stepped
    · cases stepped
    · next other =>
      cases stepped
      exact .foreign other
  | plan tasks runs commands =>
    cases stepped
    exact .plan

end Inversion

end HlHelper.Reporting
