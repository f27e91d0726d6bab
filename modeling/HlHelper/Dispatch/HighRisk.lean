import HlHelper.Approvals.Engine
import HlHelper.Dispatch.Dispatcher
import Mathlib.Data.List.Induction

/-! High-risk dispatches over a history of approvals: what step 4 finds in the table, and
where it came from. -/

namespace HlHelper.Dispatch

open HlHelper.Library

section Approvals

variable {c : Collaborators} {draws : Draws} {cache after : Cache} {next : Session}
  {tables : Tables} {call : Call} {plan : Plan} {result : DispatchResult}

section

variable (planned : planOf c draws tables.fleet call = .ok plan)
include planned

theorem dispatch_gated
    (returned : dispatch c draws (Session.begin tables) cache call = .ok (result, next, after)) :
    ∃ gate, Gated c draws ((Session.begin tables).addTask plan.task) call.principal plan gate ∧
      match gate with
      | .blocked _ session => next = session.commit
      | .cleared session => next = session.commit ∨
          plan.candidates ≠ [] ∧ Leaves Tables.approvals session next := by
  have fleet : (Session.begin tables).tables.fleet = tables.fleet := rfl
  have untouched : Untouched Tables.approvals := fun _ _ _ _ => rfl
  have gated :=
    gated_approvalGate c draws ((Session.begin tables).addTask plan.task) call.principal plan
  rw [dispatch, fleet, planned, Except.bind] at returned
  generalize approvalGate c draws ((Session.begin tables).addTask plan.task) call.principal
    plan = gate at gated returned
  refine ⟨gate, gated, ?_⟩
  cases gate with
  | blocked approvalId session =>
    simp only [Except.ok.injEq, Prod.mk.injEq] at returned
    exact returned.2.1.symm
  | cleared session =>
    cases candidates : plan.candidates with
    | nil =>
      simp only [candidates, Except.ok.injEq, Prod.mk.injEq] at returned
      exact .inl returned.2.1.symm
    | cons first rest =>
      right
      refine ⟨List.cons_ne_nil _ _, ?_⟩
      simp only [candidates] at returned
      obtain ⟨⟨_, _⟩, looped, same⟩ := map_eq_ok.mp returned
      simp only [Prod.mk.injEq] at same
      obtain ⟨rfl, rfl, rfl⟩ := same
      have leaves := dispatchHosts_leaves untouched looped
      split at leaves
      · exact leaves
      · exact ⟨leaves.committed, leaves.tables⟩

theorem dispatch_approvals
    (returned : dispatch c draws (Session.begin tables) cache call = .ok (result, next, after)) :
    next.tables.approvals = tables.approvals ∨ selfApproved c call.principal = true ∧
      next.tables.approvals = tables.approvals ++ [selfApproval draws plan.order] := by
  obtain ⟨gate, gated, left⟩ := dispatch_gated planned returned
  cases gated with
  | unasked | approved =>
    rcases left with rfl | ⟨-, leaves⟩
    · exact .inl rfl
    · exact .inl (leaves.tables.elim id id)
  | self own =>
    rcases left with rfl | ⟨-, leaves⟩
    · exact .inr ⟨own, rfl⟩
    · exact leaves.tables.symm.imp id fun same => ⟨own, same⟩
  | pending needs approvalId =>
    left
    have same : (publishPending c ((Session.begin tables).addTask plan.task)
        approvalId).tables.approvals = tables.approvals := by
      unfold publishPending
      split <;> rfl
    rw [left]
    exact same

theorem approved_of_commands
    (returned : dispatch c draws (Session.begin tables) cache call = .ok (result, next, after))
    (configured : c.approvalEngine.isSome) (high : plan.order.risk = .high)
    (enqueued : next.tables.commands ≠ tables.commands) :
    hasApproval tables plan.order = true ∨ selfApproved c call.principal = true := by
  obtain ⟨gate, gated, left⟩ := dispatch_gated planned returned
  cases gated with
  | unasked free =>
    rcases left with rfl | ⟨some_, -⟩
    · exact absurd rfl enqueued
    · exact absurd (free configured high) some_
  | approved found => exact .inl found
  | self own => exact .inr own
  | pending needs approvalId =>
    refine absurd ?_ enqueued
    rw [left]
    unfold publishPending
    split <;> rfl

end

end Approvals

/-- The columns of an approval that the dispatcher selects on or writes. -/
def seen (row : Approvals.Approval) : Approval where
  id := row.id
  subjectType :=
    match row.subjectType with
    | .command => "command"
    | .task => "task"
    | .policyChange => "policy_change"
  subjectId := row.subjectId
  policy :=
    match row.policy with
    | .single => "single"
    | .twoPerson => "two_person"
    | .singleSecondFactor => "single_second_factor"
  requesterId := row.requesterId
  approved := row.state = .approved
  decidedById := row.decidedById

def selfRow (draws : Draws) (order : Order) : Approvals.Approval where
  id := draws.approvalRowId
  subjectType := .command
  subjectId := order.payloadKind
  policy := .single
  requesterId := order.principalId
  state := .approved
  firstDeciderId := none
  decidedById := some order.principalId
  decidedAt := some draws.now
  mfaProofHash := none
  rejectedReason := none
  expiresAt := draws.now + seconds 3600

/-- What the approval engine is asked for a call that is blocked, for ten minutes. -/
def pendingRequest (draws : Draws) (order : Order) (approvalId : String) : Approvals.Request where
  approvalId := approvalId
  subjectType := .command
  subjectId := order.payloadKind
  policy := .singleSecondFactor
  requesterId := order.principalId
  now := draws.now
  ttl := seconds 600

/-- The committed approvals, the other tables, and the cache of the queue. -/
structure Office where
  approvals : List Approvals.Approval
  tables : Tables
  cache : Cache

inductive OfficeEvent where
  | request (request : Approvals.Request)
  | decide (approvalId : String) (args : Approvals.Decide)
  | state (approvalId : String) (now : Int)
  | sweep (now : Int)
  | dispatch (c : Collaborators) (draws : Draws) (call : Call)
  -- what other parts of the server make of the other tables and the cache
  | elsewhere (tables : Tables) (cache : Cache)

namespace Office

def visible (w : Office) : Tables := { w.tables with approvals := w.approvals.map seen }

def insert (w : Office) (rows : List Approvals.Approval) :
    Except DispatchError (List Approvals.Approval) :=
  if ∃ row ∈ rows, row.id ∈ w.approvals.map Approvals.Approval.id then
    .error (.integrityError "UNIQUE constraint failed: approvals.id")
  else .ok (w.approvals ++ rows)

def update (w : Office) (approvalId : String)
    (change : Approvals.Approval → Approvals.Approval) : Office :=
  { w with approvals := w.approvals.map fun row => if row.id = approvalId then change row else row }

/-- The rows that a call adds: its self-approval, unless a rollback has dropped it, and
the approval that it has requested. -/
def added (w : Office) (draws : Draws) (plan : Plan) (result : DispatchResult) (next : Session) :
    List Approvals.Approval :=
  (if w.approvals.length < next.tables.approvals.length then [selfRow draws plan.order] else []) ++
    result.pendingApprovalIds.map fun approvalId =>
      (pendingRequest draws plan.order approvalId).row

def dispatch (w : Office) (c : Collaborators) (draws : Draws) (call : Call) :
    Except DispatchError Office :=
  (planOf c draws w.visible.fleet call).bind fun plan =>
  (Dispatch.dispatch c draws (Session.begin w.visible) w.cache call).bind
    fun (result, next, cache) =>
  (w.insert (w.added draws plan result next)).map fun approvals => ⟨approvals, next.tables, cache⟩

def step (sha : Sha256) (w : Office) : OfficeEvent → Office
  | .request request =>
    match w.insert [request.row] with
    | .ok approvals => { w with approvals := approvals }
    | .error _ => w
  | .decide approvalId args => w.update approvalId fun row => (row.decide sha args).1
  | .state approvalId now => w.update approvalId fun row => (row.stateAt now).1
  | .sweep now =>
    { w with approvals := w.approvals.map fun row => if row.Overdue now then row.sweep else row }
  | .dispatch c draws call =>
    -- one that raises leaves nothing
    match w.dispatch c draws call with
    | .ok next => next
    | .error _ => w
  | .elsewhere tables cache => { w with tables := tables, cache := cache }

def after (sha : Sha256) (start : Office) (events : List OfficeEvent) : Office :=
  events.foldl (step sha) start

/-- Where an approved row comes from: a decision in time by another principal, or a
dispatch of its requester, who could approve tasks then. -/
inductive Backed (events : List OfficeEvent) (row : Approvals.Approval) : Prop
  | decided (args : Approvals.Decide) (happened : .decide row.id args ∈ events)
      (asked : args.decision = .approve) (decider : row.decidedById = some args.deciderId)
      (other : args.deciderId ≠ row.requesterId) (early : args.now < row.expiresAt)
  | self (c : Collaborators) (draws : Draws) (call : Call)
      (happened : .dispatch c draws call ∈ events)
      (identity : principalIdentity call.principal = .ok row.requesterId)
      (kind : getPayloadKind call.payload = .ok row.subjectId)
      (own : selfApproved c call.principal = true)
      (decider : row.decidedById = some row.requesterId)

variable {sha : Sha256} {w : Office} {events : List OfficeEvent} {event : OfficeEvent}

theorem Backed.concat {row : Approvals.Approval} (backed : Backed events row)
    (event : OfficeEvent) : Backed (events ++ [event]) row := by
  cases backed with
  | decided args happened asked decider other early =>
    exact .decided args (List.mem_append_left _ happened) asked decider other early
  | self c draws call happened identity kind own decider =>
    exact .self c draws call (List.mem_append_left _ happened) identity kind own decider

def Sound (events : List OfficeEvent) (w : Office) : Prop :=
  ∀ row ∈ w.approvals, row.state = .approved → Backed events row

theorem Sound.map (sound : Sound events w) {change : Approvals.Approval → Approvals.Approval}
    (approves : ∀ row ∈ w.approvals, (change row).state = .approved →
      change row = row ∨ Backed (events ++ [event]) (change row)) :
    Sound (events ++ [event]) { w with approvals := w.approvals.map change } := by
  intro row member approved
  obtain ⟨old, inside, rfl⟩ := List.mem_map.mp member
  rcases approves old inside approved with same | backed
  · rw [same] at approved ⊢
    exact (sound old inside approved).concat event
  · exact backed

theorem Sound.insert (sound : Sound events w) {rows approvals : List Approvals.Approval}
    (inserted : w.insert rows = .ok approvals)
    (backed : ∀ row ∈ rows, row.state = .approved → Backed (events ++ [event]) row) :
    ∀ row ∈ approvals, row.state = .approved → Backed (events ++ [event]) row := by
  unfold Office.insert at inserted
  split at inserted
  · cases inserted
  · cases inserted
    intro row member approved
    rcases List.mem_append.mp member with old | new
    · exact (sound row old approved).concat event
    · exact backed row new approved

theorem backed_of_decide (row : Approvals.Approval) (args : Approvals.Decide)
    (approved : (row.decide sha args).1.state = .approved) :
    (row.decide sha args).1 = row ∨
      Backed (events ++ [.decide row.id args]) (row.decide sha args).1 := by
  have decided := Approvals.Approval.decided_decide sha row args
  have happened : OfficeEvent.decide row.id args ∈ events ++ [.decide row.id args] := by simp
  generalize (row.decide sha args).1 = next at decided approved ⊢
  generalize (row.decide sha args).2 = result at decided
  cases decided with
  | settled | mfaRequired => exact .inl rfl
  | late => simp [Approvals.Approval.expire] at approved
  | reject => simp [Approvals.Approval.reject, Approvals.Approval.settle] at approved
  | first => simp at approved
  | second asked early other => exact .inr (.decided args happened asked rfl other early)
  | approve asked opened early other =>
    exact .inr (.decided args happened asked rfl other early)

theorem Sound.decide (sound : Sound events w) (approvalId : String) (args : Approvals.Decide) :
    Sound (events ++ [.decide approvalId args])
      (w.update approvalId fun row => (row.decide sha args).1) := by
  apply sound.map
  intro row inside
  split
  · next named =>
    subst named
    exact backed_of_decide row args
  · exact fun _ => .inl rfl

theorem Sound.dispatch (sound : Sound events w) (c : Collaborators) (draws : Draws) (call : Call)
    {next : Office} (dispatched : w.dispatch c draws call = .ok next) :
    Sound (events ++ [.dispatch c draws call]) next := by
  obtain ⟨plan, planned, dispatched⟩ := bind_eq_ok.mp dispatched
  obtain ⟨⟨result, session, cache⟩, returned, dispatched⟩ := bind_eq_ok.mp dispatched
  obtain ⟨approvals, inserted, rfl⟩ := map_eq_ok.mp dispatched
  apply sound.insert inserted
  intro row member approved
  rcases List.mem_append.mp member with own | pending
  · split at own
    · next grew =>
      obtain rfl := List.mem_singleton.mp own
      have made := planned_of_planOf planned
      refine .self c draws call (by simp) made.identity made.kind ?_ rfl
      rcases dispatch_approvals planned returned with same | ⟨self, -⟩
      · rw [same] at grew
        simp [visible] at grew
      · exact self
    · cases own
  · obtain ⟨approvalId, -, rfl⟩ := List.mem_map.mp pending
    cases approved

theorem Sound.step (sound : Sound events w) (event : OfficeEvent) :
    Sound (events ++ [event]) (w.step sha event) := by
  cases event with
  | request request =>
    simp only [Office.step]
    split
    · next approvals inserted =>
      apply sound.insert inserted
      intro row member approved
      rw [List.mem_singleton.mp member] at approved
      cases approved
    · exact fun row member approved => (sound row member approved).concat _
  | decide approvalId args => exact sound.decide approvalId args
  | state approvalId now =>
    apply sound.map
    intro row inside
    split
    · rcases row.stateAt_cases now with same | expired
      · exact fun _ => .inl same
      · simp [expired, Approvals.Approval.expire]
    · exact fun _ => .inl rfl
  | sweep now =>
    apply sound.map
    intro row inside
    split
    · simp [Approvals.Approval.sweep, Approvals.Approval.expire]
    · exact fun _ => .inl rfl
  | dispatch c draws call =>
    simp only [Office.step]
    cases dispatched : w.dispatch c draws call with
    | error => exact fun row member approved => (sound row member approved).concat _
    | ok next => exact sound.dispatch c draws call dispatched
  | elsewhere tables cache => exact fun row member approved => (sound row member approved).concat _

theorem sound_after (tables : Tables) (cache : Cache) (events : List OfficeEvent) :
    Sound events (after sha ⟨[], tables, cache⟩ events) := by
  induction events using List.reverseRecOn with
  | nil => exact fun row member => nomatch member
  | append_singleton events event ih =>
    rw [after, List.foldl_concat]
    exact ih.step event

def Grants (order : Order) (row : Approvals.Approval) : Prop :=
  row.subjectType = .command ∧ row.subjectId = order.payloadKind ∧
    row.requesterId = order.principalId ∧ row.state = .approved

instance (order : Order) (row : Approvals.Approval) : Decidable (Grants order row) :=
  inferInstanceAs (Decidable (_ ∧ _))

theorem hasApproval_visible {order : Order} (found : hasApproval w.visible order = true) :
    ∃ row ∈ w.approvals, Grants order row := by
  obtain ⟨shown, member, columns⟩ := List.any_eq_true.mp found
  obtain ⟨row, inside, rfl⟩ := List.mem_map.mp member
  obtain ⟨subjectType, subjectId, requester, approved⟩ := of_decide_eq_true columns
  refine ⟨row, inside, ?_, subjectId, requester, of_decide_eq_true approved⟩
  cases known : row.subjectType <;> simp_all [seen]

/-- With an approval engine, a high-risk call that adds commands is made by one who may
approve tasks, or finds an approved row of its requester and its kind of payload; and
every such row was backed. -/
theorem high_risk_approved (sha : Sha256) (tables : Tables) (cache : Cache)
    (events : List OfficeEvent) {c : Collaborators} {draws : Draws} {call : Call} {plan : Plan}
    (planned : planOf c draws (after sha ⟨[], tables, cache⟩ events).tables.fleet call = .ok plan)
    (configured : c.approvalEngine.isSome) (high : plan.order.risk = .high)
    (enqueued : (after sha ⟨[], tables, cache⟩
        (events ++ [.dispatch c draws call])).tables.commands ≠
      (after sha ⟨[], tables, cache⟩ events).tables.commands) :
    selfApproved c call.principal = true ∨
      (∃ row ∈ (after sha ⟨[], tables, cache⟩ events).approvals, Grants plan.order row) ∧
        ∀ row ∈ (after sha ⟨[], tables, cache⟩ events).approvals,
          Grants plan.order row → Backed events row := by
  rw [after, List.foldl_concat] at enqueued
  change ((after sha ⟨[], tables, cache⟩ events).step sha (.dispatch c draws call)).tables.commands
    ≠ _ at enqueued
  have sound : Sound events (after sha ⟨[], tables, cache⟩ events) :=
    sound_after tables cache events
  generalize after sha ⟨[], tables, cache⟩ events = w at planned enqueued sound ⊢
  simp only [Office.step] at enqueued
  split at enqueued
  · next next dispatched =>
    obtain ⟨other, plannedToo, dispatched⟩ := bind_eq_ok.mp dispatched
    obtain rfl := Except.ok.inj (planned.symm.trans plannedToo)
    obtain ⟨⟨result, session, cache⟩, returned, dispatched⟩ := bind_eq_ok.mp dispatched
    obtain ⟨approvals, -, rfl⟩ := map_eq_ok.mp dispatched
    rcases approved_of_commands plannedToo returned configured high enqueued with found | own
    · obtain ⟨row, inside, grants⟩ := hasApproval_visible found
      exact .inr ⟨⟨row, inside, grants⟩, fun other there granted =>
        sound other there granted.2.2.2⟩
    · exact .inl own
  · exact absurd rfl enqueued

/-- A dispatcher that asks for approvals, and that authorises all but the approval of
tasks. -/
def gatedDispatcher : Collaborators :=
  { openDispatcher with
    authorize := fun _ action _ => some (action ≠ "task:approve")
    approvalEngine := some fun _ _ _ _ => "p-1" }

def approvedReboot : List OfficeEvent :=
  [.request ⟨"p-0", .command, "reboot", .single, "admin", 0, seconds 600⟩,
    .decide "p-0" ⟨"u-2", .approve, none, none, seconds 60⟩]

def lateDraws : Draws := { quietDraws with now := seconds 7200 }

def lateReboot : OfficeEvent :=
  .dispatch gatedDispatcher lateDraws (reboot ["h1", "h2"] none)

theorem lateReboot_enqueues :
    (after .head ⟨[], twoHosts, .empty⟩ (approvedReboot ++ [lateReboot])).tables.commands ≠
      (after .head ⟨[], twoHosts, .empty⟩ approvedReboot).tables.commands := by
  have ids : ((after .head ⟨[], twoHosts, .empty⟩
      (approvedReboot ++ [lateReboot])).tables.commands.map Command.id,
      (after .head ⟨[], twoHosts, .empty⟩ approvedReboot).tables.commands.map Command.id) =
        (["c-h1", "c-h2"], []) := by
    decide
  obtain ⟨later, before⟩ := Prod.mk.inj ids
  intro same
  rw [same, before] at later
  cases later

theorem lateReboot_high : ∃ plan,
    planOf gatedDispatcher lateDraws
        (after .head ⟨[], twoHosts, .empty⟩ approvedReboot).tables.fleet
        (reboot ["h1", "h2"] none) = .ok plan ∧ plan.order.risk = .high := by
  have high : (planOf gatedDispatcher lateDraws
      (after .head ⟨[], twoHosts, .empty⟩ approvedReboot).tables.fleet
      (reboot ["h1", "h2"] none)).map (fun plan => plan.order.risk) = .ok .high := by
    decide
  exact map_eq_ok.mp high

theorem late_reboot_approved : ∃ plan,
    planOf gatedDispatcher lateDraws
        (after .head ⟨[], twoHosts, .empty⟩ approvedReboot).tables.fleet
        (reboot ["h1", "h2"] none) = .ok plan ∧
      (selfApproved gatedDispatcher (reboot ["h1", "h2"] none).principal = true ∨
        (∃ row ∈ (after .head ⟨[], twoHosts, .empty⟩ approvedReboot).approvals,
          Grants plan.order row) ∧
        ∀ row ∈ (after .head ⟨[], twoHosts, .empty⟩ approvedReboot).approvals,
          Grants plan.order row → Backed approvedReboot row) := by
  obtain ⟨plan, planned, high⟩ := lateReboot_high
  exact ⟨plan, planned, high_risk_approved .head twoHosts .empty approvedReboot planned rfl high
    lateReboot_enqueues⟩

theorem expired_approval_dispatches : ∃ plan,
    planOf gatedDispatcher lateDraws
        (after .head ⟨[], twoHosts, .empty⟩ approvedReboot).tables.fleet
        (reboot ["h1", "h2"] none) = .ok plan ∧ plan.order.risk = .high ∧
      (after .head ⟨[], twoHosts, .empty⟩ (approvedReboot ++ [lateReboot])).tables.commands ≠
        (after .head ⟨[], twoHosts, .empty⟩ approvedReboot).tables.commands ∧
      ¬ ∃ row ∈ (after .head ⟨[], twoHosts, .empty⟩ (approvedReboot ++ [lateReboot])).approvals,
        Grants plan.order row ∧ lateDraws.now < row.expiresAt := by
  obtain ⟨plan, planned, high⟩ := lateReboot_high
  refine ⟨plan, planned, high, lateReboot_enqueues, ?_⟩
  rintro ⟨row, member, -, early⟩
  have expired : ∀ row ∈ (after .head ⟨[], twoHosts, .empty⟩
      (approvedReboot ++ [lateReboot])).approvals, row.expiresAt ≤ lateDraws.now := by
    decide
  exact absurd early (not_lt.mpr (expired row member))

end Office

end HlHelper.Dispatch
