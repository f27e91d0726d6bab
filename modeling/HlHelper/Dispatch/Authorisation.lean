import HlHelper.Dispatch.Dispatcher
import HlHelper.Rbac.Engine

/-! The RBAC filter of a dispatch, against the decision on each host with its groups and
its tags. -/

namespace HlHelper.Dispatch

open HlHelper.Library

def bareResource (hostId : Option HostId) : Rbac.Resource := ⟨hostId, [], [], none⟩

def ancestors (groups : List Group) : Nat → Uuid → List Uuid
  | 0, id => [id]
  | fuel + 1, id =>
    match (findKey Group.id groups id).bind Group.parentId with
    | none => [id]
    | some parentId => id :: ancestors groups fuel parentId

def groupIdsOf (fleet : Fleet) (hostId : HostId) : List Uuid :=
  (fleet.memberships.filter (fun row => row.hostId = hostId)).flatMap fun row =>
    ancestors fleet.groups fleet.groups.length row.groupId

def tagsOf (fleet : Fleet) (hostId : HostId) : List (String × String) :=
  (((findKey Host.id fleet.hosts hostId).bind Host.labels).getD []).filterMap fun label =>
    match label with
    | (key, .str value) => some (key, value)
    | _ => none

/-- The host with all its groups, those above them, and its labels. -/
def hostResource (fleet : Fleet) (hostId : HostId) : Rbac.Resource :=
  ⟨some hostId, (groupIdsOf fleet hostId).map uuidText, tagsOf fleet hostId, none⟩

section Provider

variable (highRisk : String → Bool) (grants : Rbac.Grants) (fleet : Fleet)

def provider (principal : Principal) (action : String) (hostId : Option HostId) : Option Bool :=
  (Rbac.isAuthorized highRisk grants fleet.groups principal action (bareResource hostId)
    .empty).map Rbac.Decision.allow

/-- The decision on the host with all that it belongs to. -/
def Allowed (principal : Principal) (action : String) (hostId : HostId) : Prop :=
  (Rbac.isAuthorized highRisk grants fleet.groups principal action (hostResource fleet hostId)
    .empty).map Rbac.Decision.allow = some true

instance (principal : Principal) (action : String) (hostId : HostId) :
    Decidable (Allowed highRisk grants fleet principal action hostId) :=
  inferInstanceAs (Decidable (_ = _))

end Provider

def ByMembership : Rbac.Scope → Prop
  | .group _ | .tag _ _ => True
  | .global | .hostList _ | .self _ => False

instance : DecidablePred ByMembership
  | .group _ | .tag _ _ => isTrue trivial
  | .global | .hostList _ | .self _ => isFalse id

section Agreement

variable {highRisk : String → Bool} {grants : Rbac.Grants} {fleet : Fleet}
  {principal : Principal} {action : String} {hostId : HostId}
  {hierarchy : List (String × List String)}

theorem covers_bare (scope : Rbac.Scope) (descendantsOf : String → List String) :
    scope.covers (bareResource (some hostId)) descendantsOf = true ↔
      ¬ ByMembership scope ∧ scope.covers (hostResource fleet hostId) descendantsOf = true := by
  cases scope with
  | global => simp [Rbac.Scope.covers, ByMembership]
  | group groupId => cases groupId <;> simp [Rbac.Scope.covers, ByMembership, bareResource]
  | tag key value => cases key <;> cases value <;>
      simp [Rbac.Scope.covers, ByMembership, bareResource]
  | hostList hostIds =>
    simp [Rbac.Scope.covers, ByMembership, bareResource, hostResource]
  | self principalId =>
    cases principalId <;> simp [Rbac.Scope.covers, ByMembership, bareResource, hostResource]

def GrantedByHost (grants : Rbac.Grants) (fleet : Fleet) (principal : Principal) (action : String)
    (hierarchy : List (String × List String)) (hostId : HostId) : Prop :=
  ∃ row ∈ grants.rows principal, row.2.permits action ∧ ¬ ByMembership row.1.scope ∧
    row.1.scope.covers (hostResource fleet hostId) (Rbac.descendantsOf hierarchy) = true

theorem granted_bare :
    Rbac.Granted grants principal action (bareResource (some hostId)) hierarchy ↔
      GrantedByHost grants fleet principal action hierarchy hostId := by
  apply exists_congr
  intro row
  apply and_congr_right
  intro _
  exact and_congr_right fun _ => covers_bare row.1.scope _

theorem provider_eq_some_true :
    provider highRisk grants fleet principal action (some hostId) = some true ↔
      ∃ hierarchy, Rbac.buildGroupHierarchy fleet.groups = some hierarchy ∧
        GrantedByHost grants fleet principal action hierarchy hostId := by
  rw [provider, Rbac.isAuthorized_allow]
  exact exists_congr fun hierarchy => and_congr_right fun _ => granted_bare

theorem allowed_of_provider
    (allowed : provider highRisk grants fleet principal action (some hostId) = some true) :
    Allowed highRisk grants fleet principal action hostId := by
  obtain ⟨hierarchy, built, row, member, permits, -, covers⟩ := provider_eq_some_true.mp allowed
  exact Rbac.isAuthorized_allow.mpr ⟨hierarchy, built, row, member, permits, covers⟩

/-- Whatever a binding by membership grants on a host, another binding grants too. -/
def Redundant (grants : Rbac.Grants) (fleet : Fleet) (principal : Principal) (action : String)
    (hostId : HostId) : Prop :=
  ∀ hierarchy, Rbac.buildGroupHierarchy fleet.groups = some hierarchy →
    ∀ row ∈ grants.rows principal, row.2.permits action → ByMembership row.1.scope →
      row.1.scope.covers (hostResource fleet hostId) (Rbac.descendantsOf hierarchy) = true →
        GrantedByHost grants fleet principal action hierarchy hostId

theorem redundant_iff :
    Redundant grants fleet principal action hostId ↔
      (Allowed highRisk grants fleet principal action hostId →
        provider highRisk grants fleet principal action (some hostId) = some true) := by
  constructor
  · intro redundant allowed
    obtain ⟨hierarchy, built, row, member, permits, covers⟩ := Rbac.isAuthorized_allow.mp allowed
    refine provider_eq_some_true.mpr ⟨hierarchy, built, ?_⟩
    by_cases membership : ByMembership row.1.scope
    · exact redundant hierarchy built row member permits membership covers
    · exact ⟨row, member, permits, membership, covers⟩
  · intro agrees hierarchy built row member permits _ covers
    obtain ⟨other, builtToo, granted⟩ := provider_eq_some_true.mp
      (agrees (Rbac.isAuthorized_allow.mpr ⟨hierarchy, built, row, member, permits, covers⟩))
    obtain rfl := Option.some.inj (built.symm.trans builtToo)
    exact granted

end Agreement

/-- The candidates of a dispatch are the resolved hosts on which the full decision allows
the action exactly when no host owes it to a binding by membership alone. -/
theorem candidates_allowed_iff (c : Collaborators) (draws : Draws) (highRisk : String → Bool)
    (grants : Rbac.Grants) (fleet : Fleet) (call : Call) {plan : Plan} {hosts : List HostId}
    (resolved : resolveTargets fleet call.targets = .ok hosts)
    (planned : planOf { c with authorize := provider highRisk grants fleet } draws fleet call =
      .ok plan) :
    (∀ hostId, hostId ∈ plan.candidates ↔ hostId ∈ hosts ∧
        Allowed highRisk grants fleet call.principal (actionName plan.order.payloadKind) hostId) ↔
      ∀ hostId ∈ hosts,
        Redundant grants fleet call.principal (actionName plan.order.payloadKind) hostId := by
  obtain ⟨resolvedToo, same, candidates⟩ := (planned_of_planOf planned).candidates
  obtain rfl := Except.ok.inj (resolved.symm.trans same)
  have placed (hostId : HostId) : hostId ∈ plan.candidates ↔ hostId ∈ hosts ∧
      provider highRisk grants fleet call.principal (actionName plan.order.payloadKind)
        (some hostId) = some true := by
    rw [candidates, List.mem_filter, decide_eq_true_eq]
  constructor
  · intro agrees hostId member
    apply redundant_iff.mpr
    intro allowed
    exact ((placed hostId).mp ((agrees hostId).mpr ⟨member, allowed⟩)).2
  · intro redundant hostId
    rw [placed]
    exact and_congr_right fun member =>
      ⟨allowed_of_provider, redundant_iff.mp (redundant hostId member)⟩

section Custody

variable {c : Collaborators} {draws : Draws} {order : Order} {key : Option String}
  {taskRunId : TaskRunId} {session next : Session} {cache after : Cache} {hostId : HostId}
  {command : Command} {racing : List Command} {Holds : Command → Prop}

/-- Of the commands in the transaction and of those that a rollback goes back to. -/
def Session.All (session : Session) (Holds : Command → Prop) : Prop :=
  (∀ row ∈ session.tables.commands, Holds row) ∧ ∀ row ∈ session.committed.commands, Holds row

theorem flushCommand_all (all : session.All Holds) (holds : Holds command)
    (flushed : session.flushCommand command = .ok next) : next.All Holds := by
  obtain ⟨_, _, _, rfl⟩ := Session.flushCommand_eq_ok.mp flushed
  exact ⟨List.forall_mem_append.mpr ⟨all.1, List.forall_mem_singleton.mpr holds⟩, all.2⟩

theorem enqueue_all {capacity : Nat} {enqueued : Command} (all : session.All Holds)
    (others : ∀ row ∈ racing, Holds row)
    (issued : ∀ key, Holds { command with idempotencyKey := key })
    (returned : enqueue capacity session cache command key racing = .ok (enqueued, next, after)) :
    next.All Holds := by
  have raced : (session.othersCommit racing).All Holds :=
    ⟨List.forall_mem_append.mpr ⟨all.1, others⟩, List.forall_mem_append.mpr ⟨all.2, others⟩⟩
  cases key with
  | none =>
    exact flushCommand_all raced (issued command.idempotencyKey) (enqueue_unkeyed returned).2
  | some key =>
    by_cases answered : Answered key session.tables cache
    · obtain ⟨_, _, _, result, _⟩ := enqueue_answered capacity command racing answered
      cases result.symm.trans returned
      exact all
    · rcases enqueue_absent answered returned with ⟨rfl, flushed⟩ | ⟨rfl, _⟩
      · exact flushCommand_all raced (issued (some key)) flushed
      · exact ⟨raced.2, raced.2⟩

theorem dispatchHost_all (all : session.All Holds)
    (others : ∀ row ∈ (draws.host hostId).racing, Holds row)
    (issued : ∀ row : Command, row.hostId = hostId → Holds row)
    (returned : dispatchHost c draws order key taskRunId session cache hostId =
      .ok (next, after)) : next.All Holds := by
  obtain ⟨command, _, queued, built, stored, outcome⟩ := dispatchHost_cases returned
  have addressed : command.hostId = hostId := by
    obtain ⟨_, _, rfl⟩ := map_eq_ok.mp built
    rfl
  have allocated : (session.allocate hostId).2.All Holds :=
    ⟨(allocate_commands session.tables hostId).symm ▸ all.1, all.2⟩
  have before := enqueue_all allocated others (fun _ => issued _ addressed) stored
  rcases outcome with ⟨_, rfl⟩ | ⟨_, entry, audited, appended, committed, tables⟩
  · exact before
  · rw [Session.All, committed, tables]
    -- a conflict takes the session back to what is committed
    obtain ⟨_, ⟨_, rfl⟩ | ⟨_, rfl⟩, rfl⟩ := Session.appendAudit_eq_ok appended
    · exact before
    · exact ⟨before.2, before.2⟩

theorem dispatchHosts_all {hosts : List HostId} (all : session.All Holds)
    (others : ∀ hostId, ∀ row ∈ (draws.host hostId).racing, Holds row)
    (issued : ∀ row : Command, row.hostId ∈ hosts → Holds row)
    (returned : dispatchHosts c draws order key taskRunId session cache hosts =
      .ok (next, after)) : next.All Holds := by
  induction hosts generalizing session cache with
  | nil =>
    cases returned
    exact all
  | cons hostId rest ih =>
    obtain ⟨⟨middle, _⟩, first, later⟩ := bind_eq_ok.mp returned
    refine ih (dispatchHost_all all (others hostId) (fun row same => ?_) first)
      (fun row member => issued row (List.mem_cons_of_mem _ member)) later
    exact issued row (same ▸ List.mem_cons_self)

/-- The row was there, is one of another transaction, or is for a resolved host on which the
full decision allows the action. -/
def Accounted (draws : Draws) (highRisk : String → Bool) (grants : Rbac.Grants) (tables : Tables)
    (call : Call) (row : Command) : Prop :=
  row ∈ tables.commands ∨ (∃ hostId, row ∈ (draws.host hostId).racing) ∨
    ∃ payloadKind hosts, getPayloadKind call.payload = .ok payloadKind ∧
      resolveTargets tables.fleet call.targets = .ok hosts ∧ row.hostId ∈ hosts ∧
      Allowed highRisk grants tables.fleet call.principal (actionName payloadKind) row.hostId

theorem dispatched_rows_accounted (c : Collaborators) {highRisk : String → Bool}
    {grants : Rbac.Grants} {tables : Tables} {call : Call} {result : DispatchResult}
    (returned : dispatch { c with authorize := provider highRisk grants tables.fleet } draws
      (Session.begin tables) cache call = .ok (result, next, after)) :
    ∀ row ∈ next.tables.commands, Accounted draws highRisk grants tables call row := by
  obtain ⟨plan, planned, _⟩ := bind_eq_ok.mp returned
  have facts := planned_of_planOf planned
  obtain ⟨hosts, resolved, candidates⟩ := facts.candidates
  rcases dispatch_cases planned returned with
    ⟨_, _, _, _, _, _, commands, _⟩ | ⟨_, _, _, cleared, opened, looped⟩
  · intro row member
    exact .inl (commands ▸ member)
  · have issued (row : Command) (member : row.hostId ∈ plan.candidates) :
        Accounted draws highRisk grants tables call row := by
      obtain ⟨inside, allowed⟩ := List.mem_filter.mp (candidates ▸ member)
      exact .inr (.inr ⟨_, hosts, facts.kind, resolved, inside,
        allowed_of_provider (of_decide_eq_true allowed)⟩)
    have back : cleared.committed = tables := opened.committed
    have start : cleared.All (Accounted draws highRisk grants tables call) :=
      ⟨fun row member => .inl (opened.commands ▸ member), fun row member => .inl (back ▸ member)⟩
    have others (hostId : HostId) (row : Command) (member : row ∈ (draws.host hostId).racing) :
        Accounted draws highRisk grants tables call row :=
      .inr (.inl ⟨hostId, member⟩)
    rcases looped with ⟨_, _, looped⟩ | ⟨_, _, _, _, _, looped⟩
    · exact (dispatchHosts_all start others issued looped).1
    · exact (dispatchHosts_all (show Session.All (cleared.addRun _) _ from start) others issued
        looped).1

end Custody

def nestedGroups : Fleet := ⟨[⟨"h1", none⟩], [⟨1, none⟩, ⟨2, some 1⟩], [⟨2, "h1"⟩]⟩

def operator (scope : Rbac.Scope) : Rbac.Grants where
  bindings := [⟨"b-1", .user, "u-1", "role-1", scope⟩]
  roles := [⟨"role-1", "operator", ["host:reboot"]⟩]

def operatorReboot : Call :=
  { reboot ["h1"] none with principal := ⟨some "u-1", none, []⟩ }

theorem operatorReboot_planned (scope : Rbac.Scope) (candidates : List HostId)
    (placed : (planOf { openDispatcher with
      authorize := provider (fun _ => false) (operator scope) nestedGroups } quietDraws
        nestedGroups operatorReboot).map (fun plan => (plan.order.payloadKind, plan.candidates)) =
      .ok ("reboot", candidates)) :
    ∃ plan, planOf { openDispatcher with
        authorize := provider (fun _ => false) (operator scope) nestedGroups } quietDraws
          nestedGroups operatorReboot = .ok plan ∧
      plan.order.payloadKind = "reboot" ∧ plan.candidates = candidates := by
  obtain ⟨plan, planned, same⟩ := map_eq_ok.mp placed
  exact ⟨plan, planned, Prod.mk.inj same⟩

theorem host_operator_agrees : ∃ plan,
    planOf { openDispatcher with
        authorize := provider (fun _ => false) (operator (.hostList ["h1"])) nestedGroups }
      quietDraws nestedGroups operatorReboot = .ok plan ∧
      ∀ hostId, hostId ∈ plan.candidates ↔ hostId ∈ ["h1"] ∧
        Allowed (fun _ => false) (operator (.hostList ["h1"])) nestedGroups
          operatorReboot.principal (actionName plan.order.payloadKind) hostId := by
  obtain ⟨plan, planned, -, -⟩ :=
    operatorReboot_planned (.hostList ["h1"]) ["h1"] (by decide)
  have resolved : resolveTargets nestedGroups operatorReboot.targets = .ok ["h1"] := by decide
  refine ⟨plan, planned, (candidates_allowed_iff openDispatcher quietDraws (fun _ => false) _ _
    operatorReboot resolved planned).mpr ?_⟩
  have direct : ∀ row ∈ (operator (.hostList ["h1"])).rows operatorReboot.principal,
      ¬ ByMembership row.1.scope := by
    decide
  intro hostId _ hierarchy _ row member _ membership
  exact absurd membership (direct row member)

theorem group_operator_denied : ∃ plan,
    planOf { openDispatcher with
        authorize := provider (fun _ => false) (operator (.group (some (uuidText 1))))
          nestedGroups } quietDraws nestedGroups operatorReboot = .ok plan ∧
      resolveTargets nestedGroups operatorReboot.targets = .ok ["h1"] ∧
      Allowed (fun _ => false) (operator (.group (some (uuidText 1)))) nestedGroups
        operatorReboot.principal (actionName plan.order.payloadKind) "h1" ∧
      "h1" ∉ plan.candidates := by
  obtain ⟨plan, planned, kind, candidates⟩ :=
    operatorReboot_planned (.group (some (uuidText 1))) [] (by decide)
  refine ⟨plan, planned, by decide, ?_, by simp [candidates]⟩
  rw [kind]
  decide

def nestedTables : Tables := { twoHosts with fleet := nestedGroups }

def operatorDispatcher : Collaborators :=
  { openDispatcher with authorize := provider (fun _ => false) (operator .global) nestedGroups }

theorem operator_reboot_accounted : ∃ result next after,
    dispatch operatorDispatcher quietDraws (Session.begin nestedTables) .empty operatorReboot =
      .ok (result, next, after) ∧ result.dispatched = ["h1"] ∧
    ∀ row ∈ next.tables.commands,
      Accounted quietDraws (fun _ => false) (operator .global) nestedTables operatorReboot row := by
  have returns : (dispatch operatorDispatcher quietDraws (Session.begin nestedTables) .empty
      operatorReboot).map (fun returned => returned.1.dispatched) = .ok ["h1"] := by decide
  obtain ⟨⟨result, next, after⟩, returned, dispatched⟩ := map_eq_ok.mp returns
  exact ⟨result, next, after, returned, dispatched,
    dispatched_rows_accounted openDispatcher returned⟩

end HlHelper.Dispatch
