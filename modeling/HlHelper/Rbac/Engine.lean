import HlHelper.Dispatch.Targets

/-! `BuiltinEngine.is_authorized`: the bindings of a principal, their roles, and whether a
scope covers a resource. -/

namespace HlHelper.Rbac

open Dispatch (Group Principal Uuid truthy uuidText)

structure Resource where
  id : Option String
  groupIds : List String
  tags : List (String × String)
  ownerUserId : Option String
  deriving DecidableEq, Repr

/-- The kinds of scope with the keys of their values, any of which may be missing. -/
inductive Scope where
  | global
  | group (groupId : Option String)
  | tag (key value : Option String)
  | hostList (hostIds : List String)
  | self (principalId : Option String)
  deriving DecidableEq, Repr

def Scope.covers (scope : Scope) (resource : Resource) (descendantsOf : String → List String) :
    Bool :=
  match scope with
  | .global => true
  | .group (some target) => resource.groupIds.any (· ∈ descendantsOf target)
  | .group none => false
  | .tag (some key) (some value) => (key, value) ∈ resource.tags
  | .tag _ _ => false
  | .hostList hostIds => (truthy resource.id).any (· ∈ hostIds)
  | .self principalId => resource.ownerUserId = principalId ∧ principalId ≠ none

inductive PrincipalType where
  | user | userGroup | serviceAccount
  deriving DecidableEq, Repr

structure Binding where
  id : String
  principalType : PrincipalType
  principalId : String
  roleId : String
  scope : Scope
  deriving DecidableEq, Repr

structure Role where
  id : String
  name : String
  permissions : List String
  deriving DecidableEq, Repr

structure Grants where
  bindings : List Binding
  roles : List Role
  deriving Repr

structure AuthContext where
  mfaSatisfied : Bool
  enforceMfa : Bool
  deriving DecidableEq, Repr

def AuthContext.empty : AuthContext := ⟨false, false⟩

structure Decision where
  allow : Bool
  reason : Option String
  bindingId : Option String
  deriving DecidableEq, Repr

/-- `_principal_filters`: the identities under which a principal may be bound. -/
def principalFilters (principal : Principal) : List (PrincipalType × String) :=
  (truthy principal.userId).toList.map (fun id => (.user, id)) ++
    (truthy principal.serviceAccountId).toList.map (fun id => (.serviceAccount, id)) ++
    principal.userGroupIds.map (fun id => (.userGroup, id))

/-- The groups below one, itself the first. There are no more levels than groups; deeper
in, the recursion goes round in a cycle and raises. -/
def descendants (groups : List Group) : Nat → Uuid → Option (List Uuid)
  | 0, _ => none
  | fuel + 1, id =>
    ((groups.filter (fun group => group.parentId = some id)).mapM
      (fun child => descendants groups fuel child.id)).map (fun below => id :: below.flatten)

/-- `_build_group_hierarchy`: the groups below each group. -/
def buildGroupHierarchy (groups : List Group) : Option (List (String × List String)) :=
  groups.mapM fun group =>
    (descendants groups (groups.length + 1) group.id).map fun ids =>
      (uuidText group.id, ids.map uuidText)

def descendantsOf (hierarchy : List (String × List String)) (groupId : String) : List String :=
  (hierarchy.lookup groupId).getD [groupId]

def Role.permits (role : Role) (action : String) : Prop :=
  action ∈ role.permissions ∨ "*" ∈ role.permissions

instance (role : Role) (action : String) : Decidable (role.permits action) :=
  inferInstanceAs (Decidable (_ ∨ _))

def Grants.rows (grants : Grants) (principal : Principal) : List (Binding × Role) :=
  (grants.bindings.filter fun binding =>
    (binding.principalType, binding.principalId) ∈ principalFilters principal).flatMap
      fun binding =>
        (grants.roles.filter (fun role => role.id = binding.roleId)).map
          (fun role => (binding, role))

/-- `is_authorized`, which raises where the groups go round in a cycle. `highRisk` is the
catalogue of actions. -/
def isAuthorized (highRisk : String → Bool) (grants : Grants) (groups : List Group)
    (principal : Principal) (action : String) (resource : Resource) (ctx : AuthContext) :
    Option Decision :=
  if principalFilters principal = [] then some ⟨false, some "no_principal_identity", none⟩
  else
    (buildGroupHierarchy groups).map fun hierarchy =>
      if ctx.enforceMfa ∧ ¬ ctx.mfaSatisfied ∧ highRisk action then
        ⟨false, some "mfa_required", none⟩
      else
        match (grants.rows principal).find? (fun (binding, role) =>
            role.permits action ∧ binding.scope.covers resource (descendantsOf hierarchy)) with
        | some (binding, role) => ⟨true, some ("role:" ++ role.name), some binding.id⟩
        | none => ⟨false, some "no_matching_binding", none⟩

section Allow

variable {highRisk : String → Bool} {grants : Grants} {groups : List Group}
  {principal : Principal} {action : String} {resource : Resource}

/-- A binding of the principal grants the action on the resource. -/
def Granted (grants : Grants) (principal : Principal) (action : String) (resource : Resource)
    (hierarchy : List (String × List String)) : Prop :=
  ∃ row ∈ grants.rows principal, row.2.permits action ∧
    row.1.scope.covers resource (descendantsOf hierarchy) = true

theorem rows_of_no_filters (anonymous : principalFilters principal = []) :
    grants.rows principal = [] := by
  simp [Grants.rows, anonymous]

theorem isAuthorized_allow_of {ctx : AuthContext}
    (relaxed : ¬ (ctx.enforceMfa = true ∧ ¬ ctx.mfaSatisfied = true ∧ highRisk action = true)) :
    (isAuthorized highRisk grants groups principal action resource ctx).map Decision.allow =
        some true ↔
      ∃ hierarchy, buildGroupHierarchy groups = some hierarchy ∧
        Granted grants principal action resource hierarchy := by
  unfold isAuthorized
  split
  · next anonymous => simp [Granted, rows_of_no_filters anonymous]
  · cases built : buildGroupHierarchy groups with
    | none => simp
    | some hierarchy =>
      simp only [Option.map_some, Option.some.injEq, exists_eq_left']
      cases found : (grants.rows principal).find? (fun (binding, role) =>
          role.permits action ∧ binding.scope.covers resource (descendantsOf hierarchy)) with
      | some row =>
        have granted := List.find?_some found
        simp only [decide_eq_true_eq] at granted
        exact ⟨fun _ => ⟨row, List.mem_of_find?_eq_some found, granted⟩, fun _ => rfl⟩
      | none =>
        refine ⟨fun denied => absurd denied Bool.false_ne_true, ?_⟩
        rintro ⟨row, member, granted⟩
        have fails := List.find?_eq_none.mp found row member
        exact absurd (decide_eq_true granted) fails

theorem isAuthorized_allow :
    (isAuthorized highRisk grants groups principal action resource .empty).map Decision.allow =
        some true ↔
      ∃ hierarchy, buildGroupHierarchy groups = some hierarchy ∧
        Granted grants principal action resource hierarchy :=
  isAuthorized_allow_of (by simp [AuthContext.empty])

end Allow

end HlHelper.Rbac
