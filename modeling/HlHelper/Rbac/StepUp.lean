import HlHelper.Library.Rows
import HlHelper.Rbac.Engine

/-! `MfaPolicy`, the catalogue of permissions and `require`, the authorisation dependency of
the HTTP API: for which actions a proof of MFA is asked. -/

namespace HlHelper.Rbac

open Dispatch (Group Principal truthy truthy_eq_some)
open HlHelper.Library

structure Permission where
  name : String
  highRisk : Bool
  deriving DecidableEq, Repr

def catalog : List Permission :=
  [⟨"host:read", false⟩, ⟨"host:write", false⟩, ⟨"host:exec", true⟩, ⟨"host:reboot", true⟩,
    ⟨"host:shutdown", true⟩, ⟨"host:enroll", false⟩, ⟨"host:revoke", true⟩,
    ⟨"host:terminal", true⟩, ⟨"host:file_transfer", false⟩, ⟨"group:read", false⟩,
    ⟨"group:write", false⟩, ⟨"group:assign", false⟩, ⟨"task:read", false⟩,
    ⟨"task:create", false⟩, ⟨"task:cancel", false⟩, ⟨"task:approve", true⟩,
    ⟨"update:read", false⟩, ⟨"update:trigger", false⟩, ⟨"update:approve", true⟩,
    ⟨"update:policy_write", false⟩, ⟨"container:read", false⟩, ⟨"container:update", false⟩,
    ⟨"container:exec", true⟩, ⟨"container:policy_write", false⟩,
    ⟨"container:registry_write", false⟩, ⟨"secret:read", false⟩, ⟨"secret:write", true⟩,
    ⟨"secret:rotate", true⟩, ⟨"plugin:read", false⟩, ⟨"plugin:install", true⟩,
    ⟨"plugin:enable", true⟩, ⟨"plugin:manage", true⟩, ⟨"plugin:configure", false⟩,
    ⟨"plugin:invoke", false⟩, ⟨"user:read", false⟩, ⟨"user:write", false⟩,
    ⟨"user:impersonate", true⟩, ⟨"role:read", false⟩, ⟨"role:write", true⟩,
    ⟨"audit:read", false⟩, ⟨"audit:export", false⟩, ⟨"audit:verify", false⟩,
    ⟨"setting:read", false⟩, ⟨"setting:write", true⟩, ⟨"notification:read", false⟩,
    ⟨"notification:write", false⟩, ⟨"notification:test", false⟩, ⟨"webhook:read", false⟩,
    ⟨"webhook:write", false⟩, ⟨"webhook:trigger", false⟩, ⟨"power:wol", false⟩,
    ⟨"power:event_subscribe", false⟩, ⟨"session:read", false⟩, ⟨"session:terminate", true⟩,
    ⟨"session:record_view", false⟩, ⟨"integration:read", false⟩,
    ⟨"integration:write", false⟩, ⟨"events:subscribe", false⟩, ⟨"docs:read", false⟩]

/-- The last permission of a name counts; an action that is in no catalogue is not high risk. -/
def isHighRisk (perms : List Permission) (action : String) : Bool :=
  ((findKey Permission.name perms.reverse action).map Permission.highRisk).getD false

def highRiskVerbs : List String := ["secret.reveal", "host.delete", "binding.write", "user.delete"]

def highRiskPrefixes : List String := ["bootstrap."]

def defaultRecencySeconds : Int := 300

/-- `str.rpartition(":")`: what stands before and behind the last colon. -/
def rpartition (text : List Char) : List Char × List Char :=
  let behind := text.reverse.takeWhile (· ≠ ':')
  ((text.reverse.drop (behind.length + 1)).reverse, behind.reverse)

def normalizeVerb (action : String) : String :=
  if ':' ∈ action.toList then
    let (head, verb) := rpartition action.toList
    String.ofList (head.map (fun c => if c = ':' then '.' else c) ++ '.' :: verb)
  else action

def recencyRequiredSeconds (verb : String) : Option Int :=
  if verb ∈ highRiskVerbs then some defaultRecencySeconds
  else if highRiskPrefixes.any (fun start => start.toList.isPrefixOf verb.toList) then
    some defaultRecencySeconds
  else none

/-- `assert_recency`: whether it lets the verb pass. Times are microseconds. -/
def assertRecency (verb : String) (lastMfa : Option Int) (now : Int) : Bool :=
  match recencyRequiredSeconds verb, lastMfa with
  | none, _ => true
  | some _, none => false
  | some window, some proof => decide (now - proof ≤ window * 1000000)

structure User where
  id : String
  lastMfaAt : Option Int
  named : id ≠ ""
  deriving DecidableEq

/-- The tables that `require` reads. -/
structure Directory where
  users : List User
  grants : Grants
  groups : List Group

def mfaSatisfied (users : List User) (principal : Principal) (action : String) (now : Int) :
    Bool :=
  match recencyRequiredSeconds (normalizeVerb action), truthy principal.userId with
  | some _, some id =>
    assertRecency (normalizeVerb action) ((findKey User.id users id).bind User.lastMfaAt) now
  | _, _ => true

inductive Answer where
  | allowed (decision : Decision)
  | refused (status : Nat) (detail : String)
  deriving DecidableEq, Repr

/-- `require`. It fails where `is_authorized` raises. -/
def require (perms : List Permission) (directory : Directory) (principal : Option Principal)
    (action : String) (resource : Resource) (now : Int) : Option Answer :=
  match principal with
  | none => some (.refused 401 "unauthenticated")
  | some principal =>
    let ctx := ⟨mfaSatisfied directory.users principal action now, true⟩
    (isAuthorized (isHighRisk perms) directory.grants directory.groups principal action resource
      ctx).map fun decision =>
        if decision.allow then .allowed decision
        else if decision.reason = some "mfa_required" then .refused 401 "mfa_step_up_required"
        else .refused 403 ("permission_denied: action=" ++ action)

/-- The last proof of MFA is there, and no older than the policy's window. -/
def RecentProof (user : User) (now : Int) : Prop :=
  ∃ proof ∈ user.lastMfaAt, now - proof ≤ defaultRecencySeconds * 1000000

/-- The action, if high risk, is allowed to users with a recent proof alone. -/
def StepUp (perms : List Permission) (action : String) : Prop :=
  isHighRisk perms action = true → ∀ (directory : Directory) (user : User),
    findKey User.id directory.users user.id = some user →
      ∀ principal : Principal, principal.userId = some user.id → ∀ resource now decision,
        require perms directory (some principal) action resource now = some (.allowed decision) →
          RecentProof user now

theorem recencyRequiredSeconds_eq {verb : String} {window : Int}
    (required : recencyRequiredSeconds verb = some window) : window = defaultRecencySeconds := by
  unfold recencyRequiredSeconds at required
  split at required
  · exact (Option.some.inj required).symm
  · split at required
    · exact (Option.some.inj required).symm
    · cases required

theorem satisfied_of_allowed {perms : List Permission} {directory : Directory}
    {principal : Principal} {action : String} {resource : Resource} {now : Int}
    {decision : Decision} (risky : isHighRisk perms action = true)
    (allowed : require perms directory (some principal) action resource now =
      some (.allowed decision)) :
    mfaSatisfied directory.users principal action now = true := by
  obtain ⟨made, authorized, answer⟩ := Option.map_eq_some_iff.mp allowed
  have allow : made.allow = true := by
    by_contra denied
    rw [if_neg denied] at answer
    split at answer
    · cases answer
    · cases answer
  by_contra unsatisfied
  unfold isAuthorized at authorized
  split at authorized
  · cases authorized
    exact absurd allow Bool.false_ne_true
  · obtain ⟨hierarchy, _, decided⟩ := Option.map_eq_some_iff.mp authorized
    rw [if_pos ⟨rfl, unsatisfied, risky⟩] at decided
    obtain rfl := decided
    exact absurd allow Bool.false_ne_true

theorem recentProof_of_satisfied {users : List User} {user : User} {principal : Principal}
    {action : String} {now : Int} (known : findKey User.id users user.id = some user)
    (own : principal.userId = some user.id)
    (required : (recencyRequiredSeconds (normalizeVerb action)).isSome)
    (satisfied : mfaSatisfied users principal action now = true) : RecentProof user now := by
  obtain ⟨window, required⟩ := Option.isSome_iff_exists.mp required
  have someone : truthy principal.userId = some user.id := truthy_eq_some.mpr ⟨own, user.named⟩
  simp only [mfaSatisfied, assertRecency, required, someone, known, Option.bind_some] at satisfied
  cases proof : user.lastMfaAt with
  | none =>
    rw [proof] at satisfied
    exact absurd satisfied Bool.false_ne_true
  | some time =>
    rw [proof] at satisfied
    refine ⟨time, proof, ?_⟩
    rw [← recencyRequiredSeconds_eq required]
    exact of_decide_eq_true satisfied

/-- A user who has never shown a proof and is bound to a role that permits all. -/
def owner : User := ⟨"u", none, nofun⟩

def ownerDirectory : Directory where
  users := [owner]
  grants := ⟨[⟨"b", .user, "u", "r", .global⟩], [⟨"r", "owner", ["*"]⟩]⟩
  groups := []

def ownerPrincipal : Principal := ⟨some "u", none, []⟩

def anything : Resource := ⟨none, [], [], none⟩

theorem owner_allowed (perms : List Permission) {action : String}
    (unknown : recencyRequiredSeconds (normalizeVerb action) = none) (now : Int) :
    require perms ownerDirectory (some ownerPrincipal) action anything now =
      some (.allowed ⟨true, some "role:owner", some "b"⟩) := by
  have satisfied : mfaSatisfied ownerDirectory.users ownerPrincipal action now = true := by
    simp only [mfaSatisfied, unknown]
  have rows : ownerDirectory.grants.rows ownerPrincipal =
      [(⟨"b", .user, "u", "r", .global⟩, ⟨"r", "owner", ["*"]⟩)] := by decide
  have someone : principalFilters ownerPrincipal ≠ [] := by decide
  have permitted : Role.permits ⟨"r", "owner", ["*"]⟩ action := .inr List.mem_cons_self
  have hierarchy : buildGroupHierarchy ownerDirectory.groups = some [] := rfl
  simp [require, satisfied, isAuthorized, someone, rows, hierarchy, permitted, Scope.covers]

/-- Step-up holds of exactly the actions that are not high risk or whose verb the policy knows. -/
theorem stepUp_iff (perms : List Permission) (action : String) :
    StepUp perms action ↔ isHighRisk perms action = false ∨
      (recencyRequiredSeconds (normalizeVerb action)).isSome := by
  constructor
  · intro stepUp
    cases risky : isHighRisk perms action with
    | false => exact .inl rfl
    | true =>
      right
      by_contra unknown
      have unknown := Option.not_isSome_iff_eq_none.mp unknown
      obtain ⟨proof, shown, _⟩ := stepUp risky ownerDirectory owner rfl ownerPrincipal rfl
        anything 0 _ (owner_allowed perms unknown 0)
      cases shown
  · intro covered risky directory user known principal own resource now decision allowed
    have required := covered.resolve_left (by simp [risky])
    exact recentProof_of_satisfied known own required (satisfied_of_allowed risky allowed)

theorem exec_without_step_up : ¬ StepUp catalog "host:exec" := by
  intro stepUp
  have unknown : recencyRequiredSeconds (normalizeVerb "host:exec") = none := by decide
  have allowed := owner_allowed catalog unknown 0
  obtain ⟨proof, shown, _⟩ :=
    stepUp (by decide) ownerDirectory owner rfl ownerPrincipal rfl anything 0 _ allowed
  cases shown

/-- Of no high-risk action of the catalogue does the policy know the verb. -/
theorem catalog_without_windows : ∀ perm ∈ catalog, perm.highRisk = true →
    recencyRequiredSeconds (normalizeVerb perm.name) = none := by
  decide

end HlHelper.Rbac
