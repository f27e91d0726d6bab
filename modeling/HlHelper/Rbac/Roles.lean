import HlHelper.Library.Runs
import HlHelper.Rbac.StepUp

/-! The roles API: requests that interleave at their statements, among any changes of bindings,
and what the engine grants behind them. -/

namespace HlHelper.Rbac.Roles

open HlHelper.Library
open Dispatch (Group Principal)

structure RoleRow extends Role where
  description : Option String
  builtIn : Bool

inductive Request where
  | create (fresh name : String) (description : Option String) (permissions : List String)
  | update (roleId : String) (description : Option (Option String))
      (permissions : Option (List String))
  | delete (roleId : String)

/-- Of a request that commits, what it writes: of an update, the columns that differ from the row
as it was loaded. -/
inductive Phase where
  | selecting
  | counting
  | committing (write : Request)
  | returned (status : Nat)
  | failed (status : Nat) (detail : String)

structure Server where
  roles : List RoleRow
  bindings : List Binding
  calls : List (Request × Phase)

/-- The tables as `is_authorized` reads them. -/
def Server.grants (s : Server) : Grants := ⟨s.bindings, s.roles.map RoleRow.toRole⟩

def names : List String := catalog.map Permission.name

def validatePermissions (permissions : List String) : Option String :=
  match permissions.filter (· ∉ names) with
  | [] => none
  | invalid =>
    some ("Invalid permissions: " ++ ", ".intercalate (invalid.mergeSort (fun a b => a ≤ b)))

def begins : Request → Phase
  | .create fresh name description permissions =>
    match validatePermissions permissions with
    | some detail => .failed 422 detail
    | none => .committing (.create fresh name description permissions)
  | _ => .selecting

/-- The row that a request loads, which it refuses to change if it is built in. -/
def ifCustom (roles : List RoleRow) (roleId verb : String) (next : RoleRow → Phase) : Phase :=
  match findKey (fun row => row.id) roles roleId with
  | none => .failed 404 ("Role " ++ roleId ++ " not found")
  | some row =>
    if row.builtIn then .failed 403 ("Cannot " ++ verb ++ " built-in roles") else next row

def select (roles : List RoleRow) : Request → Phase
  | .create .. => .selecting
  | .update roleId description permissions =>
    ifCustom roles roleId "modify" fun loaded =>
      match permissions.bind validatePermissions with
      | some detail => .failed 422 detail
      | none => .committing (.update roleId (description.filter (· ≠ loaded.description))
          (permissions.filter (· ≠ loaded.permissions)))
  | .delete roleId => ifCustom roles roleId "delete" fun _ => .counting

def count (bindings : List Binding) : Request → Phase
  | .delete roleId =>
    match bindings.countP (·.roleId = roleId) with
    | 0 => .committing (.delete roleId)
    | n => .failed 409 ("Cannot delete role with " ++ toString n ++ " active bindings")
  | _ => .counting

def RoleRow.write (roleId : String) (description : Option (Option String))
    (permissions : Option (List String)) (row : RoleRow) : RoleRow :=
  if row.id = roleId then
    { row with
      permissions := permissions.getD row.permissions
      description := description.getD row.description }
  else row

def commit (roles : List RoleRow) : Request → List RoleRow × Phase
  | .create fresh name description permissions =>
    if roles.any (fun row => row.id = fresh ∨ row.name = name) then
      (roles, .failed 409 "role_name_conflict")
    else (roles ++ [⟨⟨fresh, name, permissions⟩, description, false⟩], .returned 201)
  | .update roleId description permissions =>
    -- where the row is gone, the flush or the refresh raises
    if roles.any (·.id = roleId) then
      (roles.map (RoleRow.write roleId description permissions), .returned 200)
    else (roles, .failed 500 "Internal Server Error")
  | .delete roleId => (roles.filter (·.id ≠ roleId), .returned 204)

inductive Step where
  | start (request : Request)
  | advance (index : Nat)
  /-- Other requests change the bindings. -/
  | rebind (bindings : List Binding)

def step (s : Server) : Step → Option Server
  | .start request => some { s with calls := s.calls ++ [(request, begins request)] }
  | .rebind bindings => some { s with bindings := bindings }
  | .advance i =>
    s.calls[i]?.bind fun (request, phase) =>
      let moved := fun next => s.calls.set i (request, next)
      match phase with
      | .selecting => some { s with calls := moved (select s.roles request) }
      | .counting => some { s with calls := moved (count s.bindings request) }
      | .committing write =>
        let (roles, next) := commit s.roles write
        some { s with roles := roles, calls := moved next }
      | _ => none

def Listed (permissions : List String) : Prop := ∀ p ∈ permissions, p ∈ names

section Invariant

variable {start roles : List RoleRow} {s t : Server}

def Custom (start : List RoleRow) (roleId : String) : Prop :=
  ∀ row ∈ start, row.builtIn = true → row.id ≠ roleId

def Harmless (start : List RoleRow) : Request → Prop
  | .create _ _ _ permissions => Listed permissions
  | .update roleId _ permissions => Custom start roleId ∧ ∀ new ∈ permissions, Listed new
  | .delete roleId => Custom start roleId

/-- What a request under way may still write is harmless. -/
def Pending (start : List RoleRow) : Request × Phase → Prop
  | (_, .committing write) => Harmless start write
  | (.delete roleId, .counting) => Custom start roleId
  | _ => True

/-- The permissions are of the catalogue, or those that the same custom role had at the start. -/
def Accounted (start : List RoleRow) (row : RoleRow) : Prop :=
  Listed row.permissions ∨ ∃ first ∈ start, first.builtIn = false ∧ first.id = row.id ∧
    first.permissions = row.permissions

structure Kept (start roles : List RoleRow) : Prop where
  builtIns : roles.filter RoleRow.builtIn = start.filter RoleRow.builtIn
  accounted : ∀ row ∈ roles, row.builtIn = false → Accounted start row
  unique : (roles.map (fun row => row.id)).Nodup

theorem Kept.mem_builtIn (kept : Kept start roles) {row : RoleRow} (builtIn : row.builtIn = true) :
    row ∈ roles ↔ row ∈ start := by
  have same := congrArg (row ∈ ·) kept.builtIns
  simpa [List.mem_filter, builtIn] using same

section Write

variable {roleId : String} {description : Option (Option String)}
  {permissions : Option (List String)}

theorem write_id (row : RoleRow) : (row.write roleId description permissions).id = row.id := by
  unfold RoleRow.write
  split <;> rfl

theorem builtIn_write :
    RoleRow.builtIn ∘ RoleRow.write roleId description permissions = RoleRow.builtIn := by
  funext row
  rw [Function.comp, RoleRow.write]
  split <;> rfl

end Write

theorem listed_of_valid {permissions : List String}
    (valid : validatePermissions permissions = none) : Listed permissions := by
  unfold validatePermissions at valid
  split at valid
  · next nothing => simpa [Listed, List.filter_eq_nil_iff] using nothing
  · cases valid

theorem pending_ifCustom (kept : Kept start roles) {request : Request} {roleId verb : String}
    {next : RoleRow → Phase}
    (goes : Custom start roleId → ∀ row, Pending start (request, next row)) :
    Pending start (request, ifCustom roles roleId verb next) := by
  unfold ifCustom
  split
  · trivial
  · next row found =>
    obtain ⟨inside, same⟩ := findKey_some found
    split
    · trivial
    · next custom =>
      refine goes (fun other old builtIn twin => custom ?_) row
      have there := (kept.mem_builtIn builtIn).mpr old
      rwa [← key_injective kept.unique there inside (twin.trans same.symm)]

theorem pending_begins (request : Request) : Pending start (request, begins request) := by
  unfold begins
  split
  · split
    · trivial
    · next valid => exact listed_of_valid valid
  · cases request <;> trivial

theorem pending_select (kept : Kept start roles) (request : Request) :
    Pending start (request, select roles request) := by
  cases request with
  | create => trivial
  | update roleId description permissions =>
    refine pending_ifCustom kept fun custom row => ?_
    split
    · trivial
    · next valid =>
      refine ⟨custom, fun new changed => ?_⟩
      obtain ⟨given, _⟩ := Option.filter_eq_some_iff.mp changed
      exact listed_of_valid (Option.bind_eq_none_iff.mp valid new given)
  | delete roleId => exact pending_ifCustom kept fun custom _ => custom

theorem pending_count {request : Request} (pending : Pending start (request, .counting))
    (bindings : List Binding) : Pending start (request, count bindings request) := by
  cases request with
  | delete roleId =>
    simp only [count]
    split
    · exact pending
    · trivial
  | _ => trivial

theorem pending_commit {request : Request} (roles : List RoleRow) (write : Request) :
    Pending start (request, (commit roles write).2) := by
  cases write with
  | delete => trivial
  | _ =>
    simp only [commit]
    split <;> trivial

theorem Kept.commit (kept : Kept start roles) {write : Request} (harmless : Harmless start write) :
    Kept start (commit roles write).1 := by
  have apart {roleId : String} (custom : Custom start roleId) {row : RoleRow} (there : row ∈ roles)
      (builtIn : row.builtIn = true) : row.id ≠ roleId :=
    custom row ((kept.mem_builtIn builtIn).mp there) builtIn
  cases write with
  | create fresh name description permissions =>
    simp only [Roles.commit]
    split
    · exact kept
    · next free =>
      refine ⟨by simp [kept.builtIns], fun row member custom => ?_, ?_⟩
      · rcases List.mem_append.mp member with old | new
        · exact kept.accounted row old custom
        · rw [List.mem_singleton.mp new]
          exact .inl harmless
      · refine @unique_append _ _ _ _ (some _) kept.unique fun row there => ?_
        cases there
        rintro taken
        obtain ⟨old, inside, same⟩ := List.mem_map.mp taken
        exact free (List.any_eq_true.mpr ⟨old, inside, by simp [same]⟩)
  | update roleId description permissions =>
    simp only [Roles.commit]
    split
    · refine ⟨?_, fun row member custom => ?_, unique_map kept.unique write_id⟩
      · rw [← kept.builtIns, List.filter_map, builtIn_write]
        refine (List.map_congr_left fun row member => if_neg ?_).trans (List.map_id _)
        obtain ⟨there, builtIn⟩ := List.mem_filter.mp member
        exact apart harmless.1 there builtIn
      · obtain ⟨old, inside, rfl⟩ := List.mem_map.mp member
        have before := kept.accounted old inside ((congrFun builtIn_write old).symm.trans custom)
        unfold RoleRow.write
        split
        · cases changed : permissions with
          | none => exact before
          | some new => exact .inl (harmless.2 new changed)
        · exact before
    · exact kept
  | delete roleId =>
    refine ⟨?_, fun row member => kept.accounted row (List.mem_of_mem_filter member),
      kept.unique.sublist (List.filter_sublist.map _)⟩
    rw [Roles.commit, List.filter_filter, ← kept.builtIns]
    refine List.filter_congr fun row there => ?_
    cases builtIn : row.builtIn with
    | false => rfl
    | true => simpa using apart harmless there builtIn

def Sound (start : List RoleRow) (s : Server) : Prop :=
  Kept start s.roles ∧ ∀ call ∈ s.calls, Pending start call

theorem Sound.step (sound : Sound start s) {event : Step} (stepped : step s event = some t) :
    Sound start t := by
  obtain ⟨kept, calls⟩ := sound
  cases event with
  | start request =>
    cases stepped
    exact ⟨kept, List.forall_mem_append.mpr
      ⟨calls, List.forall_mem_singleton.mpr (pending_begins request)⟩⟩
  | rebind bindings =>
    cases stepped
    exact ⟨kept, calls⟩
  | advance i =>
    obtain ⟨⟨request, phase⟩, found, moved⟩ := Option.bind_eq_some_iff.mp stepped
    have pending := calls _ (List.mem_of_getElem? found)
    have set {next : Phase} (fine : Pending start (request, next)) :
        ∀ call ∈ s.calls.set i (request, next), Pending start call := by
      intro call member
      rcases List.mem_or_eq_of_mem_set member with old | rfl
      · exact calls call old
      · exact fine
    cases phase with
    | selecting =>
      cases moved
      exact ⟨kept, set (pending_select kept request)⟩
    | counting =>
      cases moved
      exact ⟨kept, set (pending_count pending s.bindings)⟩
    | committing write =>
      cases moved
      exact ⟨kept.commit pending, set (pending_commit s.roles write)⟩
    | returned => cases moved
    | failed => cases moved

theorem Kept.refl (unique : (start.map (fun row => row.id)).Nodup) : Kept start start :=
  ⟨rfl, fun row member custom => .inr ⟨row, member, custom, rfl, rfl⟩, unique⟩

theorem sound_of_run {bindings : List Binding} {events : List Step}
    (unique : (start.map (fun row => row.id)).Nodup)
    (reached : run step ⟨start, bindings, []⟩ events = some s) : Sound start s :=
  run_preserves (fun _ _ _ sound stepped => sound.step stepped)
    ⟨.refl unique, List.forall_mem_nil _⟩ reached

/-- Whatever the MFA policy adds, what is allowed is granted. -/
theorem granted_of_allow {highRisk : String → Bool} {grants : Grants} {groups : List Group}
    {principal : Principal} {action : String} {resource : Resource} {ctx : AuthContext}
    (allowed : (isAuthorized highRisk grants groups principal action resource ctx).map
      Decision.allow = some true) :
    ∃ hierarchy, Granted grants principal action resource hierarchy := by
  by_cases refused : ctx.enforceMfa = true ∧ ¬ ctx.mfaSatisfied = true ∧ highRisk action = true
  · unfold isAuthorized at allowed
    split at allowed
    · cases allowed
    · simp at allowed
  · obtain ⟨hierarchy, _, granted⟩ := (isAuthorized_allow_of refused).mp allowed
    exact ⟨hierarchy, granted⟩

end Invariant

section Results

variable {roles : List RoleRow} {bindings : List Binding} {events : List Step} {s : Server}

theorem roles_kept (unique : (roles.map (fun row => row.id)).Nodup)
    (reached : run step ⟨roles, bindings, []⟩ events = some s) : Kept roles s.roles :=
  (sound_of_run unique reached).1

theorem allowed_action_known (unique : (roles.map (fun row => row.id)).Nodup)
    (reached : run step ⟨roles, bindings, []⟩ events = some s) {highRisk : String → Bool}
    {groups : List Group} {principal : Principal} {action : String} {resource : Resource}
    {ctx : AuthContext}
    (allowed : (isAuthorized highRisk s.grants groups principal action resource ctx).map
      Decision.allow = some true) :
    action ∈ names ∨ ∃ row ∈ roles, row.permits action := by
  have kept := (sound_of_run unique reached).1
  obtain ⟨_, ⟨binding, role⟩, member, permits, _⟩ := granted_of_allow allowed
  obtain ⟨_, _, paired⟩ := List.mem_flatMap.mp member
  obtain ⟨_, there, same⟩ := List.mem_map.mp paired
  cases same
  obtain ⟨row, inside, rfl⟩ := List.mem_map.mp (List.mem_of_mem_filter there)
  cases builtIn : row.builtIn with
  | true => exact .inr ⟨row, (kept.mem_builtIn builtIn).mp inside, permits⟩
  | false =>
    rcases kept.accounted row inside builtIn with known | ⟨first, there, _, _, same⟩
    · rcases permits with named | anything
      · exact .inl (known action named)
      · exact absurd (known "*" anything) (by decide)
    · exact .inr ⟨first, there, by simpa only [Role.permits, same] using permits⟩

def ownerOnly : List RoleRow := [⟨⟨"r0", "owner", ["*"]⟩, none, true⟩]

/-- Behind a refused update of a built-in role, a custom one is made and bound. -/
def readers : List Step :=
  [.start (.update "r0" none (some [])), .start (.create "r1" "readers" none ["host:read"]),
    .advance 0, .advance 1, .rebind [⟨"b1", .user, "u1", "r1", .global⟩]]

theorem roles_kept_with_readers : ∃ s, run step ⟨ownerOnly, [], []⟩ readers = some s ∧
    Kept ownerOnly s.roles :=
  ⟨_, rfl, @roles_kept _ [] readers _ (by decide) rfl⟩

theorem readers_read : ∃ s, run step ⟨ownerOnly, [], []⟩ readers = some s ∧
    ("host:read" ∈ names ∨ ∃ row ∈ ownerOnly, row.permits "host:read") :=
  ⟨_, rfl, @allowed_action_known _ [] readers _ (by decide) rfl
    (fun _ => false) [] ⟨some "u1", none, []⟩ _ ⟨none, [], [], none⟩ .empty (by decide)⟩

end Results

end HlHelper.Rbac.Roles
