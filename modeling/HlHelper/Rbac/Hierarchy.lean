import HlHelper.Dispatch.Resolution
import HlHelper.Groups.Ids
import HlHelper.Library.DepthFirst
import HlHelper.Rbac.Engine

/-! The group hierarchies of `BuiltinEngine` and of the Inspector, and the subgroups that
`_expand_group` finds: in a forest they are the same. There the Inspector's effective permissions
are those that `is_authorized` grants. -/

namespace HlHelper.Rbac

open Dispatch (Group ParentLink Principal Under Uuid expandGroup mem_expandGroup uuidText)
open HlHelper.Library

def allGroups (rows : List Group) : OrderedMap String Group :=
  rows.foldl (fun all group => all.insert (uuidText group.id) group) .empty

def addChild (children : OrderedMap String (List String)) (entry : String × Group) :
    OrderedMap String (List String) :=
  match entry.2.parentId with
  | none => children
  | some parent => children.appendTo (uuidText parent) entry.1

def childrenMap (all : OrderedMap String Group) : OrderedMap String (List String) :=
  all.entries.foldl addChild .empty

def childrenOf (rows : List Group) (gid : String) : List String :=
  ((childrenMap (allGroups rows)).get? gid).getD []

/-- The function that the engine and the Inspector have each for themselves. Calls of `dfs` that
are nested deeper than `limit` raise. -/
def groupHierarchy (limit : Nat) (rows : List Group) : Option (Descendants String) :=
  visitAll (childrenOf rows) limit (allGroups rows).keys .empty

def BuiltinEngine.buildGroupHierarchy (limit : Nat) (rows : List Group) :
    Option (Descendants String) :=
  groupHierarchy limit rows

def Inspector.buildGroupHierarchy (limit : Nat) (rows : List Group) :
    Option (Descendants String) :=
  groupHierarchy limit rows

def descendantsFn (hierarchy : Descendants String) (gid : String) : List String :=
  (hierarchy.get? gid).getD [gid]

def IsUuid (id : Uuid) : Prop := (BitVec.ofNat 128 id).toNat = id

structure GroupForest where
  groups : List Group
  unique : (groups.map Group.id).Nodup
  uuids : ∀ group ∈ groups, IsUuid group.id
  parents : ∀ group ∈ groups, ∀ parent, group.parentId = some parent → IsUuid parent
  acyclic : ∀ id, ¬ Relation.TransGen (ParentLink groups) id id

theorem uuidText_inj {first second : Uuid} (left : IsUuid first) (right : IsUuid second)
    (same : uuidText first = uuidText second) : first = second := by
  have read (id : Uuid) (uuid : IsUuid id) :
      Groups.readHex (uuidText id) = some (BitVec.ofNat 128 id) := by
    have canonical := Groups.readHex_str (BitVec.ofNat 128 id)
    rwa [Groups.str, uuid] at canonical
  have shared := read second right
  rw [← same] at shared
  have bits := (read first left).symm.trans shared
  calc first
      = (BitVec.ofNat 128 first).toNat := left.symm
    _ = (BitVec.ofNat 128 second).toNat := congrArg BitVec.toNat (Option.some.inj bits)
    _ = second := right

section Children

variable {rows : List Group} {above text : String}

theorem mem_addChild {children : OrderedMap String (List String)} {entry : String × Group} :
    text ∈ ((addChild children entry).get? above).getD [] ↔
      text ∈ (children.get? above).getD [] ∨
        entry.1 = text ∧ entry.2.parentId.map uuidText = some above := by
  unfold addChild
  cases entry.2.parentId with
  | none => simp
  | some parent =>
    by_cases same : above = uuidText parent
    · simp [OrderedMap.appendTo, same, OrderedMap.get?_insert_self, eq_comm]
    · simp [OrderedMap.appendTo, OrderedMap.get?_insert_other _ same, Ne.symm same]

theorem mem_foldl_addChild (entries : List (String × Group))
    (children : OrderedMap String (List String)) :
    text ∈ ((entries.foldl addChild children).get? above).getD [] ↔
      text ∈ (children.get? above).getD [] ∨ ∃ entry ∈ entries,
        entry.1 = text ∧ entry.2.parentId.map uuidText = some above := by
  induction entries generalizing children with
  | nil => simp
  | cons entry entries ih =>
    rw [List.foldl_cons, ih, mem_addChild, or_assoc]
    simp only [List.mem_cons, exists_eq_or_imp]

end Children

namespace GroupForest

variable (forest : GroupForest) {rows : List Group} {above text : String}

include forest

theorem id_inj {first second : Group} (left : first ∈ forest.groups)
    (right : second ∈ forest.groups) (same : uuidText first.id = uuidText second.id) :
    first = second :=
  List.inj_on_of_nodup_map forest.unique left right
    (uuidText_inj (forest.uuids first left) (forest.uuids second right) same)

variable (order : rows.Perm forest.groups)
include order

theorem entries_allGroups :
    (allGroups rows).entries = rows.map fun group => (uuidText group.id, group) := by
  have different : (rows.map fun group => uuidText group.id).Nodup := by
    refine (order.map _).nodup_iff.mpr ?_
    refine List.Nodup.map_on (fun first left second right same => ?_) forest.unique.of_map
    exact forest.id_inj left right same
  exact OrderedMap.entries_foldl_insert rows _ _ .empty different

theorem mem_keys_allGroups :
    text ∈ (allGroups rows).keys ↔ ∃ group ∈ forest.groups, uuidText group.id = text := by
  rw [OrderedMap.keys, forest.entries_allGroups order, List.map_map, List.mem_map]
  simp only [order.mem_iff, Function.comp_apply]

theorem mem_childrenOf : text ∈ childrenOf rows above ↔ ∃ group ∈ forest.groups,
      uuidText group.id = text ∧ group.parentId.map uuidText = some above := by
  rw [childrenOf, childrenMap, mem_foldl_addChild, forest.entries_allGroups order]
  have nothing : text ∉ ((OrderedMap.empty : Descendants String).get? above).getD [] := nofun
  simp only [nothing, false_or, List.mem_map, exists_exists_and_eq_and, order.mem_iff]

theorem below_links (way : Below (childrenOf rows) above text) :
    ∃ top id, IsUuid top ∧ IsUuid id ∧ above = uuidText top ∧ text = uuidText id ∧
      Relation.TransGen (ParentLink forest.groups) id top := by
  induction way with
  | single listed =>
    obtain ⟨group, member, rfl, linked⟩ := (forest.mem_childrenOf order).mp listed
    obtain ⟨parent, own, rfl⟩ := Option.map_eq_some_iff.mp linked
    exact ⟨parent, group.id, forest.parents group member parent own, forest.uuids group member,
      rfl, rfl, .single ⟨group, member, rfl, own⟩⟩
  | tail _ listed ih =>
    obtain ⟨top, id, uuid_top, uuid_id, rfl, rfl, links⟩ := ih
    obtain ⟨group, member, rfl, linked⟩ := (forest.mem_childrenOf order).mp listed
    obtain ⟨parent, own, same⟩ := Option.map_eq_some_iff.mp linked
    obtain rfl := uuidText_inj (forest.parents group member parent own) uuid_id same
    exact ⟨top, group.id, uuid_top, forest.uuids group member, rfl, rfl,
      .head ⟨group, member, rfl, own⟩ links⟩

theorem reaches_iff_under {top : Uuid} (uuid : IsUuid top) :
    Reaches (childrenOf rows) (uuidText top) text ↔
      ∃ id, uuidText id = text ∧ Under forest.groups top id := by
  constructor
  · intro way
    rcases Relation.reflTransGen_iff_eq_or_transGen.mp way with rfl | strictly
    · exact ⟨top, rfl, Relation.ReflTransGen.refl⟩
    · obtain ⟨other, id, uuid_other, _, same, rfl, links⟩ := forest.below_links order strictly
      obtain rfl := uuidText_inj uuid uuid_other same
      exact ⟨id, rfl, links.to_reflTransGen⟩
  · rintro ⟨id, rfl, links⟩
    induction links using Relation.ReflTransGen.head_induction_on with
    | refl => exact Relation.ReflTransGen.refl
    | head link _ ih =>
      obtain ⟨group, member, rfl, own⟩ := link
      refine ih.tail ((forest.mem_childrenOf order).mpr ⟨group, member, rfl, ?_⟩)
      rw [own, Option.map_some]

theorem acyclic_texts : ¬ Below (childrenOf rows) text text := by
  intro cycle
  obtain ⟨top, id, uuid_top, uuid_id, left, right, links⟩ := forest.below_links order cycle
  obtain rfl := uuidText_inj uuid_top uuid_id (left.symm.trans right)
  exact forest.acyclic top links

/-- With one call more than there are groups, `dfs` never runs out of calls. -/
theorem groupHierarchy_total {limit : Nat} (deep : forest.groups.length < limit) :
    ∃ hierarchy, groupHierarchy limit rows = some hierarchy := by
  have known : ∀ gid, ∀ child ∈ childrenOf rows gid, child ∈ (allGroups rows).keys := by
    intro gid child listed
    obtain ⟨group, member, named, _⟩ := (forest.mem_childrenOf order).mp listed
    exact (forest.mem_keys_allGroups order).mpr ⟨group, member, named⟩
  have falls := strictlyBelow_falls (fun _ => forest.acyclic_texts order) known
  refine Option.isSome_iff_exists.mp (visitAll_total falls (fun gid _ => ?_) .empty)
  have few : (allGroups rows).keys.length = forest.groups.length := by
    rw [OrderedMap.keys, forest.entries_allGroups order, List.length_map, List.length_map,
      order.length_eq]
  have bound := @strictlyBelow_le _ (childrenOf rows) (allGroups rows).keys gid
  omega

theorem groupHierarchy_spec {limit : Nat} {hierarchy : Descendants String}
    (built : groupHierarchy limit rows = some hierarchy) :
    (∀ gid, gid ∈ hierarchy.keys ↔ ∃ group ∈ forest.groups, uuidText group.id = gid) ∧
      ∀ top below, IsUuid top → hierarchy.get? (uuidText top) = some below →
        ∀ text, text ∈ below ↔ ∃ id, uuidText id = text ∧ Under forest.groups top id := by
  have explored := visitAll_explored sound_empty built
  refine ⟨fun gid => ⟨fun member => ?_, fun known => ?_⟩, fun top below uuid found text => ?_⟩
  · rcases explored.within gid member with nothing | ⟨root, listed, way⟩
    · cases nothing
    · rcases Relation.reflTransGen_iff_eq_or_transGen.mp way with rfl | strictly
      · exact (forest.mem_keys_allGroups order).mp listed
      · obtain ⟨middle, _, listed⟩ := Relation.TransGen.tail'_iff.mp strictly
        obtain ⟨group, member, named, _⟩ := (forest.mem_childrenOf order).mp listed
        exact ⟨group, member, named⟩
  · exact explored.done gid ((forest.mem_keys_allGroups order).mpr known)
  · rw [explored.sound _ _ found, forest.reaches_iff_under order uuid]

end GroupForest

section Plain

variable {rows : List Group} {id top : Uuid}

def childIds (rows : List Group) (id : Uuid) : List Uuid :=
  (rows.filter (fun group => group.parentId = some id)).map Group.id

theorem mem_childIds : id ∈ childIds rows top ↔ ParentLink rows id top := by
  simp only [childIds, ParentLink, List.mem_map, List.mem_filter, decide_eq_true_eq]
  exact exists_congr fun group => and_right_comm.trans and_assoc

theorem reaches_childIds : Reaches (childIds rows) top id ↔ Under rows top id := by
  rw [Reaches, Under, ← Relation.reflTransGen_swap]
  simp only [mem_childIds]

theorem below_childIds : Below (childIds rows) top id ↔
    Relation.TransGen (ParentLink rows) id top := by
  rw [Below, ← Relation.transGen_swap]
  simp only [mem_childIds]

theorem descendants_under (acyclic : ∀ id, ¬ Relation.TransGen (ParentLink rows) id id)
    {fuel : Nat} (deep : strictlyBelow (childIds rows) (rows.map Group.id) top < fuel) :
    ∃ below, descendants rows fuel top = some below ∧ ∀ id, id ∈ below ↔ Under rows top id := by
  have known : ∀ id, ∀ child ∈ childIds rows id, child ∈ rows.map Group.id :=
    fun id child listed => List.map_subset _ (List.filter_subset_self _) listed
  have falls := strictlyBelow_falls (fun id cycle => acyclic id (below_childIds.mp cycle)) known
  induction fuel generalizing top with
  | zero => exact absurd deep (Nat.not_lt_zero _)
  | succ fuel ih =>
    have each : ∀ child ∈ rows.filter (fun group => group.parentId = some top),
        ∃ below, descendants rows fuel child.id = some below ∧
          ∀ id, id ∈ below ↔ Under rows child.id id := by
      intro child listed
      have lower := falls top child.id (List.mem_map_of_mem listed)
      exact ih (by omega)
    obtain ⟨results, mapped, related⟩ := mapM_some_related each
    refine ⟨top :: results.flatten, by rw [descendants, mapped, Option.map_some], fun id => ?_⟩
    rw [List.mem_cons, mem_flatten_of_related related, ← reaches_childIds, reaches_iff]
    simp only [childIds, List.mem_map, exists_exists_and_eq_and, reaches_childIds]

end Plain

def IsBelow (groups : List Group) (top : Uuid) (texts : List String) : Prop :=
  ∀ text, text ∈ texts ↔ ∃ id, uuidText id = text ∧ Under groups top id

namespace GroupForest

variable (forest : GroupForest) {rows : List Group} {gid : String} {group : Group}

include forest

section

variable (order : rows.Perm forest.groups)
include order

theorem links_eq : ParentLink rows = ParentLink forest.groups := by
  funext child parent
  simp only [ParentLink, order.mem_iff]

theorem descendantsFn_below {limit : Nat} {hierarchy : Descendants String}
    (built : groupHierarchy limit rows = some hierarchy) (member : group ∈ forest.groups) :
    IsBelow forest.groups group.id (descendantsFn hierarchy (uuidText group.id)) := by
  obtain ⟨keys, entries⟩ := forest.groupHierarchy_spec order built
  have inside := (keys (uuidText group.id)).mpr ⟨group, member, rfl⟩
  cases found : hierarchy.get? (uuidText group.id) with
  | none => exact absurd inside (OrderedMap.get?_eq_none_iff.mp found)
  | some below =>
    rw [descendantsFn, found, Option.getD_some]
    exact entries group.id below (forest.uuids group member) found

theorem descendantsFn_other {limit : Nat} {hierarchy : Descendants String}
    (built : groupHierarchy limit rows = some hierarchy)
    (unknown : ¬ ∃ group ∈ forest.groups, uuidText group.id = gid) :
    descendantsFn hierarchy gid = [gid] := by
  obtain ⟨keys, _⟩ := forest.groupHierarchy_spec order built
  rw [descendantsFn, OrderedMap.get?_eq_none_iff.mpr (mt (keys gid).mp unknown), Option.getD_none]

theorem buildGroupHierarchy_spec :
    ∃ hierarchy, HlHelper.Rbac.buildGroupHierarchy rows = some hierarchy ∧
      (∀ group ∈ forest.groups,
        IsBelow forest.groups group.id (descendantsOf hierarchy (uuidText group.id))) ∧
      ∀ gid, (¬ ∃ group ∈ forest.groups, uuidText group.id = gid) →
        descendantsOf hierarchy gid = [gid] := by
  have acyclic : ∀ id, ¬ Relation.TransGen (ParentLink rows) id id := by
    rw [forest.links_eq order]
    exact forest.acyclic
  have each : ∀ group ∈ rows, ∃ entry,
      (descendants rows (rows.length + 1) group.id).map
        (fun ids => (uuidText group.id, ids.map uuidText)) = some entry ∧
      entry.1 = uuidText group.id ∧ IsBelow forest.groups group.id entry.2 := by
    intro group _
    have few := @strictlyBelow_le _ (childIds rows) (rows.map Group.id) group.id
    rw [List.length_map] at few
    obtain ⟨below, found, under⟩ := descendants_under acyclic (Nat.lt_succ_of_le few)
    refine ⟨(uuidText group.id, below.map uuidText), ?_, rfl, fun text => ?_⟩
    · rw [found, Option.map_some]
    · simp only [List.mem_map, under, Under, forest.links_eq order, and_comm]
  obtain ⟨hierarchy, built, related⟩ := mapM_some_related each
  refine ⟨hierarchy, built, fun group member => ?_, fun gid unknown => ?_⟩
  · cases found : hierarchy.lookup (uuidText group.id) with
    | none =>
      obtain ⟨entry, inside, named, _⟩ := forall₂_left related (order.mem_iff.mpr member)
      have missing := List.lookup_eq_none_iff.mp found entry inside
      exact absurd named.symm (bne_iff_ne.mp missing)
    | some texts =>
      obtain ⟨front, back, rfl, _⟩ := List.lookup_eq_some_iff.mp found
      obtain ⟨other, listed, named, below⟩ := forall₂_left related.flip
        (List.mem_append_right front List.mem_cons_self)
      obtain rfl := forest.id_inj member (order.mem_iff.mp listed) named
      rw [descendantsOf, found, Option.getD_some]
      exact below
  · cases found : hierarchy.lookup gid with
    | none => rw [descendantsOf, found, Option.getD_none]
    | some texts =>
      obtain ⟨front, back, rfl, _⟩ := List.lookup_eq_some_iff.mp found
      obtain ⟨other, listed, named, _⟩ := forall₂_left related.flip
        (List.mem_append_right front List.mem_cons_self)
      exact absurd ⟨other, order.mem_iff.mp listed, named.symm⟩ unknown

theorem expandGroup_below (top : Uuid) :
    IsBelow forest.groups top ((expandGroup rows top true).map uuidText) := by
  intro text
  simp only [List.mem_map, mem_expandGroup, Under, forest.links_eq order, and_comm]

end

/-- A binding on the group covers the resources in the groups that it targets. -/
structure Agrees (targetRows : List Group) (hierarchy : Descendants String) (group : Group) :
    Prop where
  below : IsBelow forest.groups group.id (descendantsFn hierarchy (uuidText group.id))
  targets : ∀ text, text ∈ descendantsFn hierarchy (uuidText group.id) ↔
    text ∈ (expandGroup targetRows group.id true).map uuidText
  covers : ∀ resource,
    (Scope.group (some (uuidText group.id))).covers resource (descendantsFn hierarchy) = true ↔
      ∃ id ∈ expandGroup targetRows group.id true, uuidText id ∈ resource.groupIds

theorem groupHierarchy_agrees {targetRows : List Group} (order : rows.Perm forest.groups)
    (target_order : targetRows.Perm forest.groups) {limit : Nat} {hierarchy : Descendants String}
    (built : groupHierarchy limit rows = some hierarchy) (member : group ∈ forest.groups) :
    forest.Agrees targetRows hierarchy group := by
  have below := forest.descendantsFn_below order built member
  have targets (text : String) : text ∈ descendantsFn hierarchy (uuidText group.id) ↔
      text ∈ (expandGroup targetRows group.id true).map uuidText :=
    (below text).trans (forest.expandGroup_below target_order group.id text).symm
  refine ⟨below, targets, fun resource => ?_⟩
  simp only [Scope.covers, List.any_eq_true, decide_eq_true_eq, targets, List.mem_map]
  constructor
  · rintro ⟨_, inside, id, found, rfl⟩
    exact ⟨id, found, inside⟩
  · rintro ⟨id, found, inside⟩
    exact ⟨uuidText id, inside, id, found, rfl⟩

/-- Whatever the orders of the rows, the three computations find the same groups. -/
theorem hierarchies_agree {engineRows inspectorRows targetRows : List Group}
    (engine_order : engineRows.Perm forest.groups)
    (inspector_order : inspectorRows.Perm forest.groups)
    (target_order : targetRows.Perm forest.groups) :
    (∀ limit, forest.groups.length < limit → ∃ engine inspector,
      BuiltinEngine.buildGroupHierarchy limit engineRows = some engine ∧
        Inspector.buildGroupHierarchy limit inspectorRows = some inspector) ∧
      ∀ limit engine inspector,
        BuiltinEngine.buildGroupHierarchy limit engineRows = some engine →
        Inspector.buildGroupHierarchy limit inspectorRows = some inspector →
        ∀ group ∈ forest.groups,
          forest.Agrees targetRows engine group ∧ forest.Agrees targetRows inspector group := by
  constructor
  · intro limit deep
    obtain ⟨engine, engine_built⟩ := forest.groupHierarchy_total engine_order deep
    obtain ⟨inspector, inspector_built⟩ := forest.groupHierarchy_total inspector_order deep
    exact ⟨engine, inspector, engine_built, inspector_built⟩
  · intro limit engine inspector engine_built inspector_built group member
    exact ⟨forest.groupHierarchy_agrees engine_order target_order engine_built member,
      forest.groupHierarchy_agrees inspector_order target_order inspector_built member⟩

theorem descendants_agree {otherRows : List Group} (order : rows.Perm forest.groups)
    (other_order : otherRows.Perm forest.groups) {limit : Nat} {hierarchy : Descendants String}
    (built : groupHierarchy limit otherRows = some hierarchy) :
    ∃ plain, HlHelper.Rbac.buildGroupHierarchy rows = some plain ∧
      ∀ gid text, text ∈ descendantsOf plain gid ↔ text ∈ descendantsFn hierarchy gid := by
  obtain ⟨plain, plain_built, groups, others⟩ := forest.buildGroupHierarchy_spec order
  refine ⟨plain, plain_built, fun gid text => ?_⟩
  by_cases known : ∃ group ∈ forest.groups, uuidText group.id = gid
  · obtain ⟨group, member, rfl⟩ := known
    have below := forest.descendantsFn_below other_order built member
    exact (groups group member text).trans (below text).symm
  · rw [others gid known, forest.descendantsFn_other other_order built known]

end GroupForest

section Nested

theorem acyclic_of_falling {groups : List Group}
    (falls : ∀ group ∈ groups, ∀ parent, group.parentId = some parent → parent < group.id)
    (id : Uuid) : ¬ Relation.TransGen (ParentLink groups) id id := by
  have lower : ∀ child top, Relation.TransGen (ParentLink groups) child top → top < child := by
    intro child top links
    induction links with
    | single link =>
      obtain ⟨group, member, rfl, own⟩ := link
      exact falls group member _ own
    | tail _ link ih =>
      obtain ⟨group, member, rfl, own⟩ := link
      exact (falls group member _ own).trans ih
  exact fun cycle => lt_irrefl id (lower id id cycle)

def nested : GroupForest where
  groups := [⟨1, none⟩, ⟨2, some 1⟩, ⟨3, some 2⟩]
  unique := by decide
  uuids := by
    simp only [List.forall_mem_cons]
    exact ⟨rfl, rfl, rfl, List.forall_mem_nil _⟩
  parents := by
    simp only [List.forall_mem_cons]
    refine ⟨nofun, ?_, ?_, List.forall_mem_nil _⟩ <;> rintro _ ⟨⟩ <;> rfl
  acyclic := acyclic_of_falling (by decide)

theorem nested_agree : ∃ engine inspector,
    BuiltinEngine.buildGroupHierarchy 4 [⟨3, some 2⟩, ⟨1, none⟩, ⟨2, some 1⟩] = some engine ∧
      Inspector.buildGroupHierarchy 4 nested.groups = some inspector ∧
      nested.Agrees [⟨2, some 1⟩, ⟨1, none⟩, ⟨3, some 2⟩] engine ⟨1, none⟩ ∧
      nested.Agrees [⟨2, some 1⟩, ⟨1, none⟩, ⟨3, some 2⟩] inspector ⟨1, none⟩ := by
  have engine_order : List.Perm [⟨3, some 2⟩, ⟨1, none⟩, ⟨2, some 1⟩] nested.groups := by decide
  have target_order : List.Perm [⟨2, some 1⟩, ⟨1, none⟩, ⟨3, some 2⟩] nested.groups := by decide
  obtain ⟨returns, agree⟩ :=
    nested.hierarchies_agree engine_order (List.Perm.refl _) target_order
  obtain ⟨engine, inspector, engine_built, inspector_built⟩ := returns 4 (by decide)
  have both := agree 4 engine inspector engine_built inspector_built ⟨1, none⟩ (by decide)
  exact ⟨engine, inspector, engine_built, inspector_built, both⟩

end Nested

structure EffectivePermissionRow where
  action : String
  sourceBindingId : String
  roleName : String
  scope : Scope
  deriving DecidableEq, Repr

def Inspector.rowsOf (resource : Resource) (hierarchy : Descendants String)
    (row : Binding × Role) : List EffectivePermissionRow :=
  if row.1.scope.covers resource (descendantsFn hierarchy) then
    row.2.permissions.map fun action => ⟨action, row.1.id, row.2.name, row.1.scope⟩
  else []

def Inspector.effective (limit : Nat) (grants : Grants) (groups : List Group)
    (principal : Principal) (resource : Resource) : Option (List EffectivePermissionRow) :=
  if principalFilters principal = [] then some []
  else
    (Inspector.buildGroupHierarchy limit groups).map fun hierarchy =>
      (grants.rows principal).flatMap (Inspector.rowsOf resource hierarchy)

def Reported (action : String) (report : List EffectivePermissionRow) : Prop :=
  ∃ row ∈ report, row.action = action ∨ row.action = "*"

section Truth

variable {grants inspected : Grants} {principal : Principal} {action : String}
  {resource : Resource} {scope : Scope}

theorem covers_congr {descendants others : String → List String}
    (same : ∀ gid text, text ∈ descendants gid ↔ text ∈ others gid) :
    scope.covers resource descendants = scope.covers resource others := by
  cases scope with
  | group groupId =>
    cases groupId with
    | none => rfl
    | some target => simp only [Scope.covers, same]
  | tag key value => cases key <;> cases value <;> rfl
  | _ => rfl

theorem mem_rows {row : Binding × Role} : row ∈ grants.rows principal ↔
    row.1 ∈ grants.bindings ∧
      (row.1.principalType, row.1.principalId) ∈ principalFilters principal ∧
      row.2 ∈ grants.roles ∧ row.2.id = row.1.roleId := by
  obtain ⟨binding, role⟩ := row
  simp only [Grants.rows, List.mem_flatMap, List.mem_filter, List.mem_map, decide_eq_true_eq,
    Prod.mk.injEq]
  constructor
  · rintro ⟨_, ⟨bound, own⟩, _, ⟨held, named⟩, rfl, rfl⟩
    exact ⟨bound, own, held, named⟩
  · rintro ⟨bound, own, held, named⟩
    exact ⟨binding, ⟨bound, own⟩, role, ⟨held, named⟩, rfl, rfl⟩

theorem reported_rowsOf {hierarchy : Descendants String} {row : Binding × Role} :
    Reported action (Inspector.rowsOf resource hierarchy row) ↔
      row.2.permits action ∧ row.1.scope.covers resource (descendantsFn hierarchy) = true := by
  unfold Reported Inspector.rowsOf Role.permits
  split
  · next covered =>
    simp only [List.mem_map, exists_exists_and_eq_and, covered, and_true]
    constructor
    · rintro ⟨held, member, rfl | rfl⟩
      · exact .inl member
      · exact .inr member
    · rintro (member | member)
      · exact ⟨action, member, .inl rfl⟩
      · exact ⟨"*", member, .inr rfl⟩
  · next outside => simp [outside]

theorem reported_flatMap {hierarchy : Descendants String} {rows : List (Binding × Role)} :
    Reported action (rows.flatMap (Inspector.rowsOf resource hierarchy)) ↔
      ∃ row ∈ rows, Reported action (Inspector.rowsOf resource hierarchy row) := by
  simp only [Reported, List.mem_flatMap]
  constructor
  · rintro ⟨entry, ⟨row, member, inside⟩, named⟩
    exact ⟨row, member, entry, inside, named⟩
  · rintro ⟨row, member, entry, inside, named⟩
    exact ⟨entry, ⟨row, member, inside⟩, named⟩

theorem mem_rows_perm (bindings : inspected.bindings.Perm grants.bindings)
    (roles : inspected.roles.Perm grants.roles) {row : Binding × Role} :
    row ∈ inspected.rows principal ↔ row ∈ grants.rows principal := by
  rw [mem_rows, mem_rows, bindings.mem_iff, roles.mem_iff]

/-- Unless step-up is due, what the engine allows is what the Inspector reports. -/
theorem inspector_truthful (forest : GroupForest) {engineRows inspectorRows : List Group}
    (engine_order : engineRows.Perm forest.groups)
    (inspector_order : inspectorRows.Perm forest.groups)
    (bindings : inspected.bindings.Perm grants.bindings)
    (roles : inspected.roles.Perm grants.roles) {limit : Nat}
    (deep : forest.groups.length < limit) {highRisk : String → Bool} {ctx : AuthContext}
    (relaxed : ¬ (ctx.enforceMfa = true ∧ ¬ ctx.mfaSatisfied = true ∧ highRisk action = true)) :
    ∃ decision report,
      isAuthorized highRisk grants engineRows principal action resource ctx = some decision ∧
      Inspector.effective limit inspected inspectorRows principal resource = some report ∧
      (decision.allow = true ↔ Reported action report) := by
  obtain ⟨hierarchy, built⟩ := forest.groupHierarchy_total inspector_order deep
  obtain ⟨plain, plain_built, same⟩ :=
    forest.descendants_agree engine_order inspector_order built
  have granted_iff : Granted grants principal action resource plain ↔
      ∃ row ∈ inspected.rows principal,
        Reported action (Inspector.rowsOf resource hierarchy row) := by
    simp only [Granted, reported_rowsOf, mem_rows_perm bindings roles, covers_congr same]
  by_cases anonymous : principalFilters principal = []
  · refine ⟨_, [], if_pos anonymous, if_pos anonymous, ?_⟩
    simp [Reported]
  · have decided : ∃ decision,
        isAuthorized highRisk grants engineRows principal action resource ctx = some decision := by
      rw [isAuthorized, if_neg anonymous, plain_built]
      exact ⟨_, rfl⟩
    obtain ⟨decision, decided⟩ := decided
    refine ⟨decision, (inspected.rows principal).flatMap (Inspector.rowsOf resource hierarchy),
      decided, ?_, ?_⟩
    · rw [Inspector.effective, if_neg anonymous, Inspector.buildGroupHierarchy, built,
        Option.map_some]
    · have allowed : decision.allow = true ↔ Granted grants principal action resource plain := by
        have known := @isAuthorized_allow_of highRisk grants engineRows principal action resource
          ctx relaxed
        rw [decided, plain_built] at known
        simpa using known
      rw [allowed, granted_iff, reported_flatMap]

end Truth

section Subgroup

def groupOwner : Grants where
  bindings := [⟨"b", .user, "u", "r", .group (some (uuidText 1))⟩]
  roles := [⟨"r", "owner", ["*"]⟩]

theorem subgroup_reported : ∃ decision report,
    isAuthorized (fun _ => true) groupOwner nested.groups ⟨some "u", none, []⟩ "host.reboot"
        ⟨some "h", [uuidText 3], [], none⟩ .empty = some decision ∧
      Inspector.effective 4 groupOwner nested.groups ⟨some "u", none, []⟩
        ⟨some "h", [uuidText 3], [], none⟩ = some report ∧
      (decision.allow = true ↔ Reported "host.reboot" report) :=
  inspector_truthful nested (List.Perm.refl _) (List.Perm.refl _) (List.Perm.refl _)
    (List.Perm.refl _) (by decide) (by decide)

end Subgroup

end HlHelper.Rbac
