import HlHelper.Groups.Api
import HlHelper.Library.Forest
import HlHelper.Library.Runs

/-! The groups stay a forest in the runs in which every update that would close a cycle names
its group in the spelling that the check compares, and what the check has read stays as it was
until the commit. -/

namespace HlHelper.Groups

open Dispatch (truthy)
open HlHelper.Library

variable {uuids : UuidReader} {groups : List Group} {groupId newParentId : String}
  {read : List (Uuid × Option Uuid)}

/-- Setting this parent closes a cycle: some way up does not end any more. -/
def ClosesCycle (groups : List Group) (id parent : Uuid) : Prop :=
  ¬ ∀ a, Rooted (Function.update (parentOf groups) id (some parent)) a

def ReachesRoots (groups : List Group) : Prop :=
  ∀ group ∈ groups, ∃ root ∈ groups, root.parentId = none ∧
    Up (parentOf groups) group.id root.id

/-- The check answers, and it answers `True` exactly when the proposed parent closes a cycle. -/
def Exact (uuids : UuidReader) (groups : List Group) (groupId : String) (id : Uuid)
    (newParentId : Option String) : Prop :=
  ∃ cycle, wouldCreateCycle uuids groupId groups newParentId = some cycle ∧
    (cycle = true ↔ ∃ text parent, newParentId = some text ∧ uuids.parse text = some parent ∧
      ClosesCycle groups id parent)

/-- A parent that would close a cycle is given in the spelling of the path if it is the group
itself, and the path is in the spelling of `str` otherwise. -/
def Spelled (groups : List Group) (groupId newParentId : String) (id parent : Uuid) : Prop :=
  ClosesCycle groups id parent →
    if parent = id then newParentId = groupId else groupId = str id

/-- A commit that sets a parent is careful if the two ids are spelled so that a cycle shows, and
every row that the check has read is still as it was read. -/
def Call.Careful (groups : List Group) (call : Call) : Prop :=
  ∀ groupId body newParentId id parent name description,
    call.request = .update groupId body → body.parentId = some (some newParentId) →
    call.phase = .committing (.update id (some (some parent)) name description) →
    Spelled groups groupId newParentId id parent ∧
      ∀ row ∈ call.read, parentOf groups row.1 = row.2

def Careful (s : Server) : Step → Prop
  | .advance index => ∀ call, s.calls[index]? = some call → call.Careful s.groups
  | _ => True

structure Forest (groups : List Group) : Prop where
  unique : (groups.map Group.id).Nodup
  parents : ∀ group ∈ groups, ∀ parent, group.parentId = some parent →
    parent ∈ groups.map Group.id
  rooted : ∀ id, Rooted (parentOf groups) id

theorem parentOf_eq (unique : (groups.map Group.id).Nodup) {group : Group}
    (member : group ∈ groups) : parentOf groups group.id = group.parentId := by
  rw [parentOf, (findKey_eq_some_iff unique).mpr ⟨member, rfl⟩, Option.bind_some]

namespace Forest

variable (forest : Forest groups)

include forest

theorem parent_mem {id parent : Uuid} (step : parentOf groups id = some parent) :
    parent ∈ groups.map Group.id := by
  obtain ⟨group, found, own⟩ := Option.bind_eq_some_iff.mp step
  exact forest.parents group (findKey_some found).1 parent own

theorem reachesRoots : ReachesRoots groups := by
  intro group member
  obtain ⟨top, way, ends⟩ := (forest.rooted group.id).root_above
  have inside : top ∈ groups.map Group.id :=
    way.closed (List.mem_map_of_mem member) (fun _ _ _ step => forest.parent_mem step)
  obtain ⟨root, there, rfl⟩ := List.mem_map.mp inside
  rw [parentOf_eq forest.unique there] at ends
  exact ⟨root, there, ends, way⟩

theorem closesCycle_iff {id parent : Uuid} :
    ClosesCycle groups id parent ↔ Up (parentOf groups) parent id := by
  rw [ClosesCycle, all_rooted_update_iff forest.rooted, not_not]

theorem insert {group : Group} (fresh : group.id ∉ groups.map Group.id)
    (known : ∀ parent, group.parentId = some parent → parent ∈ groups.map Group.id) :
    Forest (groups ++ [group]) where
  unique := by
    rw [List.map_append, List.map_singleton]
    exact forest.unique.append (List.nodup_singleton _)
      (List.disjoint_singleton.mpr fresh)
  parents other member parent own := by
    rw [List.map_append]
    refine List.mem_append_left _ ?_
    rcases List.mem_append.mp member with old | new
    · exact forest.parents other old parent own
    · exact known parent (List.mem_singleton.mp new ▸ own)
  rooted := by
    have as_update : parentOf (groups ++ [group]) =
        Function.update (parentOf groups) group.id group.parentId := by
      funext id
      by_cases same : id = group.id
      · rw [same, Function.update_self, parentOf, findKey_append, findKey_none.mpr fresh]
        simp [findKey]
      · rw [Function.update_of_ne same, parentOf, findKey_append]
        simp [findKey, Ne.symm same, parentOf]
    rw [as_update]
    cases own : group.parentId with
    | none => exact fun id => rooted_clear (forest.rooted id)
    | some parent =>
      refine rooted_update forest.rooted fun way => ?_
      have inside := way.closed (known parent own) (fun _ _ _ step => forest.parent_mem step)
      exact fresh inside

theorem update {update : Group → Group} (id : Uuid) (parentId : Option (Option Uuid))
    (kept : ∀ group, (update group).id = group.id)
    (moved : ∀ group, (update group).parentId =
      if group.id = id then parentId.getD group.parentId else group.parentId)
    (known : ∀ parent, parentId.join = some parent → parent ∈ groups.map Group.id)
    (open_ : ∀ parent, parentId.join = some parent → ¬ ClosesCycle groups id parent) :
    Forest (groups.map update) where
  unique := unique_map forest.unique kept
  parents group member parent own := by
    obtain ⟨old, there, rfl⟩ := List.mem_map.mp member
    have same_ids : (groups.map update).map Group.id = groups.map Group.id := by
      rw [List.map_map]
      exact List.map_congr_left fun row _ => kept row
    rw [same_ids]
    rw [moved] at own
    by_cases here : old.id = id
    · rw [if_pos here] at own
      cases parentId with
      | none => exact forest.parents old there parent own
      | some new => exact known parent own
    · rw [if_neg here] at own
      exact forest.parents old there parent own
  rooted := by
    have as_update : ∀ other, parentOf (groups.map update) other =
        if other = id ∧ other ∈ groups.map Group.id then parentId.getD (parentOf groups other)
        else parentOf groups other := by
      intro other
      rw [parentOf, findKey_map kept, parentOf]
      cases found : findKey Group.id groups other with
      | none => simp [findKey_none.mp found]
      | some group =>
        obtain ⟨member, rfl⟩ := findKey_some found
        have inside : group.id ∈ groups.map Group.id := List.mem_map_of_mem member
        by_cases here : group.id = id
        · rw [if_pos ⟨here, inside⟩]
          simp [moved, here]
        · rw [if_neg fun both => here both.1]
          simp [moved, here]
    have unchanged (absent : ∀ other, other = id ∧ other ∈ groups.map Group.id →
        parentId.getD (parentOf groups other) = parentOf groups other) :
        parentOf (groups.map update) = parentOf groups := by
      funext other
      rw [as_update]
      split
      · next both => exact absent other both
      · rfl
    by_cases inside : id ∈ groups.map Group.id
    · cases parentId with
      | none =>
        rw [unchanged fun _ _ => rfl]
        exact forest.rooted
      | some new =>
        have set_ : parentOf (groups.map update) = Function.update (parentOf groups) id new := by
          funext other
          rw [as_update, Function.update_apply]
          by_cases here : other = id
          · rw [if_pos ⟨here, here ▸ inside⟩, if_pos here, Option.getD_some]
          · rw [if_neg fun both => here both.1, if_neg here]
        rw [set_]
        cases new with
        | none => exact fun other => rooted_clear (forest.rooted other)
        | some parent => exact not_not.mp (open_ parent rfl)
    · rw [unchanged fun other both => absurd (both.1 ▸ both.2) inside]
      exact forest.rooted

end Forest

section Climbing

def Met (read : List (Uuid × Option Uuid)) (next : Option Uuid) (id : Uuid) : Prop :=
  next = some id ∨ id ∈ read.map Prod.fst

/-- What the check knows: the proposed parent and the parents of what it has read are met, and
none of them but the first may be written as the path writes the group. -/
structure Known (uuids : UuidReader) (groupId newParentId : String)
    (read : List (Uuid × Option Uuid)) (next : Option Uuid) (seen : List String) : Prop where
  differs : newParentId ≠ groupId
  start : ∀ parent, uuids.parse newParentId = some parent → Met read next parent
  closed : ∀ row ∈ read, ∀ parent, row.2 = some parent → Met read next parent
  texts : ∀ id, Met read next id → uuids.parse newParentId = some id ∨ str id ≠ groupId
  seen : ∀ text ∈ seen, ∃ id, uuids.parse text = some id ∧ Met read next id

def Climbed (uuids : UuidReader) (groupId newParentId : String)
    (read : List (Uuid × Option Uuid)) : Walk → Prop
  | .ended true => True
  | .ended false => Known uuids groupId newParentId read none []
  | .selects id seen => Known uuids groupId newParentId read (some id) seen

theorem climbed_begin :
    Climbed uuids groupId newParentId [] (climb uuids groupId newParentId) := by
  rw [climb]
  by_cases differs : newParentId = groupId
  · rw [if_pos differs]
    trivial
  · rw [if_neg differs, walk, if_neg List.not_mem_nil, if_neg differs]
    cases found : uuids.parse newParentId with
    | none =>
      exact ⟨differs, fun _ parsed => absurd (found.symm.trans parsed) nofun,
        fun _ member => absurd member List.not_mem_nil,
        fun _ met => (met.elim nofun (absurd · List.not_mem_nil)),
        fun _ member => absurd member List.not_mem_nil⟩
    | some first =>
      refine ⟨differs, fun _ parsed => .inl (found.symm.trans parsed),
        fun _ member => absurd member List.not_mem_nil, fun id met => ?_, fun text member => ?_⟩
      · exact .inl (found.trans (met.resolve_right List.not_mem_nil))
      · rw [List.mem_singleton.mp member]
        exact ⟨first, found, .inl rfl⟩

theorem climbed_next {id : Uuid} {parent : Option Uuid} {seen : List String}
    (known : Known uuids groupId newParentId read (some id) seen) :
    Climbed uuids groupId newParentId ((id, parent) :: read)
      (walk uuids groupId (parent.map str) seen) := by
  have met : ∀ {other} next, Met read (some id) other → Met ((id, parent) :: read) next other := by
    intro other next before
    rcases before with same | old
    · exact .inr (Option.some.inj same ▸ List.mem_cons_self)
    · exact .inr (List.mem_cons_of_mem _ old)
  have back : ∀ {other}, Met ((id, parent) :: read) none other → Met read (some id) other := by
    intro other after
    rcases List.mem_cons.mp (after.resolve_left nofun) with same | old
    · exact .inl (congrArg some same.symm)
    · exact .inr old
  -- The rows read so far are closed once the parent of the last one is met.
  have ended (above : ∀ other, parent = some other → Met ((id, parent) :: read) none other) :
      Known uuids groupId newParentId ((id, parent) :: read) none [] := by
    refine ⟨known.differs, fun first parsed => met none (known.start first parsed), ?_,
      fun other after => known.texts other (back after),
      fun _ member => absurd member List.not_mem_nil⟩
    intro row member other own
    rcases List.mem_cons.mp member with rfl | old
    · exact above other own
    · exact met none (known.closed row old other own)
  cases parent with
  | none => exact ended nofun
  | some higher =>
    rw [Option.map_some, walk]
    by_cases before : str higher ∈ seen
    · rw [if_pos before]
      obtain ⟨other, parsed, there⟩ := known.seen _ before
      obtain rfl := Option.some.inj ((uuids.parse_str higher).symm.trans parsed)
      exact ended fun _ same => Option.some.inj same ▸ met none there
    · rw [if_neg before]
      by_cases found : str higher = groupId
      · rw [if_pos found]
        trivial
      · rw [if_neg found, uuids.parse_str]
        refine ⟨known.differs, fun first parsed => met _ (known.start first parsed), ?_, ?_, ?_⟩
        · intro row member other own
          rcases List.mem_cons.mp member with rfl | old
          · exact .inl own
          · exact met _ (known.closed row old other own)
        · intro other after
          rcases after with same | old
          · exact .inr (Option.some.inj same ▸ found)
          · exact known.texts other (back (.inr old))
        · intro text member
          rcases List.mem_cons.mp member with rfl | old
          · exact ⟨higher, uuids.parse_str higher, .inl rfl⟩
          · obtain ⟨other, parsed, there⟩ := known.seen text old
            exact ⟨other, parsed, met _ there⟩

theorem Known.open_ (known : Known uuids groupId newParentId read none []) (forest : Forest groups)
    (fresh : ∀ row ∈ read, parentOf groups row.1 = row.2) {id parent : Uuid}
    (parsed : uuids.parse newParentId = some parent)
    (spelled : Spelled groups groupId newParentId id parent) :
    ¬ ClosesCycle groups id parent := by
  intro closes
  have way := forest.closesCycle_iff.mp closes
  have there : Met read none id := by
    refine way.closed (known.start parent parsed) fun x y met step => ?_
    obtain ⟨row, member, rfl⟩ := List.mem_map.mp (met.resolve_left nofun)
    exact known.closed row member y ((fresh row member).symm.trans step)
  have spelling := spelled closes
  by_cases own : parent = id
  · rw [if_pos own] at spelling
    exact known.differs spelling
  · rw [if_neg own] at spelling
    rcases known.texts id there with first | other
    · exact own (Option.some.inj (parsed.symm.trans first))
    · exact other spelling.symm

def unread (groups : List Group) (seen : List String) : Nat :=
  ((groups.filterMap Group.parentId).filter (str · ∉ seen)).length

theorem unread_cons_lt {seen : List String} {id parent : Uuid}
    (step : parentOf groups id = some parent) (new : str parent ∉ seen) :
    unread groups (str parent :: seen) < unread groups seen := by
  obtain ⟨group, found, own⟩ := Option.bind_eq_some_iff.mp step
  have there : parent ∈ (groups.filterMap Group.parentId).filter (str · ∉ seen) :=
    List.mem_filter.mpr ⟨List.mem_filterMap.mpr ⟨group, (findKey_some found).1, own⟩,
      decide_eq_true new⟩
  calc unread groups (str parent :: seen)
      = (((groups.filterMap Group.parentId).filter (str · ∉ seen)).filter
          (str · ≠ str parent)).length := by
        rw [unread, List.filter_filter]
        simp only [List.mem_cons, not_or, Bool.decide_and, ne_eq]
    _ < unread groups seen :=
        List.length_filter_lt_length_iff_exists.mpr ⟨parent, there, by simp⟩

theorem loop_returns {fuel : Nat} {id : Uuid} {seen : List String}
    (enough : unread groups seen < fuel) :
    ∃ cycle, loop uuids groupId groups fuel (.selects id seen) = some cycle := by
  induction fuel generalizing id seen with
  | zero => exact absurd enough (Nat.not_lt_zero _)
  | succ fuel ih =>
    rw [loop]
    cases above : parentOf groups id with
    | none => exact ⟨false, by cases fuel <;> rfl⟩
    | some parent =>
      rw [Option.map_some, walk]
      by_cases before : str parent ∈ seen
      · rw [if_pos before]
        exact ⟨false, by cases fuel <;> rfl⟩
      · rw [if_neg before]
        by_cases same : str parent = groupId
        · rw [if_pos same]
          exact ⟨true, by cases fuel <;> rfl⟩
        · rw [if_neg same, uuids.parse_str]
          have fewer := unread_cons_lt above before
          exact ih (by omega)

theorem wouldCreateCycle_returns (uuids : UuidReader) (groupId : String) (groups : List Group)
    (newParentId : Option String) :
    ∃ cycle, wouldCreateCycle uuids groupId groups newParentId = some cycle := by
  cases newParentId with
  | none => exact ⟨false, rfl⟩
  | some text =>
    rw [wouldCreateCycle]
    cases climb uuids groupId text with
    | ended cycle => exact ⟨cycle, rfl⟩
    | selects id seen =>
      apply loop_returns
      have few : unread groups seen ≤ groups.length :=
        (List.length_filter_le _ _).trans (List.length_filterMap_le _ _)
      omega

theorem loop_true {fuel : Nat} {id : Uuid} {seen : List String}
    (found : loop uuids groupId groups fuel (.selects id seen) = some true) :
    ∃ parent other, parentOf groups id = some parent ∧ Up (parentOf groups) parent other ∧
      str other = groupId := by
  induction fuel generalizing id seen with
  | zero => cases found
  | succ fuel ih =>
    rw [loop] at found
    cases above : parentOf groups id with
    | none =>
      rw [above] at found
      cases fuel <;> cases found
    | some parent =>
      rw [above, Option.map_some, walk] at found
      by_cases before : str parent ∈ seen
      · rw [if_pos before] at found
        cases fuel <;> cases found
      · rw [if_neg before] at found
        by_cases same : str parent = groupId
        · exact ⟨parent, parent, rfl, .self, same⟩
        · rw [if_neg same, uuids.parse_str] at found
          obtain ⟨higher, other, step, way, text⟩ := ih found
          exact ⟨parent, other, rfl, .of_parent step way, text⟩

theorem loop_false {fuel : Nat} {start : Walk}
    (climbed : Climbed uuids groupId newParentId read start)
    (fresh : ∀ row ∈ read, parentOf groups row.1 = row.2)
    (found : loop uuids groupId groups fuel start = some false) :
    ∃ more, Known uuids groupId newParentId more none [] ∧
      ∀ row ∈ more, parentOf groups row.1 = row.2 := by
  induction fuel generalizing start read with
  | zero =>
    cases start with
    | selects id seen => cases found
    | ended cycle =>
      cases found
      exact ⟨read, climbed, fresh⟩
  | succ fuel ih =>
    cases start with
    | ended cycle =>
      cases found
      exact ⟨read, climbed, fresh⟩
    | selects id seen =>
      exact ih (climbed_next climbed) (List.forall_mem_cons.mpr ⟨rfl, fresh⟩) found

/-- Where the check answers `True` there is a cycle, and it is spelled so that it shows. -/
theorem closes_of_true (forest : Forest groups) {id : Uuid} (own : uuids.parse groupId = some id)
    (found : wouldCreateCycle uuids groupId groups (some newParentId) = some true) :
    ∃ parent, uuids.parse newParentId = some parent ∧ ClosesCycle groups id parent ∧
      if parent = id then newParentId = groupId else groupId = str id := by
  rw [wouldCreateCycle, climb] at found
  by_cases same : newParentId = groupId
  · subst same
    refine ⟨id, own, forest.closesCycle_iff.mpr .self, ?_⟩
    rw [if_pos rfl]
  · rw [if_neg same, walk, if_neg List.not_mem_nil, if_neg same] at found
    cases parsed : uuids.parse newParentId with
    | none =>
      rw [parsed] at found
      cases found
    | some parent =>
      rw [parsed] at found
      obtain ⟨above, other, step, way, text⟩ := loop_true found
      have met : other = id := by
        rw [← text, uuids.parse_str] at own
        exact Option.some.inj own
      subst met
      refine ⟨parent, rfl, forest.closesCycle_iff.mpr (.of_parent step way), ?_⟩
      by_cases back : parent = other
      · subst back
        exact absurd way ((forest.rooted parent).not_above_self step)
      · rw [if_neg back]
        exact text.symm

theorem open_of_false (forest : Forest groups) {id parent : Uuid}
    (parsed : uuids.parse newParentId = some parent)
    (spelled : Spelled groups groupId newParentId id parent)
    (found : wouldCreateCycle uuids groupId groups (some newParentId) = some false) :
    ¬ ClosesCycle groups id parent := by
  obtain ⟨read, known, fresh⟩ := loop_false climbed_begin (fun _ member =>
    absurd member List.not_mem_nil) found
  exact known.open_ forest fresh parsed spelled

/-- On a forest the check is exact for a parent if and only if that parent, should it close a
cycle, is spelled so that it shows. -/
theorem exact_iff (forest : Forest groups) {id : Uuid} (own : uuids.parse groupId = some id)
    (proposed : Option String) :
    Exact uuids groups groupId id proposed ↔
      ∀ text parent, proposed = some text → uuids.parse text = some parent →
        Spelled groups groupId text id parent := by
  constructor
  · rintro ⟨cycle, found, exact_⟩ text parent rfl parsed closes
    have answer := exact_.mpr ⟨text, parent, rfl, parsed, closes⟩
    subst answer
    obtain ⟨other, read_, _, spelling⟩ := closes_of_true forest own found
    obtain rfl := Option.some.inj (parsed.symm.trans read_)
    exact spelling
  · intro spelled
    obtain ⟨cycle, found⟩ := wouldCreateCycle_returns uuids groupId groups proposed
    refine ⟨cycle, found, ?_, ?_⟩
    · rintro rfl
      cases proposed with
      | none => cases found
      | some text =>
        obtain ⟨parent, parsed, closes, _⟩ := closes_of_true forest own found
        exact ⟨text, parent, rfl, parsed, closes⟩
    · rintro ⟨text, parent, rfl, parsed, closes⟩
      cases cycle with
      | true => rfl
      | false => exact absurd closes (open_of_false forest parsed (spelled _ _ rfl parsed) found)

end Climbing

/-- A write that sets the parent of a group comes from a check that has ended with `False`. -/
def Prepared (uuids : UuidReader) (call : Call) (write : Write) : Prop :=
  ∀ id parent name description, write = .update id (some (some parent)) name description →
    ∃ groupId body newParentId, call.request = .update groupId body ∧
      body.parentId = some (some newParentId) ∧ uuids.parse newParentId = some parent ∧
      Known uuids groupId newParentId call.read none []

def Call.Ok (uuids : UuidReader) (groups : List Group) (call : Call) : Prop :=
  match call.phase with
  | .loading _ => call.read = []
  | .climbing _ newParentId id seen =>
    ∀ groupId body, call.request = .update groupId body →
      body.parentId = some (some newParentId) ∧
        Known uuids groupId newParentId call.read (some id) seen
  | .finding parent write => Prepared uuids call write ∧ ∀ p, write.parent = some p → p = parent
  | .committing write =>
    Prepared uuids call write ∧ ∀ p, write.parent = some p → p ∈ groups.map Group.id
  | _ => True

structure Sound (uuids : UuidReader) (s : Server) : Prop where
  forest : Forest s.groups
  calls : ∀ call ∈ s.calls, call.Ok uuids s.groups

theorem Call.Ok.grow {call : Call} {after : List Group} (ok : call.Ok uuids groups)
    (more : groups.map Group.id ⊆ after.map Group.id) : call.Ok uuids after := by
  cases phase : call.phase <;> simp only [Call.Ok, phase] at ok ⊢
  case committing write => exact ⟨ok.1, fun p sets => more (ok.2 p sets)⟩
  all_goals exact ok

theorem edits_parent {group : Group} {parentId : Option (Option Uuid)} {body : GroupUpdate}
    {parent : Uuid} (sets : (edits group parentId body).parent = some parent) :
    parentId = some (some parent) := by
  have written : (parentId.bind (changed group.parentId)).join = some parent := sets
  obtain ⟨new, given, differs⟩ := Option.bind_eq_some_iff.mp (Option.join_eq_some_iff.mp written)
  rw [changed] at differs
  split at differs
  · cases differs
  · rw [given, Option.some.inj differs]

theorem ok_climbed {body : GroupUpdate} {group : Group} {start : Walk}
    (proposed : body.parentId = some (some newParentId))
    (climbs : Climbed uuids groupId newParentId read start) :
    (⟨.update groupId body, climbed uuids group newParentId body start, read⟩ : Call).Ok
      uuids groups := by
  cases start with
  | selects id seen =>
    intro other more same
    obtain ⟨rfl, rfl⟩ := Request.update.inj same
    exact ⟨proposed, climbs⟩
  | ended cycle =>
    cases cycle with
    | true => trivial
    | false =>
      cases parsed : uuids.parse newParentId with
      | none => simp only [climbed, parsed, Call.Ok]
      | some parent =>
        simp only [climbed, parsed, Call.Ok]
        refine ⟨fun id other name description same => ?_, fun p sets => ?_⟩
        · have sets := edits_parent (congrArg Write.parent same)
          obtain rfl := Option.some.inj (Option.some.inj sets)
          exact ⟨groupId, body, newParentId, rfl, proposed, parsed, climbs⟩
        · exact (Option.some.inj (Option.some.inj (edits_parent sets))).symm

theorem ok_edits {call : Call} (group : Group) (body : GroupUpdate)
    {parentId : Option (Option Uuid)} (none_set : parentId.join = none)
    (commits : call.phase = .committing (edits group parentId body)) : call.Ok uuids groups := by
  have unset : ∀ parent, (edits group parentId body).parent ≠ some parent := by
    intro parent sets
    rw [edits_parent sets] at none_set
    cases none_set
  rw [Call.Ok, commits]
  exact ⟨fun _ parent _ _ same => absurd (congrArg Write.parent same) (unset parent),
    fun parent sets => absurd sets (unset parent)⟩

theorem ok_loaded (body : GroupUpdate) (found : Option Group) :
    (⟨.update groupId body, loaded uuids groupId body found, []⟩ : Call).Ok uuids groups := by
  cases found with
  | none => trivial
  | some group =>
    cases proposed : body.parentId with
    | none =>
      have unset : (none : Option (Option Uuid)).join = none := rfl
      exact ok_edits group body unset (by simp only [loaded, proposed])
    | some new =>
      cases new with
      | none =>
        have unset : (some none : Option (Option Uuid)).join = none := rfl
        exact ok_edits group body unset (by simp only [loaded, proposed])
      | some text =>
        simp only [loaded, proposed]
        exact ok_climbed proposed climbed_begin

theorem ok_begins (request : Request) :
    (⟨request, begins uuids request, []⟩ : Call).Ok uuids groups := by
  cases request with
  | create fresh body =>
    have insert : ∀ (call : Call) group, Prepared uuids call (.insert group) :=
      fun _ _ _ _ _ _ same => absurd same nofun
    cases asked : truthy body.parentId with
    | none =>
      simp only [begins, asked, Call.Ok]
      exact ⟨insert _ _, nofun⟩
    | some text =>
      cases parsed : uuids.parse text with
      | none => simp only [begins, asked, parsed, Call.Ok]
      | some parent =>
        simp only [begins, asked, parsed, Call.Ok]
        exact ⟨insert _ _, fun p sets => (Option.some.inj sets).symm⟩
  | update groupId body =>
    cases parsed : uuids.parse groupId with
    | none => simp only [begins, parsed, Call.Ok]
    | some id => simp only [begins, parsed, Call.Ok]

namespace Sound

variable {s t : Server} {index : Nat} {call new : Call}

variable (sound : Sound uuids s)
include sound

theorem moved (ok : new.Ok uuids s.groups) : Sound uuids (s.moved index new) where
  forest := sound.forest
  calls other member := by
    rcases List.mem_or_eq_of_mem_set member with old | rfl
    · exact sound.calls other old
    · exact ok

theorem committed {after : List Group} (forest : Forest after)
    (more : s.groups.map Group.id ⊆ after.map Group.id) (ok : new.Ok uuids after) :
    Sound uuids { s.moved index new with groups := after } where
  forest := forest
  calls other member := by
    rcases List.mem_or_eq_of_mem_set member with old | rfl
    · exact (sound.calls other old).grow more
    · exact ok

theorem apply {write : Write} {after : List Group} (ok : call.Ok uuids s.groups)
    (careful : call.Careful s.groups) (commits : call.phase = .committing write)
    (applied : write.apply s.groups = some after) :
    Forest after ∧ s.groups.map Group.id ⊆ after.map Group.id := by
  rw [Call.Ok, commits] at ok
  obtain ⟨prepared, known⟩ := ok
  cases write with
  | insert group =>
    rw [Write.apply] at applied
    split at applied
    · cases applied
    · next free =>
      cases applied
      refine ⟨sound.forest.insert (fun taken => free (.inl taken)) known, ?_⟩
      rw [List.map_append]
      exact List.subset_append_left _ _
  | update id parentId name description =>
    rw [Write.apply] at applied
    split at applied
    · cases applied
    · cases applied
      have kept : ∀ group : Group, (if group.id = id then
          { group with
            parentId := parentId.getD group.parentId
            name := name.getD group.name
            description := description.getD group.description }
          else group).id = group.id := by
        intro group
        split <;> rfl
      refine ⟨sound.forest.update id parentId kept ?_ known ?_, ?_⟩
      · intro group
        split <;> rfl
      · intro parent sets
        obtain rfl := Option.join_eq_some_iff.mp sets
        obtain ⟨groupId, body, text, asked, proposed, parsed, checked⟩ :=
          prepared id parent name description rfl
        obtain ⟨spelled, fresh⟩ := careful groupId body text id parent name description asked
          proposed commits
        exact checked.open_ sound.forest fresh parsed spelled
      · rw [List.map_map]
        intro other member
        obtain ⟨group, there, rfl⟩ := List.mem_map.mp member
        exact List.mem_map.mpr ⟨group, there, kept group⟩

theorem advance (turn : s.calls[index]? = some call) (careful : call.Careful s.groups)
    (stepped : s.advance uuids index call = some t) : Sound uuids t := by
  have ok := sound.calls call (List.mem_of_getElem? turn)
  obtain ⟨request, phase, read⟩ := call
  cases phase with
  | loading id =>
    cases request with
    | create => cases stepped
    | update groupId body =>
      cases stepped
      obtain rfl : read = [] := ok
      exact sound.moved (ok_loaded body _)
  | climbing group newParentId id seen =>
    cases request with
    | create => cases stepped
    | update groupId body =>
      cases stepped
      obtain ⟨proposed, known⟩ := ok groupId body rfl
      exact sound.moved (ok_climbed proposed (climbed_next known))
  | finding parent write =>
    have either : t = s.moved index ⟨request, .failed 404 "Parent group not found", read⟩ ∨
        parent ∈ s.groups.map Group.id ∧
          t = s.moved index ⟨request, .committing write, read⟩ := by
      cases found : findKey Group.id s.groups parent with
      | none =>
        simp only [Server.advance, found] at stepped
        exact .inl (Option.some.inj stepped).symm
      | some group =>
        simp only [Server.advance, found] at stepped
        obtain ⟨member, rfl⟩ := findKey_some found
        exact .inr ⟨List.mem_map_of_mem member, (Option.some.inj stepped).symm⟩
    rcases either with rfl | ⟨there, rfl⟩
    · exact sound.moved trivial
    · exact sound.moved ⟨ok.1, fun p sets => ok.2 p sets ▸ there⟩
  | committing write =>
    cases applied : write.apply s.groups with
    | none =>
      simp only [Server.advance, applied] at stepped
      cases stepped
      exact sound.moved trivial
    | some after =>
      simp only [Server.advance, applied] at stepped
      cases stepped
      obtain ⟨forest, more⟩ := sound.apply ok careful rfl applied
      exact sound.committed forest more trivial
  | refreshing id =>
    simp only [Server.advance] at stepped
    obtain ⟨group, found, rfl⟩ := Option.map_eq_some_iff.mp stepped
    exact sound.moved trivial
  | returned out => cases request <;> cases stepped
  | failed status detail => cases request <;> cases stepped

theorem fail (stepped : s.fail index call = some t) : Sound uuids t := by
  have ended : t = s.moved index { call with phase := .failed 500 "Internal Server Error" } := by
    rw [Server.fail] at stepped
    split at stepped
    · cases stepped
    · cases stepped
    · exact (Option.some.inj stepped).symm
  exact ended ▸ sound.moved trivial

theorem step {event : Step} (careful : Careful s event) (stepped : s.step uuids event = some t) :
    Sound uuids t := by
  cases event with
  | start request =>
    cases stepped
    refine ⟨sound.forest, fun call member => ?_⟩
    rcases List.mem_append.mp member with old | new
    · exact sound.calls call old
    · obtain rfl := List.mem_singleton.mp new
      exact ok_begins request
  | advance index =>
    obtain ⟨call, turn, stepped⟩ := Option.bind_eq_some_iff.mp stepped
    exact sound.advance turn (careful call turn) stepped
  | fail index =>
    obtain ⟨call, _, stepped⟩ := Option.bind_eq_some_iff.mp stepped
    exact sound.fail stepped

omit sound in
theorem initial : Sound uuids .initial where
  forest :=
    { unique := List.nodup_nil
      parents := fun _ member => absurd member List.not_mem_nil
      rooted := fun _ => .root rfl }
  calls _ member := absurd member List.not_mem_nil

end Sound

/-- In the runs whose commits are careful every group comes to a root, and the check is exact
for a proposed parent if and only if a cycle that it closes is spelled so that it shows. -/
theorem forest_when_careful (uuids : UuidReader) (steps : List Step) (t : Server)
    (reached : run (Server.step uuids) .initial steps = some t)
    (met : Meets (Server.step uuids) Careful .initial steps) :
    ReachesRoots t.groups ∧
      ∀ group ∈ t.groups, ∀ groupId, uuids.parse groupId = some group.id → ∀ proposed,
        (Exact uuids t.groups groupId group.id proposed ↔
          ∀ text parent, proposed = some text → uuids.parse text = some parent →
            Spelled t.groups groupId text group.id parent) := by
  have sound : Sound uuids t :=
    run_keeps (fun _ _ _ sound careful stepped => sound.step careful stepped) .initial reached met
  exact ⟨sound.forest.reachesRoots, fun _ _ _ own proposed => exact_iff sound.forest own proposed⟩

/-- Ids as `str` writes them, and nothing read has changed. -/
def Canonical (s : Server) : Step → Prop
  | .advance index =>
    match s.calls[index]? with
    | some ⟨.update groupId ⟨_, some (some newParentId), _⟩,
        .committing (.update id (some (some parent)) _ _), read⟩ =>
      groupId = str id ∧ newParentId = str parent ∧
        read.all (fun row => parentOf s.groups row.1 = row.2)
    | _ => True
  | _ => True

instance (s : Server) (event : Step) : Decidable (Canonical s event) := by
  unfold Canonical
  split
  · split <;> infer_instance
  · infer_instance

theorem careful_of_canonical {s : Server} {event : Step} (canonical : Canonical s event) :
    Careful s event := by
  cases event with
  | start => trivial
  | fail => trivial
  | advance index =>
    rintro ⟨_, _, read⟩ turn groupId ⟨_, _, _⟩ newParentId id parent name description rfl rfl rfl
    simp only [Canonical, turn] at canonical
    obtain ⟨path, proposed, fresh⟩ := canonical
    refine ⟨fun _ => ?_,
      fun row member => of_decide_eq_true (List.all_eq_true.mp fresh row member)⟩
    split
    · next same => rw [proposed, path, same]
    · exact path

def twoGroups (above : Option String) : List Step :=
  [.start (.create 10 ⟨"a", none, none⟩), .advance 0, .start (.create 11 ⟨"b", above, none⟩),
    .advance 1, .advance 1]

def moves (index statements : Nat) : List Step := List.replicate statements (.advance index)

def moved : List Step :=
  twoGroups none ++ .start (.update (str 10) ⟨none, some (some (str 11)), none⟩) :: moves 2 4

theorem moved_reaches_roots :
    ReachesRoots [⟨10, "a", some 11, none⟩, ⟨11, "b", none, none⟩] := by
  have found : (run (Server.step hexReader) .initial moved).any (fun t =>
      t.groups = [⟨10, "a", some 11, none⟩, ⟨11, "b", none, none⟩]) := by decide +kernel
  have canonical : Meets (Server.step hexReader) Canonical .initial moved := by decide +kernel
  obtain ⟨t, reached, groups⟩ := (Option.any_eq_true _ _).mp found
  have met : Meets (Server.step hexReader) Careful .initial moved :=
    @meets_of_keeps _ _ _ Canonical (fun _ => True) Careful (fun _ _ _ _ _ _ => trivial)
      (fun _ _ _ _ canonical _ => careful_of_canonical canonical) _ _ trivial
      (Option.isSome_iff_exists.mpr ⟨t, reached⟩) canonical
  exact of_decide_eq_true groups ▸ (forest_when_careful hexReader moved t reached met).1

def respelled : List Step :=
  twoGroups (some (str 10)) ++ .start (.update "0000000000000000000000000000000A"
    ⟨none, some (some (str 11)), none⟩) :: moves 2 5

def crossed : List Step :=
  twoGroups none ++ [.start (.update (str 10) ⟨none, some (some (str 11)), none⟩),
    .start (.update (str 11) ⟨none, some (some (str 10)), none⟩)] ++
    moves 2 3 ++ moves 3 4 ++ moves 2 1

theorem not_reachesRoots {s : Server}
    (rootless : s.groups ≠ [] ∧ ∀ group ∈ s.groups, group.parentId ≠ none) :
    ¬ ReachesRoots s.groups := by
  intro reaches
  obtain ⟨group, member⟩ := List.exists_mem_of_ne_nil _ rootless.1
  obtain ⟨root, there, ends, _⟩ := reaches group member
  exact rootless.2 root there ends

/-- Two updates that the check lets pass close a cycle: one that spells its path in another
way, and one of two that overlap. -/
theorem cycle_reached :
    (∃ t, run (Server.step hexReader) .initial respelled = some t ∧ ¬ ReachesRoots t.groups) ∧
      (∃ t, run (Server.step hexReader) .initial crossed = some t ∧ ¬ ReachesRoots t.groups) ∧
      ¬ Exact hexReader [⟨10, "a", none, none⟩, ⟨11, "b", some 10, none⟩]
        "0000000000000000000000000000000A" 10 (some (str 11)) := by
  refine ⟨?_, ?_, ?_⟩
  · have rootless : (run (Server.step hexReader) .initial respelled).any (fun t =>
        decide (t.groups ≠ [] ∧ ∀ group ∈ t.groups, group.parentId ≠ none)) := by decide +kernel
    obtain ⟨t, reached, found⟩ := (Option.any_eq_true _ _).mp rootless
    exact ⟨t, reached, not_reachesRoots (of_decide_eq_true found)⟩
  · have rootless : (run (Server.step hexReader) .initial crossed).any (fun t =>
        decide (t.groups ≠ [] ∧ ∀ group ∈ t.groups, group.parentId ≠ none)) := by decide +kernel
    obtain ⟨t, reached, found⟩ := (Option.any_eq_true _ _).mp rootless
    exact ⟨t, reached, not_reachesRoots (of_decide_eq_true found)⟩
  · rintro ⟨cycle, found, exact_⟩
    have passes : wouldCreateCycle hexReader "0000000000000000000000000000000A"
        [⟨10, "a", none, none⟩, ⟨11, "b", some 10, none⟩] (some (str 11)) = some false := by
      decide +kernel
    obtain rfl := Option.some.inj (passes.symm.trans found)
    have closes : ClosesCycle [⟨10, "a", none, none⟩, ⟨11, "b", some 10, none⟩] 10 11 := by
      intro rooted
      have back : Function.update (parentOf [⟨10, "a", none, none⟩, ⟨11, "b", some 10, none⟩])
          10 (some 11) 11 = some 10 := by decide +kernel
      exact (rooted 10).not_above_self (Function.update_self ..) (.of_parent back .self)
    exact absurd (exact_.mpr ⟨str 11, 11, rfl, hexReader.parse_str 11, closes⟩) nofun

end HlHelper.Groups
