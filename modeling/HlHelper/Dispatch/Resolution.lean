import HlHelper.Dispatch.Targets
import Mathlib.Data.String.Basic
import Mathlib.Logic.Relation

/-! What a selector denotes, and that `resolve_targets` returns it in order. -/

namespace HlHelper.Dispatch

open HlHelper.Library

def ParentLink (groups : List Group) (child parent : Uuid) : Prop :=
  ∃ group ∈ groups, group.id = child ∧ group.parentId = some parent

/-- Parent links lead from the group to `top`. -/
def Under (groups : List Group) (top id : Uuid) : Prop :=
  Relation.ReflTransGen (ParentLink groups) id top

def Labelled (host : Host) (key value : String) : Prop :=
  ∃ labels, host.labels = some labels ∧
    labels.find? (fun label => label.1 = key) = some (key, .str value)

inductive Denotes (fleet : Fleet) : Selector → HostId → Prop
  | listed {hostIds : List HostId} {host : Host} (member : host ∈ fleet.hosts)
      (listed : host.id ∈ hostIds) : Denotes fleet (.hostList hostIds) host.id
  | tagged {key value : String} {host : Host} (member : host ∈ fleet.hosts)
      (labelled : Labelled host key value) : Denotes fleet (.tag key value) host.id
  | own {groupId : GroupId} {row : GroupMembership} (member : row ∈ fleet.memberships)
      (named : groupId.resolve = .ok row.groupId) : Denotes fleet (.group groupId false) row.hostId
  | under {groupId : GroupId} {top : Uuid} {row : GroupMembership}
      (member : row ∈ fleet.memberships) (named : groupId.resolve = .ok top)
      (below : Under fleet.groups top row.groupId) : Denotes fleet (.group groupId true) row.hostId
  | part {selectors : List Selector} {child : Selector} {hostId : HostId}
      (member : child ∈ selectors) (denotes : Denotes fleet child hostId) :
      Denotes fleet (.mixed selectors) hostId

/-- A selector of the four kinds in which every group id that is given as a text is the
text of a UUID. -/
inductive Readable : Selector → Prop
  | hostList (hostIds : List HostId) : Readable (.hostList hostIds)
  | tag (key value : String) : Readable (.tag key value)
  | group {groupId : GroupId} {id : Uuid} (named : groupId.resolve = .ok id)
      (includeSubgroups : Bool) : Readable (.group groupId includeSubgroups)
  | mixed {selectors : List Selector} (parts : ∀ child ∈ selectors, Readable child) :
      Readable (.mixed selectors)

section Groups

variable {groups : List Group} {top id : Uuid}

theorem expandLoop_within {among : Uuid → Prop}
    (closed : ∀ child parent, ParentLink groups child parent → among parent → among child)
    {fuel : Nat} {out frontier : List Uuid} (start : ∀ id ∈ out, among id)
    (front : ∀ id ∈ frontier, among id) : ∀ id ∈ expandLoop groups fuel out frontier, among id := by
  induction fuel generalizing out frontier with
  | zero => exact start
  | succ fuel ih =>
    have new : ∀ id ∈ ((subgroups groups frontier).dedup).filter (· ∉ out), among id := by
      intro id member
      obtain ⟨group, inside, rfl, parent, link, up⟩ :=
        mem_subgroups.mp (List.mem_dedup.mp (List.mem_filter.mp member).1)
      exact closed group.id parent ⟨group, inside, rfl, link⟩ (front parent up)
    rw [expandLoop]
    split
    · exact start
    · exact ih (fun id member => (List.mem_append.mp member).elim (start id) (new id)) new

theorem expandLoop_keeps {fuel : Nat} {out frontier : List Uuid} (member : id ∈ out) :
    id ∈ expandLoop groups fuel out frontier := by
  induction fuel generalizing out frontier with
  | zero => exact member
  | succ fuel ih =>
    rw [expandLoop]
    split
    · exact member
    · exact ih (List.mem_append_left _ member)

theorem expandLoop_stops {fuel : Nat} {out frontier : List Uuid} (more : Nat)
    (enough : (unreached groups out).length < fuel) :
    expandLoop groups (fuel + more) out frontier = expandLoop groups fuel out frontier := by
  induction fuel generalizing out frontier with
  | zero => exact absurd enough (Nat.not_lt_zero _)
  | succ fuel ih =>
    rw [Nat.succ_add, expandLoop, expandLoop]
    split
    · rfl
    · next something =>
      obtain ⟨id, new⟩ := List.exists_mem_of_ne_nil _ something
      obtain ⟨found, fresh⟩ := List.mem_filter.mp new
      obtain ⟨group, member, rfl, _⟩ := mem_subgroups.mp (List.mem_dedup.mp found)
      have fewer := unreached_lt ⟨group, member, new, of_decide_eq_true fresh⟩
      exact ih (by omega)

theorem mem_expandGroup : id ∈ expandGroup groups top true ↔ Under groups top id := by
  constructor
  · intro member
    have start : ∀ id ∈ [top], Under groups top id := by
      intro id member
      rw [List.mem_singleton.mp member]
      exact Relation.ReflTransGen.refl
    exact expandLoop_within (fun _ _ link up => Relation.ReflTransGen.head link up) start start id
      member
  · intro below
    induction below using Relation.ReflTransGen.head_induction_on with
    | refl => exact expandLoop_keeps (List.mem_singleton_self _)
    | head link _ ih =>
      obtain ⟨group, member, rfl, up⟩ := link
      exact expandGroup_closed groups top group.id
        (mem_subgroups.mpr ⟨group, member, rfl, _, up, ih⟩)

end Groups

section Denotation

variable {fleet : Fleet} {selector : Selector} {hosts : List HostId} {hostId : HostId}

theorem sorted_sortedSet (rows : List HostId) : (sortedSet rows).Pairwise (· < ·) := by
  have sorted : (sortedSet rows).Pairwise (· ≤ ·) := List.pairwise_insertionSort _ _
  have different : (sortedSet rows).Pairwise (· ≠ ·) := nodup_sortedSet rows
  exact (sorted.and different).imp fun both => lt_of_le_of_ne both.1 both.2

theorem hasLabel_iff {key value : String} {host : Host} :
    hasLabel key value host = true ↔ Labelled host key value := by
  unfold hasLabel Labelled
  cases host.labels with
  | none => simp
  | some labels =>
    simp only [Option.bind_some, Option.some.injEq, exists_eq_left']
    cases found : labels.find? (fun label => label.1 = key) with
    | none => simp
    | some label =>
      obtain ⟨name, content⟩ := label
      obtain rfl : name = key := by simpa using List.find?_some found
      cases content <;> simp

def Resolves (fleet : Fleet) (selector : Selector) (hosts : List HostId) : Prop :=
  resolveTargets fleet selector = .ok hosts ∧ hosts.Pairwise (· < ·) ∧
    ∀ hostId, hostId ∈ hosts ↔ Denotes fleet selector hostId

theorem resolves_sortedSet {rows : List HostId}
    (resolved : resolveTargets fleet selector = .ok (sortedSet rows))
    (denoted : ∀ hostId, hostId ∈ rows ↔ Denotes fleet selector hostId) :
    Resolves fleet selector (sortedSet rows) :=
  ⟨resolved, sorted_sortedSet rows, fun hostId => mem_sortedSet.trans (denoted hostId)⟩

theorem resolves_hostList (fleet : Fleet) (hostIds : List HostId) :
    ∃ hosts, Resolves fleet (.hostList hostIds) hosts := by
  refine ⟨_, resolves_sortedSet (by rw [resolveTargets]) fun hostId => ?_⟩
  simp only [List.mem_filter, List.mem_map, decide_eq_true_eq]
  constructor
  · rintro ⟨⟨host, member, rfl⟩, listed⟩
    exact .listed member listed
  · intro denotes
    cases denotes with
    | listed member listed => exact ⟨⟨_, member, rfl⟩, listed⟩

theorem resolves_tag (fleet : Fleet) (key value : String) :
    ∃ hosts, Resolves fleet (.tag key value) hosts := by
  refine ⟨_, resolves_sortedSet (by rw [resolveTargets]) fun hostId => ?_⟩
  simp only [List.mem_map, List.mem_filter, hasLabel_iff]
  constructor
  · rintro ⟨host, ⟨member, labelled⟩, rfl⟩
    exact .tagged member labelled
  · intro denotes
    cases denotes with
    | tagged member labelled => exact ⟨_, ⟨member, labelled⟩, rfl⟩

theorem resolves_group (fleet : Fleet) {groupId : GroupId} {id : Uuid}
    (named : groupId.resolve = .ok id) (includeSubgroups : Bool) :
    ∃ hosts, Resolves fleet (.group groupId includeSubgroups) hosts := by
  refine ⟨_, resolves_sortedSet (by rw [resolveTargets, named]; rfl) fun hostId => ?_⟩
  simp only [List.mem_map, List.mem_filter, decide_eq_true_eq]
  cases includeSubgroups with
  | false =>
    simp only [expandGroup, Bool.false_eq_true, if_false, List.mem_singleton]
    constructor
    · rintro ⟨row, ⟨member, own⟩, rfl⟩
      exact .own member (own ▸ named)
    · intro denotes
      cases denotes with
      | own member own => exact ⟨_, ⟨member, Except.ok.inj (own.symm.trans named)⟩, rfl⟩
  | true =>
    simp only [mem_expandGroup]
    constructor
    · rintro ⟨row, ⟨member, below⟩, rfl⟩
      exact .under member named below
    · intro denotes
      cases denotes with
      | @under _ top row member own below =>
        obtain rfl : top = id := Except.ok.inj (own.symm.trans named)
        exact ⟨row, ⟨member, below⟩, rfl⟩

theorem resolves_all {selectors : List Selector}
    (each : ∀ child ∈ selectors, ∃ hosts, Resolves fleet child hosts) :
    ∃ all, resolveAll fleet selectors = .ok all ∧
      ∀ hostId, hostId ∈ all ↔ ∃ child ∈ selectors, Denotes fleet child hostId := by
  induction selectors with
  | nil => exact ⟨[], by rw [resolveAll], by simp⟩
  | cons child rest ih =>
    obtain ⟨⟨hosts, resolved, _, denoted⟩, others⟩ := List.forall_mem_cons.mp each
    obtain ⟨all, rest_resolved, rest_denoted⟩ := ih others
    refine ⟨hosts ++ all, ?_, fun hostId => ?_⟩
    · rw [resolveAll, resolved, rest_resolved]
      rfl
    · simp [denoted, rest_denoted]

theorem resolves_of_readable (fleet : Fleet) (readable : Readable selector) :
    ∃ hosts, Resolves fleet selector hosts := by
  induction readable with
  | hostList hostIds => exact resolves_hostList fleet hostIds
  | tag key value => exact resolves_tag fleet key value
  | group named includeSubgroups => exact resolves_group fleet named includeSubgroups
  | @mixed selectors _ ih =>
    obtain ⟨all, resolved, denoted⟩ := resolves_all ih
    refine ⟨_, resolves_sortedSet (by rw [resolveTargets, resolved]; rfl) fun hostId => ?_⟩
    rw [denoted]
    constructor
    · rintro ⟨child, member, denotes⟩
      exact .part member denotes
    · intro denotes
      cases denotes with
      | part member denotes => exact ⟨_, member, denotes⟩

/-- The errors of `UUID` and of `resolve_targets` itself. -/
def IsRefusal (error : DispatchError) : Prop :=
  ∃ message, error = .valueError message ∨ error = .typeError message

theorem resolve_refusal {groupId : GroupId} {error : DispatchError}
    (raised : groupId.resolve = .error error) : IsRefusal error := by
  cases groupId with
  | uuid value => cases raised
  | text value =>
    simp only [GroupId.resolve, parseUuid] at raised
    split at raised
    · split at raised <;> cases raised
      exact ⟨_, .inl rfl⟩
    · cases raised
      exact ⟨_, .inl rfl⟩

mutual

theorem readable_or_refused (fleet : Fleet) :
    ∀ selector, Readable selector ∨
      ∃ error, resolveTargets fleet selector = .error error ∧ IsRefusal error
  | .hostList hostIds => .inl (.hostList hostIds)
  | .tag key value => .inl (.tag key value)
  | .unknown typeName => by
      refine .inr ⟨_, by rw [resolveTargets], _, .inr rfl⟩
  | .group groupId includeSubgroups => by
      cases named : groupId.resolve with
      | ok id => exact .inl (.group named includeSubgroups)
      | error error =>
        refine .inr ⟨error, ?_, resolve_refusal named⟩
        rw [resolveTargets, named]
        rfl
  | .mixed selectors => by
      rcases readable_all_or_refused fleet selectors with readable | ⟨error, raised, refusal⟩
      · exact .inl (.mixed readable)
      · refine .inr ⟨error, ?_, refusal⟩
        rw [resolveTargets, raised]
        rfl

theorem readable_all_or_refused (fleet : Fleet) :
    ∀ selectors, (∀ child ∈ selectors, Readable child) ∨
      ∃ error, resolveAll fleet selectors = .error error ∧ IsRefusal error
  | [] => .inl (List.forall_mem_nil _)
  | child :: rest => by
      rcases readable_or_refused fleet child with readable | ⟨error, raised, refusal⟩
      · rcases readable_all_or_refused fleet rest with others | ⟨error, raised, refusal⟩
        · exact .inl (List.forall_mem_cons.mpr ⟨readable, others⟩)
        · obtain ⟨hosts, resolved, _⟩ := resolves_of_readable fleet readable
          refine .inr ⟨error, ?_, refusal⟩
          rw [resolveAll, resolved, raised]
          rfl
      · refine .inr ⟨error, ?_, refusal⟩
        rw [resolveAll, raised]
        rfl

end

section Replace

open String.Slice.Pattern

theorem replace_empty {old : String} (some_text : old ≠ "") (new : String) :
    "".replace old new = "" := by
  have steps := (Model.ForwardStringSearcher.lawfulToForwardSearcherModel
    some_text).isValidSearchFrom_toList "".toSlice
  have nothing_after (pos : "".toSlice.Pos) : ¬ "".toSlice.startPos < pos := by
    have ended : "".toSlice.startPos = "".toSlice.endPos := by decide
    rw [ended]
    exact String.Slice.Pos.not_endPos_lt
  have no_steps : (ToForwardSearcher.toSearcher old "".toSlice).toList = [] := by
    generalize (ToForwardSearcher.toSearcher old "".toSlice).toList = found at steps
    cases steps with
    | endPos => rfl
    | matched longest _ =>
      have strict := Model.ForwardStringSearcher.strictPatternModel some_text
      exact absurd longest.lt (nothing_after _)
    | mismatched later _ _ => exact absurd later (nothing_after _)
  rw [String.replace, String.Slice.replace, ← Std.Iter.foldl_toList, no_steps]
  rfl

end Replace

/-- A selector resolves to the hosts that it denotes, each once and in order; one that cannot be
read is refused. The loop over the subgroups ends by itself. -/
theorem resolveTargets_denotes (fleet : Fleet) (selector : Selector) :
    (Readable selector → ∃ hosts, Resolves fleet selector hosts) ∧
      (¬ Readable selector →
        ∃ error, resolveTargets fleet selector = .error error ∧ IsRefusal error) ∧
      ∀ top more, expandLoop fleet.groups (fleet.groups.length + 1 + more) [top] [top] =
        expandGroup fleet.groups top true :=
  ⟨resolves_of_readable fleet, (readable_or_refused fleet selector).resolve_left,
    fun _ more => expandLoop_stops more (Nat.lt_succ_of_le (List.length_filter_le _ _))⟩

theorem unreadable_group_refused :
    ¬ ∃ hosts, resolveTargets ⟨[], [], []⟩ (.group (.text "") true) = .ok hosts := by
  rintro ⟨hosts, resolved⟩
  have refused : (GroupId.text "").resolve =
      .error (.valueError "badly formed hexadecimal UUID string") := by
    rw [GroupId.resolve, parseUuid, replace_empty (by decide), replace_empty (by decide)]
    rfl
  rw [resolveTargets, refused] at resolved
  cases resolved

end Denotation

end HlHelper.Dispatch
