import HlHelper.Dispatch.Targets

/-! `_selectors_overlap`: two target selectors compared by their keys, against the hosts
that they resolve to. -/

namespace HlHelper.Scheduling

open Dispatch (DispatchError Fleet Host Selector mem_sortedSet resolveTargets sortedSet)

inductive HostIds where
  | list (hostIds : List HostId)
  | one (hostId : HostId)
  deriving DecidableEq, Repr

/-- A stored selector: the values that `_selectors_overlap` looks up, and the other keys. -/
structure SelectorDict where
  type : Option String
  groupId : Option String
  hostId : Option HostId
  hostIds : Option HostIds
  others : List String
  deriving DecidableEq, Repr

namespace SelectorDict

def empty : SelectorDict := ⟨none, none, none, none, []⟩

/-- Empty, or of type `all`. -/
def universal (dict : SelectorDict) : Prop := dict = empty ∨ dict.type = some "all"

def namesHosts (dict : SelectorDict) : Prop := dict.hostId ≠ none ∨ dict.hostIds ≠ none

def hosts (dict : SelectorDict) : List HostId :=
  dict.hostId.toList ++
    match dict.hostIds with
    | some (.list hostIds) => hostIds
    | some (.one hostId) => [hostId]
    | none => []

instance (dict : SelectorDict) : Decidable dict.universal := inferInstanceAs (Decidable (_ ∨ _))

instance (dict : SelectorDict) : Decidable dict.namesHosts := inferInstanceAs (Decidable (_ ∨ _))

end SelectorDict

def selectorsOverlap (windowSel scheduleSel : SelectorDict) : Bool :=
  if windowSel.universal ∨ scheduleSel.universal then true
  else
    match windowSel.groupId, scheduleSel.groupId with
    | some windowGroupId, some scheduleGroupId => windowGroupId = scheduleGroupId
    | windowGroupId, scheduleGroupId =>
      if windowGroupId ≠ none ∧ scheduleSel.namesHosts ∨
          scheduleGroupId ≠ none ∧ windowSel.namesHosts then true
      else if windowSel.hosts ≠ [] ∧ scheduleSel.hosts ≠ [] then
        windowSel.hosts.any (· ∈ scheduleSel.hosts)
      else false

/-- The selectors that windows and schedules store; the children of a mixed one are those
of the dispatcher. -/
inductive TargetSelector where
  | all (typed : Bool)
  | host (hostId : HostId)
  | hostList (hostIds : List HostId)
  | group (groupId : String) (includeSubgroups : Option Bool)
  | tag (key value : String)
  | mixed (selectors : List Selector)

namespace TargetSelector

def dict : TargetSelector → SelectorDict
  | .all false => .empty
  | .all true => { SelectorDict.empty with type := some "all" }
  | .host hostId => { SelectorDict.empty with hostId := some hostId }
  | .hostList hostIds => { SelectorDict.empty with hostIds := some (.list hostIds) }
  | .group groupId includeSubgroups =>
    { SelectorDict.empty with
      groupId := some groupId
      others := if includeSubgroups.isSome then ["include_subgroups"] else [] }
  | .tag _ _ => { SelectorDict.empty with others := ["tag"] }
  | .mixed _ => { SelectorDict.empty with others := ["selectors"] }

/-- The selector that is resolved when a task is dispatched; a universal one names none. -/
def selector : TargetSelector → Option Selector
  | .all _ => none
  | .host hostId => some (.hostList [hostId])
  | .hostList hostIds => some (.hostList hostIds)
  | .group groupId includeSubgroups =>
    some (.group (.text groupId) (includeSubgroups.getD true))
  | .tag key value => some (.tag key value)
  | .mixed selectors => some (.mixed selectors)

def Selects (fleet : Fleet) (target : TargetSelector) (hostId : HostId) : Prop :=
  match target.selector with
  | none => hostId ∈ fleet.hosts.map Host.id
  | some selector => ∃ hosts, resolveTargets fleet selector = .ok hosts ∧ hostId ∈ hosts

def Share (fleet : Fleet) (window schedule : TargetSelector) : Prop :=
  ∃ hostId, window.Selects fleet hostId ∧ schedule.Selects fleet hostId

/-- The pairs that are compared soundly by their keys: with a universal selector, of one
group, of hosts, and of a group with hosts. -/
def Comparable : TargetSelector → TargetSelector → Prop
  | .all _, _ | _, .all _ => True
  | .group first _, .group second _ => first = second
  | .group _ _, .host _ | .group _ _, .hostList _ => True
  | .host _, .group _ _ | .hostList _, .group _ _ => True
  | .host _, .host _ | .host _, .hostList _ => True
  | .hostList _, .host _ | .hostList _, .hostList _ => True
  | .tag _ _, _ | _, .tag _ _ | .mixed _, _ | _, .mixed _ => False

variable {fleet : Fleet} {window schedule : TargetSelector} {hostId : HostId}

theorem universal_all (typed : Bool) : (all typed).dict.universal := by
  cases typed
  · exact .inl rfl
  · exact .inr rfl

theorem overlap_of_universal {windowSel scheduleSel : SelectorDict}
    (either : windowSel.universal ∨ scheduleSel.universal) :
    selectorsOverlap windowSel scheduleSel = true := if_pos either

theorem mem_hosts_of_selects {hostIds : List HostId}
    (names : window.selector = some (.hostList hostIds)) (listed : window.dict.hosts = hostIds)
    (selects : window.Selects fleet hostId) : hostId ∈ window.dict.hosts := by
  rw [Selects, names] at selects
  obtain ⟨hosts, resolved, member⟩ := selects
  rw [resolveTargets] at resolved
  cases resolved
  rw [listed]
  simpa using (List.mem_filter.mp (mem_sortedSet.mp member)).2

theorem overlap_of_hosts (windowUngrouped : window.dict.groupId = none)
    (scheduleUngrouped : schedule.dict.groupId = none) (inWindow : hostId ∈ window.dict.hosts)
    (inSchedule : hostId ∈ schedule.dict.hosts) :
    selectorsOverlap window.dict schedule.dict = true := by
  unfold selectorsOverlap
  split
  · rfl
  rw [windowUngrouped, scheduleUngrouped]
  simp only [ne_eq, not_true_eq_false, false_and, or_self, if_false]
  rw [if_pos ⟨List.ne_nil_of_mem inWindow, List.ne_nil_of_mem inSchedule⟩]
  exact List.any_eq_true.mpr ⟨hostId, inWindow, by simpa using inSchedule⟩

theorem overlap_of_comparable (comparable : Comparable window schedule)
    (shared : Share fleet window schedule) :
    selectorsOverlap window.dict schedule.dict = true := by
  obtain ⟨hostId, inWindow, inSchedule⟩ := shared
  cases window with
  | all typed => exact overlap_of_universal (.inl (universal_all typed))
  | group groupId =>
    cases schedule with
    | all typed => exact overlap_of_universal (.inr (universal_all typed))
    | group other =>
      obtain rfl : groupId = other := comparable
      simp [selectorsOverlap, dict, SelectorDict.empty]
    | host | hostList =>
      simp [selectorsOverlap, dict, SelectorDict.namesHosts, SelectorDict.empty]
    | tag | mixed => exact comparable.elim
  | host | hostList =>
    have listed := mem_hosts_of_selects rfl rfl inWindow
    cases schedule with
    | all typed => exact overlap_of_universal (.inr (universal_all typed))
    | group => simp [selectorsOverlap, dict, SelectorDict.namesHosts, SelectorDict.empty]
    | host | hostList =>
      exact overlap_of_hosts rfl rfl listed (mem_hosts_of_selects rfl rfl inSchedule)
    | tag | mixed => exact comparable.elim
  | tag | mixed =>
    cases schedule with
    | all typed => exact overlap_of_universal (.inr (universal_all typed))
    | _ => exact comparable.elim

theorem apart_of_not_comparable (incomparable : ¬ Comparable window schedule) :
    selectorsOverlap window.dict schedule.dict = false := by
  cases window with
  | all => exact absurd trivial incomparable
  | group groupId =>
    cases schedule with
    | group other =>
      have differ : groupId ≠ other := incomparable
      simp [selectorsOverlap, dict, SelectorDict.universal, SelectorDict.empty, differ]
    | tag | mixed =>
      simp [selectorsOverlap, dict, SelectorDict.universal, SelectorDict.namesHosts,
        SelectorDict.hosts, SelectorDict.empty]
    | _ => exact absurd trivial incomparable
  | host | hostList =>
    cases schedule with
    | tag | mixed =>
      simp [selectorsOverlap, dict, SelectorDict.universal, SelectorDict.hosts,
        SelectorDict.empty]
    | _ => exact absurd trivial incomparable
  | tag | mixed =>
    cases schedule with
    | all => exact absurd trivial incomparable
    | _ =>
      simp [selectorsOverlap, dict, SelectorDict.universal, SelectorDict.namesHosts,
        SelectorDict.hosts, SelectorDict.empty]

theorem sees_shared_iff (fleet : Fleet) (window schedule : TargetSelector) :
    (Share fleet window schedule → selectorsOverlap window.dict schedule.dict = true) ↔
      Comparable window schedule ∨ ¬ Share fleet window schedule := by
  constructor
  · intro seen
    by_contra missed
    obtain ⟨incomparable, shared⟩ := not_or.mp missed
    have apart := apart_of_not_comparable incomparable
    exact absurd ((seen (not_not.mp shared)).symm.trans apart) (by simp)
  · rintro (comparable | disjoint) shared
    · exact overlap_of_comparable comparable shared
    · exact absurd shared disjoint

end TargetSelector

end HlHelper.Scheduling
