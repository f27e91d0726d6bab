import Mathlib.Data.List.Pairwise
import Mathlib.Order.Lattice

/-! The events of an OSV range, and the versions that they make vulnerable. -/

namespace HlHelper.Advisory

inductive Event (V : Type) where
  | introduced (version : V)
  | fixed (version : V)
  | lastAffected (version : V)
  deriving DecidableEq, Repr

/-- From an introduced version to before a fixed one, up to a last affected one, or on. -/
structure Interval (V : Type) where
  introduced : V
  fixed : Option V
  lastAffected : Option V
  deriving DecidableEq, Repr

section Read

variable {V W : Type} (f : V → W)

def Event.version : Event V → V
  | .introduced version | .fixed version | .lastAffected version => version

def Event.map : Event V → Event W
  | .introduced version => .introduced (f version)
  | .fixed version => .fixed (f version)
  | .lastAffected version => .lastAffected (f version)

def Interval.map (interval : Interval V) : Interval W where
  introduced := f interval.introduced
  fixed := interval.fixed.map f
  lastAffected := interval.lastAffected.map f

def Event.introducedVersion : Event V → Option V
  | .introduced version => some version
  | _ => none

def Event.fixedVersion : Event V → Option V
  | .fixed version => some version
  | _ => none

def lastIntroduced (events : List (Event V)) : Option V :=
  events.reverse.findSome? Event.introducedVersion

def lastFixed (events : List (Event V)) : Option V :=
  events.reverse.findSome? Event.fixedVersion

/-- The intervals of events in their order, where `opened` has not ended yet. -/
def intervals : Option V → List (Event V) → List (Interval V)
  | none, [] => []
  | some first, [] => [⟨first, none, none⟩]
  | none, .introduced first :: events => intervals (some first) events
  | some first, .introduced _ :: events => intervals (some first) events
  | none, .fixed _ :: events => intervals none events
  | some first, .fixed version :: events => ⟨first, some version, none⟩ :: intervals none events
  | none, .lastAffected _ :: events => intervals none events
  | some first, .lastAffected last :: events => ⟨first, none, some last⟩ :: intervals none events

theorem lastIntroduced_concat (events : List (Event V)) (event : Event V) :
    lastIntroduced (events ++ [event]) = event.introducedVersion.or (lastIntroduced events) := by
  rw [lastIntroduced, List.reverse_concat, List.findSome?_cons]
  cases event <;> rfl

theorem lastFixed_concat (events : List (Event V)) (event : Event V) :
    lastFixed (events ++ [event]) = event.fixedVersion.or (lastFixed events) := by
  rw [lastFixed, List.reverse_concat, List.findSome?_cons]
  cases event <;> rfl

theorem lastIntroduced_cons (event : Event V) (events : List (Event V)) :
    lastIntroduced (event :: events) = (lastIntroduced events).or event.introducedVersion := by
  simp [lastIntroduced, List.findSome?_append]

theorem introduced_mem {events : List (Event V)} {first : V}
    (last : lastIntroduced events = some first) : .introduced first ∈ events := by
  obtain ⟨event, member, found⟩ := List.exists_of_findSome?_eq_some last
  cases event with
  | introduced version =>
    cases found
    exact List.mem_reverse.mp member
  | fixed version => cases found
  | lastAffected version => cases found

theorem fixed_mem {events : List (Event V)} {version : V}
    (last : lastFixed events = some version) : .fixed version ∈ events := by
  obtain ⟨event, member, found⟩ := List.exists_of_findSome?_eq_some last
  cases event with
  | introduced first => cases found
  | fixed other =>
    cases found
    exact List.mem_reverse.mp member
  | lastAffected other => cases found

def Alternating : Bool → List (Event V) → Prop
  | _, [] => True
  | false, .introduced _ :: events => Alternating true events
  | true, .fixed _ :: events => Alternating false events
  | true, .lastAffected _ :: events => Alternating false events
  | _, _ => False

theorem Alternating.begins {events : List (Event V)} (turns : Alternating false events)
    (some_ : events ≠ []) :
    ∃ first rest, events = .introduced first :: rest ∧ Alternating true rest := by
  cases events with
  | nil => exact absurd rfl some_
  | cons event rest => cases event with
    | introduced first => exact ⟨first, rest, rfl, turns⟩
    | fixed version => exact turns.elim
    | lastAffected version => exact turns.elim

theorem Alternating.ended {events : List (Event V)} (turns : Alternating true events)
    (last : lastIntroduced events = none) :
    events = [] ∨ (∃ version, events = [.fixed version]) ∨
      ∃ version, events = [.lastAffected version] := by
  have closed (rest : List (Event V)) (next : Alternating false rest)
      (none_ : lastIntroduced rest = none) : rest = [] := by
    cases rest with
    | nil => rfl
    | cons event rest => cases event with
      | introduced first => simp [lastIntroduced_cons, Event.introducedVersion] at none_
      | fixed version => exact next.elim
      | lastAffected version => exact next.elim
  cases events with
  | nil => exact .inl rfl
  | cons event rest =>
    rw [lastIntroduced_cons, Option.or_eq_none_iff] at last
    cases event with
    | introduced first => exact turns.elim
    | fixed version => exact .inr (.inl ⟨version, by rw [closed rest turns last.1]⟩)
    | lastAffected version => exact .inr (.inr ⟨version, by rw [closed rest turns last.1]⟩)

@[simp]
theorem version_map (event : Event V) : (event.map f).version = f event.version := by
  cases event <;> rfl

theorem intervals_map (opened : Option V) (events : List (Event V)) :
    intervals (opened.map f) (events.map (Event.map f)) =
      (intervals opened events).map (Interval.map f) := by
  induction events generalizing opened with
  | nil => cases opened <;> rfl
  | cons event events ih =>
    have closed := ih none
    cases opened with
    | none => cases event with
      | introduced first => exact ih (some first)
      | fixed version => exact closed
      | lastAffected last => exact closed
    | some first => cases event with
      | introduced version => exact ih (some first)
      | fixed version => exact congrArg (_ :: ·) closed
      | lastAffected last => exact congrArg (_ :: ·) closed

def Interval.All (P : V → Prop) (interval : Interval V) : Prop :=
  P interval.introduced ∧ (∀ version ∈ interval.fixed, P version) ∧
    ∀ last ∈ interval.lastAffected, P last

theorem all_of_mem_intervals {P : V → Prop} {opened : Option V} {events : List (Event V)}
    (begun : ∀ first ∈ opened, P first) (each : ∀ event ∈ events, P event.version)
    {interval : Interval V} (member : interval ∈ intervals opened events) : interval.All P := by
  induction events generalizing opened with
  | nil => cases opened with
    | none => cases member
    | some first =>
      obtain rfl := List.mem_singleton.mp member
      simpa [Interval.All] using begun first rfl
  | cons event events ih =>
    obtain ⟨own, later⟩ := List.forall_mem_cons.mp each
    have closed := @ih none (fun _ h => nomatch h) later
    cases opened with
    | none => cases event with
      | introduced first => exact ih (fun _ same => Option.some.inj same ▸ own) later member
      | fixed version => exact closed member
      | lastAffected last => exact closed member
    | some first => cases event with
      | introduced version => exact ih begun later member
      | fixed version =>
        rcases List.mem_cons.mp member with rfl | member
        · simpa [Interval.All, Event.version] using And.intro (begun first rfl) own
        · exact closed member
      | lastAffected last =>
        rcases List.mem_cons.mp member with rfl | member
        · simpa [Interval.All, Event.version] using And.intro (begun first rfl) own
        · exact closed member

end Read

section Evaluate

variable {V : Type} [LinearOrder V]

def Interval.Holds (interval : Interval V) (v : V) : Prop :=
  interval.introduced ≤ v ∧ (∀ version ∈ interval.fixed, v < version) ∧
    ∀ last ∈ interval.lastAffected, v ≤ last

/-- What an event makes of a version, when the events are passed in their order. -/
def evaluate (v : V) (vulnerable : Bool) : Event V → Bool
  | .introduced first => if first ≤ v then true else vulnerable
  | .fixed version => if version ≤ v then false else vulnerable
  | .lastAffected last => if last < v then false else vulnerable

theorem evaluate_before {v : V} {event : Event V} (before : v < event.version)
    (vulnerable : Bool) : evaluate v vulnerable event = vulnerable := by
  cases event with
  | introduced first => exact if_neg (not_le.mpr before)
  | fixed version => exact if_neg (not_le.mpr before)
  | lastAffected last => exact if_neg (not_lt.mpr (le_of_lt before))

theorem foldl_evaluate_before {v : V} {events : List (Event V)}
    (before : ∀ event ∈ events, v < event.version) (vulnerable : Bool) :
    events.foldl (evaluate v) vulnerable = vulnerable := by
  induction events with
  | nil => rfl
  | cons event events ih =>
    rw [List.foldl_cons, evaluate_before (before event List.mem_cons_self)]
    exact ih fun later member => before later (List.mem_cons_of_mem event member)

theorem foldl_evaluate_closed {v : V} {events : List (Event V)} {interval : Interval V}
    {vulnerable : Bool} (held : vulnerable = true ↔ interval.Holds v)
    (before : interval.Holds v → ∀ event ∈ events, v < event.version)
    (closed : events.foldl (evaluate v) false = true ↔
      ∃ interval ∈ intervals none events, interval.Holds v) :
    events.foldl (evaluate v) vulnerable = true ↔
      ∃ other ∈ interval :: intervals none events, other.Holds v := by
  simp only [List.mem_cons, exists_eq_or_imp]
  by_cases holds : interval.Holds v
  · rw [held.mpr holds, foldl_evaluate_before (before holds)]
    simp [holds]
  · rw [Bool.eq_false_iff.mpr (mt held.mp holds), closed]
    simp [holds]

theorem foldl_evaluate_iff {v : V} {events : List (Event V)} (opened : Option V)
    (ordered : events.Pairwise (fun event later => event.version < later.version))
    (begun : ∀ first ∈ opened, ∀ event ∈ events, first < event.version) :
    events.foldl (evaluate v) (opened.any (· ≤ v)) = true ↔
      ∃ interval ∈ intervals opened events, interval.Holds v := by
  induction events generalizing opened with
  | nil => cases opened <;> simp [intervals, Interval.Holds]
  | cons event events ih =>
    obtain ⟨later, rest⟩ := List.pairwise_cons.mp ordered
    have closed := ih none rest (by simp)
    rw [List.foldl_cons]
    cases opened with
    | none => cases event with
      | introduced first =>
        have next := ih (some first) rest fun _ same => Option.some.inj same ▸ later
        simpa [evaluate, intervals] using next
      | fixed version => simpa [evaluate, intervals] using closed
      | lastAffected last => simpa [evaluate, intervals] using closed
    | some first =>
      have after : first < event.version := begun first rfl event List.mem_cons_self
      cases event with
      | introduced version =>
        have next := ih (some first) rest fun _ same event member =>
          begun _ same event (List.mem_cons_of_mem _ member)
        have kept : evaluate v (decide (first ≤ v)) (.introduced version) =
            decide (first ≤ v) := by
          by_cases reached : version ≤ v
          · simp [evaluate, reached, (le_of_lt after).trans reached]
          · simp [evaluate, reached]
        simpa [kept, intervals] using next
      | fixed version =>
        refine foldl_evaluate_closed ?_ ?_ closed
        · simp only [Option.any_some, evaluate, Interval.Holds]
          by_cases reached : version ≤ v
          · simp [reached]
          · simp [reached, not_le.mp reached]
        · exact fun holds event member => (holds.2.1 version rfl).trans (later event member)
      | lastAffected last =>
        refine foldl_evaluate_closed ?_ ?_ closed
        · simp only [Option.any_some, evaluate, Interval.Holds]
          by_cases passed : last < v
          · simp [passed]
          · simp [passed, not_lt.mp passed]
        · exact fun holds event member =>
            lt_of_le_of_lt (holds.2.2 last rfl) (later event member)

end Evaluate

end HlHelper.Advisory
