import HlHelper.Advisory.Versions
import Mathlib.Data.List.Induction

/-! `parse_osv_record`: the affected packages of an OSV record as rows of one range each. -/

namespace HlHelper.Advisory

open Dispatch (truthy truthy_eq_some)

structure OsvRange where
  type : Option String
  events : List (Event String)
  deriving DecidableEq, Repr

structure OsvAffected where
  ecosystem : Option String
  name : Option String
  ranges : List OsvRange
  versions : List String
  deriving DecidableEq, Repr

structure OsvRecord where
  id : Option String
  affected : List OsvAffected
  deriving DecidableEq, Repr

structure FeedAffected where
  ecosystem : String
  package : String
  introduced : Option String
  fixed : Option String
  rangeKind : String
  deriving DecidableEq, Repr

structure FeedAdvisory where
  id : String
  affected : List FeedAffected
  deriving DecidableEq, Repr

structure Bounds where
  introduced : Option String
  fixed : Option String
  deriving DecidableEq, Repr

structure Reading where
  bounds : Bounds
  rangeKind : String
  deriving DecidableEq, Repr

def readEvent (bounds : Bounds) : Event String → Bounds
  | .introduced version => { bounds with introduced := some version }
  | .fixed version => { bounds with fixed := some version }
  | .lastAffected version =>
    if truthy bounds.fixed = none then
      { bounds with introduced := (truthy bounds.introduced).or (some version) }
    else bounds

def readRange (reading : Reading) (rng : OsvRange) : Reading where
  bounds := rng.events.foldl readEvent reading.bounds
  rangeKind := rng.type.getD "ECOSYSTEM"

/-- A record without ranges shows the first of its versions. -/
def readVersions (versions : List String) (reading : Reading) : Reading :=
  match versions with
  | [] => reading
  | first :: rest =>
    if truthy reading.bounds.introduced = none ∧ truthy reading.bounds.fixed = none then
      { bounds :=
          { introduced := some first
            fixed := if rest = [] then reading.bounds.fixed else none }
        rangeKind := if reading.rangeKind = "" then "VERSIONS" else reading.rangeKind }
    else reading

def OsvAffected.reading (aff : OsvAffected) : Reading :=
  readVersions aff.versions (aff.ranges.foldl readRange ⟨⟨none, none⟩, "ECOSYSTEM"⟩)

def OsvAffected.packageEcosystem (aff : OsvAffected) : String := aff.ecosystem.getD "unknown"

def parseAffected (aff : OsvAffected) : Option FeedAffected :=
  (truthy aff.name).map fun package =>
    { ecosystem := aff.packageEcosystem
      package := package
      introduced := aff.reading.bounds.introduced
      fixed := aff.reading.bounds.fixed
      rangeKind := aff.reading.rangeKind }

def parseOsvRecord (record : OsvRecord) : Option FeedAdvisory :=
  match record.affected.filterMap parseAffected with
  | [] => none
  | rows => some ⟨record.id.getD "", rows⟩

def OsvRecord.rows (record : OsvRecord) : List FeedAffected :=
  (parseOsvRecord record).elim [] FeedAdvisory.affected

theorem rows_eq (record : OsvRecord) :
    record.rows = record.affected.filterMap parseAffected := by
  unfold OsvRecord.rows parseOsvRecord
  split
  · next empty => rw [empty]; rfl
  · rfl

structure Names (aff : OsvAffected) (ecosystem name : String) : Prop where
  ecosystem : aff.packageEcosystem = ecosystem
  name : aff.name = some name

theorem mem_rows {record : OsvRecord} {ecosystem name : String} (named : name ≠ "")
    (holds : FeedAffected → Prop) :
    (∃ row ∈ record.rows, row.ecosystem = ecosystem ∧ row.package = name ∧ holds row) ↔
      ∃ aff ∈ record.affected, Names aff ecosystem name ∧
        holds ⟨ecosystem, name, aff.reading.bounds.introduced, aff.reading.bounds.fixed,
          aff.reading.rangeKind⟩ := by
  rw [rows_eq]
  simp only [List.mem_filterMap, parseAffected, Option.map_eq_some_iff]
  constructor
  · rintro ⟨row, ⟨aff, member, package, filled, rfl⟩, rfl, rfl, held⟩
    exact ⟨aff, member, ⟨rfl, (truthy_eq_some.mp filled).1⟩, held⟩
  · rintro ⟨aff, member, ⟨rfl, called⟩, held⟩
    exact ⟨_, ⟨aff, member, name, truthy_eq_some.mpr ⟨called, named⟩, rfl⟩, rfl, rfl, held⟩

section Vulnerable

variable (packaging : Option Packaging) (digits : Digits)

def OsvAffected.intervals (aff : OsvAffected) : List (Interval String) :=
  (aff.ranges.filter (fun rng => rng.type ≠ some "GIT")).flatMap fun rng =>
    Advisory.intervals none rng.events

/-- The record calls a version of a package vulnerable. -/
def Vulnerable (record : OsvRecord) (ecosystem name version : String) : Prop :=
  ∃ aff ∈ record.affected, Names aff ecosystem name ∧
    (version ∈ aff.versions ∨
      ∃ interval ∈ aff.intervals, interval.holdsVersion packaging digits ecosystem version = true)

def Preserved (record : OsvRecord) (ecosystem name : String) : Prop :=
  ∀ version,
    Vulnerable packaging digits record ecosystem name version ↔
      ∃ row ∈ record.rows, row.ecosystem = ecosystem ∧ row.package = name ∧
        inRange packaging digits version row.introduced row.fixed row.ecosystem = true

end Vulnerable

section Bounds

theorem fixed_foldl_readEvent (events : List (Event String)) (bounds : Bounds) :
    (events.foldl readEvent bounds).fixed = (lastFixed events).or bounds.fixed := by
  induction events using List.reverseRecOn with
  | nil => rfl
  | append_singleton events event ih =>
    rw [List.foldl_concat, lastFixed_concat]
    cases event with
    | introduced version => exact ih
    | fixed version => rfl
    | lastAffected version =>
      simp only [readEvent]
      split <;> exact ih

theorem introduced_foldl_readEvent {events : List (Event String)} {first : String}
    (last : lastIntroduced events = some first) (named : first ≠ "") (bounds : Bounds) :
    (events.foldl readEvent bounds).introduced = some first := by
  induction events using List.reverseRecOn with
  | nil => cases last
  | append_singleton events event ih =>
    rw [lastIntroduced_concat] at last
    rw [List.foldl_concat]
    cases event with
    | introduced version => exact last
    | fixed version => exact ih last
    | lastAffected version =>
      have before := ih last
      have filled : truthy (some first) = some first := truthy_eq_some.mpr ⟨rfl, named⟩
      simp only [readEvent]
      split
      · rw [before, filled]
        rfl
      · exact before

theorem bounds_foldl_readRange (ranges : List OsvRange) (reading : Reading) :
    (ranges.foldl readRange reading).bounds =
      (ranges.flatMap OsvRange.events).foldl readEvent reading.bounds := by
  induction ranges generalizing reading with
  | nil => rfl
  | cons rng ranges ih => rw [List.foldl_cons, ih, List.flatMap_cons, List.foldl_append, readRange]

end Bounds

def OsvAffected.events (aff : OsvAffected) : List (Event String) :=
  aff.ranges.flatMap OsvRange.events

theorem bounds_reading {aff : OsvAffected} {first : String}
    (last : lastIntroduced aff.events = some first) (named : first ≠ "") :
    aff.reading.bounds = ⟨some first, lastFixed aff.events⟩ := by
  have filled : truthy (some first) = some first := truthy_eq_some.mpr ⟨rfl, named⟩
  have read : (aff.ranges.foldl readRange ⟨⟨none, none⟩, "ECOSYSTEM"⟩).bounds =
      ⟨some first, lastFixed aff.events⟩ := by
    rw [bounds_foldl_readRange]
    have introduced := introduced_foldl_readEvent last named ⟨none, none⟩
    have fixed := fixed_foldl_readEvent aff.events ⟨none, none⟩
    rw [Option.or_none] at fixed
    rw [← introduced, ← fixed]
    rfl
  unfold OsvAffected.reading readVersions
  split
  · exact read
  · rw [read, filled, if_neg (by simp), read]

section Single

variable {packaging : Option Packaging} {digits : Digits} {ecosystem name : String}
  {record : OsvRecord} {aff : OsvAffected}

/-- The intervals of an entry are one, from the version introduced last to the version fixed
last, and its versions lie in it. -/
structure States (packaging : Option Packaging) (digits : Digits) (ecosystem : String)
    (aff : OsvAffected) (first : String) (fix : Option String) : Prop where
  named : first ≠ ""
  introduced : lastIntroduced aff.events = some first
  fixed : lastFixed aff.events = fix
  stated : aff.intervals ≠ []
  only : ∀ interval ∈ aff.intervals, interval = ⟨first, fix, none⟩
  listed : ∀ version ∈ aff.versions,
    inRange packaging digits version (some first) fix ecosystem = true

def Single (packaging : Option Packaging) (digits : Digits) (ecosystem : String)
    (aff : OsvAffected) : Prop :=
  ∃ first fix, States packaging digits ecosystem aff first fix

theorem holdsVersion_fixed {first version : String} {fix : Option String} :
    Interval.holdsVersion packaging digits ⟨first, fix, none⟩ ecosystem version =
      inRange packaging digits version (some first) fix ecosystem := by
  rw [Interval.holdsVersion, Option.all_none, Bool.and_true]

theorem States.vulnerable_iff {first : String} {fix : Option String}
    (states : States packaging digits ecosystem aff first fix) (version : String) :
    (version ∈ aff.versions ∨
        ∃ interval ∈ aff.intervals,
          interval.holdsVersion packaging digits ecosystem version = true) ↔
      inRange packaging digits version aff.reading.bounds.introduced aff.reading.bounds.fixed
        ecosystem = true := by
  rw [bounds_reading states.introduced states.named, states.fixed]
  constructor
  · rintro (member | ⟨interval, member, holds⟩)
    · exact states.listed version member
    · rwa [states.only interval member, holdsVersion_fixed] at holds
  · intro inside
    obtain ⟨interval, member⟩ := List.exists_mem_of_ne_nil _ states.stated
    refine .inr ⟨interval, member, ?_⟩
    rwa [states.only interval member, holdsVersion_fixed]

theorem preserved_iff_entries (named : name ≠ "") :
    Preserved packaging digits record ecosystem name ↔
      ∀ version,
        Vulnerable packaging digits record ecosystem name version ↔
          ∃ aff ∈ record.affected, Names aff ecosystem name ∧
            inRange packaging digits version aff.reading.bounds.introduced
              aff.reading.bounds.fixed ecosystem = true := by
  refine forall_congr' fun version => ?_
  rw [mem_rows named fun row =>
    inRange packaging digits version row.introduced row.fixed row.ecosystem = true]

theorem preserved_of_single (named : name ≠ "")
    (single : ∀ aff ∈ record.affected, Names aff ecosystem name →
      Single packaging digits ecosystem aff) :
    Preserved packaging digits record ecosystem name := by
  rw [preserved_iff_entries named]
  intro version
  refine exists_congr fun aff => and_congr_right fun member => and_congr_right fun names => ?_
  obtain ⟨first, fix, states⟩ := single aff member names
  exact states.vulnerable_iff version

end Single

/-- A package with one entry, of one range whose events are in OSV order. -/
structure OneRange {packaging : Option Packaging} {digits : Digits} {ecosystem : String}
    (comparison : Comparison packaging digits ecosystem) (record : OsvRecord) (name : String)
    (aff : OsvAffected) (rng : OsvRange) : Prop where
  member : aff ∈ record.affected
  names : Names aff ecosystem name
  only : ∀ other ∈ record.affected, Names other ecosystem name → other = aff
  ranges : aff.ranges = [rng]
  versioned : rng.type ≠ some "GIT"
  begun : rng.events ≠ []
  alternating : Alternating false rng.events
  readable : ∀ event ∈ rng.events, comparison.Readable event.version
  ordered : rng.events.Pairwise fun event later =>
    comparison.read event.version < comparison.read later.version
  listed : ∀ version ∈ aff.versions,
    ∃ interval ∈ aff.intervals, interval.holdsVersion packaging digits ecosystem version = true

section OneRange

variable {packaging : Option Packaging} {digits : Digits} {ecosystem name : String}
  {comparison : Comparison packaging digits ecosystem} {record : OsvRecord} {aff : OsvAffected}
  {rng : OsvRange}

variable (one : OneRange comparison record name aff rng)
include one

theorem OneRange.events_eq : aff.events = rng.events := by
  rw [OsvAffected.events, one.ranges, List.flatMap_singleton]

theorem OneRange.intervals_eq : aff.intervals = intervals none rng.events := by
  simp [OsvAffected.intervals, one.ranges, one.versioned]

theorem OneRange.single_of_intervals {first : String} {fix : Option String} (nonempty : first ≠ "")
    (introduced : lastIntroduced aff.events = some first) (fixed : lastFixed rng.events = fix)
    (alone : intervals none rng.events = [⟨first, fix, none⟩]) :
    Single packaging digits ecosystem aff := by
  have spans : aff.intervals = [⟨first, fix, none⟩] := one.intervals_eq.trans alone
  have fixedLast : lastFixed aff.events = fix := (congrArg lastFixed one.events_eq).trans fixed
  refine ⟨first, fix, nonempty, introduced, fixedLast, by simp [spans], ?_, ?_⟩
  · intro interval member
    rw [spans] at member
    exact List.mem_singleton.mp member
  · intro version member
    obtain ⟨interval, inside, holds⟩ := one.listed version member
    rw [spans] at inside
    rwa [List.mem_singleton.mp inside, holdsVersion_fixed] at holds

variable (named : name ≠ "") (preserved : Preserved packaging digits record ecosystem name)
include named preserved

theorem OneRange.preserved_iff {version : String} (own : comparison.Readable version) :
    (rng.events.map (Event.map comparison.read)).foldl (evaluate (comparison.read version)) false =
        true ↔
      inRange packaging digits version aff.reading.bounds.introduced aff.reading.bounds.fixed
        ecosystem = true := by
  have agree := (preserved_iff_entries named).mp preserved version
  rw [comparison.evaluate_iff one.readable one.ordered own, ← one.intervals_eq]
  constructor
  · intro told
    obtain ⟨other, member, names, inside⟩ :=
      agree.mp ⟨aff, one.member, one.names, .inr told⟩
    rwa [one.only other member names] at inside
  · intro inside
    obtain ⟨other, member, names, told⟩ := agree.mpr ⟨aff, one.member, one.names, inside⟩
    rw [one.only other member names] at told
    exact told.elim (one.listed version) id

theorem OneRange.inRange_first {first : String} {rest : List (Event String)}
    (begins : rng.events = .introduced first :: rest) :
    inRange packaging digits first aff.reading.bounds.introduced aff.reading.bounds.fixed
      ecosystem = true := by
  have own : comparison.Readable first := one.readable (.introduced first) (by simp [begins])
  have ordered := one.ordered
  rw [begins, List.pairwise_cons] at ordered
  rw [← one.preserved_iff named preserved own, begins, List.map_cons, List.foldl_cons]
  have opened : evaluate (comparison.read first) false
      (Event.map comparison.read (.introduced first)) = true := if_pos le_rfl
  rw [opened]
  refine foldl_evaluate_before ?_ true
  simp only [List.mem_map, forall_exists_index, and_imp, forall_apply_eq_imp_iff₂, version_map]
  exact ordered.1

theorem OneRange.introduced_once {first : String} {rest : List (Event String)}
    (begins : rng.events = .introduced first :: rest) : lastIntroduced rest = none := by
  by_contra again
  obtain ⟨next, last⟩ := Option.ne_none_iff_exists'.mp again
  have inside := introduced_mem last
  have ordered := one.ordered
  rw [begins, List.pairwise_cons] at ordered
  have whole : lastIntroduced aff.events = some next := by
    rw [one.events_eq, begins, lastIntroduced_cons, last]
    rfl
  have readable (event : Event String) (member : event ∈ aff.events) :
      comparison.Readable event.version := one.readable event (one.events_eq ▸ member)
  have nonempty : next ≠ "" := (readable _ (introduced_mem whole)).1
  have closes : ∀ text ∈ lastFixed aff.events, text ≠ "" :=
    fun text member => (readable _ (fixed_mem member)).1
  have holds := one.inRange_first named preserved begins
  rw [bounds_reading whole nonempty, comparison.inRange_iff nonempty closes] at holds
  exact absurd holds.2.1 (not_le.mpr (ordered.1 _ inside))

theorem OneRange.not_lastAffected (unbounded : comparison.Unbounded) {first last : String} :
    rng.events ≠ [.introduced first, .lastAffected last] := by
  intro events
  have own : comparison.Readable first := one.readable (.introduced first) (by simp [events])
  have ended : comparison.Readable last := one.readable (.lastAffected last) (by simp [events])
  have introduced : lastIntroduced aff.events = some first := by
    rw [one.events_eq, events]
    rfl
  have fixed : lastFixed aff.events = none := by
    rw [one.events_eq, events]
    rfl
  have ordered := one.ordered
  rw [events, List.pairwise_pair] at ordered
  obtain ⟨later, readable, after⟩ := unbounded last ended.2
  have agree := one.preserved_iff named preserved readable
  have inside : inRange packaging digits later (some first) none ecosystem = true := by
    rw [comparison.inRange_iff own.1 (by simp)]
    refine ⟨⟨readable.2, own.2, by simp⟩, ?_, by simp [Interval.map], by simp [Interval.map]⟩
    exact le_of_lt (ordered.trans after)
  rw [bounds_reading introduced own.1, fixed, events] at agree
  have told := agree.mpr inside
  simp [Event.map, evaluate, after] at told

theorem OneRange.single (unbounded : comparison.Unbounded) :
    Single packaging digits ecosystem aff := by
  obtain ⟨first, rest, begins, turns⟩ : ∃ first rest, rng.events = .introduced first :: rest ∧
      Alternating true rest := one.alternating.begins one.begun
  have own : comparison.Readable first := one.readable (.introduced first) (by simp [begins])
  have once := one.introduced_once named preserved begins
  have introduced : lastIntroduced aff.events = some first := by
    rw [one.events_eq, begins, lastIntroduced_cons, once]
    rfl
  rcases turns.ended once with rfl | ⟨version, rfl⟩ | ⟨last, rfl⟩
  · have fixed : lastFixed rng.events = none := congrArg lastFixed begins
    exact one.single_of_intervals own.1 introduced fixed (congrArg (intervals none) begins)
  · have fixed : lastFixed rng.events = some version := congrArg lastFixed begins
    exact one.single_of_intervals own.1 introduced fixed (congrArg (intervals none) begins)
  · exact absurd begins (one.not_lastAffected named preserved unbounded)

end OneRange

/-- The rows of a package hold the versions that the record calls vulnerable where each of
its entries states one interval; an entry alone, of one range in order, has to. -/
theorem preserved_when_single (packaging : Option Packaging) (digits : Digits)
    (record : OsvRecord) (ecosystem name : String) (named : name ≠ "") :
    ((∀ aff ∈ record.affected, Names aff ecosystem name →
        Single packaging digits ecosystem aff) →
      Preserved packaging digits record ecosystem name) ∧
    ∀ (comparison : Comparison packaging digits ecosystem) (aff : OsvAffected) (rng : OsvRange),
      comparison.Unbounded → OneRange comparison record name aff rng →
        (Preserved packaging digits record ecosystem name ↔
          Single packaging digits ecosystem aff) := by
  refine ⟨preserved_of_single named, ?_⟩
  intro comparison aff rng unbounded one
  refine ⟨fun preserved => one.single named preserved unbounded,
    fun single => preserved_of_single named ?_⟩
  intro other member names
  rwa [one.only other member names]

def debianEntry (events : List (Event String)) : OsvAffected :=
  ⟨some "Debian:12", some "openssl", [⟨some "ECOSYSTEM", events⟩], []⟩

def debianRecord (events : List (Event String)) : OsvRecord :=
  ⟨some "CVE-1", [debianEntry events]⟩

def reintroduced : List (Event String) :=
  [.introduced "1.0", .fixed "1.2", .introduced "2.0", .fixed "2.1"]

theorem oneRange_reintroduced :
    OneRange (tupleComparison none asciiDigits "Debian:12" (.inl rfl))
      (debianRecord reintroduced) "openssl" (debianEntry reintroduced)
      ⟨some "ECOSYSTEM", reintroduced⟩ where
  member := List.mem_singleton.mpr rfl
  names := ⟨rfl, rfl⟩
  only := fun _ member _ => List.mem_singleton.mp member
  ranges := rfl
  versioned := by decide
  begun := by decide
  alternating := trivial
  readable := fun event member => ⟨by revert event; decide, trivial⟩
  ordered := by decide
  listed := by decide

theorem fixed_preserved_reintroduced_lost :
    Preserved none asciiDigits (debianRecord [.introduced "1.0", .fixed "2.0"]) "Debian:12"
        "openssl" ∧
      ¬ Preserved none asciiDigits (debianRecord reintroduced) "Debian:12" "openssl" := by
  constructor
  · refine (preserved_when_single none asciiDigits _ "Debian:12" "openssl" (by decide)).1 ?_
    intro aff member _
    obtain rfl := List.mem_singleton.mp member
    exact ⟨"1.0", some "2.0", by decide, rfl, rfl, by decide, by decide, by decide⟩
  · rw [(preserved_when_single none asciiDigits _ "Debian:12" "openssl" (by decide)).2 _ _ _
      (unbounded_tupleComparison _) oneRange_reintroduced]
    rintro ⟨first, fix, states⟩
    have before := states.only ⟨"1.0", some "1.2", none⟩ (by decide)
    have again := states.only ⟨"2.0", some "2.1", none⟩ (by decide)
    exact absurd (before.trans again.symm) (by decide)

/-- What is affected up to 1.5 is read as affected from 1.0 on. -/
theorem lastAffected_lost :
    ¬ Preserved none asciiDigits (debianRecord [.introduced "1.0", .lastAffected "1.5"])
      "Debian:12" "openssl" := by
  intro preserved
  have held := (preserved "2.0").mpr
    ⟨⟨"Debian:12", "openssl", some "1.0", none, "ECOSYSTEM"⟩, by decide, rfl, rfl, by decide⟩
  obtain ⟨aff, member, -, told⟩ := held
  obtain rfl := List.mem_singleton.mp member
  revert told
  decide

end HlHelper.Advisory
