import HlHelper.Posture.Aggregator

/-! What the scorers read that the hash leaves out, and that nothing else of the
inputs makes a difference. -/

namespace HlHelper.Posture

open Library Python
open Oidc (Json)

variable {F : Type} [Python F]

inductive View where
  | now
  | surveyAt
  | inventory
  | surveyed
  | enrolledAt
  | heartbeatInterval
  | latestRelease
  | multipliers
  | advisories
  | findings
  | scans
  deriving DecidableEq, Repr

namespace View

def readers : View → List String
  | .now => ["vulnerabilities", "hygiene"]
  | .surveyAt | .inventory | .multipliers | .advisories | .scans => ["vulnerabilities"]
  | .surveyed => ["configuration"]
  | .enrolledAt | .heartbeatInterval | .latestRelease => ["hygiene"]
  | .findings => ["identity", "configuration"]

def Reading (F : Type) : View → Type
  | .now => Int
  | .surveyAt | .enrolledAt | .heartbeatInterval => Option Int
  | .inventory => Bool
  | .surveyed => Option Nat
  | .latestRelease => Except String (Option String)
  | .multipliers => String → F
  | .advisories => List (String × String)
  | .findings => List Finding
  | .scans => List Bool

end View

def scored (finding : Finding) : Bool :=
  finding.rule ∈ IdentityScorer.rules || finding.rule ∈ ConfigurationScorer.rules

namespace Inputs

variable (inputs : Inputs F)

def counted : List (Advisory F) := inputs.enrichAdvisories.filter VulnerabilitiesScorer.counts

def exposureOf (advisoryId : String) : Option Exposure :=
  inputs.exposures.find? fun exposure => exposure.advisoryId = advisoryId

def staleScan (advisoryId : String) : Bool :=
  (inputs.exposureOf advisoryId).any
    (VulnerabilitiesScorer.stale inputs.now inputs.context.scanIntervalSeconds)

def read : (view : View) → view.Reading F
  | .now => inputs.now
  | .surveyAt => inputs.host.surveyAt
  | .inventory => VulnerabilitiesScorer.hasInventory inputs.survey
  | .surveyed => ConfigurationScorer.surveyed inputs.survey
  | .enrolledAt => if inputs.host.lastSeenAt.isNone then some inputs.host.enrolledAt else none
  | .heartbeatInterval =>
    if inputs.host.lastSeenAt.isSome then some (HygieneScorer.interval inputs.host) else none
  | .latestRelease => HygieneScorer.latestVersion inputs.metrics
  | .multipliers => VulnerabilitiesScorer.multiplier inputs.loadExposureMultipliers
  | .advisories => inputs.counted.map fun advisory => (advisory.advisoryId, advisory.package)
  | .findings => inputs.fetchFindings.filter scored
  | .scans => inputs.counted.map fun advisory => inputs.staleScan advisory.advisoryId

/-- Two states agree on a view unless a scorer that reads it is on. -/
def Agree (view : View) (a b : Inputs F) : Prop :=
  (∃ scorer ∈ a.registry.activeScorers, scorer.name ∈ view.readers) → a.read view = b.read view

end Inputs

section Sorted

variable {α : Type} {before : α → α → Bool}

theorem perm_of_sortedBy {items others : List α}
    (same : sortedBy before items = sortedBy before others) : items.Perm others :=
  calc
    items.Perm (sortedBy before items) := (List.perm_insertionSort _ items).symm
    _ = sortedBy before others := same
    List.Perm _ others := List.perm_insertionSort _ others

theorem mem_of_sortedBy {items others : List α}
    (same : sortedBy before items = sortedBy before others) {x : α} (member : x ∈ items) :
    x ∈ others :=
  (perm_of_sortedBy same).mem_iff.mp member

end Sorted

theorem foldl_of_skipped {α β : Type} {f : β → α → β} {p : α → Bool}
    (skipped : ∀ acc x, p x = false → f acc x = acc) (items : List α) (init : β) :
    (items.filter p).foldl f init = items.foldl f init := by
  induction items generalizing init with
  | nil => rfl
  | cons x items ih =>
    cases kept : p x with
    | true => simp [kept, ih]
    | false => simp [kept, ih, skipped init x kept]

section Registry

theorem scorers_unique : ((scorers (F := F)).map Scorer.name).Nodup := by
  simp [scorers]

theorem eq_of_name {scorer other : Scorer F} (member : scorer ∈ scorers) (also : other ∈ scorers)
    (same : scorer.name = other.name) : scorer = other :=
  List.inj_on_of_nodup_map scorers_unique member also same

variable {registry other : ScorerRegistry F}

theorem mem_active {scorer : Scorer F} :
    scorer ∈ registry.activeScorers ↔ scorer ∈ scorers ∧ registry.isEnabled scorer = true := by
  simp [ScorerRegistry.activeScorers]

section

variable (same : sortedBy (tupleLt (· == ·) textLt lt) registry.weights =
  sortedBy (tupleLt (· == ·) textLt lt) other.weights)
include same

theorem weighs_of_sorted {scorer : Scorer F} (active : scorer ∈ registry.activeScorers) :
    scorer ∈ other.activeScorers ∧ other.weight scorer = registry.weight scorer := by
  have listed : (scorer.name, registry.weight scorer) ∈ registry.weights :=
    List.mem_map.mpr ⟨scorer, active, rfl⟩
  have also := mem_of_sortedBy same listed
  obtain ⟨found, on, pair⟩ := List.mem_map.mp also
  have known := (mem_active.mp active).1
  have same := eq_of_name (mem_active.mp on).1 known (congrArg Prod.fst pair)
  cases same
  exact ⟨on, congrArg Prod.snd pair⟩

theorem active_of_sorted : registry.activeScorers = other.activeScorers := by
  apply List.filter_congr
  intro scorer known
  rw [Bool.eq_iff_iff]
  constructor
  case mp =>
      intro on
      have active := weighs_of_sorted same (mem_active.mpr ⟨known, on⟩)
      exact (mem_active.mp active.1).2
  case mpr =>
      intro on
      have active := weighs_of_sorted same.symm (mem_active.mpr ⟨known, on⟩)
      exact (mem_active.mp active.1).2

theorem weights_of_sorted : registry.weights = other.weights := by
  unfold ScorerRegistry.weights
  rw [← active_of_sorted same]
  apply List.map_congr_left
  intro scorer active
  rw [(weighs_of_sorted same active).2]

end

end Registry

section Advisories

variable {a b : Inputs F}

def entryOf (advisory : Advisory F) : AdvisoryEntry F :=
  (advisory.advisoryId, advisory.severity, advisory.kev, advisory.epss, advisory.status)

theorem enrich_row (inputs : Inputs F) (row : HostAdvisory) :
    (inputs.enrich row).advisoryId = row.advisoryId ∧
      (inputs.enrich row).package = row.package ∧ (inputs.enrich row).status = row.status := by
  unfold Inputs.enrich
  split <;> exact ⟨rfl, rfl, rfl⟩

theorem enrich_facts (inputs : Inputs F) {row other : HostAdvisory}
    (same : row.advisoryId = other.advisoryId) :
    (inputs.enrich row).severity = (inputs.enrich other).severity ∧
      (inputs.enrich row).kev = (inputs.enrich other).kev ∧
      (inputs.enrich row).epss = (inputs.enrich other).epss := by
  unfold Inputs.enrich
  rw [same]
  split <;> exact ⟨rfl, rfl, rfl⟩

theorem enrich_same
    (same : sortedBy entryLt (a.enrichAdvisories.map entryOf) =
      sortedBy entryLt (b.enrichAdvisories.map entryOf))
    {row known : HostAdvisory} (member : known ∈ a.hostAdvisories)
    (id : row.advisoryId = known.advisoryId) : a.enrich row = b.enrich row := by
  have listed : entryOf (a.enrich known) ∈ a.enrichAdvisories.map entryOf :=
    List.mem_map_of_mem (List.mem_map_of_mem member)
  have also := mem_of_sortedBy same listed
  simp only [Inputs.enrichAdvisories, List.map_map, List.mem_map, Function.comp_apply] at also
  obtain ⟨other, -, pair⟩ := also
  simp only [entryOf, Prod.mk.injEq, enrich_row] at pair
  obtain ⟨copied, severity, kev, epss, -⟩ := pair
  have here := enrich_facts a id
  have there := enrich_facts b (id.trans copied.symm)
  have first := enrich_row a row
  have second := enrich_row b row
  rw [← severity, ← kev, ← epss, ← there.1, ← there.2.1, ← there.2.2] at here
  generalize a.enrich row = x at *
  generalize b.enrich row = y at *
  cases x
  cases y
  simp_all

/-- The advisory of a row that weighs, from what the view shows of it. -/
def rebuild (inputs : Inputs F) (shown : String × String) : Advisory F :=
  inputs.enrich { advisoryId := shown.1, package := shown.2, status := "open" }

theorem rebuild_shown {inputs : Inputs F} {advisory : Advisory F}
    (counted : advisory ∈ inputs.counted) :
    rebuild inputs (advisory.advisoryId, advisory.package) = advisory := by
  obtain ⟨member, counts⟩ := List.mem_filter.mp counted
  obtain ⟨row, -, rfl⟩ := List.mem_map.mp member
  have opened : row.status = "open" := by
    simp only [VulnerabilitiesScorer.counts, enrich_row, Bool.and_eq_true, decide_eq_true_eq]
      at counts
    exact counts.1
  cases row
  cases opened
  simp only [rebuild, enrich_row]

theorem rebuild_read (inputs : Inputs F) :
    (inputs.counted.map fun advisory => (advisory.advisoryId, advisory.package)).map
      (rebuild inputs) = inputs.counted := by
  rw [List.map_map]
  calc
    _ = inputs.counted.map id := List.map_congr_left fun _ counted => rebuild_shown counted
    _ = inputs.counted := List.map_id _

theorem counted_same
    (same : sortedBy entryLt (a.enrichAdvisories.map entryOf) =
      sortedBy entryLt (b.enrichAdvisories.map entryOf))
    (read : (a.counted.map fun advisory => (advisory.advisoryId, advisory.package)) =
      b.counted.map fun advisory => (advisory.advisoryId, advisory.package)) :
    a.counted = b.counted := by
  rw [← rebuild_read a, ← rebuild_read b, ← read]
  apply List.map_congr_left
  intro shown member
  obtain ⟨advisory, counted, rfl⟩ := List.mem_map.mp member
  obtain ⟨row, present, rfl⟩ := List.mem_map.mp (List.mem_filter.mp counted).1
  apply enrich_same same present
  exact (enrich_row a row).1

end Advisories

section Exposures

variable {a b : Inputs F}

omit [Python F] in
theorem exposureOf_some {inputs : Inputs F} {advisoryId : String} {exposure : Exposure} :
    inputs.exposureOf advisoryId = some exposure ↔
      exposure ∈ inputs.exposures ∧ exposure.advisoryId = advisoryId := by
  constructor
  case mp =>
      intro found
      have named := List.find?_some found
      exact ⟨List.mem_of_find?_eq_some found, of_decide_eq_true named⟩
  case mpr =>
      intro ⟨member, named⟩
      cases found : inputs.exposureOf advisoryId with
      | none =>
        have missing := List.find?_eq_none.mp found exposure member
        simp [named] at missing
      | some other =>
        have also : other.advisoryId = advisoryId := by simpa using List.find?_some found
        have inside := List.mem_of_find?_eq_some found
        rw [List.inj_on_of_nodup_map inputs.unique inside member (also.trans named.symm)]

def tierOf (exposure : Exposure) : String × String := (exposure.advisoryId, exposure.exposureTier)

omit [Python F] in
theorem tier_of_sorted {before : String × String → String × String → Bool}
    (same : sortedBy before (a.exposures.map tierOf) = sortedBy before (b.exposures.map tierOf))
    {advisoryId tier : String}
    (found : (a.exposureOf advisoryId).map Exposure.exposureTier = some tier) :
    (b.exposureOf advisoryId).map Exposure.exposureTier = some tier := by
  obtain ⟨exposure, located, rfl⟩ := Option.map_eq_some_iff.mp found
  obtain ⟨member, named⟩ := exposureOf_some.mp located
  have also := mem_of_sortedBy same (List.mem_map_of_mem (f := tierOf) member)
  obtain ⟨other, present, pair⟩ := List.mem_map.mp also
  have id : other.advisoryId = advisoryId := (congrArg Prod.fst pair).trans named
  rw [exposureOf_some.mpr ⟨present, id⟩]
  exact congrArg some (congrArg Prod.snd pair)

omit [Python F] in
theorem tiers_same {before : String × String → String × String → Bool}
    (same : sortedBy before (a.exposures.map tierOf) = sortedBy before (b.exposures.map tierOf))
    (advisoryId : String) :
    (a.exposureOf advisoryId).map Exposure.exposureTier =
      (b.exposureOf advisoryId).map Exposure.exposureTier := by
  apply Option.ext
  intro tier
  exact ⟨tier_of_sorted same, tier_of_sorted same.symm⟩

theorem resolveTier_eq (inputs : Inputs F) (advisoryId : String) :
    VulnerabilitiesScorer.resolveTier inputs.exposures inputs.now
        inputs.context.scanIntervalSeconds advisoryId =
      if inputs.staleScan advisoryId then "UNKNOWN"
      else ((inputs.exposureOf advisoryId).map Exposure.exposureTier).getD "UNKNOWN" := by
  unfold VulnerabilitiesScorer.resolveTier Inputs.staleScan Inputs.exposureOf
  cases inputs.exposures.find? fun exposure => exposure.advisoryId = advisoryId with
  | none => rfl
  | some exposure => rfl

end Exposures

section Scorers

variable {a b : Inputs F}

def Inputs.ShowsSame (name : String) (a b : Inputs F) : Prop :=
  ∀ view : View, name ∈ view.readers → a.read view = b.read view

section

variable (same : a.payload = b.payload)
include same

theorem contribution_same (shown : a.ShowsSame "vulnerabilities" b) {advisory : Advisory F}
    (stale : a.staleScan advisory.advisoryId = b.staleScan advisory.advisoryId) :
    VulnerabilitiesScorer.contribution a.context advisory =
      VulnerabilitiesScorer.contribution b.context advisory := by
  have multipliers : VulnerabilitiesScorer.multiplier a.loadExposureMultipliers =
      VulnerabilitiesScorer.multiplier b.loadExposureMultipliers := shown .multipliers (by decide)
  have tiers := tiers_same (congrArg Payload.exposure same) advisory.advisoryId
  have first := resolveTier_eq a advisory.advisoryId
  have second := resolveTier_eq b advisory.advisoryId
  rw [stale, tiers, ← second] at first
  unfold VulnerabilitiesScorer.contribution VulnerabilitiesScorer.applyExposureWeight
  calc
    _ = _ * VulnerabilitiesScorer.multiplier a.loadExposureMultipliers _ :=
      congrArg (fun tier => _ * VulnerabilitiesScorer.multiplier a.loadExposureMultipliers tier)
        first
    _ = _ := by rw [multipliers]; rfl

theorem vulnerabilities_same (shown : a.ShowsSame "vulnerabilities" b) :
    VulnerabilitiesScorer.score a.context = VulnerabilitiesScorer.score b.context := by
  have counted : a.counted = b.counted :=
    counted_same (congrArg Payload.advisories same) (shown .advisories (by decide))
  have stale : (a.counted.map fun advisory => a.staleScan advisory.advisoryId) =
      b.counted.map fun advisory => b.staleScan advisory.advisoryId := shown .scans (by decide)
  rw [counted] at stale
  have contributions :
      ((a.context.advisories.filter VulnerabilitiesScorer.counts).map fun advisory =>
        (VulnerabilitiesScorer.contribution a.context advisory, advisory)) =
      (b.context.advisories.filter VulnerabilitiesScorer.counts).map fun advisory =>
        (VulnerabilitiesScorer.contribution b.context advisory, advisory) := by
    change a.counted.map _ = b.counted.map _
    rw [counted]
    apply List.map_congr_left
    intro advisory member
    rw [contribution_same same shown (List.map_inj_left.mp stale advisory member)]
  have inventory : VulnerabilitiesScorer.hasInventory a.context.survey =
      VulnerabilitiesScorer.hasInventory b.context.survey := shown .inventory (by decide)
  have surveyAt : a.context.host.surveyAt = b.context.host.surveyAt :=
    shown .surveyAt (by decide)
  have now : a.context.now = b.context.now := shown .now (by decide)
  unfold VulnerabilitiesScorer.score
  rw [contributions, inventory, surveyAt, now]

theorem heartbeat_same (shown : a.ShowsSame "hygiene" b) :
    HygieneScorer.heartbeatDriver (F := F) a.host a.now =
      HygieneScorer.heartbeatDriver b.host b.now := by
  have now : a.now = b.now := shown .now (by decide)
  have seen : a.host.lastSeenAt = b.host.lastSeenAt := congrArg Payload.lastSeenAt same
  have enrolled : (if a.host.lastSeenAt.isNone then some a.host.enrolledAt else none) =
      if b.host.lastSeenAt.isNone then some b.host.enrolledAt else none :=
    shown .enrolledAt (by decide)
  have interval :
      (if a.host.lastSeenAt.isSome then some (HygieneScorer.interval a.host) else none) =
        if b.host.lastSeenAt.isSome then some (HygieneScorer.interval b.host) else none :=
    shown .heartbeatInterval (by decide)
  unfold HygieneScorer.heartbeatDriver
  rw [seen, now]
  cases last : b.host.lastSeenAt with
  | none =>
    have times : a.host.enrolledAt = b.host.enrolledAt := by
      simpa [seen, last] using enrolled
    simp only [times]
  | some lastSeen =>
    have paces : HygieneScorer.interval a.host = HygieneScorer.interval b.host := by
      simpa [seen, last] using interval
    simp only [paces]

theorem hygiene_same (shown : a.ShowsSame "hygiene" b) :
    HygieneScorer.score a.context = HygieneScorer.score b.context := by
  have now : a.now = b.now := shown .now (by decide)
  have latest : HygieneScorer.latestVersion a.metrics = HygieneScorer.latestVersion b.metrics :=
    shown .latestRelease (by decide)
  have cert : HygieneScorer.certDriver (F := F) a.host a.now =
      HygieneScorer.certDriver b.host b.now := by
    have expires : a.host.certExpiresAt = b.host.certExpiresAt :=
      congrArg Payload.certExpiresAt same
    simp only [HygieneScorer.certDriver, expires, now]
  have heartbeat := heartbeat_same same shown
  have update : HygieneScorer.updateDriver (F := F) a.host = HygieneScorer.updateDriver b.host := by
    have status : a.host.agentUpdateStatus = b.host.agentUpdateStatus :=
      congrArg Payload.agentUpdateStatus same
    simp only [HygieneScorer.updateDriver, status]
  have drift : HygieneScorer.driftDriver (F := F) a.host = HygieneScorer.driftDriver b.host := by
    have version : a.host.agentVersion = b.host.agentVersion := congrArg Payload.agentVersion same
    funext latest
    simp only [HygieneScorer.driftDriver, version]
  have confidence : HygieneScorer.confidence (F := F) a.host a.now =
      HygieneScorer.confidence b.host b.now := by
    have seen : a.host.lastSeenAt = b.host.lastSeenAt := congrArg Payload.lastSeenAt same
    simp only [HygieneScorer.confidence, seen, now]
  unfold HygieneScorer.score
  simp only [Inputs.context]
  rw [latest, cert, heartbeat, update, drift, confidence]

end

theorem identity_skips (acc : F × OrderedMap String F) (finding : Finding)
    (unscored : scored finding = false) : IdentityScorer.add acc finding = acc := by
  simp_all [scored, IdentityScorer.add]

theorem configuration_skips (acc : OrderedMap String (F × Nat)) (finding : Finding)
    (unscored : scored finding = false) : ConfigurationScorer.add acc finding = acc := by
  simp_all [scored, ConfigurationScorer.add]

theorem identity_same (shown : a.ShowsSame "identity" b) :
    IdentityScorer.score a.context = IdentityScorer.score b.context := by
  have findings : a.context.findings.filter scored = b.context.findings.filter scored :=
    shown .findings (by decide)
  unfold IdentityScorer.score
  rw [← foldl_of_skipped identity_skips, findings, foldl_of_skipped identity_skips]

theorem configuration_same (shown : a.ShowsSame "configuration" b) :
    ConfigurationScorer.score a.context = ConfigurationScorer.score b.context := by
  have findings : a.context.findings.filter scored = b.context.findings.filter scored :=
    shown .findings (by decide)
  have surveyed : ConfigurationScorer.surveyed a.context.survey =
      ConfigurationScorer.surveyed b.context.survey := shown .surveyed (by decide)
  unfold ConfigurationScorer.score ConfigurationScorer.coverage
  rw [← foldl_of_skipped configuration_skips, findings, foldl_of_skipped configuration_skips,
    surveyed]

end Scorers

end HlHelper.Posture
