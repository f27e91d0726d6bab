import HlHelper.Posture.Blend

/-! Exposure weighting in exact arithmetic: which multiplier a tier gets from the stored settings,
and what raises the sum. -/

namespace HlHelper.Posture

open Library Python
open Oidc (Json)

def tiers : List String := ["UNKNOWN", "INSTALLED_ONLY", "ACTIVE", "NETWORK_EXPOSED"]

section Loading

variable {inputs : Inputs ℚ} {tier : String}

def multiplierKey (tier : String) : String := "risk.exposure_multiplier." ++ tier

/-- What the settings override the multiplier of a tier with. -/
def Inputs.override (inputs : Inputs ℚ) (tier : String) : Option ℚ :=
  (inputs.settings (multiplierKey tier)).bind float?

def Inputs.Bare (inputs : Inputs ℚ) : Prop := ∀ tier ∈ tiers, inputs.override tier = none

instance (inputs : Inputs ℚ) : Decidable inputs.Bare := inferInstanceAs (Decidable (∀ _ ∈ _, _))

/-- The multiplier of a tier: its override, or its default. -/
def Inputs.intended (inputs : Inputs ℚ) (tier : String) : ℚ :=
  (inputs.override tier).getD
    ((lookup VulnerabilitiesScorer.defaultExposureMultipliers tier).getD 1.0)

def Inputs.taken (inputs : Inputs ℚ) (tier : String) : ℚ :=
  VulnerabilitiesScorer.multiplier inputs.loadExposureMultipliers tier

theorem lookup_filterMap {α : Type} (f : String → Option α) (names : List String) (name : String) :
    lookup (names.filterMap fun name => (f name).map fun x => (name, x)) name =
      if name ∈ names then f name else none := by
  induction names with
  | nil => rfl
  | cons first names ih =>
    unfold lookup at ih ⊢
    by_cases own : first = name
    case pos =>
      subst own
      cases found : f first with
      | none => simp_all
      | some x => simp [found]
    case neg =>
      have apart : ¬ name = first := Ne.symm own
      cases found : f first with
      | none => simp_all
      | some x => simp_all

theorem mem_loaded_iff : tier ∈ ["NETWORK_EXPOSED", "ACTIVE", "INSTALLED_ONLY", "UNKNOWN"] ↔
    tier ∈ tiers := by
  simp only [tiers, List.mem_cons, List.not_mem_nil, or_false]
  tauto

def Inputs.loaded (inputs : Inputs ℚ) : List (String × ℚ) :=
  ["NETWORK_EXPOSED", "ACTIVE", "INSTALLED_ONLY", "UNKNOWN"].filterMap fun tier =>
    (inputs.override tier).map fun x => (tier, x)

theorem loadExposureMultipliers_eq (inputs : Inputs ℚ) : inputs.loadExposureMultipliers =
    if inputs.loaded.isEmpty then none else some inputs.loaded := rfl

theorem taken_eq (known : tier ∈ tiers) : inputs.taken tier =
    if inputs.Bare then (lookup VulnerabilitiesScorer.defaultExposureMultipliers tier).getD 1.0
    else (inputs.override tier).getD 1.0 := by
  have found : lookup inputs.loaded tier = inputs.override tier :=
    (lookup_filterMap inputs.override _ tier).trans (if_pos (mem_loaded_iff.mpr known))
  have empty : inputs.loaded.isEmpty = true ↔ inputs.Bare := by
    unfold Inputs.loaded
    rw [List.isEmpty_iff, List.filterMap_eq_nil_iff]
    simp only [Option.map_eq_none_iff, mem_loaded_iff]
    rfl
  unfold Inputs.taken
  rw [loadExposureMultipliers_eq]
  by_cases bare : inputs.Bare
  · rw [if_pos (empty.mpr bare), if_pos bare]
    rfl
  · rw [if_neg (mt empty.mp bare), if_neg bare]
    exact congrArg (·.getD 1.0) found

theorem default_ne_one (known : tier ∈ tiers) :
    (lookup VulnerabilitiesScorer.defaultExposureMultipliers tier).getD 1.0 ≠ (1.0 : ℚ) := by
  have all : ∀ tier ∈ tiers,
      (lookup VulnerabilitiesScorer.defaultExposureMultipliers tier).getD 1.0 ≠ (1.0 : ℚ) := by
    decide +kernel
  exact all tier known

theorem taken_eq_intended_iff (known : tier ∈ tiers) :
    inputs.taken tier = inputs.intended tier ↔
      inputs.Bare ∨ (inputs.override tier).isSome := by
  rw [taken_eq known]
  unfold Inputs.intended
  by_cases bare : inputs.Bare
  · simp [bare, bare tier known]
  · cases own : inputs.override tier with
    | none => simpa [bare] using (default_ne_one known).symm
    | some x => simp [bare]

def Inputs.overridden (inputs : Inputs ℚ) (tier : String) (value : Json) : Inputs ℚ :=
  { inputs with settings := Function.update inputs.settings (multiplierKey tier) (some value) }

theorem override_overridden (other : String) {value : Json} :
    (inputs.overridden tier value).override other =
      if other = tier then float? value else inputs.override other := by
  unfold Inputs.override Inputs.overridden
  have keys : multiplierKey other = multiplierKey tier ↔ other = tier :=
    String.append_right_inj _
  simp only [Function.update_apply, keys]
  split <;> rfl

theorem overridden_frames_iff {other : String} {value : Json} {x : ℚ} (known : tier ∈ tiers)
    (readable : float? value = some x) (apart : other ≠ tier) (other_known : other ∈ tiers) :
    ((inputs.overridden tier value).taken other = inputs.taken other ∧
        inputs.taken other = inputs.intended other) ↔ (inputs.override other).isSome := by
  have set : ¬ (inputs.overridden tier value).Bare := by
    intro bare
    have none := bare tier known
    rw [override_overridden, if_pos rfl, readable] at none
    cases none
  rw [taken_eq_intended_iff other_known, taken_eq other_known, if_neg set, override_overridden,
    if_neg apart, taken_eq other_known]
  cases own : inputs.override other with
  | none =>
    by_cases bare : inputs.Bare
    · simpa [bare] using (default_ne_one other_known).symm
    · simp [bare]
  | some y =>
    have bare : ¬ inputs.Bare :=
      fun bare => absurd (own.symm.trans (bare other other_known)) nofun
    simp [bare]

end Loading

namespace VulnerabilitiesScorer

def raw (ctx : ScoreContext ℚ) : ℚ :=
  ((ctx.advisories.filter counts).map fun advisory =>
    (contribution ctx advisory, advisory)).foldl (fun raw entry => raw + entry.1) 0.0

theorem raw_eq (ctx : ScoreContext ℚ) : raw ctx =
    ((ctx.advisories.filter counts).map (contribution ctx)).sum := by
  unfold raw
  rw [foldl_add_eq_sum, List.map_map]
  rfl

variable {ctx : ScoreContext ℚ} {row : Exposure} {advisory worse : Advisory ℚ}

theorem base_nonneg (severity : String) : 0 ≤ (base severity : ℚ) := by
  have all : ∀ entry ∈ ([("critical", 12.0), ("high", 4.0), ("medium", 1.2), ("low", 0.3),
      ("unknown", 0.0)] : List (String × ℚ)), 0 ≤ entry.2 := by decide +kernel
  unfold base lookup
  cases found : List.find? _ _ with
  | none => norm_num
  | some entry => exact all entry (List.mem_of_find?_eq_some found)

theorem exploited_eq (advisory : Advisory ℚ) : exploited advisory =
    1 + (if advisory.kev then 4 else 0) + 3 * max 0 (min 1 advisory.epss) := by
  have given : (if eq advisory.epss (0.0 : ℚ) then (0.0 : ℚ) else advisory.epss) =
      advisory.epss := by
    split
    · next zero => exact (of_decide_eq_true zero).symm
    · rfl
  unfold exploited
  rw [given, larger_eq_max, smaller_eq_min]
  norm_num

theorem exploited_nonneg (advisory : Advisory ℚ) : 0 ≤ exploited advisory := by
  rw [exploited_eq]
  positivity

/-- An advisory that has become worse: it is exploited now, or its EPSS is higher. -/
structure Worse (advisory worse : Advisory ℚ) : Prop where
  advisoryId : worse.advisoryId = advisory.advisoryId
  status : worse.status = advisory.status
  severity : worse.severity = advisory.severity
  kev : advisory.kev = true → worse.kev = true
  epss : advisory.epss ≤ worse.epss

theorem exploited_mono (less : Worse advisory worse) : exploited advisory ≤ exploited worse := by
  have known : (if advisory.kev then 4 else 0) ≤ if worse.kev then (4 : ℚ) else 0 := by
    cases was : advisory.kev with
    | false =>
      rw [if_neg Bool.false_ne_true]
      split <;> norm_num
    | true => rw [less.kev was]
  have likely : max 0 (min 1 advisory.epss) ≤ max 0 (min 1 worse.epss) :=
    max_le_max_left 0 (min_le_min_left 1 less.epss)
  rw [exploited_eq, exploited_eq]
  linarith

/-- A multiplier for each tier, none below 0, ordered like the tiers. -/
structure Ordered (multipliers : Option (List (String × ℚ))) : Prop where
  nonneg : ∀ tier ∈ tiers, 0 ≤ multiplier multipliers tier
  mono : ∀ low ∈ tiers, ∀ high ∈ tiers, tiers.idxOf low ≤ tiers.idxOf high →
    multiplier multipliers low ≤ multiplier multipliers high

section Scans

variable (exposures : List Exposure) (now interval : Int)

def rowTier (row : Exposure) : String :=
  if stale now interval row then "UNKNOWN" else row.exposureTier

/-- The row of an advisory replaced by that of another scan. -/
def rescan (exposures : List Exposure) (row : Exposure) : List Exposure :=
  exposures.filter (·.advisoryId ≠ row.advisoryId) ++ [row]

theorem find?_others (advisoryId id : String) :
    (exposures.filter (·.advisoryId ≠ advisoryId)).find? (·.advisoryId = id) =
      if id = advisoryId then none else exposures.find? (·.advisoryId = id) := by
  induction exposures with
  | nil => simp
  | cons exposure exposures ih =>
    by_cases kept : exposure.advisoryId = advisoryId
    · rw [List.filter_cons_of_neg (by simpa using kept), ih, List.find?_cons]
      by_cases own : id = advisoryId
      · rw [if_pos own, if_pos own]
      · simp [own, kept, Ne.symm own]
    · rw [List.filter_cons_of_pos (by simpa using kept), List.find?_cons, ih, List.find?_cons]
      by_cases here : exposure.advisoryId = id
      · have own : ¬ id = advisoryId := fun own => kept (here.trans own)
        simp [here, own]
      · simp [here]

theorem resolveTier_rescan (id : String) : resolveTier (rescan exposures row) now interval id =
    if id = row.advisoryId then rowTier now interval row
    else resolveTier exposures now interval id := by
  unfold resolveTier rescan
  rw [List.find?_append, find?_others]
  by_cases own : id = row.advisoryId
  · subst own
    simp [rowTier]
  · simp [own, Ne.symm own]

theorem resolveTier_mem (stored : ∀ row ∈ exposures, row.exposureTier ∈ tiers) (id : String) :
    resolveTier exposures now interval id ∈ tiers := by
  unfold resolveTier
  cases found : List.find? _ _ with
  | none => exact List.mem_cons_self
  | some row =>
    dsimp only
    split
    · exact List.mem_cons_self
    · exact stored row (List.mem_of_find?_eq_some found)

end Scans

/-- A scan of the host behind another one, with multipliers, in which no tier is lower. -/
structure Higher (ctx later : ScoreContext ℚ) : Prop where
  ordered : Ordered ctx.multipliers
  same : later.multipliers = ctx.multipliers
  before : ∀ id, resolveTier ctx.exposures ctx.now ctx.scanIntervalSeconds id ∈ tiers
  behind : ∀ id, resolveTier later.exposures later.now later.scanIntervalSeconds id ∈ tiers
  higher : ∀ id, tiers.idxOf (resolveTier ctx.exposures ctx.now ctx.scanIntervalSeconds id) ≤
    tiers.idxOf (resolveTier later.exposures later.now later.scanIntervalSeconds id)

variable {later : ScoreContext ℚ}

theorem counts_worse (less : Worse advisory worse) : counts worse = counts advisory := by
  unfold counts severityOf
  rw [less.status, less.severity]

theorem contribution_le (above : Higher ctx later) (less : Worse advisory worse) :
    contribution ctx advisory ≤ contribution later worse := by
  have same : severityOf worse = severityOf advisory := by
    unfold severityOf
    rw [less.severity]
  unfold contribution applyExposureWeight
  rw [same, less.advisoryId, above.same]
  apply mul_le_mul
  · exact mul_le_mul_of_nonneg_left (exploited_mono less) (base_nonneg _)
  · exact above.ordered.mono _ (above.before _) _ (above.behind _) (above.higher _)
  · exact above.ordered.nonneg _ (above.before _)
  · exact mul_nonneg (base_nonneg _) (exploited_nonneg _)

theorem raw_le_raw (above : Higher ctx later)
    (worse : ctx.advisories.Forall₂ Worse later.advisories) : raw ctx ≤ raw later := by
  have sums {old new : List (Advisory ℚ)} (worse : old.Forall₂ Worse new) :
      ((old.filter counts).map (contribution ctx)).sum ≤
        ((new.filter counts).map (contribution later)).sum := by
    induction worse with
    | nil => exact le_refl _
    | @cons advisory worse old new less rest ih =>
      rw [List.filter_cons, List.filter_cons, counts_worse less]
      split
      · rw [List.map_cons, List.sum_cons, List.map_cons, List.sum_cons]
        exact add_le_add (contribution_le above less) ih
      · exact ih
  rw [raw_eq, raw_eq]
  exact sums worse

/-- One critical advisory, and the scan that has just found it at a tier. -/
def critical (kev : Bool) : Advisory ℚ := ⟨"CVE-1", "openssl", "open", "critical", kev, 0⟩

def scanned (ctx : ScoreContext ℚ) (tier : String) : Exposure :=
  ⟨"CVE-1", tier, ctx.now - 2 * ctx.scanIntervalSeconds * 1000000⟩

theorem raw_critical (ctx : ScoreContext ℚ) (kev : Bool) (tier : String) :
    raw { ctx with advisories := [critical kev], exposures := [scanned ctx tier] } =
      12 * (1 + if kev then 4 else 0) * multiplier ctx.multipliers tier := by
  have counted : ∀ kev, counts (critical kev) = true := by decide +kernel
  have weight : ∀ kev, base (severityOf (critical kev)) = (12 : ℚ) := by decide +kernel
  have placed : resolveTier [scanned ctx tier] ctx.now ctx.scanIntervalSeconds "CVE-1" = tier := by
    simp [resolveTier, scanned, stale]
  rw [raw_eq, List.filter_cons_of_pos (counted kev)]
  simp only [List.filter_nil, List.map_cons, List.map_nil, List.sum_cons, List.sum_nil, add_zero]
  unfold contribution applyExposureWeight
  rw [weight, exploited_eq]
  simp only [critical, placed]
  cases kev <;> norm_num

/-- Only with such multipliers does the sum grow in every context. -/
theorem ordered_of_grows (ctx : ScoreContext ℚ)
    (scans : ∀ advisories exposures row, stale ctx.now ctx.scanIntervalSeconds row = false →
      (∀ row ∈ exposures, row.exposureTier ∈ tiers) → row.exposureTier ∈ tiers →
      tiers.idxOf (resolveTier exposures ctx.now ctx.scanIntervalSeconds row.advisoryId) ≤
        tiers.idxOf row.exposureTier →
      raw { ctx with advisories, exposures } ≤
        raw { ctx with advisories, exposures := rescan exposures row })
    (exploits : ∀ exposures advisories worse, List.Forall₂ Worse advisories worse →
      (∀ row ∈ exposures, row.exposureTier ∈ tiers) →
      raw { ctx with advisories, exposures } ≤ raw { ctx with advisories := worse, exposures }) :
    Ordered ctx.multipliers := by
  constructor
  case nonneg =>
    intro tier known
    have worse : Worse (critical false) (critical true) := ⟨rfl, rfl, rfl, nofun, le_refl _⟩
    have grown := exploits [scanned ctx tier] _ _ (.cons worse .nil)
      (List.forall_mem_singleton.mpr known)
    rw [raw_critical, raw_critical] at grown
    norm_num at grown
    linarith
  case mono =>
    intro low low_known high high_known le
    have fresh : stale ctx.now ctx.scanIntervalSeconds (scanned ctx high) = false := by
      simp [stale, scanned]
    have before : resolveTier [scanned ctx low] ctx.now ctx.scanIntervalSeconds "CVE-1" = low := by
      simp [resolveTier, scanned, stale]
    have after : rescan [scanned ctx low] (scanned ctx high) = [scanned ctx high] := by
      simp [rescan, scanned]
    have grown := scans [critical false] [scanned ctx low] (scanned ctx high) fresh
      (List.forall_mem_singleton.mpr low_known) high_known (by rw [← before] at le; exact le)
    rw [after, raw_critical, raw_critical] at grown
    norm_num at grown
    linarith

end VulnerabilitiesScorer

open VulnerabilitiesScorer

theorem ordered_of_intended {inputs : Inputs ℚ}
    (whole : inputs.Bare ∨ ∀ tier ∈ tiers, (inputs.override tier).isSome)
    (nonneg : ∀ tier ∈ tiers, 0 ≤ inputs.intended tier)
    (mono : ∀ low ∈ tiers, ∀ high ∈ tiers, tiers.idxOf low ≤ tiers.idxOf high →
      inputs.intended low ≤ inputs.intended high) : Ordered inputs.loadExposureMultipliers := by
  have same (tier : String) (known : tier ∈ tiers) :
      multiplier inputs.loadExposureMultipliers tier = inputs.intended tier :=
    (taken_eq_intended_iff known).mpr (whole.imp_right fun all => all tier known)
  constructor
  case nonneg =>
    intro tier known
    rw [same tier known]
    exact nonneg tier known
  case mono =>
    intro low low_known high high_known le
    rw [same low low_known, same high high_known]
    exact mono low low_known high high_known le

/-- What an advisory contributes but for its multiplier. -/
def unweighted (advisory : Advisory ℚ) : ℚ := base (severityOf advisory) * exploited advisory

theorem unweighted_pos {advisory : Advisory ℚ} (counted : counts advisory = true) :
    0 < unweighted advisory := by
  have weighs : (base (severityOf advisory) : ℚ) ≠ 0 := by
    have nonzero := (Bool.and_eq_true_iff.mp counted).2
    norm_num [Python.eq] at nonzero
    exact nonzero
  have positive : 0 < exploited advisory := by
    rw [exploited_eq]
    positivity
  exact mul_pos ((base_nonneg _).lt_of_ne weighs.symm) positive

def Inputs.tier (inputs : Inputs ℚ) (advisory : Advisory ℚ) : String :=
  resolveTier inputs.exposures inputs.now (6 * 3600) advisory.advisoryId

theorem contribution_context (inputs : Inputs ℚ) (advisory : Advisory ℚ) :
    contribution inputs.context advisory =
      unweighted advisory * inputs.taken (inputs.tier advisory) := rfl

/-- Behind an override of one tier, an advisory at another one contributes what it did, by its
default or own override, exactly where its tier has an own one; without it, by its default or own
override exactly where its tier has an own one or none has. And in the order of the tiers the sum
grows with a fresh scan that raises a tier, with KEV and with EPSS. -/
theorem weighting_framed_iff (inputs : Inputs ℚ) :
    (∀ tier ∈ tiers, ∀ value, ∀ x : ℚ, float? value = some x → ∀ advisory, counts advisory = true →
      inputs.tier advisory ∈ tiers → inputs.tier advisory ≠ tier →
      ((contribution (inputs.overridden tier value).context advisory =
            contribution inputs.context advisory ∧
          contribution inputs.context advisory =
            unweighted advisory * inputs.intended (inputs.tier advisory)) ↔
        (inputs.override (inputs.tier advisory)).isSome)) ∧
      (∀ advisory, counts advisory = true → inputs.tier advisory ∈ tiers →
        (contribution inputs.context advisory =
            unweighted advisory * inputs.intended (inputs.tier advisory) ↔
          inputs.Bare ∨ (inputs.override (inputs.tier advisory)).isSome)) ∧
      ∀ ctx : ScoreContext ℚ, Ordered ctx.multipliers →
        (∀ row ∈ ctx.exposures, row.exposureTier ∈ tiers) →
        (∀ row, stale ctx.now ctx.scanIntervalSeconds row = false → row.exposureTier ∈ tiers →
          tiers.idxOf (resolveTier ctx.exposures ctx.now ctx.scanIntervalSeconds row.advisoryId) ≤
            tiers.idxOf row.exposureTier →
          raw ctx ≤ raw { ctx with exposures := rescan ctx.exposures row }) ∧
        ∀ advisories, ctx.advisories.Forall₂ Worse advisories →
          raw ctx ≤ raw { ctx with advisories } := by
  apply And.intro
  case left =>
    intro tier known value x readable advisory counted placed apart
    have same : (inputs.overridden tier value).tier advisory = inputs.tier advisory := rfl
    have cancel (a b : ℚ) : unweighted advisory * a = unweighted advisory * b ↔ a = b :=
      mul_right_inj' (unweighted_pos counted).ne'
    rw [contribution_context, contribution_context, same, cancel, cancel]
    exact overridden_frames_iff known readable apart placed
  case right =>
    apply And.intro
    case left =>
      intro advisory counted placed
      rw [contribution_context, mul_right_inj' (unweighted_pos counted).ne']
      exact taken_eq_intended_iff placed
    case right =>
      intro ctx ordered stored
      have before := resolveTier_mem ctx.exposures ctx.now ctx.scanIntervalSeconds stored
      apply And.intro
      case left =>
        intro row fresh known raises
        have resolved (id : String) :
            resolveTier (rescan ctx.exposures row) ctx.now ctx.scanIntervalSeconds id =
              if id = row.advisoryId then row.exposureTier
              else resolveTier ctx.exposures ctx.now ctx.scanIntervalSeconds id := by
          have own : rowTier ctx.now ctx.scanIntervalSeconds row = row.exposureTier := by
            unfold rowTier
            rw [fresh]
            rfl
          rw [resolveTier_rescan, own]
        have above : Higher ctx { ctx with exposures := rescan ctx.exposures row } := by
          constructor
          case ordered => exact ordered
          case same => rfl
          case before => exact before
          case behind =>
            intro id
            rw [resolved]
            split
            · exact known
            · exact before id
          case higher =>
            intro id
            rw [resolved]
            split
            · next own =>
              subst own
              exact raises
            · exact Nat.le_refl _
        exact raw_le_raw above (List.forall₂_same.mpr fun _ _ => ⟨rfl, rfl, rfl, id, le_refl _⟩)
      case right =>
        intro advisories worse
        exact raw_le_raw ⟨ordered, rfl, before, before, fun _ => Nat.le_refl _⟩ worse

/-- A critical advisory at a tier, just scanned, with the multipliers of two tiers overridden. -/
def overrides (tier : String) : Inputs ℚ :=
  (({ afflicted "openssl" (10 * day) with
    exposures := [⟨"CVE-1", tier, 10 * day⟩] }).overridden "UNKNOWN" (.int 0)).overridden
      "ACTIVE" (.int 2)

/-- An override for running software halves what an exposed advisory contributes; and behind
overrides that are ordered like the tiers the advisory counts less once it is exposed. -/
theorem override_reaches_others :
    (¬ ∀ advisory ∈ (afflicted "openssl" (10 * day)).enrichAdvisories,
      (afflicted "openssl" (10 * day)).tier advisory ≠ "ACTIVE" →
        contribution ((afflicted "openssl" (10 * day)).overridden "ACTIVE" (.int 3)).context
            advisory =
          contribution (afflicted "openssl" (10 * day)).context advisory) ∧
      (tiers.map (overrides "ACTIVE").intended = [0, 1 / 10, 2, 2] ∧
        ¬ raw (overrides "ACTIVE").context ≤ raw (overrides "NETWORK_EXPOSED").context) := by
  decide +kernel

end HlHelper.Posture
