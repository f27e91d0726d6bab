import HlHelper.Library.Footprint
import HlHelper.Posture.Reads
import Mathlib.Data.Rat.Floor

/-! Between two states of one hash the outcome is the same when the readings that
the hash leaves out are, and each of these readings is needed. -/

namespace HlHelper.Posture

open Library Python
open Oidc (Json)

section Enough

variable {F : Type} [Python F] {a b : Inputs F}

theorem shows_same (agree : ∀ view, a.Agree view b) {scorer : Scorer F}
    (active : scorer ∈ a.registry.activeScorers) : a.ShowsSame scorer.name b :=
  fun view reader => agree view ⟨scorer, active, reader⟩

theorem runScorer_same (same : a.payload = b.payload) (agree : ∀ view, a.Agree view b)
    {scorer : Scorer F} (active : scorer ∈ a.registry.activeScorers) :
    runScorer a.context scorer = runScorer b.context scorer := by
  have shown := shows_same agree active
  have known := (mem_active.mp active).1
  simp only [scorers, List.mem_cons, List.not_mem_nil, or_false] at known
  unfold runScorer
  rcases known with rfl | rfl | rfl | rfl
  · simp only [vulnerabilities_same same shown]
  · simp only [configuration_same shown]
  · simp only [identity_same shown]
  · simp only [hygiene_same same shown]

theorem subs_same (same : a.payload = b.payload) (agree : ∀ view, a.Agree view b) :
    a.subs = b.subs := by
  unfold Inputs.subs
  rw [← active_of_sorted (congrArg Payload.weights same)]
  apply List.map_congr_left
  intro scorer active
  rw [runScorer_same same agree active]

theorem outcome_same (same : a.payload = b.payload) (agree : ∀ view, a.Agree view b) :
    a.outcome = b.outcome := by
  unfold Inputs.outcome
  rw [subs_same same agree, weights_of_sorted (congrArg Payload.weights same)]

theorem applyHysteresis_again (score : Int) (level : String) (prevScore : Option Int)
    (prevLevel : String) :
    applyHysteresis score level (some score) (applyHysteresis score level prevScore prevLevel) =
      applyHysteresis score level prevScore prevLevel := by
  cases prevScore with
  | none => simp [applyHysteresis]
  | some prev =>
    have forgets : applyHysteresis score level (some score) prevLevel =
        applyHysteresis score level (some prev) prevLevel := rfl
    have kept : applyHysteresis score level (some prev) prevLevel = level ∨
        applyHysteresis score level (some prev) prevLevel = prevLevel := by
      unfold applyHysteresis
      grind
    cases kept with
    | inl new => rw [new]; simp [applyHysteresis]
    | inr old => rw [old, forgets, old]

omit [Python F] in
theorem shownLevel_again (risk : Risk F) (prev : Option (HostRisk F)) {row : HostRisk F}
    (score : row.score = risk.score) (level : row.level = shownLevel risk prev) :
    shownLevel risk (some row) = row.level := by
  unfold shownLevel at level ⊢
  cases scored : risk.score with
  | none => simp_all
  | some value =>
    rw [scored] at score
    cases prev with
    | none => simp_all [applyHysteresis]
    | some old =>
      simp only [scored] at level
      simp only [level, score]
      exact applyHysteresis_again value risk.level old.score old.level

def HostRisk.shown (row : HostRisk F) : Option Int × String × F × Bool × List (Pillar F) :=
  (row.score, row.level, row.confidence, row.floorTriggered, row.pillars)

theorem forced_again (digest : Payload F → String) (prev : Option (HostRisk F))
    (same : a.outcome = b.outcome) :
    (recompute digest b true (some (storedRow digest a prev))).shown =
      (storedRow digest a prev).shown := by
  have level : shownLevel b.outcome.risk (some (storedRow digest a prev)) =
      (storedRow digest a prev).level := by
    rw [← same]
    exact shownLevel_again a.outcome.risk prev rfl rfl
  change (b.outcome.risk.score, shownLevel b.outcome.risk (some (storedRow digest a prev)),
    b.outcome.risk.confidence, b.outcome.risk.floorTriggered, b.outcome.pillars) = _
  rw [level, ← same]
  rfl

end Enough

section Exact

def roundHalfEven (x : ℚ) : Int :=
  let below := x.floor
  let rest := x - below
  if rest < 1 / 2 then below
  else if rest = 1 / 2 ∧ below % 2 = 0 then below
  else below + 1

/-- Horner's form of the first terms of the exponential series. -/
def expSeries (x : ℚ) : ℚ :=
  (List.range 24).foldr (fun n rest => 1 + x / (n + 1) * rest) 1

instance : Python ℚ where
  lt a b := a < b
  le a b := a ≤ b
  eq a b := a = b
  sum := List.sum
  exp x := if x < 0 then 1 / expSeries (-x) else expSeries x
  round x places := roundHalfEven (x * 10 ^ places) / 10 ^ places
  roundInt := roundHalfEven
  trunc x := if x < 0 then -(-x).floor else x.floor
  ofInt n := n
  totalSeconds microseconds := microseconds / 1000000
  float? value :=
    match value.number? with
    | some (.finite x) => some x
    | _ => none
  lower s := String.ofList (s.toList.map Char.toLower)
  decimal c := if c.isDigit then some (c.toNat - '0'.toNat) else none

def day : Int := 86400 * 1000000

def bareHost : Host where
  id := "h1"
  agentVersion := some "1.0.0"
  agentUpdateStatus := .idle
  certExpiresAt := none
  lastSeenAt := none
  enrolledAt := 0
  heartbeatIntervalS := 30
  survey := none
  surveyAt := none
  metrics := none
  labels := (OrderedMap.empty.insert "os" "linux").insert "arch" "amd64"

def bare : Inputs ℚ where
  host := bareHost
  hostAdvisories := []
  catalog _ := none
  findings := []
  exposures := []
  unique := List.nodup_nil
  settings _ := none
  packageCount := 0
  releases := []
  registry := ⟨.empty, .empty⟩
  now := 0

def surveyOf (key : String) : Option (OrderedMap String Json) :=
  some (OrderedMap.empty.insert key (.obj []))

/-- One open critical advisory for a package, with its exposure at some scan. -/
def afflicted (package : String) (scannedAt : Int) : Inputs ℚ := { bare with
  hostAdvisories := [⟨"CVE-1", package, "open"⟩]
  catalog _ := some ⟨"critical", false, none⟩
  exposures := [⟨"CVE-1", "NETWORK_EXPOSED", scannedAt⟩]
  unique := List.nodup_singleton _
  now := 10 * day }

def finding (rule : String) : PostureFindingRow :=
  { rule, severity := "high", subjectKind := "global", subjectId := none }

def pair : View → Inputs ℚ × Inputs ℚ
  | .now =>
    let host := { bareHost with certExpiresAt := some (31 * day) }
    ({ bare with host }, { bare with host, now := 2 * day })
  | .surveyAt => (bare, { bare with host := { bareHost with surveyAt := some 0 } })
  | .inventory =>
    let host := { bareHost with survey := surveyOf "cpu" }
    ({ bare with host }, { bare with host, packageCount := 1 })
  | .surveyed =>
    ({ bare with host := { bareHost with survey := surveyOf "cpu" } },
      { bare with host := { bareHost with survey := surveyOf "sshd" } })
  | .enrolledAt =>
    ({ bare with now := day },
      { bare with host := { bareHost with enrolledAt := day }, now := day })
  | .heartbeatInterval =>
    let host := { bareHost with lastSeenAt := some 0 }
    ({ bare with host, now := 200000000 },
      { bare with host := { host with heartbeatIntervalS := 60 }, now := 200000000 })
  | .latestRelease =>
    (bare, { bare with releases := [⟨"1.1.0", "linux", "amd64", .published, 0⟩] })
  | .multipliers =>
    (afflicted "openssl" 0, { afflicted "openssl" 0 with settings := fun _ => some (.int 2) })
  | .advisories => (afflicted "openssl" 0, afflicted "curl" 0)
  | .findings =>
    ({ bare with findings := [finding "kernel_aslr", finding "fs_shadow_perms"] },
      { bare with findings := [finding "fs_shadow_perms", finding "kernel_aslr"] })
  | .scans => (afflicted "openssl" 0, afflicted "openssl" (10 * day))

theorem scan_same : (pair .advisories).1.read .scans = (pair .advisories).2.read .scans := by
  change (List.map _ _ : List Bool) = List.map _ _
  decide +kernel

theorem overlooked (view : View) :
    Overlooked Inputs.payload Inputs.outcome Inputs.Agree view (pair view).1 (pair view).2 where
  sameKey := by cases view <;> decide +kernel
  others := by
    -- The two states differ in nothing that another view reads.
    intro other different
    cases view <;> cases other <;>
      first | exact absurd rfl different | exact fun _ => scan_same | exact fun _ => rfl
  differ := by cases view <;> decide +kernel

end Exact

/-- Where the readings agree that the hash leaves out, equal hashes mean equal outcomes, and
the row left in place is the one a forced run would show; with fewer of them they do not. -/
theorem short_circuit_sound_iff {F : Type} [Python F] (digest : Payload F → String)
    (a b : Inputs F) (prev : Option (HostRisk F)) (covered : Set View)
    (distinct : digest a.payload = digest b.payload → a.payload = b.payload) :
    (a.hash digest = b.hash digest → (∀ view, a.Agree view b) →
      a.outcome = b.outcome ∧
        recompute digest b false (some (storedRow digest a prev)) = storedRow digest a prev ∧
        (recompute digest b true (some (storedRow digest a prev))).shown =
          (storedRow digest a prev).shown) ∧
    (KeySound (Inputs.payload (F := ℚ)) Inputs.outcome Inputs.Agree covered ↔
      ∀ view, view ∈ covered) := by
  constructor
  case left =>
      intro hash agree
      have same := outcome_same (distinct hash) agree
      have kept : (storedRow digest a prev).inputsHash = b.hash digest := hash
      exact ⟨same, by simp [recompute, kept], forced_again digest prev same⟩
  case right =>
      apply keySound_iff
      · intro a b same agree
        exact outcome_same same fun view => agree view (Set.mem_univ view)
      · intro view
        exact ⟨_, _, overlooked view⟩

theorem short_circuit_sound_recounted :
    ({ bare with packageCount := 1 } : Inputs ℚ).outcome =
      ({ bare with packageCount := 5 } : Inputs ℚ).outcome := by
  have agree : ∀ view, Inputs.Agree view { bare with packageCount := 1 }
      { bare with packageCount := 5 } := by
    intro view
    cases view <;> exact fun _ => rfl
  exact ((short_circuit_sound_iff Payload.hostId { bare with packageCount := 1 }
    { bare with packageCount := 5 } none Set.univ fun _ => rfl).1 rfl agree).1

/-- No digest tells that a certificate has come within thirty days of its end. -/
theorem expiry_unseen :
    ¬ ∃ digest : Payload ℚ → String, ∀ a b : Inputs ℚ,
      a.hash digest = b.hash digest → a.outcome = b.outcome := by
  intro ⟨digest, sound⟩
  have hidden := overlooked .now
  exact hidden.differ (sound _ _ (congrArg digest hidden.sameKey))

end HlHelper.Posture
