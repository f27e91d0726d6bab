import HlHelper.Posture.Scorers

/-! The blend of the sub-scores, the inputs a recompute loads, the hash it takes
of them and the row it stores. -/

namespace HlHelper.Posture

open Library Python
open Oidc (Json)

variable {F : Type} [Python F]

structure Risk (F : Type) where
  score : Option Int
  level : String
  confidence : F
  floorTriggered : Bool
  deriving DecidableEq, Repr

def thresholds : List (Int × String) :=
  [(0, "minimal"), (15, "stable"), (35, "moderate"), (55, "elevated"), (75, "high"),
    (100, "severe")]

def hysteresisBand : Int := 3
def hotPillarScore : F := 70.0
def hotPillarConf : F := 0.7
def floorLift : F := 50.0
def unknownConfThreshold : F := 0.10

def labelFor (score : Option Int) : String :=
  match score with
  | none => "unknown"
  | some score =>
    let s := max 0 (min 100 score)
    ((thresholds.find? fun entry => s ≤ entry.1).map Prod.snd).getD "severe"

section Blend

variable (subs : List (String × SubScore F)) (weights : List (String × F))

def weightOf (name : String) : F := (lookup weights name).getD 0.0

/-- Weight, with its sub-score, of each pillar that weighs. -/
def weighed : List (F × String × SubScore F) :=
  (subs.map fun entry => (weightOf weights entry.1, entry)).filter fun entry => !le entry.1 0.0

def hotPillar : Option String :=
  ((weighed subs weights).filter fun (_, _, sub) =>
    le hotPillarScore sub.score && le hotPillarConf sub.confidence).getLast?.map (·.2.1)

def otherContribution (hot : String) : F :=
  (((subs.filter fun entry => entry.1 ≠ hot).map fun entry =>
    (weightOf weights entry.1, entry.2)).filter fun entry => lt 0.0 entry.1).foldl
      (fun total entry => total + entry.2.score * entry.1) 0.0

def floored : Bool :=
  match hotPillar subs weights with
  | none => false
  | some hot => hot ≠ "" && lt (otherContribution subs weights hot) 2.5

def blend : Risk F :=
  let den := (weighed subs weights).foldl
    (fun den (w, _, sub) => den + w * sub.confidence) (0.0 : F)
  let num := (weighed subs weights).foldl
    (fun num (w, _, sub) => num + sub.score * w * sub.confidence) (0.0 : F)
  let floor := floored subs weights
  if lt den unknownConfThreshold then
    { score := none, level := "unknown", confidence := den, floorTriggered := false }
  else
    let blended := if floor then larger (num / den) floorLift else num / den
    let score := roundInt (smaller 100.0 (larger 0.0 blended))
    let weight := sum ((weights.map Prod.snd).filter fun w => lt 0.0 w)
    let totalW := if eq weight 0.0 then 1.0 else weight
    { score := some score
      level := labelFor (some score)
      confidence := smaller 1.0 (den / totalW)
      floorTriggered := floor }

end Blend

def levelIndex (level : String) : Int :=
  let order := ["minimal", "stable", "moderate", "elevated", "high", "severe"]
  if level ∈ order then order.idxOf level else -1

def applyHysteresis (newScore : Int) (newLevel : String) (prevScore : Option Int)
    (prevLevel : String) : String :=
  if prevScore = none then newLevel
  else if newLevel = prevLevel then newLevel
  else
    match thresholds.findIdx? fun entry => entry.2 = prevLevel with
    | none => newLevel
    | some i =>
      let bound (i : Nat) : Int := (thresholds.getD i (0, "")).1
      if levelIndex newLevel > levelIndex prevLevel then
        if newScore ≥ bound i + hysteresisBand then newLevel else prevLevel
      else
        let lower := if i > 0 then bound (i - 1) else 0
        if newScore ≤ lower - hysteresisBand then newLevel else prevLevel

structure Scorer (F : Type) where
  name : String
  weightDefault : F
  enabledByDefault : Bool
  score : ScoreContext F → Except String (SubScore F)

def scorers : List (Scorer F) := [
  ⟨"vulnerabilities", 0.30, true, fun ctx => .ok (VulnerabilitiesScorer.score ctx)⟩,
  ⟨"configuration", 0.25, true, fun ctx => .ok (ConfigurationScorer.score ctx)⟩,
  ⟨"identity", 0.20, true, fun ctx => .ok (IdentityScorer.score ctx)⟩,
  ⟨"hygiene", 0.15, true, HygieneScorer.score⟩]

structure ScorerRegistry (F : Type) where
  weightOverrides : OrderedMap String F
  enabledOverrides : OrderedMap String Bool

namespace ScorerRegistry

variable (registry : ScorerRegistry F)

def weight (scorer : Scorer F) : F :=
  (registry.weightOverrides.get? scorer.name).getD scorer.weightDefault

def isEnabled (scorer : Scorer F) : Bool :=
  (registry.enabledOverrides.get? scorer.name).getD scorer.enabledByDefault

def activeScorers : List (Scorer F) := scorers.filter registry.isEnabled

def weights : List (String × F) :=
  registry.activeScorers.map fun scorer => (scorer.name, registry.weight scorer)

end ScorerRegistry

structure HostAdvisory where
  advisoryId : String
  package : String
  status : String

structure CatalogEntry (F : Type) where
  severity : String
  kev : Bool
  epss : Option F

structure PostureFindingRow extends Finding where
  subjectKind : String
  subjectId : Option String

inductive ReleaseStatus where
  | staged
  | published
  | yanked
  deriving DecidableEq, Repr

structure AgentRelease where
  version : String
  os : String
  arch : String
  status : ReleaseStatus
  uploadedAt : Int

/-- What the database holds for a host, the weights in force and the time of a
recompute. An advisory has one exposure row at most. -/
structure Inputs (F : Type) where
  host : Host
  hostAdvisories : List HostAdvisory
  catalog : String → Option (CatalogEntry F)
  findings : List PostureFindingRow
  exposures : List Exposure
  unique : (exposures.map Exposure.advisoryId).Nodup
  settings : String → Option Json
  packageCount : Nat
  releases : List AgentRelease
  registry : ScorerRegistry F
  now : Int

namespace Inputs

variable (inputs : Inputs F)

/-- A row with what the catalog knows of its advisory, or with the defaults of the readers. -/
def enrich (row : HostAdvisory) : Advisory F :=
  match if row.advisoryId = "" then none else inputs.catalog row.advisoryId with
  | none => { row with severity := "", kev := false, epss := 0.0 }
  | some entry => { row with
      severity := if entry.severity = "" then "unknown" else entry.severity
      kev := entry.kev
      epss := entry.epss.getD 0.0 }

def enrichAdvisories : List (Advisory F) := inputs.hostAdvisories.map inputs.enrich

def fetchFindings : List Finding :=
  (inputs.findings.filter fun row =>
    row.subjectId = some inputs.host.id || row.subjectKind = "global" ||
      row.subjectKind = "fleet").map PostureFindingRow.toFinding

/-- The newest release for the host's platform that is not yanked. -/
def latestAgentRelease : Option String :=
  match inputs.host.labels.get? "os", inputs.host.labels.get? "arch" with
  | some os, some arch =>
    if os = "" || arch = "" then none
    else
      let offered := inputs.releases.filter fun release =>
        release.os = os && release.arch = arch && release.status ≠ .yanked
      (sortedBy (fun a b => b.uploadedAt < a.uploadedAt) offered).head?.map AgentRelease.version
  | _, _ => none

def loadExposureMultipliers : Option (List (String × F)) :=
  let loaded := ["NETWORK_EXPOSED", "ACTIVE", "INSTALLED_ONLY", "UNKNOWN"].filterMap fun tier =>
    ((inputs.settings ("risk.exposure_multiplier." ++ tier)).bind float?).map fun x => (tier, x)
  if loaded.isEmpty then none else some loaded

def orNone (entries : OrderedMap String Json) : Option (OrderedMap String Json) :=
  if entries.entries.isEmpty then none else some entries

def metrics : Option (OrderedMap String Json) :=
  let metrics := inputs.host.metrics.getD .empty
  orNone (match inputs.latestAgentRelease with
    | some latest => metrics.insert "latest_agent_release" (.str latest)
    | none => metrics)

/-- The survey, with the package count as its inventory flag. -/
def survey : Option (OrderedMap String Json) :=
  let survey := inputs.host.survey.getD .empty
  orNone (if inputs.packageCount > 0 then survey.insert "packages" (.int inputs.packageCount)
    else survey)

def context : ScoreContext F where
  host := inputs.host
  advisories := inputs.enrichAdvisories
  findings := inputs.fetchFindings
  survey := inputs.survey
  metrics := inputs.metrics
  now := inputs.now
  exposures := inputs.exposures
  multipliers := inputs.loadExposureMultipliers
  scanIntervalSeconds := 6 * 3600

end Inputs

def runScorer (ctx : ScoreContext F) (scorer : Scorer F) : SubScore F :=
  match scorer.score ctx with
  | .ok sub => sub
  | .error message =>
    { score := 0.0, confidence := 0.0, coverageNotes := ["scorer error: " ++ message] }

structure Pillar (F : Type) extends SubScore F where
  name : String
  weight : F
  deriving DecidableEq, Repr

structure Outcome (F : Type) where
  risk : Risk F
  pillars : List (Pillar F)
  deriving DecidableEq, Repr

namespace Inputs

variable (inputs : Inputs F)

def subs : List (String × SubScore F) :=
  inputs.registry.activeScorers.map fun scorer =>
    (scorer.name, runScorer inputs.context scorer)

def outcome : Outcome F where
  risk := blend inputs.subs inputs.registry.weights
  pillars := inputs.subs.map fun (name, sub) =>
    { sub with name, weight := weightOf inputs.registry.weights name }

end Inputs

def scorerCodeversion : Nat := 2

abbrev AdvisoryEntry (F : Type) := String × String × Bool × F × String

/-- What `_hash_inputs` dumps as JSON; instants stand for their `isoformat()`. -/
structure Payload (F : Type) where
  hostId : String
  agentVersion : Option String
  agentUpdateStatus : AgentUpdateStatus
  certExpiresAt : Option Int
  lastSeenAt : Option Int
  advisories : List (AdvisoryEntry F)
  findings : List (String × String)
  weights : List (String × F)
  scorerCodeversion : Nat
  exposure : List (String × String)
  deriving DecidableEq

def tupleLt {α β : Type} (same : α → α → Bool) (first : α → α → Bool) (rest : β → β → Bool)
    (a b : α × β) : Bool :=
  if same a.1 b.1 then rest a.2 b.2 else first a.1 b.1

def textLt (a b : String) : Bool := a < b

def entryLt : AdvisoryEntry F → AdvisoryEntry F → Bool :=
  tupleLt (· == ·) textLt <| tupleLt (· == ·) textLt <|
    tupleLt (· == ·) (fun a b => !a && b) <| tupleLt eq lt textLt

namespace Inputs

variable (inputs : Inputs F)

def payload : Payload F where
  hostId := inputs.host.id
  agentVersion := inputs.host.agentVersion
  agentUpdateStatus := inputs.host.agentUpdateStatus
  certExpiresAt := inputs.host.certExpiresAt
  lastSeenAt := inputs.host.lastSeenAt
  advisories := sortedBy entryLt (inputs.enrichAdvisories.map fun a =>
    (a.advisoryId, a.severity, a.kev, a.epss, a.status))
  findings := sortedBy (tupleLt (· == ·) textLt textLt)
    (inputs.fetchFindings.map fun finding => (finding.rule, finding.severity))
  weights := sortedBy (tupleLt (· == ·) textLt lt) inputs.registry.weights
  scorerCodeversion := scorerCodeversion
  exposure := sortedBy (tupleLt (· == ·) textLt textLt)
    (inputs.exposures.map fun e => (e.advisoryId, e.exposureTier))

/-- `digest` is the SHA-256 of the JSON of a payload. -/
def hash (digest : Payload F → String) : String := digest inputs.payload

end Inputs

structure HostRisk (F : Type) where
  score : Option Int
  level : String
  confidence : F
  pillars : List (Pillar F)
  computedAt : Int
  inputsHash : String
  floorTriggered : Bool
  scorePrev : Option Int
  levelPrev : Option String

def shownLevel (risk : Risk F) (prev : Option (HostRisk F)) : String :=
  match prev, risk.score with
  | some prev, some score => applyHysteresis score risk.level prev.score prev.level
  | _, _ => risk.level

def storedRow (digest : Payload F → String) (inputs : Inputs F) (prev : Option (HostRisk F)) :
    HostRisk F where
  score := inputs.outcome.risk.score
  level := shownLevel inputs.outcome.risk prev
  confidence := inputs.outcome.risk.confidence
  pillars := inputs.outcome.pillars
  computedAt := inputs.now
  inputsHash := inputs.hash digest
  floorTriggered := inputs.outcome.risk.floorTriggered
  scorePrev := prev.bind HostRisk.score
  levelPrev := prev.map HostRisk.level

/-- The row after `_recompute_locked` of an enrolled host. -/
def recompute (digest : Payload F → String) (inputs : Inputs F) (force : Bool)
    (prev : Option (HostRisk F)) : HostRisk F :=
  match prev with
  | some row =>
    if !force && row.inputsHash = inputs.hash digest then row
    else storedRow digest inputs prev
  | none => storedRow digest inputs prev

end HlHelper.Posture
