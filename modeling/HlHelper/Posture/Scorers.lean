import HlHelper.Library.OrderedMap
import HlHelper.Oidc.Claims
import Mathlib.Data.List.Sort

/-! What the risk scorers read of a host, and the sub-score each makes of it.
Times are microseconds since the epoch. -/

namespace HlHelper.Posture

open Library
open Oidc (Json)

/-- The floats of the interpreter, and its built-ins on them, on strings and on JSON values. -/
class Python (F : Type) extends Add F, Sub F, Mul F, Div F, Neg F, OfScientific F where
  lt : F → F → Bool
  le : F → F → Bool
  eq : F → F → Bool
  sum : List F → F
  exp : F → F
  round : F → Nat → F
  /-- `int(round(x))`. -/
  roundInt : F → Int
  /-- `int(x)`. -/
  trunc : F → Int
  ofInt : Int → F
  /-- `timedelta.total_seconds()`. -/
  totalSeconds : Int → F
  /-- `float(value)`, none where it raises. -/
  float? : Json → Option F
  lower : String → String
  /-- The digit that `\d` and `int` see in a character. -/
  decimal : Char → Option Nat

open Python

section Builtins

variable {F : Type} [Python F]

/-- `max(a, b)`, which keeps its first argument unless the second is larger. -/
def larger (a b : F) : F := if lt a b then b else a

/-- `min(a, b)`. -/
def smaller (a b : F) : F := if lt b a then b else a

def sortedBy {α : Type} (before : α → α → Bool) (items : List α) : List α :=
  items.insertionSort fun a b => before b a = false

def descending {α : Type} (key : α → F) (items : List α) : List α :=
  sortedBy (fun a b => lt (-key a) (-key b)) items

end Builtins

structure Driver (F : Type) where
  label : String
  contrib : F
  href : Option String := none
  deriving DecidableEq, Repr

structure SubScore (F : Type) where
  score : F
  confidence : F
  drivers : List (Driver F) := []
  coverageNotes : List String := []
  deriving DecidableEq, Repr

inductive AgentUpdateStatus where
  | idle
  | downloading
  | swapping
  | healthchecking
  | rolledBack
  | failed
  deriving DecidableEq, Repr

structure Host where
  id : String
  agentVersion : Option String
  agentUpdateStatus : AgentUpdateStatus
  certExpiresAt : Option Int
  lastSeenAt : Option Int
  enrolledAt : Int
  heartbeatIntervalS : Int
  survey : Option (OrderedMap String Json)
  surveyAt : Option Int
  metrics : Option (OrderedMap String Json)
  labels : OrderedMap String String

/-- A row of `host_advisories` with what the catalog adds to it. -/
structure Advisory (F : Type) where
  advisoryId : String
  package : String
  status : String
  severity : String
  kev : Bool
  epss : F

structure Finding where
  rule : String
  severity : String
  deriving DecidableEq, Repr

structure Exposure where
  advisoryId : String
  exposureTier : String
  scannedAt : Int
  deriving DecidableEq, Repr

structure ScoreContext (F : Type) where
  host : Host
  advisories : List (Advisory F)
  findings : List Finding
  survey : Option (OrderedMap String Json)
  metrics : Option (OrderedMap String Json)
  now : Int
  exposures : List Exposure
  multipliers : Option (List (String × F))
  scanIntervalSeconds : Int

/-- `d.get(key)`. -/
def lookup {α : Type} (entries : List (String × α)) (key : String) : Option α :=
  (entries.find? fun entry => entry.1 = key).map Prod.snd

variable {F : Type} [Python F]

namespace VulnerabilitiesScorer

def base (severity : String) : F :=
  (lookup [("critical", 12.0), ("high", 4.0), ("medium", 1.2), ("low", 0.3), ("unknown", 0.0)]
    severity).getD 0.0

def decayDenom : F := 50.0

def defaultExposureMultipliers : List (String × F) :=
  [("NETWORK_EXPOSED", 2.0), ("ACTIVE", 1.5), ("INSTALLED_ONLY", 0.1), ("UNKNOWN", 0.6)]

def stale (now scanIntervalSeconds : Int) (exposure : Exposure) : Bool :=
  exposure.scannedAt < now - 2 * scanIntervalSeconds * 1000000

def resolveTier (exposures : List Exposure) (now scanIntervalSeconds : Int)
    (advisoryId : String) : String :=
  match exposures.find? fun exposure => exposure.advisoryId = advisoryId with
  | some exposure =>
    if stale now scanIntervalSeconds exposure then "UNKNOWN" else exposure.exposureTier
  | none => "UNKNOWN"

def multiplier (multipliers : Option (List (String × F))) (tier : String) : F :=
  (lookup (multipliers.getD defaultExposureMultipliers) tier).getD 1.0

def applyExposureWeight (base : F) (tier : String) (multipliers : Option (List (String × F))) : F :=
  base * multiplier multipliers tier

def severityOf (advisory : Advisory F) : String :=
  lower F (if advisory.severity = "" then "unknown" else advisory.severity)

def counts (advisory : Advisory F) : Bool :=
  advisory.status = "open" && !eq (base (severityOf advisory) : F) 0.0

/-- A weight of its base, doubled and more by KEV and EPSS. -/
def exploited (advisory : Advisory F) : F :=
  let epss := larger 0.0 (smaller 1.0 (if eq advisory.epss 0.0 then 0.0 else advisory.epss))
  1.0 + (if advisory.kev then 4.0 else 0.0) + 3.0 * epss

def contribution (ctx : ScoreContext F) (advisory : Advisory F) : F :=
  applyExposureWeight (base (severityOf advisory) * exploited advisory)
    (resolveTier ctx.exposures ctx.now ctx.scanIntervalSeconds advisory.advisoryId)
    ctx.multipliers

def hasInventory (survey : Option (OrderedMap String Json)) : Bool :=
  ((survey.bind fun survey => survey.get? "packages").map Json.truthy).getD false

def freshness (surveyAt : Option Int) (now : Int) : F :=
  match surveyAt with
  | none => 0.3
  | some surveyAt => larger 0.3 (1.0 - totalSeconds (now - surveyAt) / 604800.0)

def driver (entry : F × Advisory F) : Driver F where
  label := entry.2.package ++ " — " ++ entry.2.advisoryId
  contrib := round entry.1 2
  href := some ("/advisories/" ++ entry.2.advisoryId)

def score (ctx : ScoreContext F) : SubScore F :=
  let contributions := (ctx.advisories.filter counts).map fun advisory =>
    (contribution ctx advisory, advisory)
  let raw := contributions.foldl (fun raw entry => raw + entry.1) (0.0 : F)
  let score := if lt 0.0 raw then (1.0 - exp (-raw / decayDenom)) * 100.0 else 0.0
  let coverage : F := if hasInventory ctx.survey then 1.0 else 0.4
  { score := round score 1
    confidence := round (coverage * freshness ctx.host.surveyAt ctx.now) 3
    drivers := ((descending Prod.fst contributions).take 3).map driver
    coverageNotes :=
      if hasInventory ctx.survey then []
      else ["package inventory missing — score may understate risk"] }

end VulnerabilitiesScorer

namespace HygieneScorer

/-- The value of leading digits, and what follows them. -/
def digits (chars : List Char) : Option (Int × List Char) :=
  let leading := chars.takeWhile fun c => (decimal F c).isSome
  if leading = [] then none
  else
    let value := (leading.filterMap (decimal F)).foldl (fun value digit => 10 * value + digit) 0
    some (Int.ofNat value, chars.drop leading.length)

/-- `^v?(\d+)\.(\d+)`. -/
def parseMinor (version : String) : Option (Int × Int) :=
  let chars := match version.toList with
    | 'v' :: chars => chars
    | chars => chars
  match digits (F := F) chars with
  | some (major, '.' :: chars) => (digits (F := F) chars).map fun minor => (major, minor.1)
  | _ => none

def minorDistance (a b : Int × Int) : Int := |(a.1 - b.1) * 10 + (a.2 - b.2)|

def typeName : Json → String
  | .null => "NoneType"
  | .bool _ => "bool"
  | .int _ => "int"
  | .float _ => "float"
  | .str _ => "str"
  | .arr _ => "list"
  | .obj _ => "dict"

/-- The published version, as `re.match` takes it. -/
def latestVersion (metrics : Option (OrderedMap String Json)) : Except String (Option String) :=
  match metrics.bind fun metrics => metrics.get? "latest_agent_release" with
  | some (.str latest) => .ok (some latest)
  | some value =>
    if value.truthy then
      .error ("expected string or bytes-like object, got '" ++ typeName value ++ "'")
    else .ok none
  | none => .ok none

def certDriver (host : Host) (now : Int) : Option (Driver F) :=
  host.certExpiresAt.bind fun cert =>
    let days : F := totalSeconds (cert - now) / 86400.0
    let label := "cert expires in " ++ toString (trunc days) ++ "d"
    if lt days 7.0 then some { label, contrib := 40.0 }
    else if lt days 30.0 then some { label, contrib := 15.0 }
    else none

def interval (host : Host) : Int :=
  if host.heartbeatIntervalS = 0 then 60 else host.heartbeatIntervalS

def heartbeatDriver (host : Host) (now : Int) : Option (Driver F) :=
  match host.lastSeenAt with
  | none =>
    if now - host.enrolledAt > 30 * 60 * 1000000 then
      some { label := "never heartbeated", contrib := 25.0 }
    else none
  | some lastSeen =>
    if lt (ofInt (4 * interval host)) (totalSeconds (now - lastSeen) : F) then
      some { label := "heartbeat stale", contrib := 20.0 }
    else none

def updateDriver (host : Host) : Option (Driver F) :=
  if host.agentUpdateStatus = .failed then
    some { label := "agent update failed", contrib := 15.0 }
  else none

def driftDriver (host : Host) (latest : Option String) : Option (Driver F) :=
  match host.agentVersion, latest with
  | some current, some latest =>
    match parseMinor (F := F) current, parseMinor (F := F) latest with
    | some cur, some latestV =>
      let d := minorDistance cur latestV
      if d > 0 then
        some {
          label := "agent v" ++ current ++ " (latest " ++ latest ++ ")"
          contrib := ofInt (d * 8) }
      else none
    | _, _ => none
  | _, _ => none

def confidence (host : Host) (now : Int) : F :=
  match host.lastSeenAt with
  | none => 0.7
  | some lastSeen => larger 0.4 (1.0 - totalSeconds (now - lastSeen) / 604800.0)

def score (ctx : ScoreContext F) : Except String (SubScore F) := do
  let latest ← latestVersion ctx.metrics
  let drivers : List (Driver F) := [
    certDriver ctx.host ctx.now, heartbeatDriver ctx.host ctx.now,
    updateDriver ctx.host, driftDriver ctx.host latest].filterMap id
  let total := drivers.foldl (fun total driver => total + driver.contrib) (0.0 : F)
  return {
    score := round (smaller 100.0 total) 1
    confidence := round (confidence ctx.host ctx.now) 3
    drivers := drivers.take 3 }

end HygieneScorer

def severityWeight (finding : Finding) : F :=
  (lookup [("critical", 25.0), ("high", 12.0), ("medium", 5.0), ("low", 1.5), ("info", 0.5)]
    (lower F (if finding.severity = "" then "low" else finding.severity))).getD 0.0

namespace IdentityScorer

def rules : List String :=
  ["no_owner_account", "excessive_admin_count", "stale_pending_approvals",
    "hosts_with_expired_certs"]

def baselineFloor : F := 5.0

def add (acc : F × OrderedMap String F) (finding : Finding) : F × OrderedMap String F :=
  if finding.rule ∈ rules then
    let weight := severityWeight finding
    (acc.1 + weight, acc.2.insert finding.rule ((acc.2.get? finding.rule).getD 0.0 + weight))
  else acc

def driver (entry : String × F) : Driver F := { label := entry.1, contrib := round entry.2 2 }

def score (ctx : ScoreContext F) : SubScore F :=
  let (total, perRule) := ctx.findings.foldl add (0.0, OrderedMap.empty)
  let total := if lt 0.0 total then larger baselineFloor total else total
  { score := round (smaller 100.0 total) 1
    confidence := 1.0
    drivers := ((descending Prod.snd perRule.entries).take 3).map driver }

end IdentityScorer

namespace ConfigurationScorer

def rules : List String :=
  ["sshd_passwordauth", "sshd_permitrootlogin", "kernel_aslr", "fs_shadow_perms",
    "release_signing_not_configured", "update_engine_not_configured"]

def perRuleCap : F := 35.0

/-- The capped weight of each rule, with how many findings it has. -/
def add (perRule : OrderedMap String (F × Nat)) (finding : Finding) :
    OrderedMap String (F × Nat) :=
  if finding.rule ∈ rules then
    let (weight, findings) := (perRule.get? finding.rule).getD (0.0, 0)
    perRule.insert finding.rule
      (smaller perRuleCap (weight + severityWeight finding), findings + 1)
  else perRule

def driver (entry : String × F × Nat) : Driver F where
  label := entry.1 ++ " (" ++ toString entry.2.2 ++ ")"
  contrib := round entry.2.1 2

/-- How many of the surveyed settings a survey has, none without a survey. -/
def surveyed (survey : Option (OrderedMap String Json)) : Option Nat :=
  survey.map fun survey => ["sshd", "sysctl", "fs_perms"].countP fun key => key ∈ survey.keys

def coverage (survey : Option (OrderedMap String Json)) : F :=
  match surveyed survey with
  | none => 0.3
  | some seen => larger 0.4 (smaller 1.0 (0.4 + 0.2 * ofInt seen))

def score (ctx : ScoreContext F) : SubScore F :=
  let perRule := ctx.findings.foldl add OrderedMap.empty
  { score := round (smaller 100.0 (sum (perRule.values.map Prod.fst))) 1
    confidence := round (coverage ctx.survey) 3
    drivers := ((descending (fun entry => entry.2.1) perRule.entries).take 3).map driver
    coverageNotes :=
      if (surveyed ctx.survey).isNone then
        ["no survey data — config posture cannot be assessed"]
      else [] }

end ConfigurationScorer

end HlHelper.Posture
