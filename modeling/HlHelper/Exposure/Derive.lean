import HlHelper.Exposure.Collectors
import HlHelper.Posture.Aggregator

/-! From the collectors to the stored tiers: the scan with its package names, the message
as the server reads it, and the tier it derives for each advisory. -/

namespace HlHelper.Exposure

open HlHelper.Library
open Posture (HostAdvisory)

structure PathPkg where
  pkg : String
  version : String
  deriving DecidableEq, Repr

/-- The files that packages own, as the resolver knows them; packages have names. -/
structure Ownership where
  owner : String → Option PathPkg
  named : ∀ path found, owner path = some found → found.pkg ≠ ""

structure RuntimeExposure where
  processes : List Process
  listeners : List ListeningSocket
  connections : List Connection
  services : List Service
  kernelModules : List KernelModule
  truncated : Bool
  deriving DecidableEq, Repr

namespace Scanner

def uniquePaths (r : RuntimeExposure) : List String :=
  dedupe ((r.processes.flatMap fun p => (if p.exePath = "" then [] else [p.exePath]) ++
    p.loadedLibs) ++ (r.services.map Service.execPath).filter (· ≠ ""))

/-- `Resolve`: the owners of the paths that were asked for. -/
def resolve (ownership : Ownership) (paths : List String) (path : String) : Option PathPkg :=
  if path ∈ paths then ownership.owner path else none

def enrichProcess (mapping : String → Option PathPkg) (p : Process) : Process :=
  match mapping p.exePath with
  | some found => { p with pkg := found.pkg, pkgVersion := found.version }
  | none => p

def enrichService (mapping : String → Option PathPkg) (service : Service) : Service :=
  match mapping service.execPath with
  | some found => { service with pkg := found.pkg, pkgVersion := found.version }
  | none => service

def enrich (r : RuntimeExposure) (mapping : String → Option PathPkg) : RuntimeExposure :=
  { r with
    processes := r.processes.map (enrichProcess mapping)
    services := r.services.map (enrichService mapping) }

def merge (results : List CollectorResult) : RuntimeExposure where
  processes := results.flatMap CollectorResult.processes
  listeners := results.flatMap CollectorResult.listeners
  connections := results.flatMap CollectorResult.connections
  services := results.flatMap CollectorResult.services
  kernelModules := results.flatMap CollectorResult.kernelModules
  truncated := results.any CollectorResult.truncated

def collect (ipString : List Nat → String) (host : Host) (lateProcess lateFile : Nat → Bool) :
    RuntimeExposure :=
  merge [ProcessCollector.collect host lateProcess,
    SocketCollector.collect ipString host lateFile, collectServices host, collectModules host]

def scan (ipString : List Nat → String) (host : Host) (ownership : Ownership)
    (lateProcess lateFile : Nat → Bool) : RuntimeExposure :=
  let out := collect ipString host lateProcess lateFile
  enrich out (resolve ownership (uniquePaths out))

end Scanner

/-- A field of a message, absent from its `MessageToDict` where it has its default. -/
def present {α : Type} [DecidableEq α] (default value : α) : Option α :=
  if value = default then none else some value

inductive Tier where
  | unknown
  | installedOnly
  | active
  | networkExposed
  deriving DecidableEq, Repr

def Tier.rank : Tier → Nat
  | .unknown => 0
  | .installedOnly => 1
  | .active => 2
  | .networkExposed => 3

def maxTier (a b : Tier) : Tier := if a.rank ≥ b.rank then a else b

structure KeyError where
  key : String
  deriving DecidableEq, Repr

/-- `d[key]`. -/
def item {α : Type} (key : String) (value : Option α) : Except KeyError α :=
  match value with
  | some value => .ok value
  | none => .error ⟨key⟩

structure AdvisoryRow where
  id : String
  package : String
  affectedPaths : List String
  deriving DecidableEq, Repr

structure Derived where
  advisoryId : String
  exposureTier : Tier
  evidence : List String
  deriving DecidableEq, Repr

section Derive

abbrev Finding := Tier × List String

def raise (finding : Finding) (tier : Tier) (evidence : String) : Finding :=
  (maxTier finding.1 tier, finding.2 ++ [evidence])

def pidOf (p : Process) : Except KeyError Nat := item "pid" (present 0 p.pid)
def exePathOf (p : Process) : Except KeyError String := item "exe_path" (present "" p.exePath)

def loadedMatch (adv : AdvisoryRow) (finding : Finding) (p : Process) :
    Except KeyError Finding := do
  if (p.loadedLibs.filter (· ∈ adv.affectedPaths)).isEmpty then return finding
  let exePath ← exePathOf p
  let pid ← pidOf p
  return raise finding .active s!"loaded by {exePath} pid {pid}"

def exeMatch (adv : AdvisoryRow) (finding : Finding) (p : Process) :
    Except KeyError Finding := do
  if present "" p.pkg ≠ some adv.package then return finding
  let pid ← pidOf p
  let exePath ← exePathOf p
  return raise finding .active s!"running pid {pid} ({exePath})"

def serviceMatch (adv : AdvisoryRow) (finding : Finding) (service : Service) :
    Except KeyError Finding := do
  if present "" service.pkg ≠ some adv.package ∨ !service.active then return finding
  let name ← item "name" (present "" service.name)
  return raise finding .active s!"service {name} active"

def moduleMatch (adv : AdvisoryRow) (finding : Finding) (km : KernelModule) :
    Except KeyError Finding := do
  if present "" km.pkg ≠ some adv.package then return finding
  let name ← item "name" (present "" km.name)
  return raise finding .active s!"kmod {name} loaded"

/-- `ipLoopback` is `is_loopback` of an `ip_address`, none where it raises. -/
def isLoopback (ipLoopback : String → Option Bool) (addr : String) : Bool :=
  if addr = "localhost" then true
  else if addr = "" then false
  else (ipLoopback addr).getD false

/-- `pidIndex` maps a process id to the last process that has it. -/
def listenerMatch (ipLoopback : String → Option Bool) (pidIndex : List (Nat × Process))
    (adv : AdvisoryRow) (finding : Finding) (sock : ListeningSocket) :
    Except KeyError Finding := do
  match (pidIndex.reverse.find? fun entry => entry.1 = sock.pid).map Prod.snd with
  | none => return finding
  | some p =>
    if present "" p.pkg ≠ some adv.package ∧ p.loadedLibs.all (· ∉ adv.affectedPaths) then
      return finding
    let proto := (present "" sock.proto).getD "tcp"
    let port := sock.port
    if isLoopback ipLoopback sock.bindAddr then
      return raise finding .active s!"listening {proto}/{port} (loopback)"
    let exePath ← exePathOf p
    return raise finding .networkExposed s!"listening {proto}/{port} ({exePath})"

def deriveOne (ipLoopback : String → Option Bool) (scan : RuntimeExposure)
    (pidIndex : List (Nat × Process)) (adv : AdvisoryRow) : Except KeyError Derived := do
  let finding ← scan.processes.foldlM (loadedMatch adv) (.installedOnly, [])
  let finding ← scan.processes.foldlM (exeMatch adv) finding
  let finding ← scan.services.foldlM (serviceMatch adv) finding
  let finding ← scan.kernelModules.foldlM (moduleMatch adv) finding
  let finding ← scan.listeners.foldlM (listenerMatch ipLoopback pidIndex adv) finding
  return ⟨adv.id, finding.1, finding.2⟩

def deriveExposure (ipLoopback : String → Option Bool) (scan : RuntimeExposure)
    (hostPackages : List String) (advisories : List AdvisoryRow) :
    Except KeyError (List Derived) := do
  let pidIndex ← scan.processes.mapM fun p => do return (← pidOf p, p)
  (advisories.filter fun adv => adv.package ∈ hostPackages).mapM
    (deriveOne ipLoopback scan pidIndex)

end Derive

/-- The exposure rows of a host, with the tier and the evidence of each advisory. -/
abbrev Rows := OrderedMap String Finding

def mergeDerived (merged : Rows) (d : Derived) : Rows :=
  match merged.get? d.advisoryId with
  | none => merged.insert d.advisoryId (d.exposureTier, d.evidence)
  | some existing =>
    merged.insert d.advisoryId
      (if d.exposureTier.rank > existing.1.rank then d.exposureTier else existing.1,
        d.evidence.foldl (fun evidence ev => if ev ∈ evidence then evidence else evidence ++ [ev])
          existing.2)

def ingest (derived : List Derived) : Rows := derived.foldl mergeDerived .empty

def loadAdvisories (rows : List HostAdvisory) : List AdvisoryRow :=
  (rows.filter fun row => row.status = "open").map fun row => ⟨row.advisoryId, row.package, []⟩

/-- The `runtime_exposure` branch of the bridge: an error is logged and leaves the rows. -/
def handle (ipLoopback : String → Option Bool) (hostPackages : List String)
    (advisories : List HostAdvisory) (scan : RuntimeExposure) (stored : Rows) : Rows :=
  match deriveExposure ipLoopback scan hostPackages (loadAdvisories advisories) with
  | .ok derived => ingest derived
  | .error _ => stored

def tierOf (stored : Rows) (advisoryId : String) : Option Tier :=
  (stored.get? advisoryId).map Prod.fst

end HlHelper.Exposure
