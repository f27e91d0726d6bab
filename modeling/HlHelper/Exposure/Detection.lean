import HlHelper.Exposure.Derive
import HlHelper.Library.Checked

/-! A running package is told of as active, and never as exposed to the network, for no
listener says which process owns it. -/

namespace HlHelper.Exposure

open HlHelper.Library Scanner
open Posture (HostAdvisory)

variable {ipString : List Nat → String} {ipLoopback : String → Option Bool} {host : Host}
  {ownership : Ownership} {lateProcess lateFile : Nat → Bool}

variable (budget : host.processes.length ≤ defaultMaxProcesses)
  (inTime : ∀ i, lateProcess i = false)

section Text

variable {α : Type} [DecidableEq α]

theorem mem_foldl_dedupe (items out : List α) (x : α) :
    x ∈ items.foldl (fun out item => if item ∈ out then out else out ++ [item]) out ↔
      x ∈ out ∨ x ∈ items := by
  induction items generalizing out with
  | nil => simp
  | cons item items ih =>
    rw [List.foldl_cons, ih]
    split
    case isTrue known => grind
    case isFalse => simp [or_assoc]

theorem mem_dedupe {items : List α} {x : α} : x ∈ dedupe items ↔ x ∈ items := by
  simp [dedupe, mem_foldl_dedupe]

end Text

section Scan

theorem parseLine_unowned (proto : String) (ipv6 : Bool) (line : List Char)
    {out : List ListeningSocket × List Connection} (before : ∀ sock ∈ out.1, sock.pid = 0) :
    ∀ sock ∈ (SocketCollector.parseLine ipString proto ipv6 out line).1, sock.pid = 0 := by
  unfold SocketCollector.parseLine
  split
  case h_2 => exact before
  case h_1 =>
      split
      case h_1 => exact before
      case h_2 =>
        split
        case isTrue =>
          intro sock member
          rcases List.mem_append.mp member with old | new
          · exact before sock old
          · rw [List.mem_singleton.mp new]
        case isFalse => split <;> exact before

theorem parseProcNet_unowned (lines : List (List Char)) (proto : String) (ipv6 : Bool) :
    ∀ sock ∈ (SocketCollector.parseProcNet ipString lines proto ipv6).1, sock.pid = 0 := by
  unfold SocketCollector.parseProcNet
  generalize lines.drop 1 = lines
  have start : ∀ sock ∈ (([], []) : List ListeningSocket × List Connection).1, sock.pid = 0 :=
    List.forall_mem_nil _
  generalize (([], []) : List ListeningSocket × List Connection) = out at start ⊢
  induction lines generalizing out with
  | nil => exact start
  | cons line lines ih => exact ih _ (parseLine_unowned proto ipv6 line start)

theorem applyBudget_subset {α : Type} (items : List α) (cap : Nat) :
    (applyBudget items cap).1 ⊆ items := by
  unfold applyBudget
  split
  · exact List.Subset.refl _
  · exact List.take_subset ..

theorem collect_unowned :
    ∀ sock ∈ (SocketCollector.collect ipString host lateFile).listeners, sock.pid = 0 := by
  intro sock member
  have parsed := applyBudget_subset _ _ member
  obtain ⟨file, read, listed⟩ := List.mem_flatMap.mp parsed
  obtain ⟨source, -, rfl⟩ := List.mem_map.mp read
  exact parseProcNet_unowned _ _ _ sock listed

theorem merged_processes : (Scanner.collect ipString host lateProcess lateFile).processes =
    (ProcessCollector.collect host lateProcess).processes := List.append_nil _

theorem merged_listeners : (Scanner.collect ipString host lateProcess lateFile).listeners =
    (SocketCollector.collect ipString host lateFile).listeners := List.append_nil _

theorem merged_services : (Scanner.collect ipString host lateProcess lateFile).services =
    (collectServices host).services := List.append_nil _

theorem merged_modules : (Scanner.collect ipString host lateProcess lateFile).kernelModules =
    (collectModules host).kernelModules := List.append_nil _

theorem listeners_unowned :
    ∀ sock ∈ (scan ipString host ownership lateProcess lateFile).listeners, sock.pid = 0 := by
  intro sock member
  have found : sock ∈ (Scanner.collect ipString host lateProcess lateFile).listeners := member
  rw [merged_listeners] at found
  exact collect_unowned sock found

theorem library_path {maps : List String} {lib : String}
    (member : lib ∈ ProcessCollector.readLoadedLibs maps) : lib ≠ "" := by
  rw [ProcessCollector.readLoadedLibs, mem_dedupe] at member
  obtain ⟨line, -, found⟩ := List.mem_filterMap.mp member
  obtain ⟨path, -, kept⟩ := Option.bind_eq_some_iff.mp found
  split at kept
  case isFalse => cases kept
  case isTrue library =>
      cases kept
      intro empty
      have nothing : path = [] := by simpa using congrArg String.toList empty
      rw [nothing] at library
      cases library

theorem readProcess_libs (p : HostProcess) : "" ∉ (ProcessCollector.readProcess p).loadedLibs := by
  intro member
  have listed := List.mem_of_mem_take member
  exact library_path (mem_dedupe.mp listed) rfl

theorem collected_read {p : Process}
    (member : p ∈ (Scanner.collect ipString host lateProcess lateFile).processes) :
    ∃ source ∈ host.processes, ProcessCollector.readProcess source = p := by
  rw [merged_processes] at member
  obtain ⟨source, taken, rfl⟩ := List.mem_map.mp (applyBudget_subset _ _ member)
  exact ⟨source, List.mem_of_mem_take taken, rfl⟩

theorem empty_not_unique :
    "" ∉ uniquePaths (Scanner.collect ipString host lateProcess lateFile) := by
  intro member
  rw [uniquePaths, mem_dedupe, List.mem_append] at member
  rcases member with ofProcess | ofService
  · obtain ⟨p, known, asked⟩ := List.mem_flatMap.mp ofProcess
    rcases List.mem_append.mp asked with exe | lib
    · split at exe
      case isTrue => cases exe
      case isFalse named => exact named (List.mem_singleton.mp exe).symm
    · obtain ⟨source, -, rfl⟩ := collected_read known
      exact readProcess_libs source lib
  · simp at ofService

def mapping (ipString : List Nat → String) (host : Host) (ownership : Ownership)
    (lateProcess lateFile : Nat → Bool) : String → Option PathPkg :=
  resolve ownership (uniquePaths (Scanner.collect ipString host lateProcess lateFile))

theorem mapping_empty : mapping ipString host ownership lateProcess lateFile "" = none := by
  unfold mapping resolve
  rw [if_neg empty_not_unique]

theorem services_unpackaged :
    ∀ service ∈ (scan ipString host ownership lateProcess lateFile).services,
      service.pkg = "" := by
  intro service member
  obtain ⟨source, listed, rfl⟩ := List.mem_map.mp member
  rw [merged_services] at listed
  obtain ⟨line, -, made⟩ := List.mem_filterMap.mp listed
  have bare : source.execPath = "" ∧ source.pkg = "" := by
    split at made
    case h_1 =>
      split at made
      case isTrue => cases made
      case isFalse =>
        cases made
        exact ⟨rfl, rfl⟩
    case h_2 => cases made
  have unknown : enrichService (mapping ipString host ownership lateProcess lateFile) source =
      source := by
    unfold enrichService
    rw [bare.1, mapping_empty]
  exact (congrArg Service.pkg unknown).trans bare.2

theorem modules_unpackaged :
    ∀ km ∈ (scan ipString host ownership lateProcess lateFile).kernelModules, km.pkg = "" := by
  intro km member
  have found : km ∈ (Scanner.collect ipString host lateProcess lateFile).kernelModules := member
  rw [merged_modules] at found
  have listed := applyBudget_subset _ _ found
  obtain ⟨line, -, made⟩ := List.mem_filterMap.mp listed
  obtain ⟨name, -, rfl⟩ := Option.map_eq_some_iff.mp made
  rfl

include budget inTime in
theorem processes_collected : (Scanner.collect ipString host lateProcess lateFile).processes =
      host.processes.map ProcessCollector.readProcess := by
  have all : (List.range host.processes.length).takeWhile (fun i => !lateProcess i) =
      List.range host.processes.length := by
    simp [List.takeWhile_eq_self_iff, inTime]
  have collected : (ProcessCollector.collect host lateProcess).processes =
      host.processes.map ProcessCollector.readProcess := by
    simp [ProcessCollector.collect, all, applyBudget, budget]
  rw [merged_processes, collected]

include budget inTime in
theorem processes_scanned : (scan ipString host ownership lateProcess lateFile).processes =
      host.processes.map fun p =>
        enrichProcess (mapping ipString host ownership lateProcess lateFile)
          (ProcessCollector.readProcess p) := by
  change (Scanner.collect ipString host lateProcess lateFile).processes.map _ = _
  rw [processes_collected budget inTime, List.map_map]
  rfl

end Scan

def Ownership.Owns (ownership : Ownership) (package : String) (p : HostProcess) : Prop :=
  ∃ exe found, p.exe = some exe ∧ ownership.owner exe = some found ∧ found.pkg = package

/-- What a scan is like: nothing but processes has a package, and no listener a process. -/
structure RuntimeExposure.Scanned (scan : RuntimeExposure) : Prop where
  listeners : ∀ sock ∈ scan.listeners, sock.pid = 0
  services : ∀ service ∈ scan.services, service.pkg = ""
  modules : ∀ km ∈ scan.kernelModules, km.pkg = ""
  pids : ∀ p ∈ scan.processes, p.pid ≠ 0
  paths : ∀ p ∈ scan.processes, p.pkg ≠ "" → p.exePath ≠ ""

section Processes

variable {p : HostProcess} {package : String}

theorem enriched_pid (member : p ∈ host.processes) (found : String → Option PathPkg) :
    (enrichProcess found (ProcessCollector.readProcess p)).pid ≠ 0 := by
  have bounds := host.pids p member
  have kept : (enrichProcess found (ProcessCollector.readProcess p)).pid = p.pid % 2 ^ 32 := by
    unfold enrichProcess
    split <;> rfl
  rw [kept, Nat.mod_eq_of_lt bounds.2]
  exact Nat.ne_of_gt bounds.1

theorem enriched_path (found : String → Option PathPkg) :
    (enrichProcess found (ProcessCollector.readProcess p)).exePath = p.exe.getD "" := by
  unfold enrichProcess
  split <;> rfl

theorem enriched_pkg (found : String → Option PathPkg) :
    (enrichProcess found (ProcessCollector.readProcess p)).pkg =
      ((found (p.exe.getD "")).map PathPkg.pkg).getD "" := by
  have path : (ProcessCollector.readProcess p).exePath = p.exe.getD "" := rfl
  unfold enrichProcess
  rw [path]
  cases found (p.exe.getD "") <;> rfl

include budget inTime in
theorem mapping_exe (member : p ∈ host.processes) {exe : String} (link : p.exe = some exe) :
    mapping ipString host ownership lateProcess lateFile exe = ownership.owner exe := by
  have named : exe ≠ "" := by
    intro empty
    exact host.links p member (link.trans (congrArg some empty))
  have asked : exe ∈ uniquePaths (Scanner.collect ipString host lateProcess lateFile) := by
    rw [uniquePaths, mem_dedupe, processes_collected budget inTime]
    apply List.mem_append_left
    apply List.mem_flatMap.mpr
    exact ⟨_, List.mem_map_of_mem member, by simp [ProcessCollector.readProcess, link, named]⟩
  unfold mapping resolve
  rw [if_pos asked]

include budget inTime in
theorem enriched_owned (member : p ∈ host.processes) :
    present "" (enrichProcess (mapping ipString host ownership lateProcess lateFile)
        (ProcessCollector.readProcess p)).pkg = some package ↔ ownership.Owns package p := by
  rw [enriched_pkg]
  cases link : p.exe with
  | none =>
    simp only [Option.getD_none, mapping_empty, Option.map_none]
    constructor
    case mp => exact fun known => absurd known (by simp [present])
    case mpr =>
        intro ⟨exe, _, linked, _⟩
        cases link.symm.trans linked
  | some exe =>
    simp only [Option.getD_some, mapping_exe budget inTime member link]
    cases owner : ownership.owner exe with
    | none =>
      constructor
      case mp => exact fun known => absurd known (by simp [present])
      case mpr =>
          intro ⟨other, found, linked, owned, _⟩
          cases link.symm.trans linked
          cases owner.symm.trans owned
    | some found =>
      have named := ownership.named exe found owner
      constructor
      case mp =>
          intro known
          exact ⟨exe, found, link, owner, by simpa [present, named] using known⟩
      case mpr =>
          intro ⟨other, also, linked, owned, same⟩
          cases link.symm.trans linked
          cases owner.symm.trans owned
          subst same
          simp [present, named]

include budget inTime in
theorem scanned : (scan ipString host ownership lateProcess lateFile).Scanned where
  listeners := listeners_unowned
  services := services_unpackaged
  modules := modules_unpackaged
  pids := by
    intro p member
    rw [processes_scanned budget inTime] at member
    obtain ⟨source, known, rfl⟩ := List.mem_map.mp member
    exact enriched_pid known _
  paths := by
    intro p member packaged
    rw [processes_scanned budget inTime] at member
    obtain ⟨source, known, rfl⟩ := List.mem_map.mp member
    rw [enriched_path]
    intro empty
    rw [enriched_pkg, empty, mapping_empty] at packaged
    exact packaged rfl

end Processes

section Derive

variable {scan : RuntimeExposure} {adv : AdvisoryRow}

theorem loadedMatch_skips (paths : adv.affectedPaths = []) (p : Process) (finding : Finding) :
    loadedMatch adv finding p = .ok finding := by
  simp [loadedMatch, paths]
  rfl

theorem serviceMatch_skips {service : Service} (bare : service.pkg = "") (finding : Finding) :
    serviceMatch adv finding service = .ok finding := by
  simp [serviceMatch, present, bare]
  rfl

theorem moduleMatch_skips {km : KernelModule} (bare : km.pkg = "") (finding : Finding) :
    moduleMatch adv finding km = .ok finding := by
  simp [moduleMatch, present, bare]
  rfl

theorem listenerMatch_skips {pidIndex : List (Nat × Process)}
    (pids : ∀ entry ∈ pidIndex, entry.1 ≠ 0) {sock : ListeningSocket} (unowned : sock.pid = 0)
    (finding : Finding) : listenerMatch ipLoopback pidIndex adv finding sock = .ok finding := by
  have missing : (pidIndex.reverse.find? fun entry => entry.1 = sock.pid) = none := by
    apply List.find?_eq_none.mpr
    intro entry member
    have known := pids entry (List.mem_reverse.mp member)
    simpa [unowned] using known
  simp only [listenerMatch, missing]
  rfl

def running (scan : RuntimeExposure) (package : String) : Bool :=
  scan.processes.any fun p => present "" p.pkg = some package

theorem exeMatch_other {p : Process} (other : present "" p.pkg ≠ some adv.package)
    (finding : Finding) : exeMatch adv finding p = .ok finding := by
  simp [exeMatch, other]
  rfl

theorem exeMatch_running {p : Process} (packaged : present "" p.pkg = some adv.package)
    (pid : p.pid ≠ 0) (path : p.exePath ≠ "") {finding : Finding}
    (low : finding.1 = .installedOnly ∨ finding.1 = .active) :
    ∃ evidence, exeMatch adv finding p = .ok (.active, evidence) := by
  have raised (evidence : String) :
      raise finding .active evidence = (.active, finding.2 ++ [evidence]) := by
    unfold raise
    rcases low with low | low <;> rw [low] <;> rfl
  have known : pidOf p = .ok p.pid := by simp [pidOf, item, present, pid]
  have named : exePathOf p = .ok p.exePath := by simp [exePathOf, item, present, path]
  simp only [exeMatch, packaged, ne_eq, not_true_eq_false, if_false, known, named]
  exact ⟨_, congrArg Except.ok (raised _)⟩

theorem exeMatch_tier {processes : List Process} (pids : ∀ p ∈ processes, p.pid ≠ 0)
    (paths : ∀ p ∈ processes, p.pkg ≠ "" → p.exePath ≠ "") (finding : Finding)
    (low : finding.1 = .installedOnly ∨ finding.1 = .active) :
    ∃ evidence, processes.foldlM (exeMatch adv) finding = .ok
      (if processes.any fun p => present "" p.pkg = some adv.package then .active else finding.1,
        evidence) := by
  induction processes generalizing finding with
  | nil => exact ⟨finding.2, rfl⟩
  | cons p processes ih =>
    obtain ⟨pid, pids⟩ := List.forall_mem_cons.mp pids
    obtain ⟨path, paths⟩ := List.forall_mem_cons.mp paths
    rw [List.foldlM_cons]
    by_cases packaged : present "" p.pkg = some adv.package
    · have packed : p.pkg ≠ "" := by
        intro bare
        simp [present, bare] at packaged
      obtain ⟨evidence, matched⟩ := exeMatch_running packaged pid (path packed) low
      obtain ⟨rest, folded⟩ := ih pids paths (.active, evidence) (.inr rfl)
      refine ⟨rest, ?_⟩
      rw [matched]
      simpa [packaged, bind, Except.bind] using folded
    · obtain ⟨rest, folded⟩ := ih pids paths finding low
      refine ⟨rest, ?_⟩
      rw [exeMatch_other packaged]
      simpa [packaged, bind, Except.bind] using folded

theorem deriveOne_tier (scanned : scan.Scanned) (paths : adv.affectedPaths = [])
    {pidIndex : List (Nat × Process)} (pids : ∀ entry ∈ pidIndex, entry.1 ≠ 0) :
    ∃ evidence, deriveOne ipLoopback scan pidIndex adv =
      .ok ⟨adv.id, if running scan adv.package then .active else .installedOnly, evidence⟩ := by
  obtain ⟨evidence, matched⟩ := @exeMatch_tier adv _ scanned.pids scanned.paths
    (.installedOnly, []) (.inl rfl)
  refine ⟨evidence, ?_⟩
  unfold deriveOne
  rw [foldlM_skip fun p _ => loadedMatch_skips paths p]
  change (scan.processes.foldlM (exeMatch adv) (.installedOnly, [])).bind _ = _
  rw [matched]
  change (scan.services.foldlM (serviceMatch adv) _).bind _ = _
  rw [foldlM_skip fun service member => serviceMatch_skips (scanned.services service member)]
  change (scan.kernelModules.foldlM (moduleMatch adv) _).bind _ = _
  rw [foldlM_skip fun km member => moduleMatch_skips (scanned.modules km member)]
  change (scan.listeners.foldlM (listenerMatch ipLoopback pidIndex adv) _).bind _ = _
  rw [foldlM_skip fun sock member => listenerMatch_skips pids (scanned.listeners sock member)]
  rfl

def Tells (scan : RuntimeExposure) (adv : AdvisoryRow) (d : Derived) : Prop :=
  d.advisoryId = adv.id ∧
    d.exposureTier = if running scan adv.package then .active else .installedOnly

theorem deriveExposure_tiers (scanned : scan.Scanned) (packages : List String)
    (advisories : List HostAdvisory) :
    ∃ derived, deriveExposure ipLoopback scan packages (loadAdvisories advisories) = .ok derived ∧
      List.Forall₂ (Tells scan)
        ((loadAdvisories advisories).filter fun adv => adv.package ∈ packages) derived := by
  obtain ⟨pidIndex, indexed, each⟩ := @mapM_related KeyError _ _
    (fun p => do return (← pidOf p, p)) (fun _ entry => entry.1 ≠ 0)
    scan.processes (by
      intro p member
      refine ⟨(p.pid, p), ?_, scanned.pids p member⟩
      simp [pidOf, item, present, scanned.pids p member])
  have pids : ∀ entry ∈ pidIndex, entry.1 ≠ 0 := by
    intro entry member
    obtain ⟨_, _, known⟩ := forall₂_left each.flip member
    exact known
  obtain ⟨derived, mapped, tells⟩ := @mapM_related _ _ _ (deriveOne ipLoopback scan pidIndex)
    (Tells scan) ((loadAdvisories advisories).filter fun adv => adv.package ∈ packages) (by
      intro adv member
      have loaded := List.mem_of_mem_filter member
      obtain ⟨row, -, rfl⟩ := List.mem_map.mp loaded
      obtain ⟨evidence, told⟩ := @deriveOne_tier ipLoopback scan
        ⟨row.advisoryId, row.package, []⟩ scanned rfl pidIndex pids
      exact ⟨_, told, rfl, rfl⟩)
  refine ⟨derived, ?_, tells⟩
  unfold deriveExposure
  rw [indexed]
  exact mapped

end Derive

section Ingest

theorem rank_injective {a b : Tier} (same : a.rank = b.rank) : a = b := by
  cases a <;> cases b <;> first | rfl | cases same

def higher (new old : Tier) : Tier := if new.rank > old.rank then new else old

theorem higher_top {top old : Tier} (below : old.rank ≤ top.rank) : higher top old = top := by
  unfold higher
  split
  case isTrue => rfl
  case isFalse above => exact rank_injective (Nat.le_antisymm below (Nat.le_of_not_gt above))

theorem higher_keeps {new top : Tier} (below : new.rank ≤ top.rank) : higher new top = top := by
  unfold higher
  rw [if_neg (Nat.not_lt.mpr below)]

theorem higher_le {new old top : Tier} (first : new.rank ≤ top.rank)
    (second : old.rank ≤ top.rank) : (higher new old).rank ≤ top.rank := by
  unfold higher
  split
  · exact first
  · exact second

theorem tierOf_merge (merged : Rows) (d : Derived) (id : String) :
    tierOf (mergeDerived merged d) id =
      if d.advisoryId = id then
        some (((tierOf merged id).map (higher d.exposureTier)).getD d.exposureTier)
      else tierOf merged id := by
  unfold mergeDerived tierOf
  by_cases same : d.advisoryId = id
  · subst same
    cases merged.get? d.advisoryId with
    | none => simp [OrderedMap.get?_insert_self]
    | some existing => simp [OrderedMap.get?_insert_self, higher]
  · cases merged.get? d.advisoryId with
    | none => simp only [OrderedMap.get?_insert_other _ (Ne.symm same), if_neg same]
    | some existing => simp only [OrderedMap.get?_insert_other _ (Ne.symm same), if_neg same]

variable {derived : List Derived} {merged : Rows} {id : String} {top : Tier}

theorem merge_keeps_top (bounded : ∀ d ∈ derived, d.exposureTier.rank ≤ top.rank)
    (there : tierOf merged id = some top) :
    tierOf (derived.foldl mergeDerived merged) id = some top := by
  induction derived generalizing merged with
  | nil => exact there
  | cons d derived ih =>
    obtain ⟨first, rest⟩ := List.forall_mem_cons.mp bounded
    apply ih rest
    rw [tierOf_merge, there]
    split
    · simp [higher_keeps first]
    · rfl

theorem merge_reaches_top (bounded : ∀ d ∈ derived, d.exposureTier.rank ≤ top.rank)
    (below : ∀ tier, tierOf merged id = some tier → tier.rank ≤ top.rank)
    (reached : ∃ d ∈ derived, d.advisoryId = id ∧ d.exposureTier = top) :
    tierOf (derived.foldl mergeDerived merged) id = some top := by
  induction derived generalizing merged with
  | nil =>
    obtain ⟨_, member, _⟩ := reached
    cases member
  | cons d derived ih =>
    obtain ⟨first, rest⟩ := List.forall_mem_cons.mp bounded
    obtain ⟨e, member, named, tier⟩ := reached
    rcases List.mem_cons.mp member with rfl | later
    · apply merge_keeps_top rest
      rw [tierOf_merge, if_pos named, tier]
      cases old : tierOf merged id with
      | none => rfl
      | some old' => simp [higher_top (below old' old)]
    · refine ih rest ?_ ⟨e, later, named, tier⟩
      intro tier known
      rw [tierOf_merge] at known
      split at known
      · cases old : tierOf merged id with
        | none =>
          rw [old] at known
          cases known
          exact first
        | some old' =>
          rw [old] at known
          cases known
          exact higher_le first (below old' old)
      · exact below tier known

end Ingest

def Host.ListensOutside (host : Host) (p : HostProcess) : Prop :=
  ∃ socket ∈ host.sockets, socket.owner = p.pid ∧ socket.listening = true ∧
    socket.loopback = false

def Affects (packages : List String) (row : HostAdvisory) : Prop :=
  row.status = "open" ∧ row.package ∈ packages

/-- The rows after the agent's scan of a host has gone through the server. -/
def detect (ipString : List Nat → String) (ipLoopback : String → Option Bool) (host : Host)
    (ownership : Ownership) (lateProcess lateFile : Nat → Bool) (packages : List String)
    (advisories : List HostAdvisory) (stored : Rows) : Rows :=
  handle ipLoopback packages advisories (scan ipString host ownership lateProcess lateFile) stored

/-- What the stored tier of an advisory is to tell of the processes of its package. -/
structure Detected (host : Host) (ownership : Ownership) (stored : Rows) (row : HostAdvisory) :
    Prop where
  exposed : ∀ p ∈ host.processes, ownership.Owns row.package p → host.ListensOutside p →
    tierOf stored row.advisoryId = some .networkExposed
  active : ∀ p ∈ host.processes, ownership.Owns row.package p →
    ∃ tier, tierOf stored row.advisoryId = some tier ∧ Tier.active.rank ≤ tier.rank

variable {packages : List String} {advisories : List HostAdvisory} {stored : Rows}

include budget inTime in
theorem running_of_owned {p : HostProcess} (member : p ∈ host.processes) {package : String}
    (owned : ownership.Owns package p) :
    running (scan ipString host ownership lateProcess lateFile) package = true := by
  have packaged := (@enriched_owned ipString host ownership lateProcess lateFile budget inTime p
    package member).mpr owned
  rw [running, processes_scanned budget inTime, List.any_eq_true]
  refine ⟨_, List.mem_map_of_mem member, ?_⟩
  rw [packaged]
  exact decide_eq_true rfl

include budget inTime in
theorem tier_active {row : HostAdvisory} (listed : row ∈ advisories)
    (affects : Affects packages row) {p : HostProcess} (member : p ∈ host.processes)
    (owned : ownership.Owns row.package p) :
    tierOf (detect ipString ipLoopback host ownership lateProcess lateFile packages advisories
      stored) row.advisoryId = some .active := by
  have sent := @scanned ipString host ownership lateProcess lateFile budget inTime
  obtain ⟨derived, told, tells⟩ := @deriveExposure_tiers ipLoopback _ sent packages advisories
  unfold detect handle
  rw [told]
  have bounded : ∀ d ∈ derived, d.exposureTier.rank ≤ Tier.active.rank := by
    intro d known
    obtain ⟨adv, -, -, tier⟩ := forall₂_left tells.flip known
    rw [tier]
    split <;> decide
  have loaded : (⟨row.advisoryId, row.package, []⟩ : AdvisoryRow) ∈
      (loadAdvisories advisories).filter fun adv => adv.package ∈ packages := by
    apply List.mem_filter.mpr
    refine ⟨List.mem_map.mpr ⟨row, List.mem_filter.mpr ⟨listed, ?_⟩, rfl⟩, ?_⟩
    · exact decide_eq_true affects.1
    · exact decide_eq_true affects.2
  obtain ⟨d, known, named, tier⟩ := forall₂_left tells loaded
  rw [if_pos (running_of_owned budget inTime member owned)] at tier
  exact merge_reaches_top bounded (fun tier empty => by cases empty) ⟨d, known, named, tier⟩

/-- Every affected package that runs is told of as active; as exposed it is to be told of just
where one of its processes listens outside, and there it never is. -/
theorem detected_iff (budget : host.processes.length ≤ defaultMaxProcesses)
    (inTime : ∀ i, lateProcess i = false) :
    (∀ row ∈ advisories, Affects packages row → ∀ p ∈ host.processes,
      ownership.Owns row.package p →
        tierOf (detect ipString ipLoopback host ownership lateProcess lateFile packages
          advisories stored) row.advisoryId = some .active) ∧
    ((∀ row ∈ advisories, Affects packages row →
        Detected host ownership (detect ipString ipLoopback host ownership lateProcess lateFile
          packages advisories stored) row) ↔
      ∀ row ∈ advisories, Affects packages row → ∀ p ∈ host.processes,
        ownership.Owns row.package p → ¬ host.ListensOutside p) := by
  refine ⟨fun row listed affects p member owned =>
    tier_active budget inTime listed affects member owned, ?_⟩
  constructor
  case mp =>
      intro detected row listed affects p member owned outside
      have exposed := (detected row listed affects).exposed p member owned outside
      rw [tier_active budget inTime listed affects member owned] at exposed
      cases exposed
  case mpr =>
      intro inside row listed affects
      exact {
        exposed := fun p member owned outside =>
          absurd outside (inside row listed affects p member owned)
        active := fun p member owned =>
          ⟨_, tier_active budget inTime listed affects member owned, Nat.le_refl _⟩ }

section WebServer

def nginx : HostProcess where
  pid := 312
  exe := some "/usr/sbin/nginx"
  cmdline := "nginx"
  status := ["Name:\tnginx", "Uid:\t0\t0\t0\t0"]
  maps := ["7f10-7f20 r-xp 00000000 08:01 131 /usr/lib/libssl.so.3"]

def webServer (localAddr : List Nat) : Host where
  processes := [nginx]
  sockets := [⟨.tcp, false, localAddr, 443, [0, 0, 0, 0], 0, 0x0a, 0, 20481, 312⟩]
  units := []
  modules := []
  pids := by simp [nginx]
  links := by simp [nginx]

def dpkg : Ownership where
  owner path := if path = "/usr/sbin/nginx" then some ⟨"nginx", ""⟩ else none
  named := by
    intro path found owned
    split at owned <;> cases owned
    decide

theorem dpkg_owns : dpkg.Owns "nginx" nginx := ⟨"/usr/sbin/nginx", ⟨"nginx", ""⟩, rfl, rfl, rfl⟩

def dotted (bytes : List Nat) : String := ".".intercalate (bytes.map toString)

def dottedLoopback (addr : String) : Option Bool := some ("127.".toList.isPrefixOf addr.toList)

/-- The rows of a web server with one open advisory for it. -/
def scannedRows (localAddr : List Nat) : Rows :=
  detect dotted dottedLoopback (webServer localAddr) dpkg (fun _ => false) (fun _ => false)
    ["nginx"] [⟨"CVE-1", "nginx", "open"⟩] .empty

theorem detected_on_loopback :
    Detected (webServer [127, 0, 0, 1]) dpkg (scannedRows [127, 0, 0, 1])
      ⟨"CVE-1", "nginx", "open"⟩ := by
  have inside : ∀ row ∈ [HostAdvisory.mk "CVE-1" "nginx" "open"], Affects ["nginx"] row →
      ∀ p ∈ (webServer [127, 0, 0, 1]).processes, dpkg.Owns row.package p →
        ¬ (webServer [127, 0, 0, 1]).ListensOutside p := by
    intro _ _ _ p _ _ ⟨socket, member, _, _, outside⟩
    rw [List.mem_singleton.mp member] at outside
    cases outside
  have budget : (webServer [127, 0, 0, 1]).processes.length ≤ defaultMaxProcesses := by decide
  exact (detected_iff budget fun _ => rfl).2.mpr inside _ List.mem_cons_self
    ⟨rfl, List.mem_cons_self⟩

theorem listener_has_no_process :
    ¬ ∀ row ∈ [HostAdvisory.mk "CVE-1" "nginx" "open"], Affects ["nginx"] row →
      Detected (webServer [0, 0, 0, 0]) dpkg (scannedRows [0, 0, 0, 0]) row := by
  intro detected
  have outside : (webServer [0, 0, 0, 0]).ListensOutside nginx :=
    ⟨_, List.mem_cons_self, rfl, rfl, rfl⟩
  have exposed := (detected _ List.mem_cons_self ⟨rfl, List.mem_cons_self⟩).exposed nginx
    List.mem_cons_self dpkg_owns outside
  have stored : tierOf (scannedRows [0, 0, 0, 0]) "CVE-1" = some .active := by decide +kernel
  rw [stored] at exposed
  cases exposed

end WebServer

end HlHelper.Exposure
