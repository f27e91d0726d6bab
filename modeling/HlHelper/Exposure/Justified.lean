import HlHelper.Exposure.Detection
import HlHelper.Library.Highest

/-! What the evidence of a scan justifies for an advisory, and what the passes over it find. -/

namespace HlHelper.Exposure

open HlHelper.Library

variable {ipLoopback : String → Option Bool} {scan : RuntimeExposure} {adv : AdvisoryRow}

/-- The executable of a process or one of its libraries belongs to the package. -/
def Matches (adv : AdvisoryRow) (p : Process) : Prop :=
  present "" p.pkg = some adv.package ∨ ∃ lib ∈ p.loadedLibs, lib ∈ adv.affectedPaths

instance (adv : AdvisoryRow) (p : Process) : Decidable (Matches adv p) :=
  inferInstanceAs (Decidable (_ ∨ _))

def listenerTier (ipLoopback : String → Option Bool) (sock : ListeningSocket) : Tier :=
  if isLoopback ipLoopback sock.bindAddr then .active else .networkExposed

/-- The tiers that the evidence for an installed package justifies. -/
inductive Justifies (ipLoopback : String → Option Bool) (scan : RuntimeExposure)
    (adv : AdvisoryRow) : Tier → Prop where
  | installed : Justifies ipLoopback scan adv .installedOnly
  | library (p : Process) (lib : String) (running : p ∈ scan.processes)
      (loaded : lib ∈ p.loadedLibs) (affected : lib ∈ adv.affectedPaths) :
      Justifies ipLoopback scan adv .active
  | executable (p : Process) (running : p ∈ scan.processes)
      (own : present "" p.pkg = some adv.package) : Justifies ipLoopback scan adv .active
  | service (service : Service) (known : service ∈ scan.services)
      (own : present "" service.pkg = some adv.package) (active : service.active = true) :
      Justifies ipLoopback scan adv .active
  | kernelModule (km : KernelModule) (known : km ∈ scan.kernelModules)
      (own : present "" km.pkg = some adv.package) : Justifies ipLoopback scan adv .active
  | listener (sock : ListeningSocket) (p : Process) (listens : sock ∈ scan.listeners)
      (running : p ∈ scan.processes) (owner : p.pid = sock.pid) (own : Matches adv p) :
      Justifies ipLoopback scan adv (listenerTier ipLoopback sock)

section Passes

theorem item_present {α : Type} [DecidableEq α] {default value : α} (key : String)
    (there : value ≠ default) : item key (present default value) = .ok value := by
  unfold present
  rw [if_neg there]
  rfl

theorem item_absent {α : Type} [DecidableEq α] (key : String) (default : α) :
    item key (present default default) = .error ⟨key⟩ := by
  unfold present
  rw [if_pos rfl]
  rfl

theorem guarded_pass {α : Type} {step : Finding → α → Except KeyError Finding} {missed : α → Prop}
    [DecidablePred missed] {tier : α → Tier} {evidence : α → Except KeyError String}
    {amiss : α → Prop}
    (guarded : ∀ finding x, step finding x =
      if missed x then .ok finding else (evidence x).map (raise finding (tier x)))
    (reads : ∀ x, ¬ amiss x → ∃ ev, evidence x = .ok ev)
    (fails : ∀ x, amiss x → ∃ e, evidence x = .error e) :
    Pass Tier.rank Prod.fst step (fun x => if missed x then none else some (tier x)) amiss where
  skips finding x missed := by
    rw [guarded]
    split at missed
    · next past => exact if_pos past
    · cases missed
  raises finding x t hit fine := by
    rw [guarded]
    split at hit
    · cases hit
    · next here =>
      cases hit
      obtain ⟨ev, read⟩ := reads x fine
      rw [if_neg here, read]
      exact ⟨_, rfl, rfl⟩
  fails finding x t hit amiss := by
    rw [guarded]
    split at hit
    · cases hit
    · next here =>
      obtain ⟨e, failed⟩ := fails x amiss
      rw [if_neg here, failed]
      exact ⟨e, rfl⟩

def Unnamed (p : Process) : Prop := p.exePath = "" ∨ p.pid = 0

def both {α β : Type} (first : Except KeyError α) (second : Except KeyError β)
    (evidence : α → β → String) : Except KeyError String := do
  let a ← first
  let b ← second
  return evidence a b

theorem path_and_pid {p : Process} (fine : ¬ Unnamed p) :
    exePathOf p = .ok p.exePath ∧ pidOf p = .ok p.pid := by
  obtain ⟨path, pid⟩ := not_or.mp fine
  exact ⟨item_present _ path, item_present _ pid⟩

theorem path_or_pid {p : Process} (amiss : Unnamed p) :
    (∃ e, exePathOf p = .error e) ∨ ∃ e, pidOf p = .error e := by
  rcases amiss with path | pid
  · left
    rw [exePathOf, path, item_absent]
    exact ⟨_, rfl⟩
  · right
    rw [pidOf, pid, item_absent]
    exact ⟨_, rfl⟩

theorem both_error {α β : Type} {first : Except KeyError α} {second : Except KeyError β}
    (amiss : (∃ e, first = .error e) ∨ ∃ e, second = .error e) (evidence : α → β → String) :
    ∃ e, both first second evidence = .error e := by
  unfold both
  cases first with
  | error e => exact ⟨e, rfl⟩
  | ok a =>
    have ⟨e, failed⟩ := amiss.resolve_left nofun
    rw [failed]
    exact ⟨e, rfl⟩

theorem map_both {α β : Type} (first : Except KeyError α) (second : Except KeyError β)
    (evidence : α → β → String) (finding : Finding) (tier : Tier) :
    (both first second evidence).map (raise finding tier) = do
      let a ← first
      let b ← second
      return raise finding tier (evidence a b) := by
  cases first <;> cases second <;> rfl

theorem loadedMatch_pass (adv : AdvisoryRow) : Pass Tier.rank Prod.fst (loadedMatch adv)
    (fun p => if (p.loadedLibs.filter (· ∈ adv.affectedPaths)).isEmpty = true then none
      else some .active) Unnamed := by
  apply @guarded_pass _ _ _ _ _ (fun p => both (exePathOf p) (pidOf p) fun exePath pid =>
    s!"loaded by {exePath} pid {pid}")
  · intro finding p
    rw [map_both]
    unfold loadedMatch
    split <;> rfl
  · intro p fine
    rw [(path_and_pid fine).1, (path_and_pid fine).2]
    exact ⟨_, rfl⟩
  · exact fun p amiss => both_error (path_or_pid amiss) _

theorem exeMatch_pass (adv : AdvisoryRow) : Pass Tier.rank Prod.fst (exeMatch adv)
    (fun p => if present "" p.pkg ≠ some adv.package then none else some .active) Unnamed := by
  apply @guarded_pass _ _ _ _ _ (fun p => both (pidOf p) (exePathOf p) fun pid exePath =>
    s!"running pid {pid} ({exePath})")
  · intro finding p
    rw [map_both]
    unfold exeMatch
    split <;> rfl
  · intro p fine
    rw [(path_and_pid fine).1, (path_and_pid fine).2]
    exact ⟨_, rfl⟩
  · exact fun p amiss => both_error (path_or_pid amiss).symm _

theorem serviceMatch_pass (adv : AdvisoryRow) : Pass Tier.rank Prod.fst (serviceMatch adv)
    (fun service =>
      if present "" service.pkg ≠ some adv.package ∨ (!service.active) = true then none
      else some .active)
    (fun service => service.name = "") := by
  apply @guarded_pass _ _ _ _ _ fun service =>
    (item "name" (present "" service.name)).map fun name => s!"service {name} active"
  · intro finding service
    unfold serviceMatch
    split
    · rfl
    · cases item "name" (present "" service.name) <;> rfl
  · intro service fine
    rw [item_present _ fine]
    exact ⟨_, rfl⟩
  · intro service amiss
    rw [amiss, item_absent]
    exact ⟨_, rfl⟩

theorem moduleMatch_pass (adv : AdvisoryRow) : Pass Tier.rank Prod.fst (moduleMatch adv)
    (fun km => if present "" km.pkg ≠ some adv.package then none else some .active)
    (fun km => km.name = "") := by
  apply @guarded_pass _ _ _ _ _ fun km =>
    (item "name" (present "" km.name)).map fun name => s!"kmod {name} loaded"
  · intro finding km
    unfold moduleMatch
    split
    · rfl
    · cases item "name" (present "" km.name) <;> rfl
  · intro km fine
    rw [item_present _ fine]
    exact ⟨_, rfl⟩
  · intro km amiss
    rw [amiss, item_absent]
    exact ⟨_, rfl⟩

def owner (pidIndex : List (Nat × Process)) (sock : ListeningSocket) : Option Process :=
  (pidIndex.reverse.find? fun entry => entry.1 = sock.pid).map Prod.snd

def protoOf (sock : ListeningSocket) : String := (present "" sock.proto).getD "tcp"

/-- The index has no process for a listener, or one that does not match. -/
def Unmatched (pidIndex : List (Nat × Process)) (adv : AdvisoryRow) (sock : ListeningSocket) :
    Prop :=
  ∀ p ∈ owner pidIndex sock, ¬ Matches adv p

instance (pidIndex : List (Nat × Process)) (adv : AdvisoryRow) :
    DecidablePred (Unmatched pidIndex adv) :=
  fun _ => inferInstanceAs (Decidable (∀ _ ∈ _, _))

section Listener

variable {pidIndex : List (Nat × Process)} {sock : ListeningSocket} {finding : Finding}

theorem listenerMatch_none (own : owner pidIndex sock = none) :
    listenerMatch ipLoopback pidIndex adv finding sock = .ok finding := by
  unfold listenerMatch
  rw [show (pidIndex.reverse.find? fun entry => entry.1 = sock.pid).map Prod.snd = none from own]
  rfl

theorem skipped_iff (p : Process) : (present "" p.pkg ≠ some adv.package ∧
    (p.loadedLibs.all (· ∉ adv.affectedPaths)) = true) ↔ ¬ Matches adv p := by
  simp [Matches]

theorem listenerMatch_other {p : Process} (own : owner pidIndex sock = some p)
    (other : ¬ Matches adv p) :
    listenerMatch ipLoopback pidIndex adv finding sock = .ok finding := by
  unfold listenerMatch
  rw [show (pidIndex.reverse.find? fun entry => entry.1 = sock.pid).map Prod.snd = some p from own]
  exact if_pos ((skipped_iff p).mpr other)

def listenerEvidence (ipLoopback : String → Option Bool) (sock : ListeningSocket)
    (path : Except KeyError String) : Except KeyError String :=
  if isLoopback ipLoopback sock.bindAddr then
    .ok s!"listening {protoOf sock}/{sock.port} (loopback)"
  else path.map fun exePath => s!"listening {protoOf sock}/{sock.port} ({exePath})"

theorem listenerMatch_matches {p : Process} (own : owner pidIndex sock = some p)
    (matching : Matches adv p) :
    listenerMatch ipLoopback pidIndex adv finding sock =
      (listenerEvidence ipLoopback sock (exePathOf p)).map
        (raise finding (listenerTier ipLoopback sock)) := by
  unfold listenerMatch listenerTier listenerEvidence
  rw [show (pidIndex.reverse.find? fun entry => entry.1 = sock.pid).map Prod.snd = some p from own]
  dsimp only
  rw [if_neg (mt (skipped_iff p).mp (not_not.mpr matching))]
  split
  · rfl
  · cases exePathOf p <;> rfl

end Listener

theorem listenerMatch_pass (ipLoopback : String → Option Bool) (pidIndex : List (Nat × Process))
    (adv : AdvisoryRow) : Pass Tier.rank Prod.fst (listenerMatch ipLoopback pidIndex adv)
    (fun sock => if Unmatched pidIndex adv sock then none else some (listenerTier ipLoopback sock))
    (fun sock => isLoopback ipLoopback sock.bindAddr = false ∧
      ∃ p ∈ owner pidIndex sock, p.exePath = "") := by
  apply @guarded_pass _ _ _ _ _ fun sock =>
    listenerEvidence ipLoopback sock ((owner pidIndex sock).elim (.ok "") exePathOf)
  · intro finding sock
    cases own : owner pidIndex sock with
    | none =>
      have unmatched : Unmatched pidIndex adv sock := by simp [Unmatched, own]
      rw [if_pos unmatched]
      exact listenerMatch_none own
    | some p =>
      have unmatched : Unmatched pidIndex adv sock ↔ ¬ Matches adv p := by
        simp [Unmatched, own]
      by_cases matching : Matches adv p
      · rw [if_neg (mt unmatched.mp (not_not.mpr matching))]
        exact listenerMatch_matches own matching
      · rw [if_pos (unmatched.mpr matching)]
        exact listenerMatch_other own matching
  · intro sock fine
    unfold listenerEvidence
    by_cases loopback : isLoopback ipLoopback sock.bindAddr = true
    · rw [if_pos loopback]
      exact ⟨_, rfl⟩
    · rw [if_neg loopback]
      cases own : owner pidIndex sock with
      | none => exact ⟨_, rfl⟩
      | some p =>
        have path : p.exePath ≠ "" := fun empty =>
          fine ⟨Bool.eq_false_iff.mpr loopback, p, own, empty⟩
        rw [Option.elim_some, show exePathOf p = .ok p.exePath from item_present _ path]
        exact ⟨_, rfl⟩
  · intro sock ⟨loopback, p, own, path⟩
    have missing : exePathOf p = .error ⟨"exe_path"⟩ := by
      rw [exePathOf, path, item_absent]
    unfold listenerEvidence
    rw [if_neg (Bool.eq_false_iff.mp loopback), show owner pidIndex sock = some p from own,
      Option.elim_some, missing]
    exact ⟨_, rfl⟩

end Passes

/-- What the passes find for an installed package, with the process that the index has. -/
def Found (ipLoopback : String → Option Bool) (scan : RuntimeExposure)
    (pidIndex : List (Nat × Process)) (adv : AdvisoryRow) (tier : Tier) : Prop :=
  tier = .installedOnly ∨
    (tier = .active ∧ ((∃ p ∈ scan.processes, Matches adv p) ∨
      (∃ service ∈ scan.services,
        present "" service.pkg = some adv.package ∧ service.active = true) ∨
      ∃ km ∈ scan.kernelModules, present "" km.pkg = some adv.package)) ∨
    ∃ sock ∈ scan.listeners, listenerTier ipLoopback sock = tier ∧ ¬ Unmatched pidIndex adv sock

/-- The names and paths that the evidence for a package is told with are there. -/
structure Told (scan : RuntimeExposure) (adv : AdvisoryRow) : Prop where
  processes : ∀ p ∈ scan.processes, Matches adv p → p.exePath ≠ ""
  services : ∀ service ∈ scan.services, present "" service.pkg = some adv.package →
    service.active = true → service.name ≠ ""
  modules : ∀ km ∈ scan.kernelModules, present "" km.pkg = some adv.package → km.name ≠ ""

section Derive

variable {pidIndex : List (Nat × Process)}

theorem loaded_iff {p : Process} :
    ¬ (p.loadedLibs.filter (· ∈ adv.affectedPaths)).isEmpty = true ↔
      ∃ lib ∈ p.loadedLibs, lib ∈ adv.affectedPaths := by
  simp [List.isEmpty_iff, List.filter_eq_nil_iff]

theorem hit_iff {missed : Prop} [Decidable missed] {tier own : Tier} :
    (if missed then none else some own) = some tier ↔ tier = own ∧ ¬ missed := by
  split
  · next past => exact ⟨nofun, fun ⟨_, here⟩ => absurd past here⟩
  · next here =>
    exact ⟨fun same => ⟨(Option.some.inj same).symm, here⟩, fun ⟨same, _⟩ =>
      congrArg some same.symm⟩

theorem matches_of_not_unmatched {sock : ListeningSocket} {p : Process}
    (matched : ¬ Unmatched pidIndex adv sock) (own : p ∈ owner pidIndex sock) : Matches adv p := by
  obtain ⟨other, other_own, matching⟩ : ∃ other ∈ owner pidIndex sock, Matches adv other := by
    simpa [Unmatched] using matched
  rwa [Option.mem_unique own other_own]

theorem deriveOne_ok (told : Told scan adv) (pids : ∀ p ∈ scan.processes, p.pid ≠ 0)
    (indexed : ∀ sock, ∀ p ∈ owner pidIndex sock, p ∈ scan.processes) :
    ∃ d, deriveOne ipLoopback scan pidIndex adv = .ok d ∧ d.advisoryId = adv.id ∧
      Highest Tier.rank (Found ipLoopback scan pidIndex adv) d.exposureTier := by
  have unnamed (p : Process) (running : p ∈ scan.processes) (own : Matches adv p) :
      ¬ Unnamed p := not_or.mpr ⟨told.processes p running own, pids p running⟩
  have start : Highest Tier.rank (· = .installedOnly) ((.installedOnly, []) : Finding).1 :=
    ⟨rfl, fun u same => same ▸ Nat.le_refl _⟩
  obtain ⟨first, loaded, highest⟩ := (loadedMatch_pass adv).foldlM_highest
    (fun p running t hit => unnamed p running (.inr (loaded_iff.mp (hit_iff.mp hit).2))) start
  obtain ⟨second, ran, highest⟩ := (exeMatch_pass adv).foldlM_highest
    (fun p running t hit => unnamed p running (.inl (not_not.mp (hit_iff.mp hit).2))) highest
  obtain ⟨third, served, highest⟩ := (serviceMatch_pass adv).foldlM_highest
    (fun service (known : service ∈ scan.services) t hit => by
      have own := (hit_iff.mp hit).2
      simp only [not_or, not_not, Bool.not_eq_true, Bool.not_eq_false'] at own
      exact told.services service known own.1 own.2) highest
  obtain ⟨fourth, inserted, highest⟩ := (moduleMatch_pass adv).foldlM_highest
    (fun km (known : km ∈ scan.kernelModules) t hit =>
      told.modules km known (not_not.mp (hit_iff.mp hit).2)) highest
  obtain ⟨fifth, listened, highest⟩ := (listenerMatch_pass ipLoopback pidIndex adv).foldlM_highest
    (fun sock (listens : sock ∈ scan.listeners) t hit => by
      intro ⟨_, p, own, path⟩
      exact told.processes p (indexed sock p own)
        (matches_of_not_unmatched (hit_iff.mp hit).2 own) path) highest
  refine ⟨⟨adv.id, fifth.1, fifth.2⟩, ?_, rfl, highest.congr ?_⟩
  · unfold deriveOne
    rw [loaded]
    change (scan.processes.foldlM (exeMatch adv) first >>= _) = _
    rw [ran]
    change (scan.services.foldlM (serviceMatch adv) second >>= _) = _
    rw [served]
    change (scan.kernelModules.foldlM (moduleMatch adv) third >>= _) = _
    rw [inserted]
    change (scan.listeners.foldlM (listenerMatch ipLoopback pidIndex adv) fourth >>= _) = _
    rw [listened]
    rfl
  · intro tier
    simp only [hit_iff, loaded_iff, not_or, not_not, Bool.not_eq_true', Bool.not_eq_false]
    unfold Found Matches
    clear highest loaded ran served inserted listened start unnamed told
    grind

theorem told_of_deriveOne {d : Derived} (derived : deriveOne ipLoopback scan pidIndex adv = .ok d) :
    Told scan adv := by
  obtain ⟨first, loaded, derived⟩ := bind_eq_ok.mp derived
  obtain ⟨second, ran, derived⟩ := bind_eq_ok.mp derived
  obtain ⟨third, served, derived⟩ := bind_eq_ok.mp derived
  obtain ⟨fourth, inserted, _⟩ := bind_eq_ok.mp derived
  constructor
  case processes =>
    intro p running own
    have unnamed : ¬ Unnamed p := by
      rcases own with packaged | library
      · exact (exeMatch_pass adv).fine_of_foldlM ran p running .active
          (hit_iff.mpr ⟨rfl, not_not.mpr packaged⟩)
      · exact (loadedMatch_pass adv).fine_of_foldlM loaded p running .active
          (hit_iff.mpr ⟨rfl, loaded_iff.mpr library⟩)
    exact (not_or.mp unnamed).1
  case services =>
    intro service known own active
    exact (serviceMatch_pass adv).fine_of_foldlM served service known .active
      (hit_iff.mpr ⟨rfl, by simp [own, active]⟩)
  case modules =>
    intro km known own
    exact (moduleMatch_pass adv).fine_of_foldlM inserted km known .active
      (hit_iff.mpr ⟨rfl, not_not.mpr own⟩)

def index (scan : RuntimeExposure) : List (Nat × Process) :=
  scan.processes.map fun p => (p.pid, p)

theorem owner_running {sock : ListeningSocket} {p : Process} (own : p ∈ owner (index scan) sock) :
    p ∈ scan.processes ∧ p.pid = sock.pid := by
  obtain ⟨entry, found, rfl⟩ := Option.map_eq_some_iff.mp own
  have listed := List.mem_reverse.mp (List.mem_of_find?_eq_some found)
  have same := List.find?_some found
  obtain ⟨p, running, rfl⟩ := List.mem_map.mp listed
  exact ⟨running, of_decide_eq_true same⟩

theorem indexed_iff {processes : List Process} {entries : List (Nat × Process)} :
    processes.mapM (fun p => do return (← pidOf p, p)) = Except.ok entries ↔
      (∀ p ∈ processes, p.pid ≠ 0) ∧ entries = processes.map fun p => (p.pid, p) := by
  induction processes generalizing entries with
  | nil =>
    rw [List.mapM_nil]
    constructor
    · intro same
      exact ⟨List.forall_mem_nil _, (Except.ok.inj same).symm⟩
    · rintro ⟨_, same⟩
      exact congrArg Except.ok same.symm
  | cons p processes ih =>
    rw [List.mapM_cons]
    by_cases absent : p.pid = 0
    · have failed : pidOf p = .error ⟨"pid"⟩ := by rw [pidOf, absent, item_absent]
      rw [failed]
      constructor
      · intro mapped
        cases mapped
      · rintro ⟨pids, _⟩
        exact absurd absent (pids p List.mem_cons_self)
    · have read : pidOf p = .ok p.pid := item_present _ absent
      rw [read]
      constructor
      · intro mapped
        obtain ⟨pair, own, mapped⟩ := bind_eq_ok.mp mapped
        obtain ⟨rest, others, same⟩ := bind_eq_ok.mp mapped
        cases own
        obtain ⟨pids, rfl⟩ := ih.mp others
        exact ⟨List.forall_mem_cons.mpr ⟨absent, pids⟩, (Except.ok.inj same).symm⟩
      · rintro ⟨pids, same⟩
        have rest := ih.mpr ⟨fun q member => pids q (List.mem_cons_of_mem _ member), rfl⟩
        rw [rest, same]
        rfl

def installed (packages : List String) (advisories : List AdvisoryRow) : List AdvisoryRow :=
  advisories.filter fun adv => adv.package ∈ packages

/-- A scan can be worked through: every process has an id, and the evidence for every installed
package is told with names and paths. -/
structure Complete (scan : RuntimeExposure) (packages : List String)
    (advisories : List AdvisoryRow) : Prop where
  pids : ∀ p ∈ scan.processes, p.pid ≠ 0
  told : ∀ adv ∈ installed packages advisories, Told scan adv

variable {packages : List String} {advisories : List AdvisoryRow}

theorem deriveExposure_ok (complete : Complete scan packages advisories) :
    ∃ derived, deriveExposure ipLoopback scan packages advisories = .ok derived ∧
      List.Forall₂ (fun adv d => d.advisoryId = adv.id ∧
        Highest Tier.rank (Found ipLoopback scan (index scan) adv) d.exposureTier)
        (installed packages advisories) derived := by
  obtain ⟨derived, mapped, each⟩ := mapM_related fun adv member =>
    @deriveOne_ok ipLoopback scan adv (index scan) (complete.told adv member) complete.pids
      fun _ _ own => (owner_running own).1
  refine ⟨derived, ?_, each⟩
  unfold deriveExposure
  rw [indexed_iff.mpr ⟨complete.pids, rfl⟩]
  exact mapped

theorem complete_of_ok {derived : List Derived}
    (given : deriveExposure ipLoopback scan packages advisories = .ok derived) :
    Complete scan packages advisories := by
  obtain ⟨entries, indexed, mapped⟩ := bind_eq_ok.mp given
  constructor
  case pids => exact (indexed_iff.mp indexed).1
  case told =>
    intro adv member
    obtain ⟨d, one⟩ := mapM_ok mapped member
    exact told_of_deriveOne one

end Derive

end HlHelper.Exposure
