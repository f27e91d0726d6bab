import HlHelper.Exposure.Justified

/-! The rows that a scan stores: the highest tier that its evidence justifies for each advisory. -/

namespace HlHelper.Exposure

open HlHelper.Library

structure ExposureRow where
  hostId : String
  advisoryId : String
  exposureTier : Tier
  evidence : List String
  scannedAt : Int
  deriving DecidableEq, Repr

/-- `ExposureHandler.ingest`: the rows of the host are deleted, and the merged ones added. -/
def ExposureHandler.ingest (table : List ExposureRow) (hostId : String) (scannedAt : Int)
    (derived : List Derived) : List ExposureRow :=
  table.filter (·.hostId ≠ hostId) ++ (Exposure.ingest derived).entries.map
    fun (advisoryId, tier, evidence) => ⟨hostId, advisoryId, tier, evidence, scannedAt⟩

def receive (ipLoopback : String → Option Bool) (table : List ExposureRow) (hostId : String)
    (scannedAt : Int) (scan : RuntimeExposure) (packages : List String)
    (advisories : List AdvisoryRow) : Except KeyError (List ExposureRow) := do
  let derived ← deriveExposure ipLoopback scan packages advisories
  return ExposureHandler.ingest table hostId scannedAt derived

def storedTier (table : List ExposureRow) (hostId advisoryId : String) : Option Tier :=
  (table.find? fun row => row.hostId = hostId ∧ row.advisoryId = advisoryId).map
    ExposureRow.exposureTier

/-- The tiers that the evidence for any installed package of an advisory justifies. -/
def Justified (ipLoopback : String → Option Bool) (scan : RuntimeExposure)
    (packages : List String) (advisories : List AdvisoryRow) (id : String) (tier : Tier) : Prop :=
  ∃ adv ∈ installed packages advisories, adv.id = id ∧ Justifies ipLoopback scan adv tier

/-- Where an advisory is exposed to the network, some of its packages is so by a listener and the
last process with its id. -/
def Shown (ipLoopback : String → Option Bool) (scan : RuntimeExposure) (packages : List String)
    (advisories : List AdvisoryRow) : Prop :=
  ∀ id, Justified ipLoopback scan packages advisories id .networkExposed →
    ∃ adv ∈ installed packages advisories, adv.id = id ∧
      ∃ sock ∈ scan.listeners, isLoopback ipLoopback sock.bindAddr = false ∧
        ∃ p ∈ scan.processes.reverse.find? (·.pid = sock.pid), Matches adv p

section Ingest

variable {derived : List Derived} {id : String} {S : Tier → Prop}

theorem storedTier_ingest (table : List ExposureRow) (hostId : String) (scannedAt : Int)
    (derived : List Derived) (id : String) :
    storedTier (ExposureHandler.ingest table hostId scannedAt derived) hostId id =
      tierOf (Exposure.ingest derived) id := by
  have others : (table.filter (·.hostId ≠ hostId)).find?
      (fun row => row.hostId = hostId ∧ row.advisoryId = id) = none := by
    apply List.find?_eq_none.mpr
    intro row kept same
    have apart := of_decide_eq_true (List.mem_filter.mp kept).2
    exact apart (of_decide_eq_true same).1
  unfold storedTier ExposureHandler.ingest tierOf OrderedMap.get?
  rw [List.find?_append, others, Option.none_or, List.find?_map]
  simp [Function.comp_def]

theorem filter_ingest {table : List ExposureRow} {hostId other : String} {scannedAt : Int}
    (apart : other ≠ hostId) :
    (ExposureHandler.ingest table hostId scannedAt derived).filter (·.hostId = other) =
      table.filter (·.hostId = other) := by
  have kept (row : ExposureRow) : (decide (row.hostId = other) && decide (row.hostId ≠ hostId)) =
      decide (row.hostId = other) := by
    by_cases own : row.hostId = other
    · simp [own, apart]
    · simp [own]
  unfold ExposureHandler.ingest
  rw [List.filter_append, List.filter_filter]
  simp only [kept]
  simp [List.filter_map, Function.comp_def, Ne.symm apart]

theorem highestOf_merge (d : Derived) {merged : Rows}
    (highest : HighestOf Tier.rank S (tierOf merged id)) :
    HighestOf Tier.rank (fun t => S t ∨ d.advisoryId = id ∧ d.exposureTier = t)
      (tierOf (mergeDerived merged d) id) := by
  rw [tierOf_merge]
  by_cases own : d.advisoryId = id
  · rw [if_pos own]
    have same : higher d.exposureTier =
        fun old => Library.higher Tier.rank old d.exposureTier := by
      funext old
      unfold higher Library.higher
      by_cases above : d.exposureTier.rank > old.rank
      · rw [if_pos above, if_neg (Nat.not_le.mpr above)]
      · rw [if_neg above, if_pos (Nat.not_lt.mp above)]
    rw [same]
    exact (highest.higher d.exposureTier).congr (by simp [own, eq_comm])
  · rw [if_neg own]
    exact highest.congr (by simp [own])

theorem highestOf_ingest (derived : List Derived) (id : String) :
    HighestOf Tier.rank (fun t => ∃ d ∈ derived, d.advisoryId = id ∧ d.exposureTier = t)
      (tierOf (Exposure.ingest derived) id) := by
  have folded {S : Tier → Prop} {merged : Rows}
      (highest : HighestOf Tier.rank S (tierOf merged id)) :
      HighestOf Tier.rank (fun t => S t ∨ ∃ d ∈ derived, d.advisoryId = id ∧ d.exposureTier = t)
        (tierOf (derived.foldl mergeDerived merged) id) := by
    induction derived generalizing S merged with
    | nil => exact highest.congr (by simp)
    | cons d derived ih =>
      exact (ih (highestOf_merge d highest)).congr (by simp [or_assoc])
  exact (@folded (fun _ => False) .empty fun _ => not_false).congr (by simp)

end Ingest

section Exact

variable {ipLoopback : String → Option Bool} {scan later : RuntimeExposure} {adv : AdvisoryRow}
  {packages : List String} {advisories : List AdvisoryRow} {id : String} {tier : Tier}

def Seen (ipLoopback : String → Option Bool) (scan : RuntimeExposure) (packages : List String)
    (advisories : List AdvisoryRow) (id : String) (tier : Tier) : Prop :=
  ∃ adv ∈ installed packages advisories,
    adv.id = id ∧ Found ipLoopback scan (index scan) adv tier

theorem owner_index (scan : RuntimeExposure) (sock : ListeningSocket) :
    owner (index scan) sock = scan.processes.reverse.find? (·.pid = sock.pid) := by
  unfold owner index
  rw [← List.map_reverse, List.find?_map]
  simp [Function.comp_def]

theorem justifies_of_found (found : Found ipLoopback scan (index scan) adv tier) :
    Justifies ipLoopback scan adv tier := by
  rcases found with rfl | ⟨rfl, process | service | km⟩ | listener
  · exact .installed
  · obtain ⟨p, running, packaged | ⟨lib, loaded, affected⟩⟩ := process
    · exact .executable p running packaged
    · exact .library p lib running loaded affected
  · obtain ⟨service, known, own, active⟩ := service
    exact .service service known own active
  · obtain ⟨km, known, own⟩ := km
    exact .kernelModule km known own
  · obtain ⟨sock, listens, rfl, matched⟩ := listener
    obtain ⟨p, own, matching⟩ : ∃ p ∈ owner (index scan) sock, Matches adv p := by
      simpa [Unmatched] using matched
    obtain ⟨running, same⟩ := owner_running own
    exact .listener sock p listens running same matching

theorem found_of_justifies (justified : Justifies ipLoopback scan adv tier)
    (inside : tier ≠ .networkExposed) : Found ipLoopback scan (index scan) adv tier := by
  cases justified with
  | installed => exact .inl rfl
  | library p lib running loaded affected =>
    exact .inr (.inl ⟨rfl, .inl ⟨p, running, .inr ⟨lib, loaded, affected⟩⟩⟩)
  | executable p running own => exact .inr (.inl ⟨rfl, .inl ⟨p, running, .inl own⟩⟩)
  | service service known own active =>
    exact .inr (.inl ⟨rfl, .inr (.inl ⟨service, known, own, active⟩)⟩)
  | kernelModule km known own => exact .inr (.inl ⟨rfl, .inr (.inr ⟨km, known, own⟩)⟩)
  | listener sock p listens running _ own =>
    unfold listenerTier at inside ⊢
    split at inside
    · next loopback =>
      rw [if_pos loopback]
      exact .inr (.inl ⟨rfl, .inl ⟨p, running, own⟩⟩)
    · exact absurd rfl inside

theorem seen_exposed_iff : Seen ipLoopback scan packages advisories id .networkExposed ↔
    ∃ adv ∈ installed packages advisories, adv.id = id ∧
      ∃ sock ∈ scan.listeners, isLoopback ipLoopback sock.bindAddr = false ∧
        ∃ p ∈ scan.processes.reverse.find? (·.pid = sock.pid), Matches adv p := by
  have exposed (sock : ListeningSocket) : listenerTier ipLoopback sock = .networkExposed ↔
      isLoopback ipLoopback sock.bindAddr = false := by
    unfold listenerTier
    cases isLoopback ipLoopback sock.bindAddr <;> simp
  unfold Seen Found
  simp only [reduceCtorEq, false_and, false_or, exposed, Unmatched, owner_index]
  simp

/-- The highest tier found is the highest one justified exactly if exposure to the network is
shown. -/
theorem highest_justified_iff {highest : Option Tier}
    (seen : HighestOf Tier.rank (Seen ipLoopback scan packages advisories id) highest) :
    HighestOf Tier.rank (Justified ipLoopback scan packages advisories id) highest ↔
      (Justified ipLoopback scan packages advisories id .networkExposed →
        Seen ipLoopback scan packages advisories id .networkExposed) := by
  constructor
  · intro best justified
    cases highest with
    | none => exact (best _ justified).elim
    | some top =>
      have above := Highest.above best _ justified
      obtain rfl : top = .networkExposed := by
        cases top <;> first | rfl | exact absurd above (by decide)
      exact Highest.found seen
  · intro shown
    apply seen.congr
    intro tier
    constructor
    · intro ⟨adv, member, own, found⟩
      exact ⟨adv, member, own, justifies_of_found found⟩
    · intro justified
      by_cases exposed : tier = .networkExposed
      · subst exposed
        exact shown justified
      · obtain ⟨adv, member, own, justifies⟩ := justified
        exact ⟨adv, member, own, found_of_justifies justifies exposed⟩

structure Within (scan later : RuntimeExposure) : Prop where
  processes : scan.processes ⊆ later.processes
  listeners : scan.listeners ⊆ later.listeners
  services : scan.services ⊆ later.services
  modules : scan.kernelModules ⊆ later.kernelModules

theorem justifies_mono (within : Within scan later)
    (justified : Justifies ipLoopback scan adv tier) :
    Justifies ipLoopback later adv tier := by
  cases justified with
  | installed => exact .installed
  | library p lib running loaded affected =>
    exact .library p lib (within.processes running) loaded affected
  | executable p running own => exact .executable p (within.processes running) own
  | service service known own active =>
    exact .service service (within.services known) own active
  | kernelModule km known own => exact .kernelModule km (within.modules known) own
  | listener sock p listens running same own =>
    exact .listener sock p (within.listeners listens) (within.processes running) same own

theorem justified_mono {more : List String} {others : List AdvisoryRow} (within : Within scan later)
    (known : packages ⊆ more) (listed : advisories ⊆ others)
    (justified : Justified ipLoopback scan packages advisories id tier) :
    Justified ipLoopback later more others id tier := by
  obtain ⟨adv, member, own, justifies⟩ := justified
  obtain ⟨inside, package⟩ := List.mem_filter.mp member
  refine ⟨adv, List.mem_filter.mpr ⟨listed inside, ?_⟩, own, justifies_mono within justifies⟩
  exact decide_eq_true (known (of_decide_eq_true package))

variable {table after : List ExposureRow} {hostId : String} {scannedAt : Int}

theorem receive_seen
    (received : receive ipLoopback table hostId scannedAt scan packages advisories = .ok after)
    (id : String) : HighestOf Tier.rank (Seen ipLoopback scan packages advisories id)
      (storedTier after hostId id) := by
  obtain ⟨derived, given, stored⟩ := bind_eq_ok.mp received
  cases stored
  obtain ⟨again, same, each⟩ := deriveExposure_ok (complete_of_ok given)
  obtain rfl := Except.ok.inj (given.symm.trans same)
  rw [storedTier_ingest]
  apply HighestOf.parts _ (highestOf_ingest derived id)
  exact each.imp fun adv d ⟨own, highest⟩ => ⟨by rw [own], highest⟩

theorem receive_ok_iff :
    (∃ after, receive ipLoopback table hostId scannedAt scan packages advisories = .ok after) ↔
      Complete scan packages advisories := by
  constructor
  · intro ⟨after, received⟩
    obtain ⟨derived, given, _⟩ := bind_eq_ok.mp received
    exact complete_of_ok given
  · intro complete
    obtain ⟨derived, given, _⟩ := @deriveExposure_ok ipLoopback _ _ _ complete
    exact ⟨_, bind_eq_ok.mpr ⟨derived, given, rfl⟩⟩

/-- A scan completes, and stores for each advisory the highest tier justified. -/
def Exact (ipLoopback : String → Option Bool) (table : List ExposureRow) (hostId : String)
    (scannedAt : Int) (scan : RuntimeExposure) (packages : List String)
    (advisories : List AdvisoryRow) : Prop :=
  ∃ after, receive ipLoopback table hostId scannedAt scan packages advisories = .ok after ∧
    ∀ id, HighestOf Tier.rank (Justified ipLoopback scan packages advisories id)
      (storedTier after hostId id)

theorem exact_iff : Exact ipLoopback table hostId scannedAt scan packages advisories ↔
    Complete scan packages advisories ∧ Shown ipLoopback scan packages advisories := by
  unfold Exact Shown
  simp only [← seen_exposed_iff]
  constructor
  · intro ⟨after, received, best⟩
    exact ⟨receive_ok_iff.mp ⟨after, received⟩, fun id =>
      (highest_justified_iff (receive_seen received id)).mp (best id)⟩
  · intro ⟨complete, shown⟩
    obtain ⟨after, received⟩ := receive_ok_iff.mpr complete
    exact ⟨after, received, fun id =>
      (highest_justified_iff (receive_seen received id)).mpr (shown id)⟩

/-- The highest tier justified is stored exactly where every process has an id, the evidence for
the installed packages is told with names and paths, and no process hides another one of its id
that is exposed. More evidence then stores no lower tier, in whatever order, and rows of other
hosts are as they were. -/
theorem exposure_exact_iff (ipLoopback : String → Option Bool) (table : List ExposureRow)
    (hostId : String) (scannedAt : Int) (scan : RuntimeExposure) (packages : List String)
    (advisories : List AdvisoryRow) :
    (Exact ipLoopback table hostId scannedAt scan packages advisories ↔
        Complete scan packages advisories ∧ Shown ipLoopback scan packages advisories) ∧
      (∀ after, receive ipLoopback table hostId scannedAt scan packages advisories = .ok after →
        ∀ other ≠ hostId, after.filter (·.hostId = other) = table.filter (·.hostId = other)) ∧
      ∀ before laterAt later more others, Within scan later → packages ⊆ more →
        advisories ⊆ others →
        Complete scan packages advisories → Shown ipLoopback scan packages advisories →
        Complete later more others → Shown ipLoopback later more others →
        ∀ after afterwards,
          receive ipLoopback table hostId scannedAt scan packages advisories = .ok after →
          receive ipLoopback before hostId laterAt later more others = .ok afterwards →
          (∀ id, ∀ tier ∈ storedTier after hostId id,
            ∃ higher ∈ storedTier afterwards hostId id, tier.rank ≤ higher.rank) ∧
          (Within later scan → more ⊆ packages → others ⊆ advisories →
            ∀ id, storedTier afterwards hostId id = storedTier after hostId id) := by
  apply And.intro
  case left => exact exact_iff
  case right =>
    apply And.intro
    case left =>
      intro after received other apart
      obtain ⟨derived, given, stored⟩ := bind_eq_ok.mp received
      cases stored
      exact filter_ingest apart
    case right =>
      intro before laterAt later more others within known listed complete shown later_complete
        later_shown after afterwards received later_received
      have first (id : String) := (highest_justified_iff (receive_seen received id)).mpr
        (fun justified => seen_exposed_iff.mpr (shown id justified))
      have second (id : String) := (highest_justified_iff (receive_seen later_received id)).mpr
        (fun justified => seen_exposed_iff.mpr (later_shown id justified))
      apply And.intro
      case left =>
        intro id tier stored
        have best := first id
        have better := second id
        rw [stored] at best
        cases found : storedTier afterwards hostId id with
        | none =>
          rw [found] at better
          exact (better tier (justified_mono within known listed (Highest.found best))).elim
        | some higher =>
          rw [found] at better
          exact ⟨higher, rfl, Highest.le best better fun _ =>
            justified_mono within known listed⟩
      case right =>
        intro without unknown unlisted id
        apply HighestOf.unique (fun _ _ => rank_injective) (second id)
        exact (first id).congr fun tier =>
          ⟨justified_mono within known listed, justified_mono without unknown unlisted⟩

end Exact

def hidden : RuntimeExposure where
  processes := [⟨7, "/usr/sbin/nginx", "root", "", [], "nginx", ""⟩,
    ⟨7, "/bin/sh", "root", "", [], "dash", ""⟩]
  listeners := [⟨"tcp", "0.0.0.0", 80, 7⟩]
  connections := []
  services := []
  kernelModules := []
  truncated := false

def nameless : RuntimeExposure :=
  { hidden with processes := [], services := [⟨"", "systemd", "", true, true, "nginx", ""⟩] }

theorem evidence_lost :
    ¬ Exact (fun _ => some false) [] "h1" 0 hidden ["nginx"] [⟨"CVE-1", "nginx", []⟩] ∧
      ¬ Exact (fun _ => some false) [] "h1" 0 nameless ["nginx"] [⟨"CVE-1", "nginx", []⟩] := by
  constructor
  case left =>
    intro ⟨after, received, best⟩
    have stored : receive (fun _ => some false) [] "h1" 0 hidden ["nginx"]
        [⟨"CVE-1", "nginx", []⟩] = .ok [⟨"h1", "CVE-1", .active,
          ["running pid 7 (/usr/sbin/nginx)"], 0⟩] := by decide +kernel
    obtain rfl := Except.ok.inj (received.symm.trans stored)
    have exposed : Justified (fun _ => some false) hidden ["nginx"] [⟨"CVE-1", "nginx", []⟩] "CVE-1"
        .networkExposed :=
      ⟨_, List.mem_cons_self, rfl, .listener ⟨"tcp", "0.0.0.0", 80, 7⟩ _ List.mem_cons_self
        List.mem_cons_self rfl (by decide +kernel)⟩
    exact absurd (Highest.above (best "CVE-1") _ exposed) (by decide +kernel)
  case right =>
    intro ⟨after, received, _⟩
    have failed : receive (fun _ => some false) [] "h1" 0 nameless ["nginx"]
        [⟨"CVE-1", "nginx", []⟩] = .error ⟨"name"⟩ := by decide +kernel
    exact absurd (received.symm.trans failed) nofun

end HlHelper.Exposure
