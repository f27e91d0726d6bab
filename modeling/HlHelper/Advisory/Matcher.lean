import HlHelper.Advisory.Versions
import HlHelper.Library.Rows
import Mathlib.Data.List.Induction
import Mathlib.Data.List.Perm.Basic

/-! `match_host`: the packages of a host against the affected ranges of the catalogue. -/

namespace HlHelper.Advisory

open Dispatch (truthy)
open HlHelper.Library

structure Host where
  id : String
  osVersion : Option String
  deriving DecidableEq, Repr

structure HostPackage where
  hostId : String
  ecosystem : String
  name : String
  version : String
  deriving DecidableEq, Repr

structure AffectedPackage where
  advisoryId : String
  ecosystem : String
  package : String
  introduced : Option String
  fixed : Option String
  deriving DecidableEq, Repr

inductive AdvisoryStatus where
  | opened | suppressed | fixed
  deriving DecidableEq, Repr

structure HostAdvisory where
  hostId : String
  advisoryId : String
  package : String
  ecosystem : String
  currentVersion : String
  fixedVersion : Option String
  status : AdvisoryStatus
  lastSeen : Int
  deriving DecidableEq, Repr

def HostAdvisory.key (row : HostAdvisory) : String × String × String :=
  (row.hostId, row.advisoryId, row.package)

def HostPackage.key (row : HostPackage) : String × String × String :=
  (row.hostId, row.ecosystem, row.name)

/-- The fleet's tables with their unique constraints, and the catalogue. -/
structure Tables where
  hosts : List Host
  packages : List HostPackage
  advisories : List HostAdvisory
  affected : List AffectedPackage
  uqHostPackage : (packages.map HostPackage.key).Nodup
  uqHostAdvisory : (advisories.map HostAdvisory.key).Nodup

def dpkgVersionMap : String → Option (List String)
  | "16.04" => some ["Ubuntu:16.04:LTS", "Ubuntu:Pro:16.04:LTS"]
  | "18.04" => some ["Ubuntu:18.04:LTS", "Ubuntu:Pro:18.04:LTS"]
  | "20.04" => some ["Ubuntu:20.04:LTS", "Ubuntu:Pro:20.04:LTS"]
  | "22.04" => some ["Ubuntu:22.04:LTS", "Ubuntu:Pro:22.04:LTS"]
  | "24.04" => some ["Ubuntu:24.04:LTS", "Ubuntu:Pro:24.04:LTS"]
  | "11" => some ["Debian:11"]
  | "12" => some ["Debian:12"]
  | "13" => some ["Debian:13"]
  | "14" => some ["Debian:14"]
  | _ => none

def rpmVersionMap : String → Option (List String)
  | "8" => some ["Red Hat:enterprise_linux:8::appstream", "Red Hat:enterprise_linux:8::baseos",
      "AlmaLinux:8", "Rocky Linux:8"]
  | "9" => some ["Red Hat:enterprise_linux:9::appstream", "Red Hat:enterprise_linux:9::baseos",
      "AlmaLinux:9", "Rocky Linux:9"]
  | _ => none

/-- The part before the first dot, of a version that has none near its front. -/
def shortVersion (osVersion : String) : String :=
  if '.' ∈ osVersion.toList.take 5 then osVersion
  else String.ofList (osVersion.toList.takeWhile (· ≠ '.'))

def candidateEcosystems (hostPkgEcosystem : String) (osVersion : Option String) : List String :=
  match truthy osVersion with
  | none => [hostPkgEcosystem]
  | some osVersion =>
    if hostPkgEcosystem = "dpkg" then
      hostPkgEcosystem ::
        ((dpkgVersionMap osVersion).or (dpkgVersionMap (shortVersion osVersion))).getD []
    else if hostPkgEcosystem = "rpm" then
      hostPkgEcosystem :: (rpmVersionMap (shortVersion osVersion)).getD []
    else [hostPkgEcosystem]

/-- An affected range with the installed package that it is held against. -/
abbrev Feed := AffectedPackage × HostPackage

section Match

variable (vulnerable : Feed → Bool) (now : Int) (hostId : String)

def newStatus (feed : Feed) : AdvisoryStatus :=
  if (truthy feed.1.fixed).isSome ∧ ¬ vulnerable feed then .fixed else .opened

/-- What becomes of the row of an advisory and a package, if there is one. -/
def touch (existing : Option HostAdvisory) (feed : Feed) : Option HostAdvisory :=
  match existing with
  | none =>
    if vulnerable feed then
      some
        { hostId := hostId
          advisoryId := feed.1.advisoryId
          package := feed.1.package
          ecosystem := feed.1.ecosystem
          currentVersion := feed.2.version
          fixedVersion := feed.1.fixed
          status := newStatus vulnerable feed
          lastSeen := now }
    else none
  | some row =>
    some
      { row with
        currentVersion := feed.2.version
        fixedVersion := feed.1.fixed
        lastSeen := now
        status := newStatus vulnerable feed }

def feedKey (feed : Feed) : String × String × String :=
  (hostId, feed.1.advisoryId, feed.1.package)

/-- One pass of the innermost loop: the count and the table. -/
def matchFeed (state : Nat × List HostAdvisory) (feed : Feed) : Nat × List HostAdvisory :=
  let wanted := feedKey hostId feed
  match findKey HostAdvisory.key state.2 wanted with
  | none =>
    match touch vulnerable now hostId none feed with
    | none => state
    | some row => (state.1 + 1, state.2 ++ [row])
  | some _ =>
    (state.1 + 1, state.2.map fun row =>
      if row.key = wanted then (touch vulnerable now hostId (some row) feed).getD row else row)

end Match

/-- The passes of the loops: the packages by their ecosystems, the ecosystems in the order
in which they are first met, the rows that the catalogue answers for each. -/
def feedsOf (hostPkgs : List HostPackage) (affectedRows : String → List AffectedPackage) :
    List Feed :=
  (hostPkgs.map HostPackage.ecosystem).eraseDups.flatMap fun rawEco =>
    (affectedRows rawEco).flatMap fun ap =>
      (hostPkgs.filter (fun hp => hp.ecosystem = rawEco ∧ hp.name = ap.package)).map
        fun hp => (ap, hp)

def vulnerableBy (packaging : Option Packaging) (digits : Digits) (feed : Feed) : Bool :=
  inRange packaging digits feed.2.version feed.1.introduced feed.1.fixed feed.1.ecosystem

/-- `match_host`; `hostPkgs` and `affectedRows` are what its queries return. -/
def matchHost (vulnerable : Feed → Bool) (now : Int) (tables : Tables) (hostId : String)
    (hostPkgs : List HostPackage) (affectedRows : String → List AffectedPackage) :
    Nat × List HostAdvisory :=
  match findKey Host.id tables.hosts hostId with
  | none => (0, tables.advisories)
  | some _ =>
    if hostPkgs = [] then (0, tables.advisories)
    else (feedsOf hostPkgs affectedRows).foldl (matchFeed vulnerable now hostId)
      (0, tables.advisories)

structure Answers (tables : Tables) (host : Host) (hostPkgs : List HostPackage)
    (affectedRows : String → List AffectedPackage) : Prop where
  packages : hostPkgs.Perm (tables.packages.filter (fun hp => hp.hostId = host.id))
  affected : ∀ rawEco, (affectedRows rawEco).Perm (tables.affected.filter fun ap =>
    ap.ecosystem ∈ candidateEcosystems rawEco host.osVersion ∧
      ap.package ∈ (hostPkgs.filter (fun hp => hp.ecosystem = rawEco)).map HostPackage.name)

section Row

variable {vulnerable : Feed → Bool} {now : Int} {hostId : String}

theorem newStatus_opened {feed : Feed} :
    newStatus vulnerable feed = .opened ↔
      vulnerable feed = true ∨ truthy feed.1.fixed = none := by
  unfold newStatus
  split
  · next settled =>
    obtain ⟨release, safe⟩ := settled
    simp [safe, Option.isSome_iff_ne_none.mp release]
  · next other =>
    simp only [true_iff]
    by_cases hit : vulnerable feed = true
    · exact .inl hit
    · exact .inr (by simpa [hit] using other)

theorem isSome_touch (existing : Option HostAdvisory) (feed : Feed) :
    (touch vulnerable now hostId existing feed).isSome = true ↔
      existing.isSome = true ∨ vulnerable feed = true := by
  cases existing with
  | none => simp [touch]
  | some row => simp [touch]

theorem status_touch {existing : Option HostAdvisory} {feed : Feed} {row : HostAdvisory}
    (touched : touch vulnerable now hostId existing feed = some row) :
    row.status = newStatus vulnerable feed := by
  cases existing with
  | none =>
    simp only [touch, Option.ite_none_right_eq_some] at touched
    exact Option.some.inj touched.2 ▸ rfl
  | some old => exact Option.some.inj touched ▸ rfl

def Open (existing : Option HostAdvisory) : Prop := ∃ row ∈ existing, row.status = .opened

theorem open_touch (existing : Option HostAdvisory) (feed : Feed) :
    Open (touch vulnerable now hostId existing feed) ↔
      (existing.isSome = true ∨ vulnerable feed = true) ∧
        newStatus vulnerable feed = .opened := by
  rw [← @isSome_touch vulnerable now hostId]
  constructor
  · rintro ⟨row, touched, opened⟩
    exact ⟨Option.isSome_iff_exists.mpr ⟨row, touched⟩, (status_touch touched).symm.trans opened⟩
  · rintro ⟨present, opened⟩
    obtain ⟨row, touched⟩ := Option.isSome_iff_exists.mp present
    exact ⟨row, touched, (status_touch touched).trans opened⟩

theorem isSome_foldl_touch (feeds : List Feed) (existing : Option HostAdvisory) :
    (feeds.foldl (touch vulnerable now hostId) existing).isSome = true ↔
      existing.isSome = true ∨ ∃ feed ∈ feeds, vulnerable feed = true := by
  induction feeds generalizing existing with
  | nil => simp
  | cons feed feeds ih => simp [ih, isSome_touch, or_assoc]

theorem open_foldl_concat (feeds : List Feed) (last : Feed) (existing : Option HostAdvisory) :
    Open ((feeds ++ [last]).foldl (touch vulnerable now hostId) existing) ↔
      (existing.isSome = true ∨ ∃ feed ∈ feeds ++ [last], vulnerable feed = true) ∧
        newStatus vulnerable last = .opened := by
  rw [List.foldl_concat, open_touch, isSome_foldl_touch]
  simp [or_assoc, or_and_right, exists_or]

theorem key_touch_none {feed : Feed} {row : HostAdvisory}
    (touched : touch vulnerable now hostId none feed = some row) :
    row.key = feedKey hostId feed := by
  simp only [touch, Option.ite_none_right_eq_some] at touched
  exact Option.some.inj touched.2 ▸ rfl

theorem key_touch_some (row : HostAdvisory) (feed : Feed) :
    ((touch vulnerable now hostId (some row) feed).getD row).key = row.key := rfl

end Row

section Table

variable {vulnerable : Feed → Bool} {now : Int} {hostId : String}
  {state : Nat × List HostAdvisory}

inductive Matched (vulnerable : Feed → Bool) (now : Int) (hostId : String)
    (rows : List HostAdvisory) (feed : Feed) : List HostAdvisory → Prop
  | skip (missing : findKey HostAdvisory.key rows (feedKey hostId feed) = none)
      (safe : touch vulnerable now hostId none feed = none) :
      Matched vulnerable now hostId rows feed rows
  | add (missing : findKey HostAdvisory.key rows (feedKey hostId feed) = none)
      {row : HostAdvisory} (hit : touch vulnerable now hostId none feed = some row) :
      Matched vulnerable now hostId rows feed (rows ++ [row])
  | update {old : HostAdvisory}
      (present : findKey HostAdvisory.key rows (feedKey hostId feed) = some old) :
      Matched vulnerable now hostId rows feed (rows.map fun row =>
        if row.key = feedKey hostId feed then
          (touch vulnerable now hostId (some row) feed).getD row
        else row)

theorem matched_matchFeed (feed : Feed) :
    Matched vulnerable now hostId state.2 feed (matchFeed vulnerable now hostId state feed).2 := by
  simp only [matchFeed]
  split
  · next missing =>
    split
    · next safe => exact .skip missing safe
    · next hit => exact .add missing hit
  · next present => exact .update present

theorem key_update (row : HostAdvisory) (feed : Feed) :
    (if row.key = feedKey hostId feed then
      (touch vulnerable now hostId (some row) feed).getD row else row).key = row.key := by
  split
  · exact key_touch_some row feed
  · rfl

theorem findKey_matchFeed (feed : Feed) (wanted : String × String × String) :
    findKey HostAdvisory.key (matchFeed vulnerable now hostId state feed).2 wanted =
      if feedKey hostId feed = wanted then
        touch vulnerable now hostId (findKey HostAdvisory.key state.2 wanted) feed
      else findKey HostAdvisory.key state.2 wanted := by
  have matched : Matched vulnerable now hostId state.2 feed
    (matchFeed vulnerable now hostId state feed).2 := matched_matchFeed feed
  generalize (matchFeed vulnerable now hostId state feed).2 = rows at matched
  cases matched with
  | skip missing safe =>
    split
    · next same => rw [← same, missing, safe]
    · rfl
  | @add missing row hit =>
    have own := key_touch_none hit
    rw [findKey_append]
    split
    · next same =>
      rw [← same, missing, hit]
      simp [findKey, own]
    · next other =>
      have apart : findKey HostAdvisory.key [row] wanted = none :=
        findKey_none.mpr (by simpa [own] using Ne.symm other)
      rw [apart, Option.or_none]
  | update present =>
    rw [findKey_map (fun row => key_update row feed)]
    cases found : findKey HostAdvisory.key state.2 wanted with
    | none =>
      have other : feedKey hostId feed ≠ wanted := by
        rintro rfl
        cases found.symm.trans present
      rw [if_neg other]
      rfl
    | some row =>
      rw [Option.map_some, (findKey_some found).2]
      by_cases same : feedKey hostId feed = wanted
      · rw [if_pos same.symm, if_pos same]
        rfl
      · rw [if_neg (Ne.symm same), if_neg same]

theorem unique_matchFeed (feed : Feed) (unique : (state.2.map HostAdvisory.key).Nodup) :
    ((matchFeed vulnerable now hostId state feed).2.map HostAdvisory.key).Nodup := by
  have matched : Matched vulnerable now hostId state.2 feed
    (matchFeed vulnerable now hostId state feed).2 := matched_matchFeed feed
  generalize (matchFeed vulnerable now hostId state feed).2 = rows at matched ⊢
  cases matched with
  | skip => exact unique
  | @add missing row hit =>
    have fresh : ∀ new ∈ some row, new.key ∉ state.2.map HostAdvisory.key := by
      rintro new ⟨⟩
      rw [key_touch_none hit]
      exact findKey_none.mp missing
    exact unique_append unique fresh
  | update present => exact unique_map unique (fun row => key_update row feed)

theorem findKey_foldl_matchFeed (feeds : List Feed) (wanted : String × String × String) :
    findKey HostAdvisory.key (feeds.foldl (matchFeed vulnerable now hostId) state).2 wanted =
      (feeds.filter (fun feed => feedKey hostId feed = wanted)).foldl
        (touch vulnerable now hostId) (findKey HostAdvisory.key state.2 wanted) := by
  induction feeds generalizing state with
  | nil => rfl
  | cons feed feeds ih =>
    rw [List.foldl_cons, ih, findKey_matchFeed]
    by_cases own : feedKey hostId feed = wanted
    · simp [own]
    · simp [own]

theorem unique_foldl_matchFeed (feeds : List Feed) (unique : (state.2.map HostAdvisory.key).Nodup) :
    ((feeds.foldl (matchFeed vulnerable now hostId) state).2.map HostAdvisory.key).Nodup := by
  induction feeds generalizing state with
  | nil => exact unique
  | cons feed feeds ih => exact ih (unique_matchFeed feed unique)

end Table

section Order

variable {tables : Tables} {host : Host} {hostPkgs : List HostPackage}
  {affectedRows : String → List AffectedPackage}

/-- A package of the host with a range of the catalogue that is held against it. -/
structure Feeds (tables : Tables) (host : Host) (feed : Feed) : Prop where
  installed : feed.2 ∈ tables.packages
  owner : feed.2.hostId = host.id
  affected : feed.1 ∈ tables.affected
  ecosystem : feed.1.ecosystem ∈ candidateEcosystems feed.2.ecosystem host.osVersion
  package : feed.2.name = feed.1.package

theorem mem_feedsOf {feed : Feed} :
    feed ∈ feedsOf hostPkgs affectedRows ↔
      feed.2 ∈ hostPkgs ∧ feed.1 ∈ affectedRows feed.2.ecosystem ∧
        feed.2.name = feed.1.package := by
  obtain ⟨ap, hp⟩ := feed
  simp only [feedsOf, List.mem_flatMap, List.mem_eraseDups, List.mem_map, List.mem_filter,
    decide_eq_true_eq, Prod.mk.injEq]
  constructor
  · rintro ⟨_, _, _, answered, _, ⟨inside, rfl, named⟩, rfl, rfl⟩
    exact ⟨inside, answered, named⟩
  · rintro ⟨inside, answered, named⟩
    exact ⟨hp.ecosystem, ⟨hp, inside, rfl⟩, ap, answered, hp, ⟨inside, rfl, named⟩, rfl, rfl⟩

theorem mem_feedsOf_iff (answers : Answers tables host hostPkgs affectedRows) {feed : Feed} :
    feed ∈ feedsOf hostPkgs affectedRows ↔ Feeds tables host feed := by
  rw [mem_feedsOf, answers.packages.mem_iff, (answers.affected _).mem_iff]
  simp only [List.mem_filter, decide_eq_true_eq]
  constructor
  · rintro ⟨⟨installed, owner⟩, ⟨affected, ecosystem, -⟩, named⟩
    exact ⟨installed, owner, affected, ecosystem, named⟩
  · rintro ⟨installed, owner, affected, ecosystem, named⟩
    refine ⟨⟨installed, owner⟩, ⟨affected, ecosystem, ?_⟩, named⟩
    refine List.mem_map.mpr ⟨feed.2, ?_, named⟩
    rw [List.mem_filter, answers.packages.mem_iff, List.mem_filter]
    simp [installed, owner]

theorem named_singleton (answers : Answers tables host hostPkgs affectedRows) {hp : HostPackage}
    (member : hp ∈ hostPkgs) :
    hostPkgs.filter (fun other => other.ecosystem = hp.ecosystem ∧ other.name = hp.name) =
      [hp] := by
  have owned : ∀ other ∈ hostPkgs, other.hostId = host.id := by
    intro other inside
    simpa using (List.mem_filter.mp (answers.packages.mem_iff.mp inside)).2
  have unique : (hostPkgs.map HostPackage.key).Nodup :=
    (answers.packages.map HostPackage.key).nodup_iff.mpr
      (tables.uqHostPackage.sublist (List.filter_sublist.map HostPackage.key))
  rw [← filter_key_eq_singleton unique member]
  apply List.filter_congr
  intro other inside
  simp [HostPackage.key, owned other inside, owned hp member]

theorem exists_answers_last {feed : Feed} (feeds : Feeds tables host feed) :
    ∃ hostPkgs affectedRows, Answers tables host hostPkgs affectedRows ∧
      ∃ front, feedsOf hostPkgs affectedRows = front ++ [feed] := by
  obtain ⟨ap, hp⟩ := feed
  let installed := tables.packages.filter (fun other => other.hostId = host.id)
  let hostPkgs := putLast (fun other => other.ecosystem = hp.ecosystem) installed
  let answered := fun rawEco => tables.affected.filter fun other =>
    other.ecosystem ∈ candidateEcosystems rawEco host.osVersion ∧
      other.package ∈
        (hostPkgs.filter (fun other => other.ecosystem = rawEco)).map HostPackage.name
  let affectedRows := fun rawEco => putLast (fun row => row = ap) (answered rawEco)
  have answers : Answers tables host hostPkgs affectedRows :=
    ⟨putLast_perm _ installed, fun rawEco => putLast_perm _ (answered rawEco)⟩
  have inside : hp ∈ installed := List.mem_filter.mpr ⟨feeds.installed, by simpa using feeds.owner⟩
  have listed : hp ∈ hostPkgs := answers.packages.mem_iff.mpr inside
  have matched : ap ∈ answered hp.ecosystem :=
    (answers.affected hp.ecosystem).mem_iff.mp
      (mem_feedsOf.mp ((mem_feedsOf_iff answers).mpr feeds)).2.1
  obtain ⟨groups, lastGroup⟩ := @eraseDups_putLast _ _ _ _ HostPackage.ecosystem _ inside
  obtain ⟨rows, lastRow⟩ := putLast_eq_concat matched
  have single : (hostPkgs.filter (fun other => other.ecosystem = hp.ecosystem ∧
      other.name = ap.package)).map (fun other => (ap, other)) = [(ap, hp)] := by
    rw [← feeds.package, named_singleton answers listed]
    rfl
  have ends : ∃ front, feedsOf hostPkgs affectedRows = front ++ [(ap, hp)] := by
    rw [feedsOf, lastGroup, List.flatMap_append, List.flatMap_singleton]
    change ∃ front, _ ++ (putLast (fun row => row = ap) (answered hp.ecosystem)).flatMap _ = _
    rw [lastRow, List.flatMap_append, List.flatMap_singleton, single, ← List.append_assoc]
    exact ⟨_, rfl⟩
  exact ⟨hostPkgs, affectedRows, answers, ends⟩

/-- The advisories of the host with an open row for a package are those of which some
range holds an installed version. -/
def Correct (vulnerable : Feed → Bool) (tables : Tables) (host : Host)
    (rows : List HostAdvisory) : Prop :=
  ∀ advisoryId package,
    (∃ row ∈ rows, row.key = (host.id, advisoryId, package) ∧ row.status = .opened) ↔
      ∃ feed, Feeds tables host feed ∧
        feedKey host.id feed = (host.id, advisoryId, package) ∧ vulnerable feed = true

/-- Whatever the order in which the queries return their rows. -/
def CorrectInEveryOrder (vulnerable : Feed → Bool) (now : Int) (tables : Tables) (host : Host) :
    Prop :=
  ∀ hostPkgs affectedRows, Answers tables host hostPkgs affectedRows →
    Correct vulnerable tables host
      (matchHost vulnerable now tables host.id hostPkgs affectedRows).2

/-- The ranges of an advisory agree about a package: if one holds an installed version,
then every other does or names no fixed version; if none does, an earlier row is not left
as it is, and every range names a fixed version that closes it. -/
structure Agree (vulnerable : Feed → Bool) (tables : Tables) (host : Host)
    (wanted : String × String × String) : Prop where
  hit : ∀ feed, Feeds tables host feed → feedKey host.id feed = wanted → vulnerable feed = true →
    ∀ other, Feeds tables host other → feedKey host.id other = wanted →
      vulnerable other = true ∨ truthy other.1.fixed = none
  safe : (∀ feed, Feeds tables host feed → feedKey host.id feed = wanted →
      vulnerable feed = false) →
    ∀ row ∈ tables.advisories, row.key = wanted →
      ((∃ feed, Feeds tables host feed ∧ feedKey host.id feed = wanted) ∨ row.status ≠ .opened) ∧
        ∀ feed, Feeds tables host feed → feedKey host.id feed = wanted →
          truthy feed.1.fixed ≠ none

theorem matchHost_eq {vulnerable : Feed → Bool} {now : Int}
    (found : findKey Host.id tables.hosts host.id = some host) :
    matchHost vulnerable now tables host.id hostPkgs affectedRows =
      (feedsOf hostPkgs affectedRows).foldl (matchFeed vulnerable now host.id)
        (0, tables.advisories) := by
  rw [matchHost, found]
  dsimp only
  split
  · next nothing =>
    subst nothing
    rfl
  · rfl

theorem open_matchHost {vulnerable : Feed → Bool} {now : Int}
    (found : findKey Host.id tables.hosts host.id = some host)
    (wanted : String × String × String) :
    (∃ row ∈ (matchHost vulnerable now tables host.id hostPkgs affectedRows).2,
        row.key = wanted ∧ row.status = .opened) ↔
      Open (((feedsOf hostPkgs affectedRows).filter
        (fun feed => feedKey host.id feed = wanted)).foldl (touch vulnerable now host.id)
          (findKey HostAdvisory.key tables.advisories wanted)) := by
  rw [matchHost_eq found]
  have read := @findKey_foldl_matchFeed vulnerable now host.id (0, tables.advisories)
    (feedsOf hostPkgs affectedRows) wanted
  have unique := @unique_foldl_matchFeed vulnerable now host.id (0, tables.advisories)
    (feedsOf hostPkgs affectedRows) tables.uqHostAdvisory
  rw [← read]
  constructor
  · rintro ⟨row, member, named, opened⟩
    exact ⟨row, (findKey_eq_some_iff unique).mpr ⟨member, named⟩, opened⟩
  · rintro ⟨row, present, opened⟩
    obtain ⟨member, named⟩ := findKey_some present
    exact ⟨row, member, named, opened⟩

theorem mem_filter_feedsOf (answers : Answers tables host hostPkgs affectedRows)
    {wanted : String × String × String} {feed : Feed} :
    feed ∈ (feedsOf hostPkgs affectedRows).filter (fun feed => feedKey host.id feed = wanted) ↔
      Feeds tables host feed ∧ feedKey host.id feed = wanted := by
  rw [List.mem_filter, mem_feedsOf_iff answers, decide_eq_true_eq]

theorem open_of_agree {vulnerable : Feed → Bool} {now : Int}
    {wanted : String × String × String} (agree : Agree vulnerable tables host wanted)
    (answers : Answers tables host hostPkgs affectedRows) :
    Open (((feedsOf hostPkgs affectedRows).filter
        (fun feed => feedKey host.id feed = wanted)).foldl (touch vulnerable now host.id)
          (findKey HostAdvisory.key tables.advisories wanted)) ↔
      ∃ feed, Feeds tables host feed ∧ feedKey host.id feed = wanted ∧
        vulnerable feed = true := by
  have member (feed : Feed) := @mem_filter_feedsOf _ _ _ _ answers wanted feed
  generalize (feedsOf hostPkgs affectedRows).filter
    (fun feed => feedKey host.id feed = wanted) = feeds at member ⊢
  rcases List.eq_nil_or_concat feeds with rfl | ⟨front, last, rfl⟩
  · -- nothing is held against the key, and its row stays
    have none_ : ∀ feed, Feeds tables host feed → feedKey host.id feed ≠ wanted := fun feed fed
      named => List.not_mem_nil ((member feed).mpr ⟨fed, named⟩)
    constructor
    · rintro ⟨row, present, opened⟩
      obtain ⟨inside, named⟩ := findKey_some present
      obtain ⟨⟨feed, fed, own⟩ | closed, -⟩ :=
        agree.safe (fun feed fed own => absurd own (none_ feed fed)) row inside named
      · exact absurd own (none_ feed fed)
      · exact absurd opened closed
    · rintro ⟨feed, fed, named, -⟩
      exact absurd named (none_ feed fed)
  · rw [List.concat_eq_append] at member ⊢
    obtain ⟨fed, own⟩ := (member last).mp (by simp)
    rw [open_foldl_concat, newStatus_opened]
    constructor
    · rintro ⟨present | ⟨feed, inside, hits⟩, stays⟩
      · by_contra safe
        push Not at safe
        obtain ⟨row, found⟩ := Option.isSome_iff_exists.mp present
        obtain ⟨inside, named⟩ := findKey_some found
        have fixes := (agree.safe (fun feed fed own => by simpa using safe feed fed own) row inside
          named).2 last fed own
        exact stays.elim (safe last fed own) fixes
      · obtain ⟨fedToo, ownToo⟩ := (member feed).mp inside
        exact ⟨feed, fedToo, ownToo, hits⟩
    · rintro ⟨feed, fedToo, ownToo, hits⟩
      exact ⟨.inr ⟨feed, (member feed).mpr ⟨fedToo, ownToo⟩, hits⟩,
        agree.hit feed fedToo ownToo hits last fed own⟩

theorem answers_refl (tables : Tables) (host : Host) :
    Answers tables host (tables.packages.filter (fun hp => hp.hostId = host.id))
      (fun rawEco => tables.affected.filter fun ap =>
        ap.ecosystem ∈ candidateEcosystems rawEco host.osVersion ∧
          ap.package ∈ ((tables.packages.filter (fun hp => hp.hostId = host.id)).filter
            (fun hp => hp.ecosystem = rawEco)).map HostPackage.name) :=
  ⟨.rfl, fun _ => .rfl⟩

theorem exists_open_iff_last {vulnerable : Feed → Bool} {now : Int} {last : Feed}
    (found : findKey Host.id tables.hosts host.id = some host) (fed : Feeds tables host last)
    (correct : CorrectInEveryOrder vulnerable now tables host) :
    ((findKey HostAdvisory.key tables.advisories (feedKey host.id last)).isSome = true ∨
        ∃ feed, Feeds tables host feed ∧ feedKey host.id feed = feedKey host.id last ∧
          vulnerable feed = true) ∧
        (vulnerable last = true ∨ truthy last.1.fixed = none) ↔
      ∃ feed, Feeds tables host feed ∧ feedKey host.id feed = feedKey host.id last ∧
        vulnerable feed = true := by
  obtain ⟨hostPkgs, affectedRows, answers, front, ends⟩ := exists_answers_last fed
  have right := correct hostPkgs affectedRows answers last.1.advisoryId last.1.package
  have member (feed : Feed) :=
    @mem_filter_feedsOf _ _ _ _ answers (feedKey host.id last) feed
  rw [← feedKey, open_matchHost found] at right
  have split : (feedsOf hostPkgs affectedRows).filter
      (fun feed => feedKey host.id feed = feedKey host.id last) =
        front.filter (fun feed => feedKey host.id feed = feedKey host.id last) ++ [last] := by
    simp [ends]
  rw [split] at right member
  rw [open_foldl_concat, newStatus_opened] at right
  simp only [member, and_assoc] at right
  exact right

theorem agree_of_correct {vulnerable : Feed → Bool} {now : Int}
    (found : findKey Host.id tables.hosts host.id = some host)
    (correct : CorrectInEveryOrder vulnerable now tables host)
    (advisoryId package : String) :
    Agree vulnerable tables host (host.id, advisoryId, package) where
  hit := by
    intro feed fed own hits other fedToo ownToo
    have decides := exists_open_iff_last found fedToo correct
    rw [ownToo] at decides
    exact (decides.mpr ⟨feed, fed, own, hits⟩).2
  safe := by
    intro safe row inside named
    have present : findKey HostAdvisory.key tables.advisories (host.id, advisoryId, package) =
        some row := (findKey_eq_some_iff tables.uqHostAdvisory).mpr ⟨inside, named⟩
    have silent : ¬ ∃ feed, Feeds tables host feed ∧
        feedKey host.id feed = (host.id, advisoryId, package) ∧ vulnerable feed = true := by
      rintro ⟨feed, fed, own, hits⟩
      simp [safe feed fed own] at hits
    constructor
    · rw [or_iff_not_imp_left]
      intro nothing opened
      have answers := answers_refl tables host
      have right := correct _ _ answers advisoryId package
      have empty : (feedsOf _ _).filter
          (fun feed => feedKey host.id feed = (host.id, advisoryId, package)) = [] :=
        List.eq_nil_iff_forall_not_mem.mpr fun feed member =>
          nothing ⟨feed, (mem_filter_feedsOf answers).mp member⟩
      rw [open_matchHost found, empty, present] at right
      exact silent (right.mp ⟨row, rfl, opened⟩)
    · intro feed fed own open_
      have decides := exists_open_iff_last found fed correct
      rw [own, present] at decides
      exact silent (decides.mp ⟨.inl rfl, .inr open_⟩)

end Order

/-- In every order of the rows, the open rows after `match_host` are those of vulnerable
packages exactly when the ranges of each advisory agree about each package. -/
theorem correct_iff_agree (packaging : Option Packaging) (digits : Digits) (now : Int)
    (tables : Tables) (host : Host) (found : findKey Host.id tables.hosts host.id = some host) :
    CorrectInEveryOrder (vulnerableBy packaging digits) now tables host ↔
      ∀ advisoryId package,
        Agree (vulnerableBy packaging digits) tables host (host.id, advisoryId, package) := by
  constructor
  · intro correct advisoryId package
    exact agree_of_correct found correct advisoryId package
  · intro agree hostPkgs affectedRows answers advisoryId package
    rw [open_matchHost found]
    exact open_of_agree (agree advisoryId package) answers

def debianHost : Host := ⟨"h1", some "12"⟩

def openssl (ranges : List (String × String)) : Tables where
  hosts := [debianHost]
  packages := [⟨"h1", "dpkg", "openssl", "1.5"⟩]
  advisories := []
  affected := ranges.map fun range =>
    ⟨"CVE-1", "Debian:12", "openssl", some range.1, some range.2⟩
  uqHostPackage := by decide
  uqHostAdvisory := by decide

theorem single_range_correct :
    CorrectInEveryOrder (vulnerableBy none asciiDigits) 0 (openssl [("1.0", "2.0")])
      debianHost := by
  refine (correct_iff_agree none asciiDigits 0 (openssl [("1.0", "2.0")]) debianHost rfl).mpr ?_
  intro advisoryId package
  refine ⟨?_, fun _ row member => nomatch member⟩
  intro feed fed _ hits other fedToo _
  have same : feed = other := by
    obtain ⟨range, installed⟩ := feed
    obtain ⟨rangeToo, installedToo⟩ := other
    have first : range = _ ∧ installed = _ :=
      ⟨List.mem_singleton.mp fed.affected, List.mem_singleton.mp fed.installed⟩
    have second : rangeToo = _ ∧ installedToo = _ :=
      ⟨List.mem_singleton.mp fedToo.affected, List.mem_singleton.mp fedToo.installed⟩
    rw [first.1, first.2, second.1, second.2]
  exact .inl (same ▸ hits)

theorem second_range_closes :
    ¬ CorrectInEveryOrder (vulnerableBy none asciiDigits) 0
      (openssl [("1.0", "2.0"), ("3.0", "3.5")]) debianHost := by
  intro correct
  have right := correct _ _ (answers_refl _ debianHost) "CVE-1" "openssl"
  have fed : Feeds (openssl [("1.0", "2.0"), ("3.0", "3.5")]) debianHost
      (⟨"CVE-1", "Debian:12", "openssl", some "1.0", some "2.0"⟩,
        ⟨"h1", "dpkg", "openssl", "1.5"⟩) := by
    constructor <;> decide
  obtain ⟨row, member, -, opened⟩ := right.mpr ⟨_, fed, rfl, by decide⟩
  have closed := List.mem_map_of_mem (f := HostAdvisory.status) member
  revert closed
  rw [opened]
  decide

end HlHelper.Advisory
