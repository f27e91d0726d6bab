import HlHelper.Inbound.Isolation

/-! The packages that are stored for a host, and the messages that they come from. -/

namespace HlHelper.Inbound

open Audit Library

/-- An ecosystem and a name in it; the table has one row at most for these and a host. -/
abbrev PackageName := String × String

structure Stored where
  version : String
  source : Option String
  arch : Option String
  deriving DecidableEq, Repr

/-- What a message, or the table before it, says of a host's packages, one at a time. -/
inductive Change where
  | clear
  | add (name : PackageName) (stored : Stored)
  | remove (name : PackageName)
  deriving DecidableEq, Repr

def Pkg.packageName (pkg : Pkg) : PackageName := (pkg.ecosystem, pkg.name)

def Pkg.stored (pkg : Pkg) : Stored := ⟨pkg.version, nonblank pkg.source, nonblank pkg.arch⟩

def HostPackage.packageName (row : HostPackage) : PackageName := (row.ecosystem, row.name)

def HostPackage.stored (row : HostPackage) : Stored := ⟨row.version, row.source, row.arch⟩

def PackageInventory.changes (msg : PackageInventory) : List Change :=
  (if msg.fullSnapshot then [.clear] else []) ++
    msg.added.map (fun pkg => .add pkg.packageName pkg.stored) ++
    msg.removed.map (fun pkg => .remove pkg.packageName)

def Change.Drops (name : PackageName) : Change → Prop
  | .clear => True
  | .add _ _ => False
  | .remove other => other = name

/-- The last of these changes that concerns the package drops it, if there is any. -/
def Absent (changes : List Change) (name : PackageName) : Prop :=
  ∀ before stored later, changes = before ++ .add name stored :: later →
    ∃ change ∈ later, change.Drops name

def Change.versionOf (name : PackageName) (version : String) : Change → String
  | .add other stored => if other = name then stored.version else version
  | .clear | .remove _ => version

/-- The version under which these changes name the package last. -/
def lastVersion (name : PackageName) (changes : List Change) (version : String) : String :=
  changes.foldl (Change.versionOf name) version

/-- The package has been there since the change that added it. It has the source and the
architecture of that change, and the version under which it was named last. -/
def Stands (changes : List Change) (name : PackageName) (stored : Stored) : Prop :=
  ∃ before first later, changes = before ++ .add name first :: later ∧ Absent before name ∧
    (∀ change ∈ later, ¬ change.Drops name) ∧
    stored = { first with version := lastVersion name later first.version }

section Map

variable {changes later : List Change} {change : Change} {name : PackageName}
  {stored first : Stored}

abbrev Installed := PackageName → Option Stored

def Change.apply (installed : Installed) : Change → Installed
  | .clear => fun _ => none
  | .add name stored => Function.update installed name
      (some ((installed name).elim stored fun old => { old with version := stored.version }))
  | .remove name => Function.update installed name none

def installedAfter (changes : List Change) : Installed := changes.foldl Change.apply fun _ => none

theorem installedAfter_concat :
    installedAfter (changes ++ [change]) = change.apply (installedAfter changes) := by
  rw [installedAfter, List.foldl_append]
  rfl

theorem apply_dropped {installed : Installed} (drops : change.Drops name) :
    change.apply installed name = none := by
  cases change with
  | clear => rfl
  | add other stored => exact drops.elim
  | remove other =>
    obtain rfl : other = name := drops
    exact Function.update_self ..

theorem apply_absent {installed : Installed} (absent : installed name = none) :
    (Change.add name stored).apply installed name = some stored := by
  rw [Change.apply, Function.update_self, absent, Option.elim_none]

theorem apply_present {installed : Installed} (present : installed name = some first) :
    (Change.add name stored).apply installed name =
      some { first with version := stored.version } := by
  rw [Change.apply, Function.update_self, present, Option.elim_some]

theorem apply_other {installed : Installed} (kept : ¬ change.Drops name)
    (other : ∀ stored, change ≠ .add name stored) :
    change.apply installed name = installed name := by
  cases change with
  | clear => exact absurd trivial kept
  | add another stored =>
    have different : name ≠ another := by
      rintro rfl
      exact other stored rfl
    exact Function.update_of_ne different _ _
  | remove another => exact Function.update_of_ne (Ne.symm kept) _ _

theorem absent_concat (drops_or : change.Drops name ∨
    (Absent changes name ∧ ∀ stored, change ≠ .add name stored)) :
    Absent (changes ++ [change]) name := by
  intro before stored later split
  rcases cut_append split with ⟨front, whole, rfl⟩ | ⟨rest, single, rfl⟩
  · rcases drops_or with drops | ⟨absent, _⟩
    · exact ⟨change, List.mem_append_right _ (List.mem_singleton_self _), drops⟩
    · obtain ⟨dropping, inside, drops⟩ := absent before stored front whole
      exact ⟨dropping, List.mem_append_left _ inside, drops⟩
  · cases rest with
    | nil =>
      obtain rfl := (List.cons.inj single).1
      rcases drops_or with drops | ⟨_, other⟩
      · exact drops.elim
      · exact absurd rfl (other stored)
    | cons first rest => simp at single

theorem lastVersion_concat (version : String) :
    lastVersion name (changes ++ [change]) version =
      lastVersion name [change] (lastVersion name changes version) :=
  List.foldl_append ..

theorem lastVersion_add (version : String) :
    lastVersion name [.add name stored] version = stored.version :=
  if_pos rfl

theorem lastVersion_other (kept : ¬ change.Drops name)
    (other : ∀ stored, change ≠ .add name stored) (version : String) :
    lastVersion name [change] version = version := by
  cases change with
  | clear => exact absurd trivial kept
  | add another stored =>
    have different : another ≠ name := by
      rintro rfl
      exact other stored rfl
    exact if_neg different
  | remove another => rfl

theorem Stands.concat (stands : Stands changes name stored) (kept : ¬ change.Drops name) :
    Stands (changes ++ [change]) name
      { stored with version := lastVersion name [change] stored.version } := by
  obtain ⟨before, first, later, rfl, absent, stays, rfl⟩ := stands
  refine ⟨before, first, later ++ [change], by simp, absent, ?_, ?_⟩
  · intro other member
    rcases List.mem_append.mp member with earlier | last
    · exact stays other earlier
    · exact List.mem_singleton.mp last ▸ kept
  · rw [lastVersion_concat]

theorem apply_standing {installed : Installed} (present : installed name = some first)
    (kept : ¬ change.Drops name) :
    change.apply installed name =
      some { first with version := lastVersion name [change] first.version } := by
  by_cases adds : ∃ stored, change = .add name stored
  · obtain ⟨stored, rfl⟩ := adds
    rw [lastVersion_add]
    exact apply_present present
  · have other : ∀ stored, change ≠ .add name stored := fun stored same => adds ⟨stored, same⟩
    rw [lastVersion_other kept other, apply_other kept other]
    exact present

theorem installedAfter_spec (changes : List Change) (name : PackageName) :
    (installedAfter changes name = none ∧ Absent changes name) ∨
      ∃ stored, installedAfter changes name = some stored ∧ Stands changes name stored := by
  induction changes using List.reverseRecOn with
  | nil =>
    refine .inl ⟨rfl, fun before stored later split => ?_⟩
    simp at split
  | append_singleton changes change ih =>
    rw [installedAfter_concat]
    by_cases drops : change.Drops name
    · exact .inl ⟨apply_dropped drops, absent_concat (.inl drops)⟩
    · rcases ih with ⟨nothing, absent⟩ | ⟨old, present, stands⟩
      · by_cases adds : ∃ stored, change = .add name stored
        · obtain ⟨stored, rfl⟩ := adds
          refine .inr ⟨stored, apply_absent nothing, changes, stored, [], rfl, absent, ?_, rfl⟩
          exact fun _ member => (List.not_mem_nil member).elim
        · have other : ∀ stored, change ≠ .add name stored :=
            fun stored same => adds ⟨stored, same⟩
          rw [apply_other drops other]
          exact .inl ⟨nothing, absent_concat (.inr ⟨absent, other⟩)⟩
      · exact .inr ⟨_, apply_standing present drops, stands.concat drops⟩

theorem foldl_standing {installed : Installed} (present : installed name = some first)
    (stays : ∀ change ∈ later, ¬ change.Drops name) :
    later.foldl Change.apply installed name =
      some { first with version := lastVersion name later first.version } := by
  induction later generalizing installed first with
  | nil => exact present
  | cons change rest ih =>
    obtain ⟨kept, others⟩ := List.forall_mem_cons.mp stays
    exact ih (apply_standing present kept) others

theorem installedAfter_eq_some :
    installedAfter changes name = some stored ↔ Stands changes name stored := by
  constructor
  · intro present
    rcases installedAfter_spec changes name with ⟨nothing, _⟩ | ⟨other, same, stands⟩
    · exact absurd (nothing.symm.trans present) nofun
    · exact Option.some.inj (same.symm.trans present) ▸ stands
  · rintro ⟨before, first, later, rfl, absent, stays, rfl⟩
    have nothing : installedAfter before name = none := by
      rcases installedAfter_spec before name with ⟨nothing, _⟩ |
        ⟨_, _, earlier, stored, after, rfl, _, kept, _⟩
      · exact nothing
      · obtain ⟨change, inside, drops⟩ := absent earlier stored after rfl
        exact absurd drops (kept change inside)
    rw [installedAfter, List.foldl_append, List.foldl_cons]
    exact foldl_standing (apply_absent nothing) stays

end Map

section Tables

variable {rows : List HostPackage} {hostId : HostId} {now : Datetime}

def installedRows (rows : List HostPackage) (hostId : HostId) : Installed := fun name =>
  (findKey packageKey rows (hostId, name.1, name.2)).map HostPackage.stored

def UniquePackages (rows : List HostPackage) : Prop := (rows.map packageKey).Nodup

theorem findKey_upsert {α β : Type} [DecidableEq β] {key : α → β} {new : α} {update : α → α}
    {rows : List α} (kept : ∀ row, key (update row) = key row) (wanted : β) :
    findKey key (upsert key new update rows) wanted =
      if wanted = key new then some ((findKey key rows wanted).elim new update)
      else findKey key rows wanted := by
  have kept_each : ∀ row, key (if key row = key new then update row else row) = key row := by
    intro row
    split
    · exact kept row
    · rfl
  unfold upsert
  split
  · next present =>
    rw [findKey_map kept_each]
    cases found : findKey key rows wanted with
    | none =>
      have missing := findKey_none.mp found
      have different : wanted ≠ key new := by
        rintro rfl
        exact missing present
      rw [if_neg different, Option.map_none]
    | some row =>
      rw [Option.map_some, (findKey_some found).2, apply_ite some, Option.elim_some]
  · next missing =>
    rw [findKey_append]
    by_cases same : wanted = key new
    · rw [if_pos same, same, findKey_none.mpr missing]
      simp [findKey]
    · rw [if_neg same]
      simp [findKey, Ne.symm same]

theorem unique_upsert {α β : Type} [DecidableEq β] {key : α → β} {new : α} {update : α → α}
    {rows : List α} (kept : ∀ row, key (update row) = key row) (unique : (rows.map key).Nodup) :
    ((upsert key new update rows).map key).Nodup := by
  unfold upsert
  split
  · refine unique_map unique fun row => ?_
    split
    · exact kept row
    · rfl
  · next missing =>
    exact @unique_append _ _ key rows (some new) unique fun row own =>
      Option.some.inj own ▸ missing

theorem upsertPackage_unique (unique : UniquePackages rows) (pkg : Pkg) :
    UniquePackages (upsertPackage hostId now rows pkg) :=
  unique_upsert (fun _ => rfl) unique

theorem installedRows_upsert (pkg : Pkg) :
    installedRows (upsertPackage hostId now rows pkg) hostId =
      Change.apply (installedRows rows hostId) (.add pkg.packageName pkg.stored) := by
  funext name
  have kept (row : HostPackage) :
      packageKey { row with version := pkg.version, lastSeen := now } = packageKey row := rfl
  have own : packageKey ⟨hostId, pkg.ecosystem, pkg.name, pkg.version, nonblank pkg.source,
      nonblank pkg.arch, now⟩ = (hostId, pkg.packageName.1, pkg.packageName.2) := rfl
  rw [installedRows, upsertPackage, findKey_upsert kept, own, Change.apply]
  by_cases same : name = pkg.packageName
  · subst same
    rw [if_pos rfl, Function.update_self, installedRows, Option.map_some]
    cases findKey packageKey rows (hostId, pkg.packageName.1, pkg.packageName.2) <;> rfl
  · rw [if_neg fun equal => same (Prod.mk.inj equal).2, Function.update_of_ne same, installedRows]

section

variable (unique : UniquePackages rows)
include unique

theorem installedRows_delete (pkg : Pkg) : installedRows (deletePackage hostId rows pkg) hostId =
      Change.apply (installedRows rows hostId) (.remove pkg.packageName) := by
  funext name
  rw [installedRows, deletePackage, findKey_filter unique, Change.apply]
  by_cases same : name = pkg.packageName
  · subst same
    rw [Function.update_self, Option.map_eq_none_iff, Option.filter_eq_none_iff]
    intro row found
    have own : packageKey row = (hostId, pkg.ecosystem, pkg.name) := (findKey_some found).2
    simp [own]
  · rw [Function.update_of_ne same, installedRows]
    cases found : findKey packageKey rows (hostId, name.1, name.2) with
    | none => rfl
    | some row =>
      have different : packageKey row ≠ (hostId, pkg.ecosystem, pkg.name) := by
        rw [(findKey_some found).2]
        exact fun equal => same (Prod.mk.inj equal).2
      simp [different]

theorem installedRows_clear : installedRows (rows.filter (fun row => row.hostId ≠ hostId)) hostId =
      Change.apply (installedRows rows hostId) .clear := by
  funext name
  rw [installedRows, findKey_filter unique, Change.apply, Option.map_eq_none_iff,
    Option.filter_eq_none_iff]
  intro row found
  have own : row.hostId = hostId := congrArg Prod.fst (findKey_some found).2
  simp [own]

theorem installedRows_added (added : List Pkg) :
    UniquePackages (added.foldl (upsertPackage hostId now) rows) ∧
      installedRows (added.foldl (upsertPackage hostId now) rows) hostId =
        (added.map fun pkg => .add pkg.packageName pkg.stored).foldl Change.apply
          (installedRows rows hostId) := by
  induction added generalizing rows with
  | nil => exact ⟨unique, rfl⟩
  | cons pkg rest ih =>
    obtain ⟨still, rows_after⟩ := ih (upsertPackage_unique unique pkg)
    refine ⟨still, ?_⟩
    rw [List.foldl_cons, rows_after, installedRows_upsert]
    rfl

theorem installedRows_removed (removed : List Pkg) :
    UniquePackages (removed.foldl (deletePackage hostId) rows) ∧
      installedRows (removed.foldl (deletePackage hostId) rows) hostId =
        (removed.map fun pkg => .remove pkg.packageName).foldl Change.apply
          (installedRows rows hostId) := by
  induction removed generalizing rows with
  | nil => exact ⟨unique, rfl⟩
  | cons pkg rest ih =>
    have fewer : UniquePackages (deletePackage hostId rows pkg) :=
      unique.sublist (List.filter_sublist.map packageKey)
    obtain ⟨still, rows_after⟩ := ih fewer
    refine ⟨still, ?_⟩
    rw [List.foldl_cons, rows_after, installedRows_delete unique]
    rfl

end

def startChanges (rows : List HostPackage) (hostId : HostId) : List Change :=
  (rows.filter (fun row => row.hostId = hostId)).map fun row => .add row.packageName row.stored

theorem installedRows_start (unique : UniquePackages rows) :
    installedRows rows hostId = installedAfter (startChanges rows hostId) := by
  induction rows using List.reverseRecOn with
  | nil => rfl
  | append_singleton rows row ih =>
    have front : UniquePackages rows :=
      unique.sublist ((List.sublist_append_left _ _).map packageKey)
    have fresh : packageKey row ∉ rows.map packageKey := by
      intro member
      rw [UniquePackages, List.map_append, List.nodup_append] at unique
      exact unique.2.2 _ member _ List.mem_cons_self rfl
    have before := ih front
    funext name
    rw [installedRows, findKey_append, startChanges, List.filter_append, List.map_append]
    by_cases own : row.hostId = hostId
    · subst own
      have single : [row].filter (fun other => other.hostId = row.hostId) = [row] := by simp
      rw [single, List.map_singleton, installedAfter_concat, ← startChanges, ← before]
      by_cases same : name = row.packageName
      · subst same
        have absent : installedRows rows row.hostId row.packageName = none := by
          rw [installedRows, Option.map_eq_none_iff]
          exact findKey_none.mpr fresh
        have missing : findKey packageKey rows
            (row.hostId, row.packageName.1, row.packageName.2) = none := findKey_none.mpr fresh
        rw [apply_absent absent, missing]
        simp [findKey, packageKey, HostPackage.packageName]
      · rw [Change.apply, Function.update_of_ne same, installedRows]
        have elsewhere : findKey packageKey [row] (row.hostId, name.1, name.2) = none := by
          refine findKey_none.mpr fun member => same ?_
          exact (Prod.mk.inj (List.mem_singleton.mp member)).2
        rw [elsewhere, Option.or_none]
    · have none_here : [row].filter (fun other => other.hostId = hostId) = [] := by simp [own]
      have elsewhere : findKey packageKey [row] (hostId, name.1, name.2) = none := by
        refine findKey_none.mpr fun member => own ?_
        exact (Prod.mk.inj (List.mem_singleton.mp member)).1.symm
      rw [none_here, List.map_nil, List.append_nil, ← startChanges, ← before, elsewhere,
        Option.or_none, installedRows]

end Tables

section Runs

/-- A message that is handled to its end, or one whose transaction failed. -/
inductive PackageEvent where
  | handled (msg : PackageInventory) (now : Datetime)
  | failed (msg : PackageInventory)

def PackageEvent.hostId : PackageEvent → HostId
  | .handled msg _ | .failed msg => msg.hostId

variable {db : Db} {hostId : HostId}

def packageStep (db : Db) : PackageEvent → Db
  | .handled msg now => handlePackageInventory db msg now
  | .failed _ => db

/-- The handler returns early for a message without a host, and cannot add packages to a host that
is not there. -/
def Takes (db : Db) (msg : PackageInventory) : Prop :=
  msg.hostId ≠ "" ∧ (db.knows msg.hostId = true ∨ msg.added = [])

instance (db : Db) (msg : PackageInventory) : Decidable (Takes db msg) :=
  inferInstanceAs (Decidable (_ ∧ _))

def changesFor (db : Db) (hostId : HostId) : PackageEvent → List Change
  | .handled msg _ => if msg.hostId = hostId ∧ Takes db msg then msg.changes else []
  | .failed _ => []

def rowsAfter (rows : List HostPackage) (msg : PackageInventory) (now : Datetime) :
    List HostPackage :=
  let kept := if msg.fullSnapshot then rows.filter (fun row => row.hostId ≠ msg.hostId) else rows
  msg.removed.foldl (deletePackage msg.hostId) (msg.added.foldl (upsertPackage msg.hostId now) kept)

theorem handlePackageInventory_takes {msg : PackageInventory} (takes : Takes db msg)
    (now : Datetime) : handlePackageInventory db msg now =
      { db with packages := rowsAfter db.packages msg now } := by
  have known : ¬ (db.knows msg.hostId = false ∧ msg.added ≠ []) := by
    rintro ⟨unknown, adds⟩
    rcases takes.2 with known | nothing
    · exact absurd (known.symm.trans unknown) nofun
    · exact adds nothing
  rw [handlePackageInventory, if_neg takes.1, if_neg known]
  rfl

theorem handlePackageInventory_skips {msg : PackageInventory} (skips : ¬ Takes db msg)
    (now : Datetime) : handlePackageInventory db msg now = db := by
  rw [handlePackageInventory]
  split
  · rfl
  · next named =>
    split
    · rfl
    · next known =>
      refine absurd ⟨named, ?_⟩ skips
      by_cases adds : msg.added = []
      · exact .inr adds
      · exact .inl (by simpa [adds] using known)

theorem installedRows_rowsAfter {rows : List HostPackage} (unique : UniquePackages rows)
    (msg : PackageInventory) (now : Datetime) :
    UniquePackages (rowsAfter rows msg now) ∧
      installedRows (rowsAfter rows msg now) msg.hostId =
        msg.changes.foldl Change.apply (installedRows rows msg.hostId) := by
  have snapshot : UniquePackages (if msg.fullSnapshot then
        rows.filter (fun row => row.hostId ≠ msg.hostId) else rows) ∧
      installedRows (if msg.fullSnapshot then rows.filter (fun row => row.hostId ≠ msg.hostId)
        else rows) msg.hostId =
      (if msg.fullSnapshot then [Change.clear] else []).foldl Change.apply
        (installedRows rows msg.hostId) := by
    split
    · exact ⟨unique.sublist (List.filter_sublist.map packageKey), installedRows_clear unique⟩
    · exact ⟨unique, rfl⟩
  obtain ⟨unique_kept, kept⟩ := snapshot
  obtain ⟨unique_added, added⟩ := installedRows_added unique_kept msg.added
  obtain ⟨unique_after, removed⟩ := installedRows_removed unique_added msg.removed
  refine ⟨unique_after, ?_⟩
  rw [PackageInventory.changes, List.foldl_append, List.foldl_append, ← kept, ← added]
  exact removed

theorem packageStep_others (event : PackageEvent) (other : event.hostId ≠ hostId) :
    (packageStep db event).packages.filter (fun row => row.hostId = hostId) =
      db.packages.filter (fun row => row.hostId = hostId) := by
  cases event with
  | failed msg => rfl
  | handled msg now =>
    refine ((packages_confined (.inl rfl) now).packages.agree fun row own => ?_).symm
    have mine : row.hostId = hostId := by simpa using own
    rw [mine]
    exact decide_eq_false (Ne.symm other)

theorem installedRows_filter (rows : List HostPackage) (hostId : HostId) :
    installedRows (rows.filter (fun row => row.hostId = hostId)) hostId =
      installedRows rows hostId := by
  funext name
  rw [installedRows, installedRows, findKey, findKey, List.find?_filter]
  congr 2
  funext row
  by_cases own : packageKey row = (hostId, name.1, name.2)
  · have mine : row.hostId = hostId := (Prod.mk.inj own).1
    simp [own, mine]
  · simp [own]

theorem packageStep_changes (unique : UniquePackages db.packages) (event : PackageEvent) :
    UniquePackages (packageStep db event).packages ∧
      installedRows (packageStep db event).packages hostId =
        (changesFor db hostId event).foldl Change.apply (installedRows db.packages hostId) := by
  cases event with
  | failed msg => exact ⟨unique, rfl⟩
  | handled msg now =>
    by_cases takes : Takes db msg
    · have stored := installedRows_rowsAfter unique msg now
      rw [packageStep, handlePackageInventory_takes takes, changesFor]
      refine ⟨stored.1, ?_⟩
      by_cases own : msg.hostId = hostId
      · subst own
        rw [if_pos ⟨rfl, takes⟩]
        exact stored.2
      · rw [if_neg fun both => own both.1]
        have same := @packageStep_others db hostId (.handled msg now) own
        rw [packageStep, handlePackageInventory_takes takes] at same
        rw [← installedRows_filter, same, installedRows_filter]
        rfl
    · rw [packageStep, handlePackageInventory_skips takes, changesFor,
        if_neg fun both => takes both.2]
      exact ⟨unique, rfl⟩

theorem packageStep_knows (event : PackageEvent) :
    (packageStep db event).knows = db.knows := by
  cases event with
  | failed msg => rfl
  | handled msg now =>
    by_cases takes : Takes db msg
    · rw [packageStep, handlePackageInventory_takes takes]
      rfl
    · rw [packageStep, handlePackageInventory_skips takes]

theorem run_changes {events : List PackageEvent} (unique : UniquePackages db.packages) :
    UniquePackages (events.foldl packageStep db).packages ∧
      installedRows (events.foldl packageStep db).packages hostId =
        (events.flatMap (changesFor db hostId)).foldl Change.apply
          (installedRows db.packages hostId) := by
  induction events generalizing db with
  | nil => exact ⟨unique, rfl⟩
  | cons event rest ih =>
    obtain ⟨still, first⟩ := @packageStep_changes db hostId unique event
    obtain ⟨last, others⟩ := ih still
    refine ⟨last, ?_⟩
    have same : changesFor (packageStep db event) hostId = changesFor db hostId := by
      funext other
      cases other with
      | failed msg => rfl
      | handled msg now =>
        have takes : Takes (packageStep db event) msg ↔ Takes db msg := by
          rw [Takes, Takes, packageStep_knows]
        exact if_congr (and_congr_right fun _ => takes) rfl rfl
    rw [List.foldl_cons, others, first, same, List.flatMap_cons, List.foldl_append]

theorem run_others {events : List PackageEvent}
    (others : ∀ event ∈ events, event.hostId ≠ hostId) :
    (events.foldl packageStep db).packages.filter (fun row => row.hostId = hostId) =
      db.packages.filter (fun row => row.hostId = hostId) := by
  induction events generalizing db with
  | nil => rfl
  | cons event rest ih =>
    obtain ⟨first, later⟩ := List.forall_mem_cons.mp others
    exact (ih later).trans (packageStep_others event first)

/-- One row for each package that stands, and no other; the rows of a host that no message names
stay as they are. -/
theorem stored_packages_stand (db : Db) (unique : UniquePackages db.packages)
    (events : List PackageEvent) (hostId : HostId) :
    UniquePackages (events.foldl packageStep db).packages ∧
      (∀ name stored,
        (∃ row ∈ (events.foldl packageStep db).packages,
          row.hostId = hostId ∧ row.packageName = name ∧ row.stored = stored) ↔
        Stands (startChanges db.packages hostId ++ events.flatMap (changesFor db hostId)) name
          stored) ∧
      ((∀ event ∈ events, event.hostId ≠ hostId) →
        (events.foldl packageStep db).packages.filter (fun row => row.hostId = hostId) =
          db.packages.filter (fun row => row.hostId = hostId)) := by
  obtain ⟨still, rows⟩ := @run_changes db hostId events unique
  refine ⟨still, fun name stored => ?_, fun others => ?_⟩
  · rw [← installedAfter_eq_some, installedAfter, List.foldl_append, ← installedAfter,
      ← installedRows_start unique, ← rows, installedRows, Option.map_eq_some_iff]
    simp only [findKey_eq_some_iff still]
    constructor
    · rintro ⟨row, member, rfl, rfl, shown⟩
      exact ⟨row, ⟨member, rfl⟩, shown⟩
    · rintro ⟨row, ⟨member, key⟩, shown⟩
      obtain ⟨own, named⟩ := Prod.mk.inj key
      exact ⟨row, member, own, named, shown⟩
  · exact run_others others

def listedHost : Db := { Db.empty with hosts := [{ (default : Host) with id := "h" }] }

def multiArch : PackageInventory where
  hostId := "h"
  added := [⟨"deb", "libc6", "2.36", "glibc", "amd64"⟩, ⟨"deb", "libc6", "2.31", "glibc", "i386"⟩]
  removed := []
  fullSnapshot := true

/-- The row has the version of the second and the architecture of the first. -/
theorem architectures_merged :
    (handlePackageInventory listedHost multiArch default).packages.map HostPackage.stored =
        [⟨"2.31", some "glibc", some "amd64"⟩] ∧
      ¬ ∀ pkg ∈ multiArch.added,
        ∃ row ∈ (handlePackageInventory listedHost multiArch default).packages,
          row.packageName = pkg.packageName ∧ row.stored = pkg.stored := by
  decide

theorem multiArch_stands : Stands
    [.clear, .add ("deb", "libc6") ⟨"2.36", some "glibc", some "amd64"⟩,
      .add ("deb", "libc6") ⟨"2.31", some "glibc", some "i386"⟩]
    ("deb", "libc6") ⟨"2.31", some "glibc", some "amd64"⟩ := by
  obtain ⟨_, stands, _⟩ := stored_packages_stand listedHost List.nodup_nil
    [.handled multiArch default] "h"
  exact (stands ("deb", "libc6") ⟨"2.31", some "glibc", some "amd64"⟩).mp (by decide)

end Runs

end HlHelper.Inbound
