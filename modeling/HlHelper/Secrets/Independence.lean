import HlHelper.Secrets.LocalStore

/-! The paths whose version lists do not touch, and the store over such paths: its disk
holds the files of the version lists and nothing that a pattern could take for another
path's. -/

namespace HlHelper.Secrets

open HlHelper.Library

/-- No pattern of `path` matches what the files of `other` bring to the disk. -/
structure Apart (path other : Name) : Prop where
  files : directory path = directory other →
    (baseOf path = baseOf other ∨ baseOf path ++ dotV <+: baseOf other) → path = other
  dirs : ∀ place ∈ Disk.parents (fileOf other 1), captures path place = false
  tmps : ∀ place ∈ Disk.parents (fileOf other 1), ∀ version : Nat,
    place ≠ Disk.tmpOf (fileOf path (version + 1 : Nat))

def Independent (paths : Set Name) : Prop :=
  ∀ path ∈ paths, Readable path ∧ ∀ other ∈ paths, Apart path other

theorem parents_fileOf (path : Name) (v w : Int) :
    Disk.parents (fileOf path v) = Disk.parents (fileOf path w) := by
  simp [Disk.parents, fileOf_eq]

theorem captures_own (path : Name) (version : Int) :
    captures path (fileOf path version) = true :=
  captures_fileOf.mpr ⟨rfl, .inl rfl⟩

variable {path : Name}

theorem versionOf_fileOf (readable : Readable path) (version : Nat) :
    Disk.versionOf (fileOf path version) = some version := by
  simp [Disk.versionOf, fileOf_eq, parseName_fileName, readable]

theorem fileOf_injective (path : Name) : Function.Injective (fun v : Nat => fileOf path v) :=
  fun _ _ same => Int.ofNat.inj (fileOf_inj same).2.2

theorem tmpOf_ne_fileOf (place : Location) (path : Name) (version : Int) :
    Disk.tmpOf place ≠ fileOf path version := by
  intro same
  rw [fileOf_eq, Disk.tmpOf] at same
  have name := (List.append_inj' same rfl).2
  rw [List.cons.injEq] at name
  have lasts := congrArg List.getLast? name.1
  simp [dotTmp, fileName, dotBin] at lasts

theorem Independent.path_eq {paths : Set Name} (independent : Independent paths) {other : Name}
    (known : path ∈ paths) (used : other ∈ paths) {v w : Int}
    (same : fileOf path v = fileOf other w) : path = other := by
  obtain ⟨above, base, _⟩ := fileOf_inj same
  exact ((independent path known).2 other used).files above (.inl base)

structure Represents (aead : Aead) (paths : Set Name) (lists : Lists) (disk : Disk) : Prop where
  holds : ∀ path version value, (version, value) ∈ lists path →
    ∃ nonce, disk.files.get? (fileOf path version) = some (payload aead path value nonce)
  only : ∀ place ∈ disk.files.keys,
    ∃ path, ∃ held ∈ lists path, place = fileOf path held.1
  dirs : ∀ place ∈ disk.dirs, ∃ path ∈ paths, place ∈ Disk.parents (fileOf path 1)
  used : ∀ path, lists path ≠ [] → path ∈ paths
  ascending : ∀ path, ((lists path).map Prod.fst).Pairwise (· < ·)

variable {aead : Aead} {paths : Set Name} {lists : Lists} {disk : Disk}

theorem represents_empty : Represents aead paths noLists Disk.empty where
  holds _ _ _ member := absurd member List.not_mem_nil
  only _ member := absurd member List.not_mem_nil
  dirs _ member := absurd member List.not_mem_nil
  used _ nonempty := absurd rfl nonempty
  ascending _ := List.Pairwise.nil

namespace Represents

theorem file_mem (represents : Represents aead paths lists disk) {held : Nat × Bytes}
    (member : held ∈ lists path) : fileOf path held.1 ∈ disk.files.keys := by
  obtain ⟨nonce, found⟩ := represents.holds path held.1 held.2 member
  exact OrderedMap.mem_keys_of_get? found

theorem used_of_mem (represents : Represents aead paths lists disk) {held : Nat × Bytes}
    (member : held ∈ lists path) : path ∈ paths :=
  represents.used path (List.ne_nil_of_mem member)

section

variable (represents : Represents aead paths lists disk) (independent : Independent paths)
  (known : path ∈ paths)
include represents independent known

theorem own_file {place : Location} (member : place ∈ disk.files.keys)
    (caught : captures path place = true) : ∃ held ∈ lists path, place = fileOf path held.1 := by
  obtain ⟨other, held, inside, rfl⟩ := represents.only place member
  obtain ⟨above, base⟩ := captures_fileOf.mp caught
  have apart := (independent path known).2 other (represents.used_of_mem inside)
  obtain rfl := apart.files above base
  exact ⟨held, inside, rfl⟩

theorem dir_not_caught {place : Location} (member : place ∈ disk.dirs) :
    captures path place = false := by
  obtain ⟨other, used, inside⟩ := represents.dirs place member
  exact ((independent path known).2 other used).dirs place inside

theorem glob_perm : (disk.glob path).Perm ((lists path).map (fun held => fileOf path held.1)) := by
  have no_dirs : disk.dirs.filter (captures path) = [] :=
    List.filter_eq_nil_iff.mpr (fun place member caught => by
      rw [represents.dir_not_caught independent known member] at caught
      exact Bool.noConfusion caught)
  have globbed : disk.glob path = disk.files.keys.filter (captures path) := by
    rw [Disk.glob, Disk.places, List.filter_append, no_dirs, List.append_nil]
  have versions_nodup : ((lists path).map Prod.fst).Nodup :=
    (represents.ascending path).imp (fun less => ne_of_lt less)
  have files_nodup : ((lists path).map (fun held => fileOf path held.1)).Nodup := by
    have := versions_nodup.map (fileOf_injective path)
    rwa [List.map_map] at this
  have globbed_nodup : (disk.files.keys.filter (captures path)).Nodup :=
    List.Nodup.filter _ disk.files.unique
  rw [globbed, List.perm_ext_iff_of_nodup globbed_nodup files_nodup]
  intro place
  constructor
  · intro member
    obtain ⟨inside, caught⟩ := List.mem_filter.mp member
    obtain ⟨held, here, rfl⟩ := represents.own_file independent known inside caught
    exact List.mem_map_of_mem (f := fun held => fileOf path held.1) here
  · intro member
    obtain ⟨held, here, rfl⟩ := List.mem_map.mp member
    exact List.mem_filter.mpr ⟨represents.file_mem here, captures_own path held.1⟩

theorem mem_glob {place : Location} :
    place ∈ disk.glob path ↔ ∃ held ∈ lists path, place = fileOf path held.1 := by
  rw [(represents.glob_perm independent known).mem_iff, List.mem_map]
  exact ⟨fun ⟨held, inside, same⟩ => ⟨held, inside, same.symm⟩,
    fun ⟨held, inside, same⟩ => ⟨held, inside, same.symm⟩⟩

theorem found_eq : disk.found path = (lists path).map Prod.fst := by
  have readable := (independent path known).1
  have numbers : ((lists path).map (fun held => fileOf path held.1)).filterMap Disk.versionOf =
      (lists path).map Prod.fst := by
    rw [List.filterMap_map]
    have each : (Disk.versionOf ∘ fun held : Nat × Bytes => fileOf path held.1) =
        fun held => some held.1 := funext fun held => versionOf_fileOf readable held.1
    rw [each, List.filterMap_eq_map']
  have perm : (disk.found path).Perm ((lists path).map Prod.fst) := by
    have sorted := List.perm_insertionSort (· ≤ ·) ((disk.glob path).filterMap Disk.versionOf)
    have globbed := (represents.glob_perm independent known).filterMap Disk.versionOf
    rw [numbers] at globbed
    exact sorted.trans globbed
  exact perm.eq_of_pairwise' (List.pairwise_insertionSort _ _)
    ((represents.ascending path).imp (fun less => le_of_lt less))

theorem filesWithVersions_eq : disk.filesWithVersions path =
      (lists path).map (fun held => (fileOf path held.1, held.1)) := by
  let numbered : Location → Option (Location × Nat) := fun place =>
    (Disk.versionOf place).map (fun version => (place, version))
  let pairs := (disk.glob path).filterMap numbered
  let file : Nat → Location × Nat := fun version => (fileOf path version, version)
  have seconds : pairs.map Prod.snd = (disk.glob path).filterMap Disk.versionOf := by
    rw [List.map_filterMap]
    congr 1
    funext place
    simp [numbered, Option.map_map, Function.comp_def]
  have from_number : ∀ pair ∈ pairs, file pair.2 = pair := by
    intro pair member
    obtain ⟨place, globbed, made⟩ := List.mem_filterMap.mp member
    obtain ⟨held, inside, rfl⟩ := (represents.mem_glob independent known).mp globbed
    simp only [numbered, versionOf_fileOf (independent path known).1, Option.map_some,
      Option.some.injEq] at made
    rw [← made]
  have pairs_eq : pairs = ((disk.glob path).filterMap Disk.versionOf).map file := by
    rw [← seconds, List.map_map]
    exact (List.map_id pairs).symm.trans
      (List.map_congr_left (fun pair member => (from_number pair member).symm))
  calc disk.filesWithVersions path
      = pairs.insertionSort (fun a b => a.2 ≤ b.2) := rfl
    _ = (disk.found path).map file := by
        rw [pairs_eq, Disk.found]
        exact (List.map_insertionSort (r := (· ≤ ·)) _ file _ (fun _ _ _ _ => Iff.rfl)).symm
    _ = (lists path).map (fun held => (fileOf path held.1, held.1)) := by
        rw [represents.found_eq independent known, List.map_map]
        rfl

end

end Represents

theorem unlinkAll_of_files {disk : Disk} {gone : List Location} (distinct : gone.Nodup)
    (present : ∀ place ∈ gone, place ∈ disk.files.keys) :
    (disk.unlinkAll gone).1 = true ∧ (disk.unlinkAll gone).2.dirs = disk.dirs ∧
      ∀ place, (disk.unlinkAll gone).2.files.get? place =
        if place ∈ gone then none else disk.files.get? place := by
  induction gone generalizing disk with
  | nil => simp [Disk.unlinkAll]
  | cons first rest ih =>
    have here := present first List.mem_cons_self
    obtain ⟨fresh, distinct⟩ := List.nodup_cons.mp distinct
    have unlinked : disk.unlink first = some { disk with files := disk.files.erase first } :=
      if_pos here
    have later : ∀ place ∈ rest,
        place ∈ ({ disk with files := disk.files.erase first } : Disk).files.keys := by
      intro place member
      refine OrderedMap.mem_keys_erase.mpr ⟨present place (List.mem_cons_of_mem _ member), ?_⟩
      intro same
      exact fresh (same ▸ member)
    obtain ⟨succeeds, dirs, files⟩ := ih distinct later
    simp only [Disk.unlinkAll, unlinked]
    refine ⟨succeeds, dirs, fun place => ?_⟩
    rw [files place]
    by_cases inside : place ∈ rest
    · simp [inside]
    · by_cases same : place = first
      · subst same
        simp [inside, OrderedMap.get?_erase_self]
      · simp [inside, same, OrderedMap.get?_erase_other _ same]

theorem mem_keys_iff {files : OrderedMap Location Bytes} {place : Location} :
    place ∈ files.keys ↔ files.get? place ≠ none := by
  rw [ne_eq, OrderedMap.get?_eq_none_iff, not_not]

@[simp] theorem Lists.set_self (lists : Lists) (path : Name) (retained : Retained) :
    lists.set path retained path = retained := by
  simp [Lists.set]

theorem Lists.set_other (lists : Lists) {other : Name} (different : other ≠ path)
    (retained : Retained) : lists.set path retained other = lists other := by
  simp [Lists.set, different]

namespace Represents

theorem remove (represents : Represents aead paths lists disk) (independent : Independent paths)
    {kept : Retained} {gone : List Location} {after : Disk} (sublist : kept.Sublist (lists path))
    (exact_kept : ∀ held ∈ lists path, held ∈ kept ↔ fileOf path held.1 ∉ gone)
    (own : ∀ place ∈ gone, ∃ held ∈ lists path, place = fileOf path held.1)
    (dirs : after.dirs = disk.dirs) (files : ∀ place, after.files.get? place =
      if place ∈ gone then none else disk.files.get? place) :
    Represents aead paths (lists.set path kept) after where
  holds other version value member := by
    have before : (version, value) ∈ lists other := by
      by_cases same : other = path
      · subst same
        rw [Lists.set_self] at member
        exact sublist.subset member
      · rwa [lists.set_other same] at member
    have stays : fileOf other version ∉ gone := by
      intro inside
      obtain ⟨held, here, file⟩ := own _ inside
      obtain rfl : other = path := independent.path_eq (represents.used_of_mem before)
        (represents.used_of_mem here) file
      rw [Lists.set_self] at member
      exact (exact_kept _ before).mp member inside
    obtain ⟨nonce, found⟩ := represents.holds other version value before
    exact ⟨nonce, by rw [files, if_neg stays, found]⟩
  only place member := by
    rw [mem_keys_iff, files place] at member
    have stays : place ∉ gone := fun inside => member (if_pos inside)
    rw [if_neg stays, ← mem_keys_iff] at member
    obtain ⟨other, held, inside, rfl⟩ := represents.only place member
    refine ⟨other, held, ?_, rfl⟩
    by_cases same : other = path
    · subst same
      rw [Lists.set_self]
      exact (exact_kept held inside).mpr stays
    · rwa [lists.set_other same]
  dirs place member := represents.dirs place (dirs ▸ member)
  used other nonempty := by
    by_cases same : other = path
    · subst same
      rw [Lists.set_self] at nonempty
      obtain ⟨held, member⟩ := List.exists_mem_of_ne_nil _ nonempty
      exact represents.used_of_mem (sublist.subset member)
    · rw [lists.set_other same] at nonempty
      exact represents.used other nonempty
  ascending other := by
    by_cases same : other = path
    · subst same
      rw [Lists.set_self]
      exact (represents.ascending other).sublist (sublist.map Prod.fst)
    · rw [lists.set_other same]
      exact represents.ascending other

end Represents

theorem Retained.lt_next {retained : Retained}
    (ascending : (retained.map Prod.fst).Pairwise (· < ·)) {held : Nat × Bytes}
    (member : held ∈ retained) : held.1 < retained.next := by
  cases newest : retained.getLast? with
  | none =>
    rw [List.getLast?_eq_none_iff] at newest
    simp [newest] at member
  | some last =>
    simp only [Retained.next, newest]
    obtain ⟨older, rfl⟩ := List.getLast?_eq_some_iff.mp newest
    rw [List.map_append] at ascending
    rcases List.mem_append.mp member with inside | inside
    · have less := (List.pairwise_append.mp ascending).2.2 held.1
        (List.mem_map_of_mem inside) last.1 (by simp)
      omega
    · obtain rfl := List.mem_singleton.mp inside
      omega

theorem Retained.next_pos (retained : Retained) : ∃ before, retained.next = before + 1 := by
  unfold Retained.next
  split
  · exact ⟨0, rfl⟩
  · exact ⟨_, rfl⟩

theorem nextVersion_eq (found : disk.found path = (lists path).map Prod.fst) :
    disk.nextVersion path = (lists path).next := by
  rw [Disk.nextVersion, Retained.next, found, List.getLast?_map]
  cases (lists path).getLast? <;> rfl

theorem Lists.set_set (lists : Lists) (path : Name) (first second : Retained) :
    (lists.set path first).set path second = lists.set path second := by
  funext other
  by_cases same : other = path
  · subst same
    simp
  · simp [Lists.set_other _ same]

namespace Represents

theorem readVersion (represents : Represents aead paths lists disk) {held : Nat × Bytes}
    (member : held ∈ lists path) : readVersion aead disk path held.1 = .value held.2 := by
  obtain ⟨nonce, found⟩ := represents.holds path held.1 held.2 member
  have front : (payload aead path held.2 nonce).take 12 = nonce.bytes := by
    rw [payload, ← nonce.length, List.take_left]
  have back : (payload aead path held.2 nonce).drop 12 =
      aead.encrypt (aead.deriveKey path) nonce.bytes held.2 := by
    rw [payload, ← nonce.length, List.drop_left]
  simp only [Secrets.readVersion, found, front, back, aead.decrypt_encrypt]

section

variable (represents : Represents aead paths lists disk) (independent : Independent paths)
  (known : path ∈ paths)
include represents independent known

theorem makeParents (version : Int) : ∃ after, disk.makeParents (fileOf path version) = some after ∧
      Represents aead paths lists after := by
  have clear : (Disk.parents (fileOf path version)).any (· ∈ disk.files.keys) = false := by
    rw [List.any_eq_false]
    intro place member file
    obtain ⟨other, held, inside, rfl⟩ := represents.only place (of_decide_eq_true file)
    rw [parents_fileOf path version 1] at member
    have apart := (independent other (represents.used_of_mem inside)).2 path known
    have free := apart.dirs _ member
    rw [captures_own] at free
    exact Bool.noConfusion free
  refine ⟨{ disk with dirs := disk.dirs ++
      (Disk.parents (fileOf path version)).filter (· ∉ disk.dirs) },
    by rw [Disk.makeParents, clear]; rfl,
    represents.holds, represents.only, ?_, represents.used, represents.ascending⟩
  intro place member
  rcases List.mem_append.mp member with old | new
  · exact represents.dirs place old
  · have above := List.mem_of_mem_filter new
    rw [parents_fileOf path version 1] at above
    exact ⟨path, known, above⟩

theorem writeFile (value : Bytes) (nonce : Nonce) :
    ∃ after, disk.writeFile (fileOf path (lists path).next) (payload aead path value nonce) =
        (true, after) ∧
      Represents aead paths
        (lists.set path (lists path ++ [((lists path).next, value)])) after := by
  have no_tmp : Disk.tmpOf (fileOf path (lists path).next) ∉ disk.dirs := by
    intro member
    obtain ⟨other, used, above⟩ := represents.dirs _ member
    obtain ⟨before, next⟩ := (lists path).next_pos
    have apart := (independent path known).2 other used
    exact apart.tmps _ above before (by rw [next])
  have no_dir : fileOf path (lists path).next ∉ disk.dirs := by
    intro member
    have free := represents.dir_not_caught independent known member
    rw [captures_own] at free
    exact Bool.noConfusion free
  refine ⟨_, by rw [Disk.writeFile, if_neg no_tmp, if_neg no_dir], ?_⟩
  have stays : ∀ other (version : Nat), (other = path → version ≠ (lists path).next) →
      other ∈ paths → (((disk.files.erase (Disk.tmpOf (fileOf path (lists path).next))).insert
        (fileOf path (lists path).next) (payload aead path value nonce)).get?
          (fileOf other version)) = disk.files.get? (fileOf other version) := by
    intro other version older used
    have different : fileOf other version ≠ fileOf path (lists path).next := by
      intro same
      have paths_eq := independent.path_eq used known same
      exact older paths_eq (Int.ofNat.inj (fileOf_inj same).2.2)
    have not_tmp : fileOf other version ≠ Disk.tmpOf (fileOf path (lists path).next) :=
      fun same => tmpOf_ne_fileOf _ _ _ same.symm
    rw [OrderedMap.get?_insert_other _ different, OrderedMap.get?_erase_other _ not_tmp]
  have older : ∀ held ∈ lists path, held.1 ≠ (lists path).next := fun held member =>
    ne_of_lt (Retained.lt_next (represents.ascending path) member)
  constructor
  case holds =>
    intro other version content member
    by_cases same : other = path
    · subst same
      rw [Lists.set_self] at member
      rcases List.mem_append.mp member with old | new
      · obtain ⟨used, found⟩ := represents.holds other version content old
        exact ⟨used, by rw [stays other version (fun _ => older _ old) known, found]⟩
      · obtain ⟨rfl, rfl⟩ := Prod.mk.inj (List.mem_singleton.mp new)
        exact ⟨nonce, OrderedMap.get?_insert_self _ _ _⟩
    · rw [lists.set_other same] at member
      obtain ⟨used, found⟩ := represents.holds other version content member
      refine ⟨used, ?_⟩
      rw [stays other version (fun equal => absurd equal same) (represents.used_of_mem member),
        found]
  case only =>
    intro place member
    obtain ⟨entry, inside, rfl⟩ := List.mem_map.mp member
    rcases OrderedMap.mem_entries_insert inside with ⟨old, _⟩ | new
    · have file := (OrderedMap.mem_keys_erase.mp (List.mem_map_of_mem old)).1
      obtain ⟨other, held, here, place_eq⟩ := represents.only _ file
      refine ⟨other, held, ?_, place_eq⟩
      by_cases same : other = path
      · subst same
        rw [Lists.set_self]
        exact List.mem_append_left _ here
      · rwa [lists.set_other same]
    · refine ⟨path, ((lists path).next, value), ?_, congrArg Prod.fst new⟩
      rw [Lists.set_self]
      exact List.mem_append_right _ List.mem_cons_self
  case dirs => exact represents.dirs
  case used =>
    intro other nonempty
    by_cases same : other = path
    · exact same ▸ known
    · rw [lists.set_other same] at nonempty
      exact represents.used other nonempty
  case ascending =>
    intro other
    by_cases same : other = path
    · subst same
      rw [Lists.set_self, List.map_append]
      refine List.pairwise_append.mpr
        ⟨represents.ascending other, List.pairwise_singleton _ _, ?_⟩
      intro version member newest single
      obtain ⟨held, inside, rfl⟩ := List.mem_map.mp member
      obtain rfl := List.mem_singleton.mp single
      exact Retained.lt_next (represents.ascending other) inside
    · rw [lists.set_other same]
      exact represents.ascending other

theorem cleanup : (disk.cleanupOldVersions path).1 = true ∧
      Represents aead paths (lists.set path ((lists path).drop ((lists path).length - 10)))
        (disk.cleanupOldVersions path).2 := by
  let old := (lists path).length - 10
  have gone_eq : ((disk.filesWithVersions path).take
      ((disk.filesWithVersions path).length - 10)).map Prod.fst =
        ((lists path).take old).map (fun held => fileOf path held.1) := by
    rw [represents.filesWithVersions_eq independent known, List.length_map, ← List.map_take,
      List.map_map]
    rfl
  have versions_nodup : ((lists path).map Prod.fst).Nodup :=
    (represents.ascending path).imp (fun less => ne_of_lt less)
  have inj : ∀ a ∈ lists path, ∀ b ∈ lists path, fileOf path a.1 = fileOf path b.1 → a = b :=
    fun a here b there same => List.inj_on_of_nodup_map versions_nodup here there
      (fileOf_injective path same)
  have distinct : (((lists path).take old).map (fun held => fileOf path held.1)).Nodup := by
    refine List.Nodup.map_on ?_ ((List.Nodup.of_map _ versions_nodup).sublist
      (List.take_sublist _ _))
    intro a here b there same
    exact inj a (List.mem_of_mem_take here) b (List.mem_of_mem_take there) same
  have present : ∀ place ∈ ((lists path).take old).map (fun held => fileOf path held.1),
      place ∈ disk.files.keys := by
    intro place member
    obtain ⟨held, inside, rfl⟩ := List.mem_map.mp member
    exact represents.file_mem (List.mem_of_mem_take inside)
  obtain ⟨succeeds, dirs, files⟩ := unlinkAll_of_files distinct present
  rw [Disk.cleanupOldVersions, gone_eq]
  refine ⟨succeeds, represents.remove independent (List.drop_sublist _ _) ?_ ?_ dirs files⟩
  · intro held member
    have parts : lists path = (lists path).take old ++ (lists path).drop old :=
      (List.take_append_drop old (lists path)).symm
    have disjoint := List.disjoint_of_nodup_append
      (parts ▸ List.Nodup.of_map _ versions_nodup)
    constructor
    · intro kept gone
      obtain ⟨other, inside, same⟩ := List.mem_map.mp gone
      have equal := inj other (List.mem_of_mem_take inside) held member same
      exact disjoint (equal ▸ inside) kept
    · intro stays
      rw [parts] at member
      rcases List.mem_append.mp member with taken | kept
      · exact absurd (List.mem_map_of_mem taken) stays
      · exact kept
  · intro place member
    obtain ⟨held, inside, rfl⟩ := List.mem_map.mp member
    exact ⟨held, List.mem_of_mem_take inside, rfl⟩

theorem put (value : Bytes) (nonce : Nonce) :
    (put aead disk path value nonce).1 = .version (lists path).next ∧
      Represents aead paths (lists.set path ((lists path).put value))
        (Secrets.put aead disk path value nonce).2 := by
  have version := nextVersion_eq (represents.found_eq independent known)
  obtain ⟨made, made_eq, represents⟩ :=
    represents.makeParents independent known (lists path).next
  obtain ⟨written, written_eq, represents⟩ :=
    represents.writeFile independent known value nonce
  have cleaned := represents.cleanup independent known
  rw [Lists.set_self, Lists.set_set] at cleaned
  simp only [Secrets.put, version, made_eq, written_eq]
  cases outcome : written.cleanupOldVersions path with
  | mk succeeds after =>
    rw [outcome] at cleaned
    obtain ⟨rfl, represents⟩ := cleaned
    exact ⟨rfl, represents⟩

theorem get (version : Option Int) : get aead disk path version = (lists path).get version := by
  rw [Secrets.get, represents.found_eq independent known, List.getLast?_map]
  cases newest : (lists path).getLast? with
  | none =>
    have empty := List.getLast?_eq_none_iff.mp newest
    cases version with
    | none => simp [Retained.get, newest]
    | some version => simp [Retained.get, empty]
  | some last =>
    cases version with
    | none =>
      simp only [Option.map_some, Retained.get, newest]
      exact represents.readVersion (List.mem_of_getLast? newest)
    | some version =>
      simp only [Option.map_some, Retained.get]
      cases found : (lists path).find? (fun held => (held.1 : Int) = version) with
      | none =>
        have absent : version ∉ ((lists path).map Prod.fst).map Int.ofNat := by
          intro member
          rw [List.map_map] at member
          obtain ⟨held, inside, same⟩ := List.mem_map.mp member
          have missing := List.find?_eq_none.mp found held inside
          exact missing (decide_eq_true same)
        rw [if_neg absent]
      | some held =>
        have number : (held.1 : Int) = version := by simpa using List.find?_some found
        have inside := List.mem_of_find?_eq_some found
        have listed : version ∈ ((lists path).map Prod.fst).map Int.ofNat := by
          rw [← number]
          exact List.mem_map_of_mem (List.mem_map_of_mem inside)
        rw [if_pos listed, ← number]
        exact represents.readVersion inside

theorem versions : versions disk path = (lists path).versions := by
  rw [Secrets.versions, represents.found_eq independent known]
  rfl

theorem delete_all : (delete disk path none).1 = .deleted ∧
      Represents aead paths (lists.set path []) (delete disk path none).2 := by
  have perm := represents.glob_perm independent known
  have versions_nodup : ((lists path).map Prod.fst).Nodup :=
    (represents.ascending path).imp (fun less => ne_of_lt less)
  have distinct : (disk.glob path).Nodup := by
    have := versions_nodup.map (fileOf_injective path)
    rw [List.map_map] at this
    exact perm.nodup_iff.mpr this
  have present : ∀ place ∈ disk.glob path, place ∈ disk.files.keys := by
    intro place member
    obtain ⟨held, inside, rfl⟩ := (represents.mem_glob independent known).mp member
    exact represents.file_mem inside
  obtain ⟨succeeds, dirs, files⟩ := unlinkAll_of_files distinct present
  have removed : Represents aead paths (lists.set path []) (disk.unlinkAll (disk.glob path)).2 := by
    refine represents.remove independent (List.nil_sublist _) ?_ ?_ dirs files
    · intro held member
      have globbed := (represents.mem_glob independent known).mpr ⟨held, member, rfl⟩
      simp [globbed]
    · exact fun place member => (represents.mem_glob independent known).mp member
  simp only [delete]
  cases outcome : disk.unlinkAll (disk.glob path) with
  | mk done after =>
    rw [outcome] at succeeds removed
    subst succeeds
    exact ⟨rfl, removed⟩

theorem delete_version (version : Int) : (delete disk path (some version)).1 = .deleted ∧
      Represents aead paths (lists.set path ((lists path).delete (some version)))
        (delete disk path (some version)).2 := by
  have no_dir : fileOf path version ∉ disk.dirs := by
    intro member
    have free := represents.dir_not_caught independent known member
    rw [captures_own] at free
    exact Bool.noConfusion free
  have same_file : ∀ held : Nat × Bytes,
      fileOf path held.1 = fileOf path version ↔ (held.1 : Int) = version :=
    fun held => ⟨fun same => (fileOf_inj same).2.2, fun same => congrArg (fileOf path) same⟩
  by_cases file : fileOf path version ∈ disk.files.keys
  · have exists_file : fileOf path version ∈ disk.places := List.mem_append_left _ file
    simp only [delete, exists_file, if_true, Disk.unlink, file]
    have own : ∀ place ∈ [fileOf path version],
        ∃ held ∈ lists path, place = fileOf path held.1 := by
      intro place member
      obtain rfl := List.mem_singleton.mp member
      exact represents.own_file independent known file (captures_own path version)
    refine ⟨trivial, represents.remove independent List.filter_sublist ?_ own rfl ?_⟩
    · intro held member
      rw [Retained.delete, List.mem_filter, List.mem_singleton, same_file]
      simp [member]
    · intro place
      by_cases same : place = fileOf path version
      · subst same
        simp [OrderedMap.get?_erase_self]
      · simp [same, OrderedMap.get?_erase_other _ same]
  · have no_file : fileOf path version ∉ disk.places := by
      intro member
      exact (List.mem_append.mp member).elim file no_dir
    have unchanged : (lists path).delete (some version) = lists path := by
      refine List.filter_eq_self.mpr (fun held member => ?_)
      rw [decide_eq_true_eq, ne_eq, ← same_file]
      intro same
      exact file (same ▸ represents.file_mem member)
    have same_lists : lists.set path (lists path) = lists := by
      funext other
      simp only [Lists.set]
      split
      · next same => rw [same]
      · rfl
    simp only [delete, no_file, if_false]
    rw [unchanged, same_lists]
    exact ⟨trivial, represents⟩

end

end Represents

/-- The operations use only known paths, or paths that are rejected. -/
def Over (paths : Set Name) (ops : List Op) : Prop :=
  ∀ op ∈ ops, ∀ path, op.path? = some path → validatePath path = true → path ∈ paths

theorem capturesAny_fileOf (top : directory path = []) (version : Int) :
    capturesAny (fileOf path version) = true := by
  rw [fileOf_eq, top, List.nil_append, capturesAny, List.any_eq_true]
  refine ⟨(baseOf path).length, ?_, ?_⟩
  · simp [fileName, dotV]
  · rw [fileName, List.append_assoc, List.append_assoc, List.drop_left]
    exact globMatches_iff.mpr ⟨decimal version, by simp⟩

namespace Represents

theorem mem_names (represents : Represents aead paths lists disk)
    (independent : Independent paths) (accepted : ∀ path ∈ paths, validatePath path = true)
    (top : ∀ path ∈ paths, directory path = []) (path : Name) :
    path ∈ disk.enumeratePaths ↔ lists path ≠ [] := by
  have name_of : ∀ other ∈ paths, ∀ version : Nat,
      (fileOf other version).getLast?.bind (fun name => (parseName name).map Prod.fst) =
        some other := by
    intro other used version
    rw [fileOf_eq, List.getLast?_concat, Option.bind_some, parseName_fileName,
      if_pos (independent other used).1, Option.map_some,
      baseOf_eq_self (accepted other used) (top other used)]
  rw [Disk.enumeratePaths, List.mem_insertionSort, List.mem_dedup, List.mem_filterMap]
  constructor
  · intro found
    obtain ⟨place, globbed, named⟩ := found
    rcases List.mem_append.mp (List.mem_filter.mp globbed).1 with file | dir
    · obtain ⟨other, held, inside, rfl⟩ := represents.only place file
      rw [name_of other (represents.used_of_mem inside)] at named
      cases named
      exact List.ne_nil_of_mem inside
    · obtain ⟨other, used, above⟩ := represents.dirs place dir
      rw [fileOf_eq, top other used] at above
      exact absurd above List.not_mem_nil
  · intro nonempty
    obtain ⟨held, inside⟩ := List.exists_mem_of_ne_nil _ nonempty
    have used := represents.used path nonempty
    refine ⟨fileOf path held.1, List.mem_filter.mpr ⟨?_, ?_⟩, name_of path used held.1⟩
    · exact List.mem_append_left _ (represents.file_mem inside)
    · exact capturesAny_fileOf (top path used) held.1

end Represents

theorem enumeratePaths_pairwise (disk : Disk) : disk.enumeratePaths.Pairwise (· < ·) := by
  rw [Disk.enumeratePaths]
  have sorted := List.pairwise_insertionSort (· ≤ ·) (((disk.places.filter capturesAny).filterMap
    (fun place => place.getLast?.bind (fun name => (parseName name).map Prod.fst))).dedup)
  have distinct := (List.perm_insertionSort (· ≤ ·)
    (((disk.places.filter capturesAny).filterMap (fun place => place.getLast?.bind
      (fun name => (parseName name).map Prod.fst))).dedup)).nodup_iff.mpr (List.nodup_dedup _)
  exact (sorted.and distinct).imp (fun both => lt_of_le_of_ne both.1 both.2)

theorem Represents.step (represents : Represents aead paths lists disk)
    (independent : Independent paths) (accepted : ∀ path ∈ paths, validatePath path = true)
    {op : Op} (known : ∀ path, op.path? = some path → path ∈ paths)
    (listing : op = .enumeratePaths → ∀ path ∈ paths, directory path = []) :
    lists.Answers op (perform aead disk op).1 ∧
      Represents aead paths (lists.perform op) (perform aead disk op).2 := by
  cases op with
  | put path value nonce => exact represents.put independent (known path rfl) value nonce
  | get path version => exact ⟨represents.get independent (known path rfl) version, represents⟩
  | versions path => exact ⟨represents.versions independent (known path rfl), represents⟩
  | delete path version =>
    cases version with
    | none => exact represents.delete_all independent (known path rfl)
    | some version => exact represents.delete_version independent (known path rfl) version
  | enumeratePaths =>
    exact ⟨⟨_, rfl, enumeratePaths_pairwise disk,
      represents.mem_names independent accepted (listing rfl)⟩, represents⟩

theorem behaves_of_represents (independent : Independent paths)
    (accepted : ∀ path ∈ paths, validatePath path = true) {ops : List Op} (among : Over paths ops)
    (listing : Op.enumeratePaths ∈ ops → ∀ path ∈ paths, directory path = [])
    (represents : Represents aead paths lists disk) : Behaves aead lists disk ops := by
  induction ops generalizing lists disk with
  | nil => trivial
  | cons op ops ih =>
    have over_rest : Over paths ops := fun later member =>
      among later (List.mem_cons_of_mem _ member)
    have listing_rest : Op.enumeratePaths ∈ ops → ∀ path ∈ paths, directory path = [] :=
      fun member => listing (List.mem_cons_of_mem _ member)
    by_cases valid : op.path?.all validatePath = true
    · have known : ∀ path, op.path? = some path → path ∈ paths := by
        intro path uses
        rw [uses] at valid
        exact among op List.mem_cons_self path uses valid
      have first : op = .enumeratePaths → ∀ path ∈ paths, directory path = [] :=
        fun same => listing (same ▸ List.mem_cons_self)
      obtain ⟨answers, represents⟩ := represents.step independent accepted known first
      simp only [Behaves, valid, if_true, Disk.step]
      exact ⟨answers, ih over_rest listing_rest represents⟩
    · simp only [Behaves, valid, Disk.step]
      exact ⟨rfl, ih over_rest listing_rest represents⟩

end HlHelper.Secrets
