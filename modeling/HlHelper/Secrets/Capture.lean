import HlHelper.Secrets.Independence

/-! What goes wrong over paths that are not independent: each way in which one path touches
another's version list has a run that shows it. -/

namespace HlHelper.Secrets

open HlHelper.Library

variable {aead : Aead} {paths : Set Name}

def firstDisk (aead : Aead) (path : Name) (value : Bytes) (nonce : Nonce) : Disk :=
  ⟨⟨[(fileOf path 1, payload aead path value nonce)], List.nodup_singleton _⟩,
    Disk.parents (fileOf path 1)⟩

variable {path : Name} {place : Location}

theorem length_of_mem_parents (member : place ∈ Disk.parents (fileOf path 1)) :
    place.length < (fileOf path 1).length := by
  have prefixed : place <+: (fileOf path 1).dropLast :=
    (List.mem_inits _ _).mp (List.mem_of_mem_tail member)
  have short := prefixed.length_le
  rw [fileOf_eq, List.dropLast_concat] at short
  rw [fileOf_eq, List.length_append, List.length_singleton]
  omega

theorem length_fileOf (path : Name) (version : Int) :
    (fileOf path version).length = (directory path).length + 1 := by
  rw [fileOf_eq, List.length_append, List.length_singleton]

theorem length_of_captures (caught : captures path place = true) :
    place.length = (directory path).length + 1 := by
  obtain ⟨middle, rfl⟩ := captures_iff.mp caught
  rw [List.length_append, List.length_singleton]

theorem glob_firstDisk (path : Name) (value : Bytes) (nonce : Nonce) :
    (firstDisk aead path value nonce).glob path = [fileOf path 1] := by
  have dirs : (Disk.parents (fileOf path 1)).filter (captures path) = [] := by
    refine List.filter_eq_nil_iff.mpr (fun place member caught => ?_)
    have shorter := length_of_mem_parents member
    rw [length_of_captures caught, length_fileOf] at shorter
    omega
  have file : [fileOf path 1].filter (captures path) = [fileOf path 1] := by
    rw [List.filter_cons_of_pos (captures_own path 1), List.filter_nil]
  calc (firstDisk aead path value nonce).glob path
      = ([fileOf path 1] ++ Disk.parents (fileOf path 1)).filter (captures path) := rfl
    _ = [fileOf path 1] := by rw [List.filter_append, file, dirs, List.append_nil]

theorem put_empty (path : Name) (value : Bytes) (nonce : Nonce) :
    put aead Disk.empty path value nonce = (.version 1, firstDisk aead path value nonce) := by
  have version : Disk.empty.nextVersion path = 1 := rfl
  have all_new : (Disk.parents (fileOf path 1)).filter (· ∉ Disk.empty.dirs) =
      Disk.parents (fileOf path 1) :=
    List.filter_eq_self.mpr (fun _ _ => rfl)
  have made : Disk.empty.makeParents (fileOf path 1) =
      some ⟨OrderedMap.empty, Disk.parents (fileOf path 1)⟩ := by
    have clear : (Disk.parents (fileOf path 1)).any (· ∈ Disk.empty.files.keys) = false :=
      List.any_eq_false.mpr (fun _ _ => by simp [Disk.empty])
    rw [Disk.makeParents, clear, all_new]
    rfl
  have not_tmp : Disk.tmpOf (fileOf path 1) ∉ Disk.parents (fileOf path 1) := by
    intro member
    have shorter := length_of_mem_parents member
    rw [fileOf_eq, Disk.tmpOf, List.dropLast_concat] at shorter
    simp only [List.length_append, List.length_singleton] at shorter
    omega
  have not_file : fileOf path 1 ∉ Disk.parents (fileOf path 1) := by
    intro member
    exact lt_irrefl _ (length_of_mem_parents member)
  have written : (⟨OrderedMap.empty, Disk.parents (fileOf path 1)⟩ : Disk).writeFile
      (fileOf path 1) (payload aead path value nonce) =
        (true, firstDisk aead path value nonce) := by
    rw [Disk.writeFile, if_neg not_tmp, if_neg not_file]
    rfl
  have few : ((firstDisk aead path value nonce).filesWithVersions path).length ≤ 1 := by
    rw [Disk.filesWithVersions, List.length_insertionSort, glob_firstDisk]
    exact List.length_filterMap_le _ _
  have cleaned : (firstDisk aead path value nonce).cleanupOldVersions path =
      (true, firstDisk aead path value nonce) := by
    rw [Disk.cleanupOldVersions, Nat.sub_eq_zero_of_le (by omega)]
    rfl
  simp only [put, version, Int.natCast_one, made, written, cleaned]

/-- Every run without a listing behaves, over these paths. -/
def AllBehave (aead : Aead) (paths : Set Name) : Prop :=
  ∀ ops, Over paths ops → Op.enumeratePaths ∉ ops → Behaves aead noLists Disk.empty ops

def someNonce : Nonce := ⟨List.replicate 12 0, rfl⟩

theorem over_put {other : Name} (used : other ∈ paths) {op : Op}
    (known : ∀ path, op.path? = some path → path ∈ paths) :
    Over paths [.put other [] someNonce, op] := by
  intro each member path uses _
  rcases List.mem_cons.mp member with rfl | member
  · cases uses
    exact used
  · obtain rfl := List.mem_singleton.mp member
    exact known path uses

theorem answers_after_put {op : Op}
    (behaves : Behaves aead noLists Disk.empty [.put path [] someNonce, op])
    (valid : validatePath path = true) (op_valid : op.path?.all validatePath = true) :
    (noLists.set path [(1, [])]).Answers op
      (perform aead (firstDisk aead path [] someNonce) op).1 := by
  have put_valid : (Op.put path [] someNonce).path?.all validatePath = true := valid
  simp only [Behaves, put_valid, op_valid, if_true, Disk.step] at behaves
  have after : perform aead Disk.empty (.put path [] someNonce) =
      (.version 1, firstDisk aead path [] someNonce) := put_empty path [] someNonce
  rw [after] at behaves
  exact behaves.2.1

theorem readable_of_behave (behave : AllBehave aead paths) (known : path ∈ paths)
    (valid : validatePath path = true) : Readable path := by
  by_contra broken
  have among : Over paths [.put path [] someNonce, .versions path] :=
    over_put known (fun _ uses => Option.some.inj uses ▸ known)
  have answers := answers_after_put (behave _ among (by simp)) valid valid
  have unread : (firstDisk aead path [] someNonce).found path = [] := by
    have no_version : parseName (fileName path 1) = none :=
      (parseName_fileName path 1).trans (if_neg broken)
    rw [Disk.found, glob_firstDisk]
    simp [Disk.versionOf, fileOf_eq, no_version]
  simp [Lists.Answers, perform, versions, unread, Retained.versions] at answers

theorem files_of_behave (behave : AllBehave aead paths) {other : Name} (known : path ∈ paths)
    (used : other ∈ paths) (valid : validatePath path = true)
    (other_valid : validatePath other = true) (caught : captures path (fileOf other 1) = true) :
    path = other := by
  by_contra different
  have among : Over paths [.put other [] someNonce, .versions path] :=
    over_put used (fun _ uses => Option.some.inj uses ▸ known)
  have answers := answers_after_put (behave _ among (by simp)) other_valid valid
  have readable := readable_of_behave behave used other_valid
  have listed : 1 ∈ (firstDisk aead other [] someNonce).found path := by
    rw [Disk.found, List.mem_insertionSort, List.mem_filterMap]
    refine ⟨fileOf other 1, List.mem_filter.mpr ⟨?_, caught⟩, versionOf_fileOf readable 1⟩
    exact List.mem_append_left _ List.mem_cons_self
  have none_held : noLists.set other [(1, [])] path = [] := Lists.set_other _ different _
  simp only [Lists.Answers, perform, versions, none_held, Retained.versions, List.map_nil]
    at answers
  split at answers
  · next empty =>
    rw [empty] at listed
    exact List.not_mem_nil listed
  · exact Result.noConfusion answers

theorem unlinkAll_of_missing {disk : Disk} {places : List Location} (member : place ∈ places)
    (missing : place ∉ disk.files.keys) : (disk.unlinkAll places).1 = false := by
  induction places generalizing disk with
  | nil => exact absurd member List.not_mem_nil
  | cons first rest ih =>
    simp only [Disk.unlinkAll, Disk.unlink]
    by_cases here : first ∈ disk.files.keys
    · rw [if_pos here]
      rcases List.mem_cons.mp member with rfl | later
      · exact absurd here missing
      · exact ih later (fun inside => missing (OrderedMap.mem_keys_erase.mp inside).1)
    · rw [if_neg here]

theorem dirs_of_behave (behave : AllBehave aead paths) {other : Name} (known : path ∈ paths)
    (used : other ∈ paths) (valid : validatePath path = true)
    (other_valid : validatePath other = true) (above : place ∈ Disk.parents (fileOf other 1)) :
    captures path place = false := by
  by_contra caught
  rw [Bool.not_eq_false] at caught
  have among : Over paths [.put other [] someNonce, .delete path none] :=
    over_put used (fun _ uses => Option.some.inj uses ▸ known)
  have answers := answers_after_put (behave _ among (by simp)) other_valid valid
  have globbed : place ∈ (firstDisk aead other [] someNonce).glob path :=
    List.mem_filter.mpr ⟨List.mem_append_right _ above, caught⟩
  have no_file : place ∉ (firstDisk aead other [] someNonce).files.keys := by
    intro member
    obtain rfl := List.mem_singleton.mp member
    exact lt_irrefl _ (length_of_mem_parents above)
  have stopped := unlinkAll_of_missing globbed no_file
  simp only [Lists.Answers, perform, delete] at answers
  split at answers
  · exact Result.noConfusion answers
  · next outcome =>
    rw [outcome] at stopped
    exact Bool.noConfusion stopped

theorem unlinkAll_dirs {disk after : Disk} {places : List Location} {succeeds : Bool}
    (outcome : disk.unlinkAll places = (succeeds, after)) : after.dirs = disk.dirs := by
  induction places generalizing disk with
  | nil => rw [← (Prod.mk.inj outcome).2]
  | cons first rest ih =>
    simp only [Disk.unlinkAll, Disk.unlink] at outcome
    by_cases here : first ∈ disk.files.keys
    · rw [if_pos here] at outcome
      exact (ih outcome).trans rfl
    · rw [if_neg here] at outcome
      rw [← (Prod.mk.inj outcome).2]

theorem put_succeeds {disk : Disk} {value : Bytes} {nonce : Nonce} {number : Nat}
    (written : (put aead disk path value nonce).1 = .version number) :
    Disk.tmpOf (fileOf path number) ∉ disk.dirs ∧
      ∀ place ∈ disk.dirs, place ∈ (put aead disk path value nonce).2.dirs := by
  simp only [put] at written ⊢
  cases made : disk.makeParents (fileOf path (disk.nextVersion path)) with
  | none =>
    rw [made] at written
    exact Result.noConfusion written
  | some above =>
    have kept : ∀ place ∈ disk.dirs, place ∈ above.dirs := by
      intro place member
      unfold Disk.makeParents at made
      split at made
      · exact absurd made (by simp)
      · rw [← Option.some.inj made]
        exact List.mem_append_left _ member
    simp only [made] at written ⊢
    unfold Disk.writeFile at written ⊢
    by_cases tmp : Disk.tmpOf (fileOf path (disk.nextVersion path)) ∈ above.dirs
    · rw [if_pos tmp] at written
      exact Result.noConfusion written
    · rw [if_neg tmp] at written ⊢
      by_cases dir : fileOf path (disk.nextVersion path) ∈ above.dirs
      · rw [if_pos dir] at written
        exact Result.noConfusion written
      · rw [if_neg dir] at written ⊢
        simp only [Disk.cleanupOldVersions] at written ⊢
        split at written
        · exact Result.noConfusion written
        · next succeeds after outcome =>
          obtain rfl := Result.version.inj written
          refine ⟨fun member => tmp (kept _ member), fun place member => ?_⟩
          rw [unlinkAll_dirs outcome]
          exact kept place member

theorem Retained.next_put (retained : Retained) (value : Bytes) :
    (retained.put value).next = retained.next + 1 := by
  have newest : (retained.put value).getLast? = some (retained.next, value) := by
    have short : (retained ++ [(retained.next, value)]).length - 10 ≤ retained.length := by
      rw [List.length_append, List.length_singleton]
      omega
    rw [Retained.put, List.drop_append_of_le_length short, List.getLast?_concat]
  rw [Retained.next, newest]

theorem puts_fail (valid : validatePath path = true) {last : Nat} {lists : Lists} {disk : Disk}
    (blocked : Disk.tmpOf (fileOf path last) ∈ disk.dirs) (more : Nat)
    (reaches : (lists path).next + more = last) :
    ¬ Behaves aead lists disk (List.replicate (more + 1) (.put path [] someNonce)) := by
  have op_valid : (Op.put path [] someNonce).path?.all validatePath = true := valid
  induction more generalizing lists disk with
  | zero =>
    intro behaves
    simp only [List.replicate_succ, Behaves, op_valid, if_true, Disk.step] at behaves
    obtain ⟨free, _⟩ := put_succeeds behaves.1
    rw [show (lists path).next = last by omega] at free
    exact free blocked
  | succ more ih =>
    intro behaves
    rw [List.replicate_succ] at behaves
    simp only [Behaves, op_valid, if_true, Disk.step] at behaves
    obtain ⟨_, kept⟩ := put_succeeds behaves.1
    refine ih (kept _ blocked) ?_ behaves.2
    rw [Lists.perform, Lists.set_self, Retained.next_put]
    omega

theorem tmps_of_behave (behave : AllBehave aead paths) {other : Name} (known : path ∈ paths)
    (used : other ∈ paths) (valid : validatePath path = true)
    (other_valid : validatePath other = true) (above : place ∈ Disk.parents (fileOf other 1))
    (version : Nat) : place ≠ Disk.tmpOf (fileOf path (version + 1 : Nat)) := by
  rintro rfl
  have different : path ≠ other := by
    rintro rfl
    have shorter := length_of_mem_parents above
    rw [fileOf_eq, fileOf_eq, Disk.tmpOf, List.dropLast_concat] at shorter
    simp only [List.length_append, List.length_singleton] at shorter
    omega
  let writes := List.replicate (version + 1) (Op.put path [] someNonce)
  have among : Over paths (.put other [] someNonce :: writes) := by
    intro op member name uses _
    rcases List.mem_cons.mp member with rfl | member
    · exact Option.some.inj uses ▸ used
    · obtain rfl := List.eq_of_mem_replicate member
      exact Option.some.inj uses ▸ known
  have plain : Op.enumeratePaths ∉ Op.put other [] someNonce :: writes := by
    intro member
    rcases List.mem_cons.mp member with first | member
    · exact Op.noConfusion first
    · exact Op.noConfusion (List.eq_of_mem_replicate member)
  have behaves := behave _ among plain
  have other_op : (Op.put other [] someNonce).path?.all validatePath = true := other_valid
  have after : perform aead Disk.empty (.put other [] someNonce) =
      (.version 1, firstDisk aead other [] someNonce) := put_empty other [] someNonce
  rw [Behaves, if_pos other_op, Disk.step, if_pos other_op, after] at behaves
  refine puts_fail valid above version ?_ behaves.2
  rw [Lists.perform, Lists.set_other _ different]
  simp [noLists, Retained.next]
  omega

theorem independent_of_behave (accepted : ∀ path ∈ paths, validatePath path = true)
    (behave : AllBehave aead paths) : Independent paths := by
  intro path known
  have valid := accepted path known
  refine ⟨readable_of_behave behave known valid, fun other used => ?_⟩
  have other_valid := accepted other used
  constructor
  case files =>
    intro above base
    exact files_of_behave behave known used valid other_valid
      (captures_fileOf.mpr ⟨above, base⟩)
  case dirs => exact fun place above => dirs_of_behave behave known used valid other_valid above
  case tmps =>
    exact fun place above version =>
      tmps_of_behave behave known used valid other_valid above version

theorem length_of_mem_split {segment text : Name} (member : segment ∈ split text) :
    segment.length ≤ text.length := by
  induction text generalizing segment with
  | nil => simp [List.mem_singleton.mp member]
  | cons c rest ih =>
    simp only [split] at member
    by_cases slash : c = '/'
    · rw [if_pos slash] at member
      rcases List.mem_cons.mp member with rfl | later
      · exact Nat.zero_le _
      · exact (ih later).trans (Nat.le_succ _)
    · rw [if_neg slash] at member
      cases inner : split rest with
      | nil => exact absurd inner (split_ne_nil rest)
      | cons head tail =>
        rw [inner, List.modifyHead_cons] at member
        rcases List.mem_cons.mp member with rfl | later
        · have shorter : head.length ≤ rest.length := ih (by simp [inner])
          simpa using shorter
        · have shorter : segment.length ≤ rest.length := ih (by simp [inner, later])
          exact shorter.trans (Nat.le_succ _)

theorem stripSuffix_length {suffix text rest : Name}
    (stripped : stripSuffix suffix text = some rest) :
    rest.length + suffix.length = text.length := by
  unfold stripSuffix at stripped
  split at stripped
  · next ends =>
    have short := ends.length_le
    rw [← Option.some.inj stripped, List.length_take]
    omega
  · exact absurd stripped (by simp)

theorem parseName_length {name base : Name} {version : Nat}
    (parsed : parseName name = some (base, version)) : base.length < name.length := by
  simp only [parseName, Option.bind_eq_bind, Option.bind_eq_some_iff] at parsed
  obtain ⟨stem, stem_eq, before, before_eq, outcome⟩ := parsed
  split at outcome
  · exact absurd outcome (by simp)
  · obtain ⟨rfl, -⟩ := Prod.mk.inj (Option.some.inj outcome)
    have first := stripSuffix_length stem_eq
    have second := stripSuffix_length before_eq
    have dropped := (List.dropWhile_sublist Char.isDigit (l := stem.reverse)).length_le
    rw [List.length_reverse] at second
    rw [List.length_reverse] at dropped
    simp only [dotBin, dotV, List.length_cons, List.length_nil] at first second
    omega

theorem top_of_listed (listed : path ∈ (firstDisk aead path [] someNonce).enumeratePaths) :
    directory path = [] := by
  rw [Disk.enumeratePaths, List.mem_insertionSort, List.mem_dedup, List.mem_filterMap] at listed
  obtain ⟨place, globbed, named⟩ := listed
  obtain ⟨inside, caught⟩ := List.mem_filter.mp globbed
  unfold capturesAny at caught
  split at caught
  · next name =>
    rw [List.getLast?_singleton, Option.bind_some, Option.map_eq_some_iff] at named
    obtain ⟨parsed, parsed_eq, rfl⟩ := named
    have longer : parsed.1.length < name.length := parseName_length parsed_eq
    rcases List.mem_append.mp inside with file | above
    · have same := List.mem_singleton.mp file
      have lengths := congrArg List.length same
      rw [List.length_singleton] at lengths
      rw [show (fileOf parsed.1 1).length = _ from length_fileOf _ _] at lengths
      exact List.eq_nil_of_length_eq_zero (by omega)
    · have prefixed : [name] <+: (fileOf parsed.1 1).dropLast :=
        (List.mem_inits _ _).mp (List.mem_of_mem_tail above)
      rw [fileOf_eq, List.dropLast_concat] at prefixed
      have segment : name ∈ split parsed.1 := List.mem_of_mem_dropLast
        (List.mem_of_mem_filter (prefixed.subset List.mem_cons_self))
      have shorter := length_of_mem_split segment
      omega
  · exact Bool.noConfusion caught

theorem top_of_behave (behave : ∀ ops, Over paths ops → Behaves aead noLists Disk.empty ops)
    (known : path ∈ paths) (valid : validatePath path = true) : directory path = [] := by
  have among : Over paths [.put path [] someNonce, .enumeratePaths] :=
    over_put known (fun _ uses => absurd uses (by simp [Op.path?]))
  obtain ⟨names, result, -, listed⟩ := answers_after_put (behave _ among) valid rfl
  have here := (listed path).mpr (by simp)
  rw [← Result.paths.inj result] at here
  exact top_of_listed here

/-- Over which paths the store is a family of independent version lists: without listing, over
independent paths; with it, among independent paths that are in no directory. -/
theorem independent_lists_iff (aead : Aead) (paths : Set Name)
    (accepted : ∀ path ∈ paths, validatePath path = true) :
    ((∀ ops, Over paths ops → Op.enumeratePaths ∉ ops →
        Behaves aead noLists Disk.empty ops) ↔ Independent paths) ∧
      ((∀ ops, Over paths ops → Behaves aead noLists Disk.empty ops) ↔
        Independent paths ∧ ∀ path ∈ paths, directory path = []) := by
  refine ⟨⟨independent_of_behave accepted, ?_⟩, ?_, ?_⟩
  · intro independent ops among plain
    exact behaves_of_represents independent accepted among (fun listing => absurd listing plain)
      represents_empty
  · intro behave
    exact ⟨independent_of_behave accepted (fun ops among _ => behave ops among),
      fun path known => top_of_behave behave known (accepted path known)⟩
  · intro both ops among
    exact behaves_of_represents both.1 accepted among (fun _ => both.2) represents_empty

def plainAead : Aead where
  deriveKey path := path.map (fun c => c.toNat.toUInt8)
  encrypt key _ value := key ++ value
  decrypt key _ content := some (content.drop key.length)
  decrypt_encrypt key nonce value := by rw [List.drop_left]

theorem dotted_name_independent : Behaves plainAead noLists Disk.empty
    [.put ['a'] [1] someNonce, .put ['a', '.', 'b'] [7] someNonce, .delete ['a'] none,
      .get ['a', '.', 'b'] none, .enumeratePaths] := by
  refine (independent_lists_iff plainAead {path | path = ['a'] ∨ path = ['a', '.', 'b']}
    ?_).2.mpr ⟨?_, ?_⟩ _ ?_
  · rintro path (rfl | rfl) <;> decide
  · have apart : ∀ path other : Name, Disk.parents (fileOf other 1) = [] →
        (directory path = directory other →
          (baseOf path = baseOf other ∨ baseOf path ++ dotV <+: baseOf other) → path = other) →
        Apart path other := by
      intro path other top files
      exact ⟨files, by simp [top], by simp [top]⟩
    rintro path (rfl | rfl)
    · refine ⟨by decide, ?_⟩
      rintro other (rfl | rfl) <;> exact apart _ _ (by decide) (by decide)
    · refine ⟨by decide, ?_⟩
      rintro other (rfl | rfl) <;> exact apart _ _ (by decide) (by decide)
  · rintro path (rfl | rfl) <;> decide
  · intro op member name uses _
    simp only [List.mem_cons, List.not_mem_nil, or_false] at member
    rcases member with rfl | rfl | rfl | rfl | rfl
    · exact .inl (Option.some.inj uses).symm
    · exact .inr (Option.some.inj uses).symm
    · exact .inl (Option.some.inj uses).symm
    · exact .inr (Option.some.inj uses).symm
    · cases uses

theorem deleted_with_other : ¬ Behaves plainAead noLists Disk.empty
    [.put ['a', '.', 'v', 'b'] [7] someNonce, .delete ['a'] none,
      .get ['a', '.', 'v', 'b'] none] := by
  intro behaves
  have answer : (Disk.step plainAead _ (.get ['a', '.', 'v', 'b'] none)).1 = .value [7] :=
    behaves.2.2.1
  exact absurd answer (by decide)

end HlHelper.Secrets
