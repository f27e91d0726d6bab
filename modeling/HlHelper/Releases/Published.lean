import HlHelper.Releases.Api

/-! The file of a release is the one that its row and its manifest state, as long as no upload
writes over it. -/

namespace HlHelper.Releases

open HlHelper.Library

variable {cfg : Config} {s t : Server} {rel : AgentRelease} {form : Form} {written : Written}
  {index : Nat} {rid token sha256 : String} {content : Bytes} {size : Nat} {events more : List Step}

theorem value_injective {a b : ReleaseChannel} (same : a.value = b.value) : a = b := by
  cases a <;> cases b <;> first | rfl | exact absurd same (by decide)

/-- What a manifest states is known from its bytes. -/
theorem makeManifest_injective {first second : Manifest}
    (same : makeManifest first = makeManifest second) : first = second := by
  have objects := Audit.same_of_utf8 (by simp [Audit.Value.FloatsPrinted, Audit.fieldsPrinted])
    (by simp [Audit.Value.FloatsPrinted, Audit.fieldsPrinted]) same
  have values := @Audit.Value.Same.values ["version", "channel", "os", "arch", "sha256", "size",
    "released_at", "min_prev_version"] [_, _, _, _, _, _, _, _] [_, _, _, _, _, _, _, _] objects
    (by decide) rfl rfl
  simp only [List.map_cons, List.map_nil, Audit.Value.ordered, List.cons.injEq,
    Audit.Value.str.injEq, Audit.Value.int.injEq, Int.ofNat_inj, and_true] at values
  obtain ⟨version, channel, os, arch, sha256, size, releasedAt, minPrevVersion⟩ := values
  cases first
  cases second
  obtain rfl := value_injective channel
  subst version os arch sha256 size releasedAt minPrevVersion
  rfl

/-- The file of a release is there, with the digest and the size in the row, and the row holds a
signed manifest, which states the same. -/
def Published (cfg : Config) (files : Files Path Bytes) (rel : AgentRelease) : Prop :=
  (∃ content, files (cfg.path rel) = some content ∧ rel.sha256 = cfg.hexdigest content ∧
      rel.size = content.length) ∧
    rel.manifestSig = cfg.sign rel.manifestJson ∧
    ∃ manifest, rel.manifestJson = makeManifest manifest ∧ manifest.sha256 = rel.sha256 ∧
      manifest.size = rel.size

/-- An upload writes no other bytes over the file of a release, and when it comes to its row, its
own file is as it has written it. -/
def Careful (cfg : Config) (s : Server) : Step → Prop
  | .start form written =>
    ∀ content ∈ written.left form.binary, ∀ rel ∈ s.releases, cfg.path rel = cfg.target form →
      s.files (cfg.target form) = some content
  | .insert index id _ =>
    ∀ up ∈ s.uploads[index]?, ∀ releasedAt, up.phase = .inserting releasedAt →
      s.releases.any (cfg.release up.form releasedAt id).conflicts = false →
      s.files (cfg.target up.form) = some up.form.binary
  | _ => True

/-- The release that a download of this id streams, and what it streams. -/
def Offers (cfg : Config) (rid : String) (content : Bytes) (sha256 : String) (size : Nat)
    (s : Server) : Prop :=
  ∃ rel, s.releases.find? (fun rel => rel.id = rid) = some rel ∧ rel.status ≠ .yanked ∧
    s.files (cfg.path rel) = some content ∧ rel.sha256 = sha256 ∧ rel.size = size

theorem downloadBinary_eq_stream {token : Option (Option String)} :
    s.downloadBinary cfg rid token = .stream content sha256 size ↔
      token = some (some rid) ∧ Offers cfg rid content sha256 size s := by
  cases token with
  | none => simp [Server.downloadBinary]
  | some claim =>
    by_cases own : claim = some rid
    · simp only [Server.downloadBinary, own, ne_eq, not_true_eq_false, if_false, true_and,
        Offers]
      cases s.releases.find? (fun rel => rel.id = rid) with
      | none => simp
      | some rel =>
        by_cases gone : rel.status = .yanked
        · simp [gone]
        · cases there : s.files (cfg.path rel) <;> simp [gone, there]
    · simp [Server.downloadBinary, own]

@[simp] theorem yanked_id (reason : String) : (rel.yanked rid reason).id = rel.id := by
  rw [AgentRelease.yanked]
  split <;> rfl

theorem Published.yanked {files : Files Path Bytes} {reason : String}
    (published : Published cfg files rel) : Published cfg files (rel.yanked rid reason) := by
  rw [AgentRelease.yanked]
  split
  · exact published
  · exact published

theorem yanked_of_other {reason : String} (other : rel.id ≠ rid) :
    rel.yanked rid reason = rel := by
  rw [AgentRelease.yanked, if_neg other]

theorem files_kept (careful : Careful cfg s (.start form written)) (member : rel ∈ s.releases) :
    (s.start cfg form written).files (cfg.path rel) = s.files (cfg.path rel) := by
  rw [Server.start]
  cases left : written.left form.binary with
  | none => rfl
  | some content =>
    by_cases same : cfg.path rel = cfg.target form
    · have there := careful content left rel member same
      simp only [same, Files.write_self, there]
    · exact Files.write_other same

theorem published_release (releasedAt id : String)
    (there : s.files (cfg.target form) = some form.binary) :
    Published cfg s.files (cfg.release form releasedAt id) :=
  ⟨⟨form.binary, there, rfl, rfl⟩, rfl, cfg.manifest form releasedAt, rfl, rfl, rfl⟩

theorem step_cases {event : Step} (careful : Careful cfg s event)
    (stepped : s.step cfg event = some t) :
    (∀ rel ∈ s.releases, t.files (cfg.path rel) = s.files (cfg.path rel)) ∧
      (t.releases = s.releases ∨
        (∃ rel, t.releases = s.releases ++ [rel] ∧ Published cfg t.files rel) ∨
        ∃ rid reason, event = .yank rid reason ∧
          t.releases = s.releases.map (.yanked rid reason)) := by
  cases event with
  | start form written =>
    cases stepped
    exact ⟨fun rel member => files_kept careful member, .inl rfl⟩
  | insert index id refreshed =>
    obtain ⟨up, found, goes⟩ := Option.bind_eq_some_iff.mp stepped
    split at goes
    · next releasedAt turn =>
      cases goes
      rw [Server.insert]
      by_cases conflict : s.releases.any (cfg.release up.form releasedAt id).conflicts
      · simp only [conflict, if_true]
        exact ⟨fun _ _ => rfl, .inl rfl⟩
      · simp only [conflict]
        have there := careful up found releasedAt turn (Bool.not_eq_true _ ▸ conflict)
        exact ⟨fun _ _ => rfl, .inr (.inl ⟨_, rfl, published_release releasedAt id there⟩)⟩
    · cases goes
  | fail index =>
    obtain ⟨up, _, goes⟩ := Option.bind_eq_some_iff.mp stepped
    split at goes
    · cases goes
      exact ⟨fun _ _ => rfl, .inl rfl⟩
    · cases goes
  | yank rid reason =>
    cases stepped
    exact ⟨fun _ _ => rfl, .inr (.inr ⟨rid, reason, rfl, rfl⟩)⟩

theorem Published.kept {files after : Files Path Bytes} (published : Published cfg files rel)
    (kept : after (cfg.path rel) = files (cfg.path rel)) : Published cfg after rel := by
  obtain ⟨⟨content, there, stated⟩, signed⟩ := published
  exact ⟨⟨content, kept.trans there, stated⟩, signed⟩

theorem published_step {event : Step} (published : ∀ rel ∈ s.releases, Published cfg s.files rel)
    (careful : Careful cfg s event) (stepped : s.step cfg event = some t) :
    ∀ rel ∈ t.releases, Published cfg t.files rel := by
  obtain ⟨kept, shape⟩ := step_cases careful stepped
  have old : ∀ rel ∈ s.releases, Published cfg t.files rel :=
    fun rel member => (published rel member).kept (kept rel member)
  intro rel member
  rcases shape with same | ⟨added, more, good⟩ | ⟨rid, reason, _, yanks⟩
  · exact old rel (same ▸ member)
  · rw [more] at member
    rcases List.mem_append.mp member with before | last
    · exact old rel before
    · exact List.mem_singleton.mp last ▸ good
  · rw [yanks] at member
    obtain ⟨before, there, rfl⟩ := List.mem_map.mp member
    exact (old before there).yanked

theorem offers_step {event : Step} (offers : Offers cfg rid content sha256 size s)
    (careful : Careful cfg s event) (unyanked : ∀ reason, event ≠ .yank rid reason)
    (stepped : s.step cfg event = some t) : Offers cfg rid content sha256 size t := by
  obtain ⟨rel, found, live, there, stated⟩ := offers
  obtain ⟨kept, shape⟩ := step_cases careful stepped
  have now := (kept rel (List.mem_of_find?_eq_some found)).trans there
  refine ⟨rel, ?_, live, now, stated⟩
  rcases shape with same | ⟨added, more, _⟩ | ⟨other, reason, rfl, yanks⟩
  · rw [same, found]
  · rw [more, List.find?_append, found, Option.some_or]
  · have own : rel.id = rid := by simpa using List.find?_some found
    have apart : rel.id ≠ other := fun same => unyanked reason (by rw [← own, same])
    rw [yanks, List.find?_map]
    have looks : (fun rel : AgentRelease => decide (rel.id = rid)) ∘ .yanked other reason =
        fun rel => decide (rel.id = rid) := by
      funext rel
      exact congrArg (fun id => decide (id = rid)) (yanked_id reason)
    rw [looks, found, Option.map_some, yanked_of_other apart]

/-- Every release has the file that it states after careful uploads and yanks, whatever fails of
them, and what can be downloaded at some point stays so until it is yanked. -/
theorem published_when_careful {files : Files Path Bytes}
    (reached : run (Server.step cfg) (Server.empty files) events = some s)
    (later : run (Server.step cfg) s more = some t)
    (careful : Meets (Server.step cfg) (Careful cfg) (Server.empty files) (events ++ more)) :
    (∀ rel ∈ t.releases, Published cfg t.files rel) ∧
      ∀ rid token content sha256 size,
        s.downloadBinary cfg rid token = .stream content sha256 size →
        (∀ reason, .yank rid reason ∉ more) →
        t.downloadBinary cfg rid token = .stream content sha256 size := by
  have whole : run (Server.step cfg) (Server.empty files) (events ++ more) = some t := by
    rw [run_append, reached]
    exact later
  constructor
  · have start : ∀ rel ∈ (Server.empty files).releases, Published cfg files rel :=
      List.forall_mem_nil _
    exact run_keeps (fun _ _ _ published => published_step published) start whole careful
  · intro rid token content sha256 size streams unyanked
    obtain ⟨own, offers⟩ := downloadBinary_eq_stream.mp streams
    have others : ∀ event ∈ more, ∀ reason, event ≠ .yank rid reason := by
      rintro event member reason rfl
      exact unyanked reason member
    have allowed := (meets_append reached careful).2.and (meets_of_forall others s)
    exact downloadBinary_eq_stream.mpr ⟨own, run_keeps
      (fun _ _ _ offers met => offers_step offers met.1 met.2) offers later allowed⟩

def plainConfig : Config := ⟨none, .head, id⟩

def firstForm : Form := ⟨[1], "0.5.0", .stable, "linux", "amd64", none⟩

def otherForm : Form := ⟨[2], "0.5.0", .beta, "linux", "amd64", none⟩

theorem repeated_upload_leaves_the_release :
    ∃ s t, run (Server.step plainConfig) (Server.empty fun _ => none)
        [.start firstForm (.signed "2026-01-01T00:00:00+00:00"), .insert 0 "a" true] = some s ∧
      run (Server.step plainConfig) s
        [.start firstForm (.signed "2026-01-02T00:00:00+00:00"), .insert 1 "b" true] = some t ∧
      (t.uploads[1]?).map Upload.phase = some .failed ∧
      (∀ rel ∈ t.releases, Published plainConfig t.files rel) ∧
      t.downloadBinary plainConfig "a" (some (some "a")) =
        .stream [1] (plainConfig.hexdigest [1]) 1 := by
  have kept := @published_when_careful plainConfig _ _
    [.start firstForm (.signed "2026-01-01T00:00:00+00:00"), .insert 0 "a" true]
    [.start firstForm (.signed "2026-01-02T00:00:00+00:00"), .insert 1 "b" true]
    (fun _ => none) rfl rfl ?careful
  case careful =>
    refine ⟨fun _ _ _ member => (List.not_mem_nil member).elim, fun first started => ?_⟩
    cases started
    refine ⟨fun up found _ _ _ => ?_, fun second inserted => ?_⟩
    · cases found
      rfl
    cases inserted
    refine ⟨fun content left _ _ _ => ?_, fun third again => ?_⟩
    · cases left
      rfl
    cases again
    refine ⟨fun up found _ _ _ => ?_, fun _ _ => trivial⟩
    cases found
    rfl
  exact ⟨_, _, rfl, rfl, rfl, kept.1, kept.2 _ _ _ _ _ rfl (by simp)⟩

/-- The upload that the unique constraint refuses has put its binary in the place of the
release's. -/
theorem refused_upload_overwrites :
    ∃ s t, run (Server.step plainConfig) (Server.empty fun _ => none)
        [.start firstForm (.signed "2026-01-01T00:00:00+00:00"), .insert 0 "a" true] = some s ∧
      run (Server.step plainConfig) s
        [.start otherForm (.signed "2026-01-02T00:00:00+00:00"), .insert 1 "b" true] = some t ∧
      (t.uploads[1]?).map Upload.phase = some .failed ∧
      s.downloadBinary plainConfig "a" (some (some "a")) =
        .stream [1] (plainConfig.hexdigest [1]) 1 ∧
      t.downloadBinary plainConfig "a" (some (some "a")) =
        .stream [2] (plainConfig.hexdigest [1]) 1 ∧
      ∃ rel ∈ t.releases, ¬ Published plainConfig t.files rel := by
  refine ⟨_, _, rfl, rfl, rfl, ?_, ?_, ?_⟩
  · rfl
  · rfl
  · refine ⟨plainConfig.release firstForm "2026-01-01T00:00:00+00:00" "a",
      List.mem_singleton.mpr rfl, ?_⟩
    rintro ⟨⟨content, there, digest, _⟩, _⟩
    obtain rfl : [2] = content := Option.some.inj there
    exact absurd digest (by decide)

end HlHelper.Releases
