import HlHelper.Updates.Apply

/-! What an update may install, what `Apply` would keep of that under a key, and what it does
without one. -/

namespace HlHelper.Updates

open HlHelper.Library

structure Platform where
  os : String
  arch : String
  deriving DecidableEq, Repr

/-- The body is the one that a manifest for this platform states, signed under one of the keys. -/
def Genuine (world : World) (platform : Platform) (keys : List Bytes) (cmd : Cmd) (body : Bytes) :
    Prop :=
  ∃ key ∈ keys, key.length = 32 ∧ world.verify key cmd.manifestJson cmd.manifestSig = true ∧
    ∃ manifest, world.unmarshal cmd.manifestJson = .ok manifest ∧
      manifest.os = platform.os ∧ manifest.arch = platform.arch ∧
      Audit.hex (world.sha256.sum body) = manifest.sha256 ∧ (body.length : Int) = manifest.size

def Kept (u : Updater) (before after : Disk) : Prop :=
  after u.installPath = before u.installPath ∧ after u.pendingPath = before u.pendingPath

/-- The installed binary becomes a genuine download, or an error is returned and the binary and
the marker are as they were. -/
def Guards (world : World) (platform : Platform) (u : Updater) (cmd : Cmd) (before : Disk)
    (result : Outcome × Disk) : Prop :=
  (∃ body, world.get cmd.binaryUrl cmd.downloadToken = .complete body ∧
      result.2 u.installPath = some body ∧ Genuine world platform [u.pinnedPub] cmd body) ∨
    (∃ error, result.1 = .returned (some error)) ∧ Kept u before result.2

def Guarded (world : World) (platform : Platform) (u : Updater) (cmd : Cmd) (disk : Disk) : Prop :=
  Guards world platform u cmd disk (u.apply world cmd disk)

section WithKey

variable {world : World} {platform : Platform} {u : Updater} {cmd : Cmd} {manifest : Manifest}
  {before disk after : Disk} {path : Path} {content body : Bytes}

structure Apart (u : Updater) (version : String) : Prop where
  new_install : u.newPath version ≠ u.installPath
  new_pending : u.newPath version ≠ u.pendingPath
  new_prev : u.newPath version ≠ u.prevPath
  prev_install : u.prevPath ≠ u.installPath
  prev_pending : u.prevPath ≠ u.pendingPath

/-- What the command says of the binary is what the manifest says of it. -/
structure Agrees (platform : Platform) (u : Updater) (cmd : Cmd) (manifest : Manifest) : Prop where
  os : manifest.os = platform.os
  arch : manifest.arch = platform.arch
  sha256 : manifest.sha256 = cmd.expectedSha256
  size : manifest.size = cmd.expectedSize
  positive : 0 < cmd.expectedSize
  apart : Apart u manifest.version

theorem Kept.refl : Kept u disk disk := ⟨rfl, rfl⟩

theorem Kept.write (kept : Kept u before disk) (not_install : path ≠ u.installPath)
    (not_pending : path ≠ u.pendingPath) : Kept u before (disk.write path content) :=
  ⟨(Files.write_other (Ne.symm not_install)).trans kept.1,
    (Files.write_other (Ne.symm not_pending)).trans kept.2⟩

theorem Kept.remove (kept : Kept u before disk) (not_install : path ≠ u.installPath)
    (not_pending : path ≠ u.pendingPath) : Kept u before (disk.remove path) :=
  ⟨(Files.remove_other (Ne.symm not_install)).trans kept.1,
    (Files.remove_other (Ne.symm not_pending)).trans kept.2⟩

theorem guards_andThen {result : Option ApplyError × Disk} {next : Disk → Outcome × Disk}
    (stops : ∀ error after, result = (some error, after) → Kept u before after)
    (goes : ∀ after, result = (none, after) → Guards world platform u cmd before (next after)) :
    Guards world platform u cmd before (andThen result next) := by
  obtain ⟨error, after⟩ := result
  cases error with
  | none => exact goes after rfl
  | some error => exact .inr ⟨⟨error, rfl⟩, stops error after rfl⟩

theorem plain_disk {statement : Statement} {error : Option ApplyError}
    (done : plain world statement disk = (error, after)) : after = disk :=
  (congrArg Prod.snd done).symm

theorem writing_disk {statement : Statement} {text : String → ApplyError}
    {error : Option ApplyError}
    (done : writing world statement text path content disk = (error, after)) :
    after = disk ∨ ∃ left, after = disk.write path left := by
  rw [writing] at done
  split at done
  · exact .inr ⟨content, (congrArg Prod.snd done).symm⟩
  · exact .inl (congrArg Prod.snd done).symm
  · next left _ => exact .inr ⟨left, (congrArg Prod.snd done).symm⟩

theorem download_disk {url token : String} {error : Option ApplyError}
    (done : download world url token path disk = (error, after)) :
    after = disk ∨ ∃ left, after = disk.write path left := by
  rw [download] at done
  split at done
  · exact .inl (congrArg Prod.snd done).symm
  · next written _ _ => exact .inr ⟨written, (congrArg Prod.snd done).symm⟩
  · next body _ => exact .inr ⟨body, (congrArg Prod.snd done).symm⟩

theorem download_complete {url token : String}
    (done : download world url token path disk = (none, after)) :
    ∃ body, world.get url token = .complete body ∧ after path = some body := by
  rw [download] at done
  split at done
  · cases congrArg Prod.fst done
  · cases congrArg Prod.fst done
  · next body found =>
    obtain rfl : disk.write path body = after := congrArg Prod.snd done
    exact ⟨body, found, Files.write_self⟩

theorem checked_disk {expectedHex : String} {expectedSize : Int} {error : Option ApplyError}
    (done : checked world path expectedHex expectedSize disk = (error, after)) :
    after = disk ∨ error ≠ none ∧ after = disk.remove path := by
  rw [checked] at done
  split at done
  · exact .inl (congrArg Prod.snd done).symm
  · next fault _ =>
    have stopped : some fault = error := congrArg Prod.fst done
    have left := (congrArg Prod.snd done).symm
    simp only at left
    split at left
    · exact .inl left
    · exact .inr ⟨by rw [← stopped]; exact Option.some_ne_none fault, left⟩

theorem checked_passed {expectedHex : String} {expectedSize : Int} (positive : 0 < expectedSize)
    (done : checked world path expectedHex expectedSize disk = (none, after))
    (there : disk path = some body) :
    (body.length : Int) = expectedSize ∧ Audit.hex (world.sha256.sum body) = expectedHex := by
  rw [checked] at done
  split at done
  · next passed =>
    rw [verifyFile, there] at passed
    split at passed
    · cases passed
    · cases passed
    · next found =>
      cases found
      by_cases size : (body.length : Int) = expectedSize
      · rw [if_neg fun both => both.2 size] at passed
        split at passed
        · cases passed
        · by_cases digest : Audit.hex (world.sha256.sum body) = expectedHex
          · exact ⟨size, digest⟩
          · rw [if_pos digest] at passed
            cases passed
      · rw [if_pos ⟨positive, size⟩] at passed
        cases passed
  · cases congrArg Prod.fst done

theorem backup_disk {src dst : Path} {error : Option ApplyError}
    (done : backup world src dst disk = (error, after)) :
    after = disk ∨ ∃ left, after = disk.write dst left := by
  rw [backup] at done
  split at done
  · exact writing_disk done
  · exact .inl (congrArg Prod.snd done).symm

theorem guards_install (apart : Apart u manifest.version) (marks : world.fails .marker = none)
    (swaps : world.fails .swap = none) (kept : Kept u before disk)
    (complete : world.get cmd.binaryUrl cmd.downloadToken = .complete body)
    (there : disk (u.newPath manifest.version) = some body)
    (genuine : Genuine world platform [u.pinnedPub] cmd body) :
    Guards world platform u cmd before (u.install world manifest disk) := by
  refine guards_andThen (fun error after done => plain_disk done ▸ kept) fun made done => ?_
  obtain rfl := plain_disk done
  refine guards_andThen (fun error after done => ?_) fun marked done => ?_
  · rw [writing, marks] at done
    cases congrArg Prod.fst done
  · rw [writing, marks] at done
    obtain ⟨marker, rfl⟩ : ∃ marker, marked = made.write u.pendingPath marker :=
      ⟨_, (congrArg Prod.snd done).symm⟩
    have still : made.write u.pendingPath marker (u.newPath manifest.version) = some body :=
      (Files.write_other apart.new_pending).trans there
    obtain ⟨swapped, renamed⟩ : ∃ swapped, (made.write u.pendingPath marker).rename
        (u.newPath manifest.version) u.installPath = some swapped :=
      ⟨_, Files.rename_eq_some.mpr ⟨body, still, rfl⟩⟩
    have installed : swapped u.installPath = some body := (Files.rename_target renamed).trans still
    have done : swap world (u.newPath manifest.version) u.installPath
        (made.write u.pendingPath marker) = (none, swapped) := by
      rw [swap, swaps, renamed]
    rw [done, andThen]
    refine .inl ⟨body, complete, ?_, genuine⟩
    split
    · exact installed
    · split
      · exact installed
      · exact installed

theorem guarded_with_key (pinned : u.pinnedPub.length = 32) (marks : world.fails .marker = none)
    (swaps : world.fails .swap = none)
    (agrees : ∀ manifest, world.unmarshal cmd.manifestJson = .ok manifest →
      Agrees platform u cmd manifest) : Guarded world platform u cmd disk := by
  rw [Guarded, Updater.apply, if_neg fun short => short pinned]
  split
  · exact .inr ⟨⟨_, rfl⟩, .refl⟩
  · next signed =>
    split
    · exact .inr ⟨⟨_, rfl⟩, .refl⟩
    · next manifest decoded =>
      split
      · exact .inr ⟨⟨_, rfl⟩, .refl⟩
      · have said := agrees manifest decoded
        have apart := said.apart
        refine guards_andThen (fun error after done => plain_disk done ▸ .refl)
          fun made done => ?_
        obtain rfl := plain_disk done
        have fetched : ∀ {error after}, download world cmd.binaryUrl cmd.downloadToken
            (u.newPath manifest.version) made = (error, after) → Kept u made after := by
          intro error after done
          rcases download_disk done with rfl | ⟨left, rfl⟩
          · exact .refl
          · exact Kept.refl.write apart.new_install apart.new_pending
        refine guards_andThen (fun error after done => fetched done) fun got done => ?_
        obtain ⟨body, complete, there⟩ := download_complete done
        have kept := fetched done
        refine guards_andThen (fun error after done => ?_) fun passed done => ?_
        · rcases checked_disk done with rfl | ⟨_, rfl⟩
          · exact kept
          · exact kept.remove apart.new_install apart.new_pending
        obtain rfl : passed = got := (checked_disk done).resolve_right fun both => both.1 rfl
        obtain ⟨size, digest⟩ := checked_passed said.positive done there
        have genuine : Genuine world platform [u.pinnedPub] cmd body :=
          ⟨u.pinnedPub, List.mem_singleton_self _, pinned, Bool.of_not_eq_false signed,
            manifest, decoded, said.os, said.arch, digest.trans said.sha256.symm,
            size.trans said.size.symm⟩
        refine guards_andThen (fun error after done => plain_disk done ▸ kept)
          fun same done => ?_
        obtain rfl := plain_disk done
        refine guards_andThen (fun error after done => plain_disk done ▸ kept)
          fun same done => ?_
        obtain rfl := plain_disk done
        refine guards_andThen (fun error after done => ?_) fun saved done => ?_
        · rcases backup_disk done with rfl | ⟨left, rfl⟩
          · exact kept
          · exact kept.write apart.prev_install apart.prev_pending
        · rcases backup_disk done with rfl | ⟨left, rfl⟩
          · exact guards_install apart marks swaps kept complete there genuine
          · exact guards_install apart marks swaps
              (kept.write apart.prev_install apart.prev_pending) complete
              ((Files.write_other apart.new_prev).trans there) genuine

end WithKey

/-- Without a key `Apply` panics on whatever it is given. -/
theorem apply_without_key (world : World) (u : Updater) (cmd : Cmd) (disk : Disk)
    (keyless : u.pinnedPub = []) :
    u.apply world cmd disk = (.panicked "ed25519: bad public key length: 0", disk) := by
  have short : u.pinnedPub.length ≠ 32 := by
    rw [keyless]
    decide
  rw [Updater.apply, if_pos short, keyless]
  rfl

theorem not_guards_of_panic {world : World} {platform : Platform} {u : Updater} {cmd : Cmd}
    {before after : Disk} (message : String) (keyless : u.pinnedPub = []) :
    ¬ Guards world platform u cmd before (.panicked message, after) := by
  rintro (⟨body, _, _, key, known, long, _⟩ | ⟨⟨error, returned⟩, _⟩)
  · rw [List.mem_singleton.mp known, keyless] at long
    cases long
  · cases returned

/-- The updater that the client configures guards no update. -/
theorem unguarded_as_configured (world : World) (platform : Platform) (opts : Options)
    (installPath : Path) (cmd : Cmd) (disk : Disk) :
    ¬ Guarded world platform (configure world opts installPath) cmd disk := by
  rw [Guarded, apply_without_key world _ cmd disk rfl]
  exact not_guards_of_panic _ rfl

/-- Every signature holds, every statement succeeds, and the server sends the release. -/
def obliging : World where
  verify := fun _ _ _ => true
  unmarshal := fun _ => .ok ⟨"0.4.2", "stable", "linux", "amd64",
    Audit.hex (Sha256.head.sum [1, 2, 3]), 3, "", ""⟩
  marshalPending := fun _ _ => []
  sha256 := Sha256.head
  get := fun _ _ => .complete [1, 2, 3]
  fails := fun _ => none
  exec := fun _ => .replaced

def release : Payload :=
  .agentUpdate "r-1" [] [] "https://server/binary" "" (Audit.hex (Sha256.head.sum [1, 2, 3])) 3
    false

def pinned : Updater :=
  { configure obliging ⟨"", "0.4.1"⟩ (.ofText "/usr/local/bin/hl-agent") with
    pinnedPub := List.replicate 32 0 }

theorem obliged_release_guarded : ∃ cmd, cmdOf release = some cmd ∧
    Guarded obliging ⟨"linux", "amd64"⟩ pinned cmd (fun _ => none) := by
  refine ⟨_, rfl, guarded_with_key rfl rfl rfl fun manifest decoded => ?_⟩
  cases decoded
  exact ⟨rfl, rfl, rfl, rfl, by decide, by decide +kernel, by decide +kernel, by decide +kernel,
    by decide +kernel, by decide +kernel⟩

theorem release_ends_the_agent :
    handleAgentUpdate obliging ⟨"", "0.4.1"⟩ (some (.ofText "/usr/local/bin/hl-agent")) release
        (fun _ => none) = (.crashed "ed25519: bad public key length: 0", fun _ => none) ∧
      ∃ cmd, cmdOf release = some cmd ∧
        ¬ Guarded obliging ⟨"linux", "amd64"⟩
          (configure obliging ⟨"", "0.4.1"⟩ (.ofText "/usr/local/bin/hl-agent")) cmd
          (fun _ => none) :=
  ⟨rfl, _, rfl, not_guards_of_panic _ rfl⟩

end HlHelper.Updates
