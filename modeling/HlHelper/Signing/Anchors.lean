import HlHelper.Library.Rows
import HlHelper.Signing.FileBackend

/-! The keys that have signed, with their retention, and that the files of the backend keep to
them. -/

namespace HlHelper.Signing

open HlHelper.Library

structure RetiredKey where
  key : Bytes
  expiresAt : Int
  deriving DecidableEq, Repr

/-- The key that signs, those that have been retired, and when expired ones were collected. -/
structure Ring where
  current : Bytes
  retired : List RetiredKey
  collections : List Int
  deriving DecidableEq, Repr

namespace Ring

def bootstrap (key : Bytes) : Ring := ⟨key, [], []⟩

def rotated (ring : Ring) (r : Rotation) : Ring where
  current := r.newKey
  retired := ring.retired ++ [⟨ring.current, r.expires⟩]
  collections := ring.collections ++ [r.gcNow]

def after (ring : Ring) : Step → Ring
  | .rotate r none => ring.rotated r
  | .rotate r (some cut) => if cut.done ≤ 2 then ring else ring.rotated r
  | _ => ring

/-- A signature of the current key, or of a retired one that has not expired. -/
def Accepts (ed : Ed25519) (ring : Ring) (now : Int) (data sig : Bytes) : Prop :=
  ed.verify (ed.publicKey ring.current) data sig = true ∨
    ∃ old ∈ ring.retired, now < old.expiresAt ∧ ed.verify (ed.publicKey old.key) data sig = true

end Ring

/-- The clock has not been set back behind a collection. -/
def Ring.Reached (ring : Ring) (now : Int) : Prop := ∀ time ∈ ring.collections, time ≤ now

/-- The name that a rotation makes is not in use, and it does not stop between the replacement of
the key and its end, nor overflow there. -/
def Careful (ed : Ed25519) (s : System) : Step → Prop
  | .rotate r cut =>
    (∀ old, s.disk .grace = some (.graceJson old) → ∀ entry ∈ old, entry.file ≠ .retired r.ts) ∧
      match cut with
      | none => InRange r.expires
      | some cut =>
        cut.done ≤ 2 ∨
          InRange r.expires ∧ cut.ends = true ∧ (r.ops ed s.disk).1.length ≤ cut.done
  | _ => True

structure Verifiable (ed : Ed25519) (s : System) (ring : Ring) : Prop where
  key : s.disk .currentKey = some (.privatePem ring.current)
  pub : s.disk .currentPub = some (.publicPem (ed.publicKey ring.current))
  signs : ∀ backend ∈ s.running, backend.current = ring.current
  starts : ∃ backend, FileBackend.load s.disk = some backend ∧ backend.current = ring.current
  kept : ∀ old ∈ ring.retired, ∀ now, ring.Reached now → now < old.expiresAt →
    ∃ ts, s.disk (.retired ts) = some (.publicPem (ed.publicKey old.key))
  accepts : ∀ backend ∈ s.running, ∀ now, ring.Reached now → ∀ data sig,
    ∃ accepted, ed.verifies backend s.disk now data sig = some accepted ∧
      (accepted = true ↔ ring.Accepts ed now data sig)
  pinned : ∀ checkpoint ∈ s.checkpoints, ed.verifyWithPubkey checkpoint.message
    checkpoint.signature checkpoint.signingPubkey = true

/-- The entries of `grace.json` are the retired keys but those that have been collected. -/
structure Listed (ed : Ed25519) (disk : Disk) (ring : Ring) (entries : List RetiredAnchor) :
    Prop where
  names : (entries.map RetiredAnchor.file).Nodup
  stamped : ∀ entry ∈ entries, ∃ ts, entry.file = .retired ts
  sound : ∀ entry ∈ entries, ∃ key, disk entry.file = some (.publicPem (ed.publicKey key)) ∧
    ⟨key, entry.expiresAt⟩ ∈ ring.retired
  complete : ∀ old ∈ ring.retired,
    (∃ entry ∈ entries, entry.expiresAt = old.expiresAt ∧
      disk entry.file = some (.publicPem (ed.publicKey old.key))) ∨
    ∃ time ∈ ring.collections, old.expiresAt ≤ time

structure Tracks (ed : Ed25519) (s : System) (ring : Ring) : Prop where
  key : s.disk .currentKey = some (.privatePem ring.current)
  pub : s.disk .currentPub = some (.publicPem (ed.publicKey ring.current))
  listed : ∃ entries, s.disk .grace = some (.graceJson entries) ∧
    Listed ed s.disk ring entries ∧ ∀ backend ∈ s.running, backend = ⟨ring.current, entries⟩
  pinned : ∀ checkpoint ∈ s.checkpoints, ed.verifyWithPubkey checkpoint.message
    checkpoint.signature checkpoint.signingPubkey = true

variable {ed : Ed25519} {s t : System} {ring : Ring} {disk after : Disk} {r : Rotation}
  {entries old : List RetiredAnchor} {pub : Content} {name : FileName} {backend : FileBackend}

theorem Listed.mono (listed : Listed ed disk ring entries)
    (same : ∀ entry ∈ entries, after entry.file = disk entry.file) :
    Listed ed after ring entries where
  __ := listed
  sound entry member := by
    rw [same entry member]
    exact listed.sound entry member
  complete key member := by
    rcases listed.complete key member with ⟨entry, inside, expires, there⟩ | collected
    · exact .inl ⟨entry, inside, expires, (same entry inside).trans there⟩
    · exact .inr collected

theorem foldl_keyOps : (r.keyOps ed pub).foldl FileOp.apply disk =
    ((((disk.write (.retired r.ts) pub).write .currentKeyTmp (.privatePem r.newKey)).remove
      .currentKeyTmp).write .currentKey (.privatePem r.newKey)).write .currentPub
        (.publicPem (ed.publicKey r.newKey)) := rfl

theorem cut_early {cut : Cut} {rest : List (FileOp FileName Content)} (early : cut.done ≤ 2)
    (not_copy : name ≠ .retired r.ts) (not_tmp : name ≠ .currentKeyTmp) :
    FileOp.cut (r.keyOps ed pub ++ rest) cut.done cut.left disk name = disk name := by
  obtain ⟨done, left, ends⟩ := cut
  match done, early with
  | 0, _ =>
    cases left with
    | none => rfl
    | some content => exact Files.write_other not_copy
  | 1, _ =>
    cases left with
    | none => exact Files.write_other not_copy
    | some content => exact (Files.write_other not_tmp).trans (Files.write_other not_copy)
  | 2, _ => exact (Files.write_other not_tmp).trans (Files.write_other not_copy)

theorem ops_eq (read : disk .currentPub = some pub) (grace : disk .grace = some (.graceJson old))
    (range : InRange r.expires) : r.ops ed disk = (r.keyOps ed pub ++ r.graceOps old, true) := by
  have still : (r.keyOps ed pub).foldl FileOp.apply disk .grace = some (.graceJson old) := by
    rw [foldl_keyOps]
    exact grace
  simp only [Rotation.ops, read, still, if_pos range]

theorem foldl_graceOps (not_stale : ∀ entry ∈ r.stale old, name ≠ entry.file)
    (not_grace : name ≠ .grace) :
    (r.graceOps old).foldl FileOp.apply disk name = disk name := by
  refine FileOp.foldl_other fun op member => ?_
  rcases List.mem_append.mp member with removes | writes
  · obtain ⟨entry, inside, rfl⟩ := List.mem_map.mp removes
    exact not_stale entry inside
  · obtain rfl := List.mem_singleton.mp writes
    exact not_grace

theorem foldl_graceOps_grace :
    (r.graceOps old).foldl FileOp.apply disk .grace = some (.graceJson (r.kept old)) := by
  rw [Rotation.graceOps, List.foldl_append, List.foldl_cons, List.foldl_nil, FileOp.apply,
    Files.write_self]

theorem foldl_keyOps_copy :
    (r.keyOps ed pub).foldl FileOp.apply disk (.retired r.ts) = some pub := by
  rw [foldl_keyOps]
  exact Files.write_self

theorem foldl_keyOps_listed (listed : Listed ed disk ring entries)
    (fresh : ∀ entry ∈ entries, entry.file ≠ .retired r.ts) {entry : RetiredAnchor}
    (member : entry ∈ entries) :
    (r.keyOps ed pub).foldl FileOp.apply disk entry.file = disk entry.file := by
  obtain ⟨ts, stamp⟩ := listed.stamped entry member
  have apart : entry.file ≠ .retired r.ts := fresh entry member
  rw [foldl_keyOps, stamp]
  rw [stamp] at apart
  exact Files.write_other apart

theorem Listed.appended (listed : Listed ed disk ring entries)
    (fresh : ∀ entry ∈ entries, entry.file ≠ .retired r.ts) :
    Listed ed ((r.keyOps ed (.publicPem (ed.publicKey ring.current))).foldl FileOp.apply disk)
      (ring.rotated r) (r.appended entries) where
  names := by
    rw [Rotation.appended, List.map_append, List.nodup_append]
    refine ⟨listed.names, List.pairwise_singleton .., ?_⟩
    intro file inside other last same
    obtain ⟨entry, member, rfl⟩ := List.mem_map.mp inside
    exact fresh entry member (same.trans (List.mem_singleton.mp last))
  stamped entry member := by
    rcases List.mem_append.mp member with before | last
    · exact listed.stamped entry before
    · exact ⟨r.ts, congrArg RetiredAnchor.file (List.mem_singleton.mp last)⟩
  sound entry member := by
    rcases List.mem_append.mp member with before | last
    · obtain ⟨key, there, retired⟩ := listed.sound entry before
      exact ⟨key, (foldl_keyOps_listed listed fresh before).trans there,
        List.mem_append_left _ retired⟩
    · obtain rfl := List.mem_singleton.mp last
      exact ⟨ring.current, foldl_keyOps_copy, List.mem_append_right _ (List.mem_singleton.mpr rfl)⟩
  complete key member := by
    rcases List.mem_append.mp member with before | last
    · rcases listed.complete key before with ⟨entry, inside, expires, there⟩ | ⟨time, past, beyond⟩
      · exact .inl ⟨entry, List.mem_append_left _ inside, expires,
          (foldl_keyOps_listed listed fresh inside).trans there⟩
      · exact .inr ⟨time, List.mem_append_left _ past, beyond⟩
    · obtain rfl := List.mem_singleton.mp last
      exact .inl ⟨_, List.mem_append_right _ (List.mem_singleton.mpr rfl), rfl,
        foldl_keyOps_copy⟩

theorem Listed.collected (listed : Listed ed disk ring (r.appended old))
    (reading : r.gcNow ∈ ring.collections) :
    Listed ed ((r.graceOps old).foldl FileOp.apply disk) ring (r.kept old) := by
  have unstale : ∀ entry ∈ r.kept old, ∀ gone ∈ r.stale old, entry.file ≠ gone.file := by
    intro entry member gone expired same
    obtain ⟨inside, live⟩ := List.mem_filter.mp member
    obtain ⟨insideToo, beyond⟩ := List.mem_filter.mp expired
    obtain rfl := key_injective listed.names inside insideToo same
    simp [of_decide_eq_true live] at beyond
  have still : ∀ entry ∈ r.kept old,
      (r.graceOps old).foldl FileOp.apply disk entry.file = disk entry.file := by
    intro entry member
    obtain ⟨ts, stamp⟩ := listed.stamped entry (List.mem_filter.mp member).1
    exact foldl_graceOps (unstale entry member) (by rw [stamp]; exact FileName.noConfusion)
  constructor
  case names => exact listed.names.sublist (List.filter_sublist.map _)
  case stamped => exact fun entry member => listed.stamped entry (List.mem_filter.mp member).1
  case sound =>
    intro entry member
    rw [still entry member]
    exact listed.sound entry (List.mem_filter.mp member).1
  case complete =>
    intro key member
    rcases listed.complete key member with ⟨entry, inside, expires, there⟩ | collected
    · by_cases live : r.gcNow < entry.expiresAt
      · have kept : entry ∈ r.kept old := List.mem_filter.mpr ⟨inside, decide_eq_true live⟩
        exact .inl ⟨entry, kept, expires, (still entry kept).trans there⟩
      · exact .inr ⟨r.gcNow, reading, by omega⟩
    · exact .inr collected

theorem load_eq {key : Bytes} (there : disk .currentKey = some (.privatePem key))
    (grace : disk .grace = some (.graceJson entries)) :
    FileBackend.load disk = some ⟨key, entries⟩ := by
  simp only [FileBackend.load, loadPrivate, loadRetired, there, grace]

theorem reload_eq {key : Bytes} (there : disk .currentKey = some (.privatePem key))
    (grace : disk .grace = some (.graceJson entries)) :
    backend.reload disk = ⟨key, entries⟩ := by
  simp only [FileBackend.reload, loadPrivate, loadRetired, there, grace]

theorem foldl_ops {files : Disk} (r : Rotation) (listed : Listed ed disk ring entries)
    (fresh : ∀ entry ∈ entries, entry.file ≠ .retired r.ts)
    (made : (r.keyOps ed (.publicPem (ed.publicKey ring.current)) ++ r.graceOps entries).foldl
      FileOp.apply disk = files) :
    files .currentKey = some (.privatePem r.newKey) ∧
      files .currentPub = some (.publicPem (ed.publicKey r.newKey)) ∧
      files .grace = some (.graceJson (r.kept entries)) ∧
      Listed ed files (ring.rotated r) (r.kept entries) := by
  rw [List.foldl_append] at made
  have appended := listed.appended fresh
  have named : ∀ name, (∀ ts, name ≠ .retired ts) → name ≠ .grace →
      files name = (r.keyOps ed (.publicPem (ed.publicKey ring.current))).foldl FileOp.apply
        disk name := by
    intro name unstamped not_grace
    rw [← made]
    refine foldl_graceOps (fun entry member same => ?_) not_grace
    obtain ⟨ts, stamp⟩ := appended.stamped entry (List.mem_filter.mp member).1
    exact unstamped ts (same.trans stamp)
  refine ⟨?_, ?_, ?_, ?_⟩
  · rw [named .currentKey (fun _ => FileName.noConfusion) FileName.noConfusion]
    rfl
  · rw [named .currentPub (fun _ => FileName.noConfusion) FileName.noConfusion]
    rfl
  · rw [← made]
    exact foldl_graceOps_grace
  · rw [← made]
    exact appended.collected (List.mem_append_right _ (List.mem_singleton.mpr rfl))

namespace Tracks

variable (tracks : Tracks ed s ring)
include tracks

theorem rotated {running : Option FileBackend}
    (fresh : ∀ old, s.disk .grace = some (.graceJson old) →
      ∀ entry ∈ old, entry.file ≠ .retired r.ts) (range : InRange r.expires)
    (made : (r.ops ed s.disk).1.foldl FileOp.apply s.disk = disk)
    (held : ∀ backend ∈ running, ∃ old : FileBackend, backend = old.reload disk) :
    (r.ops ed s.disk).2 = true ∧
      Tracks ed { s with disk := disk, running := running } (ring.rotated r) := by
  obtain ⟨entries, grace, listed, _⟩ := tracks.listed
  rw [ops_eq tracks.pub grace range] at made ⊢
  obtain ⟨key, pub, after, relisted⟩ := foldl_ops r listed (fresh entries grace) made
  refine ⟨rfl, key, pub, ⟨_, after, relisted, ?_⟩, tracks.pinned⟩
  intro backend member
  obtain ⟨old, rfl⟩ := held backend member
  exact reload_eq key after

theorem cut_short {cut : Cut} {running : Option FileBackend}
    (fresh : ∀ old, s.disk .grace = some (.graceJson old) →
      ∀ entry ∈ old, entry.file ≠ .retired r.ts) (early : cut.done ≤ 2)
    (held : ∀ backend ∈ running, backend ∈ s.running) : Tracks ed { s with
      disk := FileOp.cut (r.ops ed s.disk).1 cut.done cut.left s.disk
      running := running } ring := by
  obtain ⟨entries, grace, listed, memory⟩ := tracks.listed
  have ops : ∃ rest, (r.ops ed s.disk).1 =
      r.keyOps ed (.publicPem (ed.publicKey ring.current)) ++ rest := by
    simp only [Rotation.ops, tracks.pub]
    split
    · split
      · exact ⟨_, rfl⟩
      · exact ⟨[], (List.append_nil _).symm⟩
    · exact ⟨[], (List.append_nil _).symm⟩
  obtain ⟨rest, shape⟩ := ops
  have still : ∀ name, name ≠ .retired r.ts → name ≠ .currentKeyTmp →
      FileOp.cut (r.ops ed s.disk).1 cut.done cut.left s.disk name = s.disk name := by
    intro name not_copy not_tmp
    rw [shape]
    exact cut_early early not_copy not_tmp
  refine ⟨(still _ FileName.noConfusion FileName.noConfusion).trans tracks.key,
    (still _ FileName.noConfusion FileName.noConfusion).trans tracks.pub,
    ⟨entries, (still _ FileName.noConfusion FileName.noConfusion).trans grace,
      listed.mono ?_, fun backend member => memory backend (held backend member)⟩, tracks.pinned⟩
  intro entry member
  obtain ⟨ts, stamp⟩ := listed.stamped entry member
  exact still _ (fresh entries grace entry member) (by rw [stamp]; exact FileName.noConfusion)

theorem reloads (member : backend ∈ s.running) : backend.reload s.disk = backend := by
  obtain ⟨entries, grace, _, memory⟩ := tracks.listed
  rw [reload_eq tracks.key grace, memory backend member]

theorem step {event : Step} (careful : Careful ed s event) (stepped : s.step ed event = some t) :
    Tracks ed t (ring.after event) := by
  cases event with
  | rotate r cut =>
    obtain ⟨backend, running, rfl⟩ := Option.map_eq_some_iff.mp stepped
    obtain ⟨fresh, whole⟩ := careful
    cases cut with
    | none =>
      have done := (@rotated _ _ _ _ _ tracks none fresh whole rfl (by rintro _ ⟨⟩)).1
      rw [System.rotate, done, if_pos rfl]
      refine (tracks.rotated fresh whole rfl ?_).2
      rintro _ ⟨⟩
      exact ⟨backend, rfl⟩
    | some cut =>
      by_cases early : cut.done ≤ 2
      · rw [Ring.after, if_pos early]
        refine tracks.cut_short fresh early fun other member => ?_
        split at member
        · cases member
        · exact running.trans member
      · obtain ⟨range, ends, all⟩ := whole.resolve_left early
        rw [Ring.after, if_neg early, System.rotate, if_pos ends, FileOp.cut_all all]
        exact (tracks.rotated fresh range rfl (by rintro _ ⟨⟩)).2
  | reload =>
    obtain ⟨backend, running, rfl⟩ := Option.map_eq_some_iff.mp stepped
    rw [tracks.reloads running, ← running]
    exact tracks
  | crash =>
    cases stepped
    obtain ⟨entries, grace, listed, _⟩ := tracks.listed
    exact ⟨tracks.key, tracks.pub, ⟨entries, grace, listed, by rintro _ ⟨⟩⟩, tracks.pinned⟩
  | start =>
    obtain ⟨entries, grace, listed, _⟩ := tracks.listed
    simp only [System.step] at stepped
    split at stepped
    · cases stepped
      refine ⟨tracks.key, tracks.pub, ⟨entries, grace, listed, ?_⟩, tracks.pinned⟩
      intro backend member
      exact Option.some.inj (member.symm.trans (load_eq tracks.key grace))
    · cases stepped
  | checkpoint message =>
    obtain ⟨backend, running, signed⟩ := Option.bind_eq_some_iff.mp stepped
    rw [tracks.pub] at signed
    cases signed
    obtain ⟨entries, grace, listed, memory⟩ := tracks.listed
    refine ⟨tracks.key, tracks.pub, ⟨entries, grace, listed, memory⟩, ?_⟩
    intro checkpoint member
    rcases List.mem_append.mp member with before | last
    · exact tracks.pinned checkpoint before
    · obtain rfl := List.mem_singleton.mp last
      rw [memory backend running]
      exact ed.verify_sign ring.current message

theorem verifies (member : backend ∈ s.running) {now : Int} (reached : ring.Reached now)
    (data sig : Bytes) : ∃ accepted, ed.verifies backend s.disk now data sig = some accepted ∧
      (accepted = true ↔ ring.Accepts ed now data sig) := by
  obtain ⟨entries, grace, listed, memory⟩ := tracks.listed
  obtain rfl := memory backend member
  refine ⟨_, by rw [Ed25519.verifies, FileBackend.trustAnchors, tracks.pub]; rfl, ?_⟩
  simp only [List.any_cons, Bool.or_eq_true, Ring.Accepts, List.any_eq_true]
  refine or_congr Iff.rfl ?_
  constructor
  · rintro ⟨anchor, trusted, verified⟩
    obtain ⟨entry, live, there⟩ := List.mem_filterMap.mp trusted
    obtain ⟨inside, unexpired⟩ := List.mem_filter.mp live
    obtain ⟨key, holds, retired⟩ := listed.sound entry inside
    obtain rfl := Option.some.inj (holds.symm.trans there)
    exact ⟨_, retired, of_decide_eq_true unexpired, verified⟩
  · rintro ⟨old, retired, unexpired, verified⟩
    rcases listed.complete old retired with ⟨entry, inside, expires, there⟩ | ⟨time, past, beyond⟩
    · have live : now < entry.expiresAt := expires.symm ▸ unexpired
      exact ⟨_, List.mem_filterMap.mpr ⟨entry,
        List.mem_filter.mpr ⟨inside, decide_eq_true live⟩, there⟩, verified⟩
    · have behind := reached time past
      omega

theorem verifiable : Verifiable ed s ring := by
  obtain ⟨entries, grace, listed, memory⟩ := tracks.listed
  constructor
  case key => exact tracks.key
  case pub => exact tracks.pub
  case signs => exact fun backend member => by rw [memory backend member]
  case starts => exact ⟨_, load_eq tracks.key grace, rfl⟩
  case kept =>
    intro old member now reached live
    rcases listed.complete old member with ⟨entry, inside, _, there⟩ | ⟨time, past, beyond⟩
    · obtain ⟨ts, stamp⟩ := listed.stamped entry inside
      exact ⟨ts, stamp ▸ there⟩
    · exact absurd (reached time past) (by omega)
  case accepts => exact fun backend member now reached => tracks.verifies member reached
  case pinned => exact tracks.pinned

end Tracks

theorem tracks_bootstrap (ed : Ed25519) (key : Bytes) :
    Tracks ed (.bootstrap ed key) (.bootstrap key) := by
  refine ⟨rfl, rfl, ⟨[], rfl, ⟨List.nodup_nil, ?_, ?_, ?_⟩, ?_⟩, List.forall_mem_nil _⟩
  · exact List.forall_mem_nil _
  · exact List.forall_mem_nil _
  · exact List.forall_mem_nil _
  · rintro _ ⟨⟩
    rfl

/-- After careful rotations, reloads, crashes and starts the key pair, the trust anchors and the
checkpoints are those that the keys which have signed call for. -/
theorem verifiable_when_careful {key : Bytes} {events : List Step}
    (reached : run (System.step ed) (.bootstrap ed key) events = some s)
    (careful : Meets (System.step ed) (Careful ed) (.bootstrap ed key) events) :
    Verifiable ed s (events.foldl Ring.after (.bootstrap key)) :=
  (run_tracks (fun _ _ _ _ tracks => tracks.step) (tracks_bootstrap ed key) reached
    careful).verifiable

/-- Signatures that repeat the key and the message, for runs that are evaluated. -/
def Ed25519.echo : Ed25519 where
  publicKey := id
  sign := fun key data => key ++ data
  verify := fun key data sig => decide (sig = key ++ data)
  verify_sign := fun _ _ => decide_eq_true rfl

theorem rotation_stays_verifiable : ∃ s,
    run (System.step .echo) (.bootstrap .echo [0])
      [.checkpoint [7], .rotate ⟨10, [1], 100, 11, 12⟩ none,
        .rotate ⟨70, [2], 100, 71, 72⟩ (some ⟨1, none, true⟩), .start] = some s ∧
    Verifiable .echo s ⟨[1], [⟨[0], 111⟩], [12]⟩ := by
  refine ⟨_, rfl, @verifiable_when_careful .echo _ [0]
    [.checkpoint [7], .rotate ⟨10, [1], 100, 11, 12⟩ none,
      .rotate ⟨70, [2], 100, 71, 72⟩ (some ⟨1, none, true⟩), .start] rfl ?_⟩
  refine ⟨trivial, fun first signed => ?_⟩
  cases signed
  refine ⟨⟨fun old grace => ?_, by decide⟩, fun second rotated => ?_⟩
  · obtain rfl : [] = old := Content.graceJson.inj (Option.some.inj grace)
    exact List.forall_mem_nil _
  cases rotated
  refine ⟨⟨fun old grace => ?_, .inl (by decide)⟩, fun _ _ => ⟨trivial, fun _ _ => trivial⟩⟩
  obtain rfl : [⟨.retired 10, 111⟩] = old := Content.graceJson.inj (Option.some.inj grace)
  decide

/-- A crash between the key and its public key leaves a process that rejects its own signatures
and pins a key that is not its own, and of two rotations in one microsecond the second one writes
over the key that the first one has retired. -/
theorem rotations_lose_keys :
    (∃ s backend, run (System.step .echo) (.bootstrap .echo [0])
        [.rotate ⟨10, [1], 100, 11, 12⟩ (some ⟨3, none, true⟩), .start, .checkpoint [7]] = some s ∧
      s.running = some backend ∧ backend.current = [1] ∧
      s.disk .currentPub = some (.publicPem [0]) ∧
      Ed25519.echo.verifies backend s.disk 20 [7] (Ed25519.echo.sign [1] [7]) = some false ∧
      ∃ checkpoint ∈ s.checkpoints, Ed25519.echo.verifyWithPubkey checkpoint.message
        checkpoint.signature checkpoint.signingPubkey = false) ∧
    ∃ s backend, run (System.step .echo) (.bootstrap .echo [0])
        [.rotate ⟨10, [1], 100, 10, 10⟩ none, .rotate ⟨10, [2], 100, 10, 10⟩ none] = some s ∧
      s.running = some backend ∧ s.disk (.retired 10) = some (.publicPem [1]) ∧
      Ed25519.echo.verifies backend s.disk 20 [7] (Ed25519.echo.sign [0] [7]) = some false ∧
      Ring.Accepts .echo ⟨[2], [⟨[0], 110⟩, ⟨[1], 110⟩], [10, 10]⟩ 20 [7]
        (Ed25519.echo.sign [0] [7]) := by
  refine ⟨⟨_, _, rfl, rfl, rfl, rfl, rfl, _, List.mem_singleton.mpr rfl, rfl⟩,
    _, _, rfl, rfl, rfl, rfl, .inr ⟨⟨[0], 110⟩, List.mem_cons_self, by decide, rfl⟩⟩

end HlHelper.Signing
