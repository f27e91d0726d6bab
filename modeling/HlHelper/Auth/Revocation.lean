import HlHelper.Auth.Sessions
import HlHelper.Library.Slots

/-! When the revocation of a session is final: no lookup may write to the cache what it read
before a revocation of the session that has purged the cache since. -/

namespace HlHelper.Auth

open HlHelper.Library

variable {service : Service}

/-- What one step does to the table, the cache and the calls. -/
inductive Happens (service : Service) (s : Sessions) : Step → Sessions → Prop where
  | opens {kind phase} :
      phase = .selecting ∨ phase = .committing ∧ ¬ kind.Revocation ∧ ¬ kind.Lookup →
      Happens service s (.start kind) (s.push (s.fresh kind phase))
  | denies {token request cache} :
      cache = s.cache ∨ cache = s.cache.erase (service.hashToken token) →
      Happens service s (.start (.lookup token request))
        ({ s with cache := cache }.push (s.fresh (.lookup token request) .returned))
  | hits {token request session expiry} :
      s.cache.get? (service.hashToken token) = some (session, expiry) →
      service.admits session s.now request = true →
      Happens service s (.start (.lookup token request))
        (s.push { s.fresh (.lookup token request) .updating with row := some session })
  | inserts {index call userId mfaLevel request token sessionId} : s.calls[index]? = some call →
      call.kind = .issue userId mfaLevel request token sessionId → call.phase = .committing →
      (∀ row ∈ s.rows, row.id ≠ sessionId ∧ row.tokenHash ≠ service.hashToken token) →
      Happens service s (.effect index)
        { s.moved index { call with phase := .committed } with
          rows := s.rows ++
            [service.issued call.now s.now userId mfaLevel request token sessionId] }
  | selects {index call token request} : s.calls[index]? = some call →
      call.kind = .lookup token request → call.phase = .selecting →
      Happens service s (.effect index)
        (s.moved index
          { call with
            phase := .selected
            row := s.rows.find? (fun row => row.tokenHash = service.hashToken token) })
  | touches {index call token request} : s.calls[index]? = some call →
      call.kind = .lookup token request → call.phase = .updating →
      Happens service s (.effect index)
        { s.moved index { call with phase := .updated, touched := true } with
          rows := s.rows.map (fun row =>
            if call.row.any (fun used => used.id = row.id) then
              { row with lastUsedAt := some call.now }
            else row) }
  | finds {index call found} : s.calls[index]? = some call →
      (∀ row ∈ s.rows, call.kind.Revokes row → row.id ∈ found) →
      (∀ id ∈ found, ∃ row ∈ s.rows, call.kind.Revokes row ∧ row.id = id) →
      call.phase = .selecting → call.kind.Revocation →
      Happens service s (.effect index)
        (s.moved index { call with phase := .selected, found := found })
  | revokes {index call} : s.calls[index]? = some call → call.phase = .committing →
      call.kind.Revocation →
      Happens service s (.effect index)
        { s.moved index { call with phase := .committed } with
          rows := s.rows.map (fun row =>
            if row.id ∈ call.found then { row with revokedAt := some call.now } else row) }
  | checks {index call token request session} : s.calls[index]? = some call →
      call.kind = .lookup token request → call.phase = .selected → call.row = some session →
      service.admits session call.now request = true →
      Happens service s (.resume index) (s.moved index { call with phase := .updating })
  | fills {index call token request session} : s.calls[index]? = some call →
      call.kind = .lookup token request → call.phase = .updated → call.row = some session →
      Happens service s (.resume index)
        { s.moved index
            { call with
              phase := .returned
              result := some { session with lastUsedAt := some call.now } } with
          cache := (s.cache.erase (service.hashToken token)).insert (service.hashToken token)
            ({ session with lastUsedAt := some call.now }, s.now + service.cacheTtl) }
  | purges {index call phase cache} : s.calls[index]? = some call →
      call.phase = .selected ∧ call.found = [] ∨ call.phase = .committed →
      phase = .publishing ∨ phase = .returned →
      (∃ sessionId, call.kind = .revoke sessionId ∧ cache = purgeSession s.cache sessionId) ∨
        (∃ userId, call.kind = .revokeUser userId ∧ cache = purgeUser s.cache userId) →
      Happens service s (.resume index)
        { s.moved index { call with phase := phase } with cache := cache }
  | relabels {step index call phase} :
      step = .effect index ∨ step = .resume index ∨ step = .fail index →
      s.calls[index]? = some call → call.phase ≠ .returned → phase = .failed ∨
        phase = .committing ∧ call.phase = .selected ∧ call.kind.Revocation ∨
        phase = .returned ∧ (call.phase = .publishing ∨ ¬ call.kind.Revocation) →
      Happens service s step (s.moved index { call with phase := phase })
  | ticks {elapsed} : Happens service s (.tick elapsed)
      { s with now := s.now + elapsed, cache := dropExpired s.cache (s.now + elapsed) }
  | evicts {key} : Happens service s (.evict key) { s with cache := s.cache.erase key }

variable {s t : Sessions} {index : Nat} {call : Call} {step : Step}

theorem happens_start (s : Sessions) (kind : Kind) :
    Happens service s (.start kind) (s.start service kind) := by
  cases kind with
  | issue userId mfaLevel request token sessionId => exact .opens (.inr ⟨rfl, nofun, nofun⟩)
  | lookup token request =>
    simp only [Sessions.start]
    cases held : s.cache.get? (service.hashToken token) with
    | none => exact .opens (.inl rfl)
    | some entry =>
      obtain ⟨session, expiry⟩ := entry
      by_cases admitted : service.admits session s.now request = true
      · simp only [admitted, if_true]
        exact .hits held admitted
      · simp only [admitted]
        by_cases dropped : service.drops session s.now = true
        · simp only [dropped, if_true]
          exact .denies (.inr rfl)
        · simp only [dropped]
          exact .denies (.inl rfl)
  | revoke sessionId => exact .opens (.inl rfl)
  | revokeUser userId => exact .opens (.inl rfl)

theorem happens_effect (turn : s.calls[index]? = some call)
    (stepped : s.effect service index call = some t) :
    Happens service s (.effect index) t := by
  unfold Sessions.effect at stepped
  split at stepped
  · next kind phase =>
    split at stepped
    · cases stepped
      exact .relabels (.inl rfl) turn (phase ▸ nofun) (.inl rfl)
    · next absent =>
      cases stepped
      refine .inserts turn kind phase (fun row member => ?_)
      have other := List.any_eq_false.mp (Bool.not_eq_true _ ▸ absent) row member
      simpa [not_or] using other
  · next kind phase =>
    cases stepped
    exact .selects turn kind phase
  · next kind phase =>
    cases stepped
    exact .touches turn kind phase
  · next sessionId kind phase =>
    cases stepped
    refine .finds turn ?_ ?_ phase (kind ▸ trivial)
    · intro row member revokes
      rw [kind] at revokes
      have same : row.id = sessionId := revokes
      cases located : s.rows.find? (fun row => row.id = sessionId) with
      | none =>
        have missing := List.find?_eq_none.mp located row member
        simp [same] at missing
      | some other =>
        have other_id : other.id = sessionId := by simpa using List.find?_some located
        simp [other_id, same]
    · intro id member
      cases located : s.rows.find? (fun row => row.id = sessionId) with
      | none => simp [located] at member
      | some other =>
        have other_id : other.id = sessionId := by simpa using List.find?_some located
        rw [located, Option.map_some, Option.toList_some, List.mem_singleton] at member
        exact ⟨other, List.mem_of_find?_eq_some located, kind ▸ other_id, member.symm⟩
  · next userId kind phase =>
    cases stepped
    refine .finds turn ?_ ?_ phase (kind ▸ trivial)
    · intro row member revokes
      rw [kind] at revokes
      exact List.mem_map_of_mem (List.mem_filter.mpr ⟨member, decide_eq_true revokes⟩)
    · intro id member
      obtain ⟨row, inside, rfl⟩ := List.mem_map.mp member
      obtain ⟨here, owned⟩ := List.mem_filter.mp inside
      exact ⟨row, here, kind ▸ of_decide_eq_true owned, rfl⟩
  · next kind phase =>
    cases stepped
    exact .revokes turn phase (kind ▸ trivial)
  · next kind phase =>
    cases stepped
    exact .revokes turn phase (kind ▸ trivial)
  · exact absurd stepped (by simp)

theorem happens_resume (turn : s.calls[index]? = some call)
    (stepped : s.resume service index call = some t) :
    Happens service s (.resume index) t := by
  have resumed : Step.resume index = .effect index ∨ Step.resume index = .resume index ∨
      Step.resume index = .fail index := .inr (.inl rfl)
  unfold Sessions.resume at stepped
  split at stepped
  · next kind phase =>
    cases stepped
    exact .relabels resumed turn (phase ▸ nofun) (.inr (.inr ⟨rfl, .inr (kind ▸ nofun)⟩))
  · next kind phase =>
    split at stepped
    · next admitted =>
      obtain ⟨session, row, admitted⟩ := (Option.any_eq_true _ _).mp admitted
      cases stepped
      exact .checks turn kind phase row admitted
    · cases stepped
      exact .relabels resumed turn (phase ▸ nofun) (.inr (.inr ⟨rfl, .inr (kind ▸ nofun)⟩))
  · next kind phase =>
    split at stepped
    · exact absurd stepped (by simp)
    · next session held =>
      cases stepped
      exact .fills turn kind phase held
  · next sessionId kind phase =>
    split at stepped
    · next nothing =>
      cases stepped
      exact .purges turn (.inl ⟨phase, List.isEmpty_iff.mp nothing⟩) (.inl rfl)
        (.inl ⟨sessionId, kind, rfl⟩)
    · cases stepped
      exact .relabels resumed turn (phase ▸ nofun) (.inr (.inl ⟨rfl, phase, kind ▸ trivial⟩))
  · next sessionId kind phase =>
    cases stepped
    exact .purges turn (.inr phase) (.inl rfl) (.inl ⟨sessionId, kind, rfl⟩)
  · next kind phase =>
    cases stepped
    exact .relabels resumed turn (phase ▸ nofun) (.inr (.inr ⟨rfl, .inl phase⟩))
  · next kind phase =>
    cases stepped
    exact .relabels resumed turn (phase ▸ nofun) (.inr (.inl ⟨rfl, phase, kind ▸ trivial⟩))
  · next userId kind phase =>
    cases stepped
    exact .purges turn (.inr phase) (.inr rfl) (.inr ⟨userId, kind, rfl⟩)
  · exact absurd stepped (by simp)

theorem happens_of_step (stepped : s.step service step = some t) :
    Happens service s step t := by
  cases step with
  | start kind =>
    cases stepped
    exact happens_start s kind
  | effect index =>
    obtain ⟨call, turn, moved⟩ := Option.bind_eq_some_iff.mp stepped
    exact happens_effect turn moved
  | resume index =>
    obtain ⟨call, turn, moved⟩ := Option.bind_eq_some_iff.mp stepped
    exact happens_resume turn moved
  | fail index =>
    obtain ⟨call, turn, moved⟩ := Option.bind_eq_some_iff.mp stepped
    unfold Sessions.fail at moved
    split at moved
    · exact absurd moved (by simp)
    · next running =>
      cases moved
      exact .relabels (.inr (.inr rfl)) turn (not_or.mp running).1 (.inl rfl)
  | tick elapsed =>
    cases stepped
    exact .ticks
  | evict key =>
    cases stepped
    exact .evicts

/-- Two states of one session: only its last use and its revocation differ. -/
def Same (row other : Session) : Prop :=
  other = { row with lastUsedAt := other.lastUsedAt, revokedAt := other.revokedAt }

namespace Same

variable {row other third : Session}

theorem refl (row : Session) : Same row row := rfl

theorem id_eq (same : Same row other) : other.id = row.id := by rw [same]

theorem userId_eq (same : Same row other) : other.userId = row.userId := by rw [same]

theorem tokenHash_eq (same : Same row other) : other.tokenHash = row.tokenHash := by rw [same]

theorem trans (first : Same row other) (second : Same other third) : Same row third := by
  rw [Same, second, first]

theorem revokes (same : Same row other) (kind : Kind) : kind.Revokes other ↔ kind.Revokes row := by
  cases kind with
  | revoke sessionId => simp only [Kind.Revokes, same.id_eq]
  | revokeUser userId => simp only [Kind.Revokes, same.userId_eq]
  | _ => exact Iff.rfl

end Same

def Follows (old new : Session) : Prop :=
  Same old new ∧ (old.revokedAt ≠ none → new.revokedAt ≠ none)

/-- What any step leaves of the table: every row goes on, and a new row is another session. -/
structure Evolves (rows later : List Session) : Prop where
  forth : ∀ old ∈ rows, ∃ new ∈ later, Follows old new
  back : ∀ new ∈ later, (∃ old ∈ rows, Follows old new) ∨
    ∀ old ∈ rows, old.id ≠ new.id ∧ old.tokenHash ≠ new.tokenHash
  take : ∀ n ≤ rows.length, ∀ new ∈ later.take n, ∃ old ∈ rows.take n, Follows old new
  taken : ∀ n, ∀ old ∈ rows.take n, ∃ new ∈ later.take n, Follows old new
  length : rows.length ≤ later.length
  ids : (rows.map Session.id).Nodup → (later.map Session.id).Nodup
  hashes : (rows.map Session.tokenHash).Nodup → (later.map Session.tokenHash).Nodup

theorem evolves_map {rows : List Session} {f : Session → Session}
    (follows : ∀ row, Follows row (f row)) : Evolves rows (rows.map f) where
  forth old member := ⟨f old, List.mem_map_of_mem member, follows old⟩
  back new member := by
    obtain ⟨old, inside, rfl⟩ := List.mem_map.mp member
    exact .inl ⟨old, inside, follows old⟩
  take n _ new member := by
    rw [← List.map_take] at member
    obtain ⟨old, inside, rfl⟩ := List.mem_map.mp member
    exact ⟨old, inside, follows old⟩
  taken n old member := by
    rw [← List.map_take]
    exact ⟨f old, List.mem_map_of_mem member, follows old⟩
  length := Nat.le_of_eq (List.length_map f).symm
  ids nodup := by
    rw [List.map_map]
    exact (List.map_congr_left (fun row _ => (follows row).1.id_eq)) ▸ nodup
  hashes nodup := by
    rw [List.map_map]
    exact (List.map_congr_left (fun row _ => (follows row).1.tokenHash_eq)) ▸ nodup

theorem evolves_refl (rows : List Session) : Evolves rows rows := by
  have mapped : Evolves rows (rows.map id) :=
    evolves_map (fun row => ⟨Same.refl row, fun revoked => revoked⟩)
  rwa [List.map_id] at mapped

theorem evolves_append {rows : List Session} {new : Session}
    (fresh : ∀ row ∈ rows, row.id ≠ new.id ∧ row.tokenHash ≠ new.tokenHash) :
    Evolves rows (rows ++ [new]) where
  forth old member := ⟨old, List.mem_append_left _ member, Same.refl old, fun revoked => revoked⟩
  back later member := by
    rcases List.mem_append.mp member with old | single
    · exact .inl ⟨later, old, Same.refl later, fun revoked => revoked⟩
    · obtain rfl := List.mem_singleton.mp single
      exact .inr fresh
  take n short later member := by
    rw [List.take_append_of_le_length short] at member
    exact ⟨later, member, Same.refl later, fun revoked => revoked⟩
  taken n old member := by
    refine ⟨old, ?_, Same.refl old, fun revoked => revoked⟩
    rw [List.take_append]
    exact List.mem_append_left _ member
  length := by simp
  ids nodup := by
    rw [List.map_append, List.map_singleton]
    refine List.nodup_append.mpr ⟨nodup, List.nodup_singleton _, ?_⟩
    intro id member other single same
    obtain ⟨row, inside, rfl⟩ := List.mem_map.mp member
    exact (fresh row inside).1 (same.trans (List.mem_singleton.mp single))
  hashes nodup := by
    rw [List.map_append, List.map_singleton]
    refine List.nodup_append.mpr ⟨nodup, List.nodup_singleton _, ?_⟩
    intro hash member other single same
    obtain ⟨row, inside, rfl⟩ := List.mem_map.mp member
    exact (fresh row inside).2 (same.trans (List.mem_singleton.mp single))

theorem evolves_of_happens (happens : Happens service s step t) :
    Evolves s.rows t.rows := by
  cases happens with
  | inserts turn kind phase fresh => exact evolves_append fresh
  | @touches index call token request turn kind phase =>
    refine evolves_map (fun row => ?_)
    split
    · exact ⟨rfl, fun revoked => revoked⟩
    · exact ⟨Same.refl row, fun revoked => revoked⟩
  | @revokes index call turn phase kind =>
    refine evolves_map (fun row => ?_)
    split
    · exact ⟨rfl, fun _ => nofun⟩
    · exact ⟨Same.refl row, fun revoked => revoked⟩
  | _ => exact evolves_refl s.rows

structure CallOk (service : Service) (rows : List Session) (call : Call) : Prop where
  copy : ∀ row ∈ call.row, (∃ stored ∈ rows, Same stored row) ∧
    ∀ token request, call.kind = .lookup token request →
      row.tokenHash = service.hashToken token
  began : call.began ≤ rows.length
  found : call.phase ≠ .selecting → call.phase ≠ .failed →
    ∀ row ∈ rows.take call.began, call.kind.Revokes row → row.id ∈ call.found
  named : ∀ id ∈ call.found, ∃ row ∈ rows, call.kind.Revokes row ∧ row.id = id
  committed : call.kind.Revocation →
    call.phase = .committed ∨ call.phase = .publishing ∨ call.phase = .returned →
    ∀ row ∈ rows, row.id ∈ call.found → row.revokedAt ≠ none

theorem CallOk.evolved {rows later : List Session} (ok : CallOk service rows call)
    (evolves : Evolves rows later) : CallOk service later call where
  copy row member := by
    obtain ⟨⟨stored, inside, same⟩, token⟩ := ok.copy row member
    obtain ⟨new, here, follows⟩ := evolves.forth stored inside
    have back : Same new row := by rw [Same, same, follows.1]
    exact ⟨⟨new, here, back⟩, token⟩
  began := Nat.le_trans ok.began evolves.length
  found selecting failed row member revokes := by
    obtain ⟨old, inside, follows⟩ := evolves.take call.began ok.began row member
    rw [follows.1.id_eq]
    exact ok.found selecting failed old inside ((follows.1.revokes _).mp revokes)
  named id member := by
    obtain ⟨row, inside, revokes, same⟩ := ok.named id member
    obtain ⟨new, here, follows⟩ := evolves.forth row inside
    exact ⟨new, here, (follows.1.revokes _).mpr revokes, follows.1.id_eq.trans same⟩
  committed kind phase row member listed := by
    rcases evolves.back row member with ⟨old, inside, follows⟩ | fresh
    · rw [follows.1.id_eq] at listed
      exact follows.2 (ok.committed kind phase old inside listed)
    · obtain ⟨old, inside, _, same⟩ := ok.named row.id listed
      exact absurd same (fresh old inside).1

def Call.Purged (call : Call) : Prop :=
  call.kind.Revocation ∧ (call.phase = .publishing ∨ call.phase = .returned)

instance (call : Call) : Decidable call.Purged := inferInstanceAs (Decidable (_ ∧ _))

structure Sound (service : Service) (s : Sessions) : Prop where
  ids : (s.rows.map Session.id).Nodup
  hashes : (s.rows.map Session.tokenHash).Nodup
  calls : ∀ call ∈ s.calls, CallOk service s.rows call
  cached : ∀ entry ∈ s.cache.entries, entry.2.1.tokenHash = entry.1 ∧
    ∃ stored ∈ s.rows, Same stored entry.2.1
  purged : ∀ call ∈ s.calls, call.Purged → ∀ entry ∈ s.cache.entries,
    entry.2.1.id ∉ call.found

/-- The lookup goes on with a session that a revocation has purged since. -/
def Overtaken (s : Sessions) (call : Call) : Prop :=
  ∃ revocation ∈ s.calls, revocation.Purged ∧ ∃ row ∈ call.row, row.id ∈ revocation.found

instance (s : Sessions) (call : Call) : Decidable (Overtaken s call) :=
  inferInstanceAs (Decidable (∃ revocation ∈ s.calls, _))

/-- The step does not fill the cache with a session that has been purged. -/
def Careful (s : Sessions) : Step → Prop
  | .resume index => ∀ call ∈ s.calls[index]?, call.phase = .updated → ¬ Overtaken s call
  | _ => True

instance (s : Sessions) : ∀ step, Decidable (Careful s step)
  | .resume index => inferInstanceAs (Decidable (∀ call ∈ s.calls[index]?, _))
  | .start _ => .isTrue trivial
  | .effect _ => .isTrue trivial
  | .fail _ => .isTrue trivial
  | .tick _ => .isTrue trivial
  | .evict _ => .isTrue trivial

theorem Sound.next (sound : Sound service s) {new : Call} (evolves : Evolves s.rows t.rows)
    (calls : ∀ call ∈ t.calls, call ∈ s.calls ∨ call = new ∧ CallOk service t.rows new)
    (cached : ∀ entry ∈ t.cache.entries, entry ∈ s.cache.entries ∨
      entry.2.1.tokenHash = entry.1 ∧ ∃ stored ∈ t.rows, Same stored entry.2.1)
    (purged : ∀ call ∈ t.calls, call.Purged → ∀ entry ∈ t.cache.entries,
      call ∈ s.calls ∧ entry ∈ s.cache.entries ∨ entry.2.1.id ∉ call.found) :
    Sound service t where
  ids := evolves.ids sound.ids
  hashes := evolves.hashes sound.hashes
  calls call member := by
    rcases calls call member with old | ⟨rfl, ok⟩
    · exact (sound.calls call old).evolved evolves
    · exact ok
  cached entry member := by
    rcases cached entry member with old | new
    · obtain ⟨key, stored, inside, same⟩ := sound.cached entry old
      obtain ⟨later, here, follows⟩ := evolves.forth stored inside
      exact ⟨key, later, here, by rw [Same, same, follows.1]⟩
    · exact new
  purged call member was_purged entry held := by
    rcases purged call member was_purged entry held with ⟨old, before⟩ | gone
    · exact sound.purged call old was_purged entry before
    · exact gone

theorem not_mem_eraseP {α : Type*} {p : α → Bool} {members : List α} (distinct : members.Nodup)
    (one : ∀ first ∈ members, ∀ second ∈ members, p first = true → p second = true →
      first = second) {member : α} (kept : member ∈ members.eraseP p) : p member = false := by
  induction members with
  | nil => exact absurd kept List.not_mem_nil
  | cons first rest ih =>
    obtain ⟨fresh, distinct⟩ := List.nodup_cons.mp distinct
    by_cases found : p first = true
    · rw [List.eraseP_cons_of_pos found] at kept
      by_contra also
      rw [Bool.not_eq_false] at also
      obtain rfl := one first List.mem_cons_self member (List.mem_cons_of_mem _ kept) found also
      exact fresh kept
    · rw [List.eraseP_cons_of_neg found] at kept
      rcases List.mem_cons.mp kept with rfl | later
      · exact Bool.not_eq_true _ ▸ found
      · refine ih distinct (fun a here b there => ?_) later
        exact one a (List.mem_cons_of_mem _ here) b (List.mem_cons_of_mem _ there)

theorem Kind.Revokes.revocation {kind : Kind} {row : Session} (revokes : kind.Revokes row) :
    kind.Revocation := by
  cases kind with
  | revoke sessionId => trivial
  | revokeUser userId => trivial
  | _ => exact revokes.elim

theorem CallOk.phased {rows : List Session} (ok : CallOk service rows call) (phase : Phase)
    (found : call.kind.Revocation → phase ≠ .selecting → phase ≠ .failed →
      call.phase ≠ .selecting ∧ call.phase ≠ .failed) (committed : call.kind.Revocation →
      phase = .committed ∨ phase = .publishing ∨ phase = .returned →
      call.found = [] ∨ call.phase = .committed ∨ call.phase = .publishing ∨
        call.phase = .returned) : CallOk service rows { call with phase := phase } where
  __ := ok
  found selecting failed row member revokes := by
    obtain ⟨was_selected, was_running⟩ := found revokes.revocation selecting failed
    exact ok.found was_selected was_running row member revokes
  committed kind now row member listed := by
    rcases committed kind now with nothing | before
    · rw [nothing] at listed
      exact absurd listed List.not_mem_nil
    · exact ok.committed kind before row member listed

theorem CallOk.elsewhere {rows : List Session} (ok : CallOk service rows call)
    (other : ¬ call.kind.Revocation) (phase : Phase) :
    CallOk service rows { call with phase := phase } :=
  ok.phased phase (fun revocation => absurd revocation other)
    (fun revocation => absurd revocation other)

theorem fresh_ok {kind : Kind} {phase : Phase}
    (begins : kind.Revocation → phase = .selecting ∨ phase = .failed) :
    CallOk service s.rows (s.fresh kind phase) where
  copy _ member := absurd member nofun
  began := Nat.le_refl _
  found selecting failed row _ revokes := by
    rcases begins revokes.revocation with same | same
    · exact absurd same selecting
    · exact absurd same failed
  named _ member := absurd member List.not_mem_nil
  committed _ _ _ _ listed := absurd listed List.not_mem_nil

theorem mem_pushed {new : Call} (member : call ∈ (s.push new).calls) :
    call ∈ s.calls ∨ call = new := by
  rcases List.mem_append.mp member with old | single
  · exact .inl old
  · exact .inr (List.mem_singleton.mp single)

theorem Sound.one_entry (sound : Sound service s) {first second : Bytes × (Session × Int)}
    (here : first ∈ s.cache.entries) (there : second ∈ s.cache.entries)
    (same : first.2.1.id = second.2.1.id) : first = second := by
  obtain ⟨first_key, stored, inside, first_same⟩ := sound.cached first here
  obtain ⟨second_key, other, also, second_same⟩ := sound.cached second there
  have ids : stored.id = other.id := by
    rw [← first_same.id_eq, same, second_same.id_eq]
  obtain rfl := List.inj_on_of_nodup_map sound.ids inside also ids
  have keys : first.1 = second.1 := by
    rw [← first_key, ← second_key, first_same.tokenHash_eq, second_same.tokenHash_eq]
  exact List.inj_on_of_nodup_map s.cache.unique here there keys

variable {cache : OrderedMap Bytes (Session × Int)} {entry : Bytes × (Session × Int)}

theorem Sound.purge (sound : Sound service s) (member : call ∈ s.calls)
    (purge : (∃ sessionId, call.kind = .revoke sessionId ∧
        cache = purgeSession s.cache sessionId) ∨
      ∃ userId, call.kind = .revokeUser userId ∧ cache = purgeUser s.cache userId)
    (held : entry ∈ cache.entries) : entry ∈ s.cache.entries ∧ entry.2.1.id ∉ call.found := by
  have ok := sound.calls call member
  rcases purge with ⟨sessionId, kind, rfl⟩ | ⟨userId, kind, rfl⟩
  · have before : entry ∈ s.cache.entries := List.mem_of_mem_eraseP held
    refine ⟨before, fun listed => ?_⟩
    obtain ⟨row, inside, revokes, same⟩ := ok.named _ listed
    rw [kind] at revokes
    have distinct : s.cache.entries.Nodup := List.Nodup.of_map _ s.cache.unique
    have other := not_mem_eraseP distinct (fun first here second there one two =>
      sound.one_entry here there ((of_decide_eq_true one).trans (of_decide_eq_true two).symm)) held
    exact absurd (same.symm.trans revokes) (of_decide_eq_false other)
  · obtain ⟨before, kept⟩ := List.mem_filter.mp held
    refine ⟨before, fun listed => ?_⟩
    obtain ⟨row, inside, revokes, same⟩ := ok.named _ listed
    obtain ⟨_, stored, also, stored_same⟩ := sound.cached entry before
    obtain rfl := List.inj_on_of_nodup_map sound.ids inside also (same.trans stored_same.id_eq)
    rw [kind] at revokes
    exact of_decide_eq_true kept (stored_same.userId_eq.trans revokes)

theorem mem_dropExpired {now : Int} (held : entry ∈ (dropExpired cache now).entries) :
    entry ∈ cache.entries := List.mem_of_mem_filter held

theorem mem_erased {key : Bytes} (held : entry ∈ (cache.erase key).entries) :
    entry ∈ cache.entries := List.mem_of_mem_filter held

theorem Sound.plain (sound : Sound service s) {new : Call} (evolves : Evolves s.rows t.rows)
    (calls : ∀ call ∈ t.calls, call ∈ s.calls ∨ call = new) (ok : CallOk service t.rows new)
    (cache : ∀ entry ∈ t.cache.entries, entry ∈ s.cache.entries)
    (unpurged : new.Purged → ∃ call ∈ s.calls, call.Purged ∧ new.found = call.found) :
    Sound service t := by
  refine sound.next evolves (fun call member => (calls call member).imp_right
    (fun same => ⟨same, ok⟩)) (fun entry held => .inl (cache entry held)) ?_
  intro call member purged entry held
  rcases calls call member with old | rfl
  · exact .inl ⟨old, cache entry held⟩
  · obtain ⟨before, inside, was_purged, found⟩ := unpurged purged
    rw [found]
    exact .inr (sound.purged before inside was_purged entry (cache entry held))

theorem not_purged (running : call.phase ≠ .publishing ∧ call.phase ≠ .returned) :
    ¬ call.Purged := fun purged => purged.2.elim running.1 running.2

theorem Sound.turn (sound : Sound service s) {new : Call} (evolves : Evolves s.rows t.rows)
    (calls : t.calls = s.calls.set index new) (cache : t.cache = s.cache)
    (other : ¬ new.kind.Revocation) (ok : CallOk service t.rows new) :
    Sound service t := by
  refine sound.plain evolves (fun call member => ?_) ok (fun entry held => ?_)
    (fun purged => absurd purged.1 other)
  · exact List.mem_or_eq_of_mem_set (calls ▸ member)
  · exact cache ▸ held

variable {token : String} {request : Option RequestMeta}

section

variable (sound : Sound service s)
include sound

theorem Sound.hits {session : Session} {expiry : Int}
    (held : s.cache.get? (service.hashToken token) = some (session, expiry)) :
    Sound service
      (s.push { s.fresh (.lookup token request) .updating with row := some session }) := by
  obtain ⟨key, stored⟩ := sound.cached _ (OrderedMap.get?_eq_some_iff.mp held)
  have base : CallOk service s.rows (s.fresh (.lookup token request) .updating) :=
    fresh_ok nofun
  refine sound.plain (evolves_refl _) (fun _ => mem_pushed)
    ⟨fun row member => ?_, base.began, base.found, base.named, base.committed⟩
    (fun _ inside => inside) (fun purged => purged.1.elim)
  cases member
  refine ⟨stored, fun other _ same => ?_⟩
  rw [← (Kind.lookup.inj same).1]
  exact key

section

variable (turn : s.calls[index]? = some call)
include turn

theorem Sound.selects (kind : call.kind = .lookup token request) :
    Sound service (s.moved index { call with
      phase := .selected
      row := s.rows.find? (fun row => row.tokenHash = service.hashToken token) }) := by
  have other : ¬ call.kind.Revocation := kind ▸ nofun
  have ok := (sound.calls call (List.mem_of_getElem? turn)).elsewhere other .selected
  refine sound.turn (evolves_refl _) rfl rfl other { ok with copy := fun row found => ?_ }
  have located : s.rows.find? (fun row => row.tokenHash = service.hashToken token) =
      some row := found
  refine ⟨⟨row, List.mem_of_find?_eq_some located, Same.refl row⟩, fun used _ same => ?_⟩
  rw [← (Kind.lookup.inj (kind.symm.trans same)).1]
  simpa using List.find?_some located

theorem Sound.finds {found : List String}
    (all : ∀ row ∈ s.rows, call.kind.Revokes row → row.id ∈ found)
    (named : ∀ id ∈ found, ∃ row ∈ s.rows, call.kind.Revokes row ∧ row.id = id) :
    Sound service (s.moved index { call with phase := .selected, found := found }) := by
  have ok := sound.calls call (List.mem_of_getElem? turn)
  refine sound.plain (evolves_refl _) (fun _ => List.mem_or_eq_of_mem_set)
    ⟨ok.copy, ok.began, ?_, fun id member => ?_, ?_⟩ (fun _ held => held)
    (fun purged => absurd purged (not_purged ⟨nofun, nofun⟩))
  · exact fun _ _ row member revokes => all row (List.mem_of_mem_take member) revokes
  · obtain ⟨row, inside, revokes, same⟩ := named id member
    exact ⟨row, inside, revokes, same⟩
  · rintro _ (now | now | now) <;> cases now

theorem Sound.revokes (phase : call.phase = .committing)
    (evolves : Evolves s.rows (s.rows.map fun row =>
      if row.id ∈ call.found then { row with revokedAt := some call.now } else row)) :
    Sound service { s.moved index { call with phase := .committed } with
      rows := s.rows.map fun row =>
        if row.id ∈ call.found then { row with revokedAt := some call.now } else row } := by
  have ok := (sound.calls call (List.mem_of_getElem? turn)).evolved evolves
  refine sound.plain evolves (fun _ => List.mem_or_eq_of_mem_set)
    ⟨ok.copy, ok.began, fun _ _ => ?_, ok.named, fun _ _ row member listed => ?_⟩
    (fun _ held => held) (fun purged => absurd purged (not_purged ⟨nofun, nofun⟩))
  · exact ok.found (phase ▸ nofun) (phase ▸ nofun)
  · obtain ⟨old, inside, rfl⟩ := List.mem_map.mp member
    split at listed
    · next here =>
      rw [if_pos here]
      nofun
    · next absent => exact absurd listed absent

theorem Sound.fills {session : Session} (kind : call.kind = .lookup token request)
    (row : call.row = some session) (careful : ¬ Overtaken s call) :
    Sound service { s.moved index { call with
        phase := .returned
        result := some { session with lastUsedAt := some call.now } } with
      cache := (s.cache.erase (service.hashToken token)).insert (service.hashToken token)
        ({ session with lastUsedAt := some call.now }, s.now + service.cacheTtl) } := by
  have other : ¬ call.kind.Revocation := kind ▸ nofun
  have ok := sound.calls call (List.mem_of_getElem? turn)
  obtain ⟨⟨stored, inside, same⟩, used⟩ := ok.copy session row
  have key := used token request kind
  refine sound.next (evolves_refl _)
    (fun call' member => (List.mem_or_eq_of_mem_set member).imp_right fun eq => ⟨eq, ?_⟩) ?_ ?_
  · have moved := ok.elsewhere other .returned
    exact ⟨moved.copy, moved.began, moved.found, moved.named, moved.committed⟩
  · intro entry held
    rcases OrderedMap.mem_entries_insert held with ⟨old, _⟩ | rfl
    · exact .inl (mem_erased old)
    · exact .inr ⟨key, stored, inside, same.trans rfl⟩
  · intro revocation member purged entry held
    rcases List.mem_or_eq_of_mem_set member with old | rfl
    · rcases OrderedMap.mem_entries_insert held with ⟨before, _⟩ | rfl
      · exact .inl ⟨old, mem_erased before⟩
      · exact .inr fun listed => careful ⟨revocation, old, purged, session, row, listed⟩
    · exact absurd purged.1 other

theorem Sound.purges {after : Phase}
    (phase : call.phase = .selected ∧ call.found = [] ∨ call.phase = .committed)
    (kept : ∀ entry ∈ cache.entries, entry ∈ s.cache.entries ∧ entry.2.1.id ∉ call.found) :
    Sound service { s.moved index { call with phase := after } with cache := cache } := by
  have ok := sound.calls call (List.mem_of_getElem? turn)
  refine sound.next (evolves_refl _)
    (fun other inside => (List.mem_or_eq_of_mem_set inside).imp_right fun eq => ⟨eq, ?_⟩)
    (fun entry held => .inl (kept entry held).1) ?_
  · refine ok.phased _ (fun _ _ _ => ?_) (fun _ _ => ?_)
    · rcases phase with ⟨selected, -⟩ | committed
      · exact ⟨selected ▸ nofun, selected ▸ nofun⟩
      · exact ⟨committed ▸ nofun, committed ▸ nofun⟩
    · rcases phase with ⟨-, nothing⟩ | committed
      · exact .inl nothing
      · exact .inr (.inl committed)
  · intro other inside purged entry held
    rcases List.mem_or_eq_of_mem_set inside with old | rfl
    · exact .inl ⟨old, (kept entry held).1⟩
    · exact .inr (kept entry held).2

theorem Sound.relabels {phase : Phase} (change : phase = .failed ∨
      phase = .committing ∧ call.phase = .selected ∧ call.kind.Revocation ∨
      phase = .returned ∧ (call.phase = .publishing ∨ ¬ call.kind.Revocation)) :
    Sound service (s.moved index { call with phase := phase }) := by
  have member := List.mem_of_getElem? turn
  refine sound.plain (evolves_refl _) (fun _ => List.mem_or_eq_of_mem_set)
    ((sound.calls call member).phased _ ?_ ?_) (fun _ held => held) ?_
  · intro revocation _ running
    rcases change with rfl | ⟨-, selected, -⟩ | ⟨-, publishing | other⟩
    · exact absurd rfl running
    · exact ⟨selected ▸ nofun, selected ▸ nofun⟩
    · exact ⟨publishing ▸ nofun, publishing ▸ nofun⟩
    · exact absurd revocation other
  · intro revocation now
    rcases change with rfl | ⟨rfl, -⟩ | ⟨-, publishing | other⟩
    · rcases now with same | same | same <;> cases same
    · rcases now with same | same | same <;> cases same
    · exact .inr (.inr (.inl publishing))
    · exact absurd revocation other
  · intro purged
    rcases change with rfl | ⟨rfl, -⟩ | ⟨-, publishing | other⟩
    · exact absurd purged (not_purged ⟨nofun, nofun⟩)
    · exact absurd purged (not_purged ⟨nofun, nofun⟩)
    · exact ⟨call, member, ⟨purged.1, .inl publishing⟩, rfl⟩
    · exact absurd purged.1 other

end

end

theorem sound_step (sound : Sound service s) (careful : Careful s step)
    (happens : Happens service s step t) : Sound service t := by
  have evolves := evolves_of_happens happens
  cases happens with
  | @opens kind phase begins =>
    have running : phase ≠ .publishing ∧ phase ≠ .returned := by
      rcases begins with rfl | ⟨rfl, -⟩ <;> exact ⟨nofun, nofun⟩
    refine sound.plain evolves (fun _ => mem_pushed) (fresh_ok ?_) (fun _ held => held)
      (fun purged => absurd purged (not_purged running))
    intro revocation
    rcases begins with same | ⟨-, other, -⟩
    · exact .inl same
    · exact absurd revocation other
  | denies dropped =>
    refine sound.plain evolves (fun _ => mem_pushed) (fresh_ok nofun) ?_
      (fun purged => purged.1.elim)
    rcases dropped with rfl | rfl
    · exact fun _ held => held
    · exact fun _ held => mem_erased held
  | hits held => exact sound.hits held
  | @inserts _ call _ _ _ _ _ turn kind =>
    have other : ¬ call.kind.Revocation := kind ▸ nofun
    have ok := (sound.calls call (List.mem_of_getElem? turn)).elsewhere other .committed
    exact sound.turn evolves rfl rfl other (ok.evolved evolves)
  | selects turn kind => exact sound.selects turn kind
  | @touches _ call _ _ turn kind =>
    have other : ¬ call.kind.Revocation := kind ▸ nofun
    have ok := (sound.calls call (List.mem_of_getElem? turn)).elsewhere other .updated
    have moved := ok.evolved evolves
    exact sound.turn evolves rfl rfl other
      ⟨moved.copy, moved.began, moved.found, moved.named, moved.committed⟩
  | finds turn all named => exact sound.finds turn all named
  | revokes turn phase => exact sound.revokes turn phase evolves
  | @checks _ call _ _ _ turn kind =>
    have other : ¬ call.kind.Revocation := kind ▸ nofun
    exact sound.turn evolves rfl rfl other
      ((sound.calls call (List.mem_of_getElem? turn)).elsewhere other _)
  | fills turn kind phase row => exact sound.fills turn kind row (careful _ turn phase)
  | purges turn phase _ purge =>
    exact sound.purges turn phase fun _ held => sound.purge (List.mem_of_getElem? turn) purge held
  | relabels _ turn _ change => exact sound.relabels turn change
  | ticks =>
    exact ⟨sound.ids, sound.hashes, sound.calls,
      fun entry held => sound.cached entry (mem_dropExpired held),
      fun call member purged entry held =>
        sound.purged call member purged entry (mem_dropExpired held)⟩
  | evicts =>
    exact ⟨sound.ids, sound.hashes, sound.calls,
      fun entry held => sound.cached entry (mem_erased held),
      fun call member purged entry held =>
        sound.purged call member purged entry (mem_erased held)⟩

theorem sound_initial (now : Int) : Sound service (.initial now) where
  ids := List.nodup_nil
  hashes := List.nodup_nil
  calls _ member := absurd member List.not_mem_nil
  cached _ member := absurd member List.not_mem_nil
  purged _ member := absurd member List.not_mem_nil

def CarefulRun (service : Service) (s : Sessions) (steps : List Step) : Prop :=
  Meets (Sessions.step service) Careful s steps

instance (service : Service) (s : Sessions) (steps : List Step) :
    Decidable (CarefulRun service s steps) :=
  inferInstanceAs (Decidable (Meets (Sessions.step service) Careful s steps))

theorem sound_run {steps : List Step} (sound : Sound service s)
    (careful : CarefulRun service s steps) (run : s.run service steps = some t) :
    Sound service t :=
  run_keeps (fun _ _ _ sound careful stepped => sound_step sound careful (happens_of_step stepped))
    sound run careful

/-- A lookup of the token that finds its session revoked, or has not looked yet. -/
structure Bars (token : String) (call : Call) : Prop where
  lookup : ∃ request, call.kind = .lookup token request
  result : call.result = none
  phase : call.phase = .selecting ∨
    call.phase = .selected ∧ (∀ row ∈ call.row, row.revokedAt ≠ none) ∨
    call.phase = .returned ∨ call.phase = .failed

structure Barred (service : Service) (token : String) (index : Nat) (s : Sessions) : Prop where
  revoked : ∃ row ∈ s.rows, row.tokenHash = service.hashToken token ∧ row.revokedAt ≠ none
  call : ∀ call ∈ s.calls[index]?, Bars token call

theorem Sound.revoked_of_hash (sound : Sound service s)
    (revoked : ∃ row ∈ s.rows, row.tokenHash = service.hashToken token ∧ row.revokedAt ≠ none)
    {row : Session} (member : row ∈ s.rows) (hash : row.tokenHash = service.hashToken token) :
    row.revokedAt ≠ none := by
  obtain ⟨other, inside, other_hash, dead⟩ := revoked
  obtain rfl := List.inj_on_of_nodup_map sound.hashes member inside (hash.trans other_hash.symm)
  exact dead

theorem Barred.next (barred : Barred service token index s) (evolves : Evolves s.rows t.rows)
    (calls : ∀ call ∈ t.calls[index]?, s.calls[index]? = some call ∨ Bars token call) :
    Barred service token index t where
  revoked := by
    obtain ⟨row, inside, hash, dead⟩ := barred.revoked
    obtain ⟨new, here, follows⟩ := evolves.forth row inside
    exact ⟨new, here, follows.1.tokenHash_eq.trans hash, follows.2 dead⟩
  call call there := by
    rcases calls call there with before | now
    · exact barred.call call before
    · exact now

theorem Barred.turn (barred : Barred service token index s) (evolves : Evolves s.rows t.rows)
    {place : Nat} {new : Call} (turn : s.calls[place]? = some call)
    (calls : t.calls = s.calls.set place new) (bars : Bars token call → Bars token new) :
    Barred service token index t := by
  refine barred.next evolves (fun now there => ?_)
  rw [calls] at there
  rcases getElem?_set_cases there with ⟨same, _⟩ | ⟨rfl, rfl⟩
  · exact .inl same
  · exact .inr (bars (barred.call call turn))

theorem Bars.not_revocation (bars : Bars token call) : ¬ call.kind.Revocation := by
  obtain ⟨_, lookup⟩ := bars.lookup
  rw [lookup]
  exact id

theorem barred_step (sound : Sound service s) (barred : Barred service token index s)
    (known : index < s.calls.length) (happens : Happens service s step t) :
    Barred service token index t := by
  have evolves := evolves_of_happens happens
  have pushed : ∀ new call, (s.calls ++ [new])[index]? = some call → s.calls[index]? = some call :=
    fun new call there => by rwa [List.getElem?_append_left known] at there
  cases happens with
  | opens _ => exact barred.next evolves (fun now there => .inl (pushed _ now there))
  | denies _ => exact barred.next evolves (fun now there => .inl (pushed _ now there))
  | hits _ _ => exact barred.next evolves (fun now there => .inl (pushed _ now there))
  | inserts turn kind _ _ =>
    refine barred.turn evolves turn rfl (fun bars => ?_)
    obtain ⟨_, lookup⟩ := bars.lookup
    cases kind.symm.trans lookup
  | @selects place call other request turn kind phase =>
    refine barred.turn evolves turn rfl (fun bars =>
      ⟨bars.lookup, bars.result, .inr (.inl ⟨rfl, fun row found => ?_⟩)⟩)
    obtain ⟨_, same_kind⟩ := bars.lookup
    have located : s.rows.find? (fun row => row.tokenHash = service.hashToken other) =
        some row := found
    have hash : row.tokenHash = service.hashToken other := by
      simpa using List.find?_some located
    rw [(Kind.lookup.inj (kind.symm.trans same_kind)).1] at hash
    exact sound.revoked_of_hash barred.revoked (List.mem_of_find?_eq_some located) hash
  | touches turn _ phase =>
    exact barred.turn evolves turn rfl (fun bars => absurd bars.phase (by simp [phase]))
  | finds turn _ _ _ kind =>
    exact barred.turn evolves turn rfl (fun bars => absurd kind bars.not_revocation)
  | revokes turn _ kind =>
    exact barred.turn evolves turn rfl (fun bars => absurd kind bars.not_revocation)
  | @checks place call other request session turn kind phase row admitted =>
    refine barred.turn evolves turn rfl (fun bars => ?_)
    have dead : ∀ row ∈ call.row, row.revokedAt ≠ none := by simpa [phase] using bars.phase
    have alive : session.revokedAt.isNone = true := by
      simp only [Service.admits, Bool.and_eq_true] at admitted
      exact admitted.1.1.1
    exact absurd (Option.isNone_iff_eq_none.mp alive) (dead session row)
  | fills turn _ phase _ =>
    exact barred.turn evolves turn rfl (fun bars => absurd bars.phase (by simp [phase]))
  | purges turn _ _ purge =>
    refine barred.turn evolves turn rfl (fun bars => ?_)
    obtain ⟨_, lookup⟩ := bars.lookup
    rcases purge with ⟨_, kind, _⟩ | ⟨_, kind, _⟩ <;> cases kind.symm.trans lookup
  | relabels _ turn _ change =>
    refine barred.turn evolves turn rfl (fun bars => ⟨bars.lookup, bars.result, ?_⟩)
    rcases change with rfl | ⟨_, _, kind⟩ | ⟨rfl, _⟩
    · exact .inr (.inr (.inr rfl))
    · exact absurd kind bars.not_revocation
    · exact .inr (.inr (.inl rfl))
  | ticks => exact barred.next evolves (fun _ there => .inl there)
  | evicts => exact barred.next evolves (fun _ there => .inl there)

theorem length_of_happens (happens : Happens service s step t) :
    s.calls.length ≤ t.calls.length := by
  cases happens with
  | _ => simp [Sessions.push, Sessions.moved]

theorem barred_run {steps : List Step} (sound : Sound service s)
    (careful : CarefulRun service s steps) (barred : Barred service token index s)
    (known : index < s.calls.length) (run : s.run service steps = some t) :
    Barred service token index t := by
  have keep : ∀ s step t,
      Sound service s ∧ Barred service token index s ∧ index < s.calls.length →
      Careful s step → s.step service step = some t →
      Sound service t ∧ Barred service token index t ∧ index < t.calls.length := by
    intro s step t ⟨sound, barred, known⟩ careful stepped
    have happens := happens_of_step stepped
    exact ⟨sound_step sound careful happens, barred_step sound barred known happens,
      Nat.lt_of_lt_of_le known (length_of_happens happens)⟩
  exact (run_keeps keep ⟨sound, barred, known⟩ run careful).2.1

/-- A lookup that starts after a revocation of its session has returned is barred. -/
theorem barred_start (sound : Sound service s) {revocation : Call} (member : revocation ∈ s.calls)
    (returned : revocation.phase = .returned) {row : Session}
    (stored : row ∈ s.rows.take revocation.began) (revokes : revocation.kind.Revokes row)
    (hash : row.tokenHash = service.hashToken token)
    (happens : Happens service s (.start (.lookup token request)) t) :
    Barred service token s.calls.length t := by
  have ok := sound.calls revocation member
  have inside := List.mem_of_mem_take stored
  have listed := ok.found (returned ▸ nofun) (returned ▸ nofun) row stored revokes
  have dead := ok.committed revokes.revocation (.inr (.inr returned)) row inside listed
  have uncached : s.cache.get? (service.hashToken token) = none := by
    cases held : s.cache.get? (service.hashToken token) with
    | none => rfl
    | some entry =>
      have entry_mem := OrderedMap.get?_eq_some_iff.mp held
      obtain ⟨key, source, source_mem, same⟩ := sound.cached _ entry_mem
      obtain rfl : source = row := List.inj_on_of_nodup_map sound.hashes source_mem inside
        (same.tokenHash_eq.symm.trans (key.trans hash.symm))
      have gone := sound.purged revocation member ⟨revokes.revocation, .inr returned⟩
        _ entry_mem
      exact absurd (same.id_eq ▸ listed) gone
  cases happens with
  | opens begins =>
    refine ⟨⟨row, inside, hash, dead⟩, fun call there => ?_⟩
    rw [Option.mem_def, Sessions.push, List.getElem?_concat_length] at there
    cases there
    refine ⟨⟨request, rfl⟩, rfl, ?_⟩
    rcases begins with rfl | ⟨-, -, other⟩
    · exact .inl rfl
    · exact absurd trivial other
  | denies _ =>
    refine ⟨⟨row, inside, hash, dead⟩, fun call there => ?_⟩
    rw [Option.mem_def, Sessions.push, List.getElem?_concat_length] at there
    cases there
    exact ⟨⟨request, rfl⟩, rfl, .inr (.inr (.inl rfl))⟩
  | hits held _ =>
    rw [uncached] at held
    cases held
  | relabels own _ _ _ => rcases own with same | same | same <;> cases same

/-- In every run in which no lookup fills the cache after a purge of its session, revocations
are final. -/
theorem revocations_final (service : Service) (now : Int) (steps : List Step)
    (careful : CarefulRun service (.initial now) steps) :
    RevocationsFinal service (.initial now) steps := by
  intro before token request after s t split run_before run_all revocation member returned row
    stored revokes hash
  subst split
  obtain ⟨careful_before, careful_rest⟩ := meets_append run_before careful
  have sound := sound_run (sound_initial now) careful_before run_before
  obtain ⟨next, stepped, rest⟩ := run_cons_eq_some.mp (run_after run_before run_all)
  have happens := happens_of_step stepped
  have barred := barred_start sound member returned stored revokes hash happens
  have known : s.calls.length < next.calls.length := by
    cases happens with
    | relabels own _ _ _ => rcases own with same | same | same <;> cases same
    | _ => simp [Sessions.push]
  have last := barred_run (sound_step sound careful_rest.1 happens)
    (careful_rest.2 next stepped) barred known rest
  exact fun call there => (last.call call there).result

/-- `ipaddress` on the networks 10.0.0.0/24 and 10.0.1.0/24. -/
def tenNetworks : Ipaddress where
  ipAddress text :=
    if text = "10.0.0.7" then some (.v4 0x0a000007#32)
    else if text = "10.0.1.7" then some (.v4 0x0a000107#32)
    else none
  ipNetwork text :=
    if text = "10.0.0.0/24" then some ((Address.v4 0x0a000000#32).network 24)
    else if text = "10.0.1.0/24" then some ((Address.v4 0x0a000100#32).network 24)
    else none
  str network :=
    if network = (Address.v4 0x0a000000#32).network 24 then "10.0.0.0/24" else "10.0.1.0/24"

def defaults : Service := ⟨Sha256.head, tenNetworks, 1800000000, 43200000000, 30000000⟩

def laptop : RequestMeta := ⟨"10.0.0.7", "curl"⟩

def issueSteps : List Step := [.start (.issue "u" "none" laptop "t" "s"), .effect 0, .resume 0]

theorem revocation_after_lookup :
    RevocationsFinal defaults (.initial 0)
      (issueSteps ++ [.start (.lookup "t" (some laptop)), .effect 1, .resume 1, .effect 1,
        .start (.revoke "s"), .effect 2, .resume 2, .effect 2, .resume 1, .resume 2, .resume 2,
        .start (.lookup "t" (some laptop)), .effect 3, .resume 3]) :=
  revocations_final defaults 0 _ (by decide)

def overtakenLookup : List Step :=
  issueSteps ++ [.start (.lookup "t" (some laptop)), .effect 1, .resume 1, .effect 1,
    .start (.revoke "s"), .effect 2, .resume 2, .effect 2, .resume 2, .resume 2, .resume 1,
    .start (.lookup "t" (some laptop)), .effect 3, .resume 3]

def revokedCopy : Session where
  id := "s"
  userId := "u"
  tokenHash := defaults.hashToken "t"
  mfaLevel := "none"
  ipClass := "10.0.0.0/24"
  uaFp := laptop.uaFp defaults.sha
  issuedAt := 0
  expiresAt := 43200000000
  lastUsedAt := some 0
  revokedAt := some 0

theorem revoked_session_returned :
    ¬ RevocationsFinal defaults (.initial 0) overtakenLookup := by
  intro final
  have missing := final (overtakenLookup.take 14) "t" (some laptop) [.effect 3, .resume 3] _ _
    rfl rfl rfl ⟨.revoke "s", 0, 1, .returned, none, ["s"], false, none⟩ (by decide) rfl
    revokedCopy (by decide) rfl rfl
    ⟨.lookup "t" (some laptop), 0, 1, .returned,
      some { revokedCopy with revokedAt := none }, [], true,
      some { revokedCopy with revokedAt := none }⟩ rfl
  cases missing

end HlHelper.Auth
