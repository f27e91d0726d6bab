import HlHelper.Enrollment.Tokens
import HlHelper.Library.Slots
import Mathlib

/-! Tokens are single use in the runs in which no revocation deletes a token that has been
redeemed since it was read. -/

namespace HlHelper.Enrollment

open HlHelper.Library

variable {service : Service}

/-- What one step does to the tables, the certificates and the calls. -/
inductive Happens (service : Service) (s : Registry) : Step → Registry → Prop where
  | mints {tokenId plaintext ttl hash expiresAt} :
      (∀ token ∈ s.minted, token.1 ≠ tokenId ∧ token.2 ≠ hash) →
      Happens service s (.mint tokenId plaintext ttl)
        { s with
          tokens := s.tokens ++ [⟨tokenId, hash, expiresAt, none, none⟩]
          minted := s.minted ++ [(tokenId, hash)] }
  | starts {kind} : (∀ body, kind = .redeem body → ∀ call ∈ s.calls,
        ∀ other, call.kind = .redeem other → other.hostId ≠ body.hostId) →
      Happens service s (.start kind)
        { s with calls := s.calls ++ [⟨kind, s.now, .selecting, none⟩] }
  | selects {index call row} : s.calls[index]? = some call → call.phase = .selecting →
      (∀ tokenId, call.kind = .revokePending tokenId → ∀ token ∈ row,
        token ∈ s.tokens ∧ token.id = tokenId) →
      Happens service s (.effect index)
        (s.moved index { call with phase := .selected, row := row })
  | signs {index call body} : s.calls[index]? = some call → call.kind = .redeem body →
      call.phase = .selected →
      Happens service s (.resume index)
        { s.moved index { call with phase := .updating } with
          certificates := s.certificates ++ [⟨body.hostId, body.serialNumber⟩] }
  | claims {index call body token} : s.calls[index]? = some call → call.kind = .redeem body →
      call.phase = .updating → token ∈ s.tokens →
      token.tokenHash = service.hashToken body.tokenPlaintext → token.redeemedAt = none →
      (∀ other ∈ s.calls, other.holds service token.tokenHash = false) →
      Happens service s (.effect index) (s.moved index { call with phase := .claimed })
  | commits {index call body} : s.calls[index]? = some call → call.kind = .redeem body →
      call.phase = .committing → (∀ host ∈ s.hosts, host.id ≠ body.hostId) →
      Happens service s (.effect index)
        { s.moved index { call with phase := .returned } with
          tokens := s.tokens.map (fun token =>
            if token.tokenHash = service.hashToken body.tokenPlaintext then
              { token with redeemedAt := some call.now, redeemedHostId := some body.hostId }
            else token)
          hosts := s.hosts ++ [service.host body call.now] }
  | deletes {index call tokenId} : s.calls[index]? = some call →
      call.kind = .revokePending tokenId → call.phase = .deleting →
      (∀ token ∈ s.tokens, token.id = tokenId → ∀ other ∈ s.calls,
        other.holds service token.tokenHash = false) →
      Happens service s (.effect index)
        { s.moved index { call with phase := .returned } with
          tokens := s.tokens.filter (fun token => token.id ≠ tokenId) }
  | advances {step index call phase} : s.calls[index]? = some call →
      (call.phase = .updating ∧ phase = .lost ∨ call.phase = .claimed ∧ phase = .committing ∨
        call.phase = .selected ∧ phase = .deleting ∧ call.row ≠ none ∧
          ∃ tokenId, call.kind = .revokePending tokenId) →
      Happens service s step (s.moved index { call with phase := phase })
  | fails {step index call error} : s.calls[index]? = some call → call.phase ≠ .returned →
      (∀ error, call.phase ≠ .failed error) →
      Happens service s step (s.moved index { call with phase := .failed error })
  | ticks {elapsed} : Happens service s (.tick elapsed) { s with now := s.now + elapsed }

variable {s t : Registry} {index : Nat} {call new : Call} {step : Step} {body : Redemption}

theorem draws_false {hostId : String} (other : call.draws hostId = false)
    (kind : call.kind = .redeem body) : body.hostId ≠ hostId := by
  simp only [Call.draws, kind, decide_eq_false_iff_not] at other
  exact other

theorem happens_effect (turn : s.calls[index]? = some call)
    (stepped : s.effect service index call = some t) : Happens service s (.effect index) t := by
  unfold Registry.effect at stepped
  split at stepped
  · next body kind phase =>
    cases stepped
    exact .selects turn phase (fun _ revoke => absurd (kind.symm.trans revoke) nofun)
  · next body kind phase =>
    dsimp only at stepped
    split at stepped
    · cases stepped
    · next free =>
      split at stepped
      · next claimable =>
        cases stepped
        obtain ⟨token, member, fits⟩ := List.any_eq_true.mp claimable
        simp only [Bool.and_eq_true, decide_eq_true_eq, Option.isNone_iff_eq_none] at fits
        obtain ⟨⟨hash, unredeemed⟩, _⟩ := fits
        refine .claims turn kind phase member hash unredeemed (fun other inside => ?_)
        rw [hash]
        refine Bool.eq_false_iff.mpr (fun holds => free ?_)
        exact List.any_eq_true.mpr ⟨other, inside, holds⟩
      · cases stepped
        exact .advances turn (.inl ⟨phase, rfl⟩)
  · next body kind phase =>
    dsimp only at stepped
    split at stepped
    · cases stepped
      exact .fails turn (phase ▸ nofun) (fun _ => phase ▸ nofun)
    · next absent =>
      cases stepped
      refine .commits turn kind phase (fun host member same => absent ?_)
      exact List.any_eq_true.mpr ⟨host, member, decide_eq_true same⟩
  · next tokenId kind phase =>
    cases stepped
    refine .selects turn phase (fun other revoke token found => ?_)
    obtain ⟨member, same⟩ := findKey_some found
    obtain rfl := Kind.revokePending.inj (kind.symm.trans revoke)
    exact ⟨member, same⟩
  · next tokenId kind phase =>
    split at stepped
    · cases stepped
    · next free =>
      cases stepped
      refine .deletes turn kind phase (fun token member same other inside => ?_)
      refine Bool.eq_false_iff.mpr (fun holds => free ?_)
      refine List.any_eq_true.mpr ⟨token, member, ?_⟩
      rw [Bool.and_eq_true]
      exact ⟨decide_eq_true same, List.any_eq_true.mpr ⟨other, inside, holds⟩⟩
  · cases stepped

theorem issueHostCert_eq {certificate : Certificate}
    (issued : service.issueHostCert body = some certificate) :
    certificate = ⟨body.hostId, body.serialNumber⟩ := by
  unfold Service.issueHostCert at issued
  split at issued
  · cases issued
  · split at issued
    · cases issued
    · split at issued
      · exact (Option.some.inj issued).symm
      · cases issued

theorem happens_sign (turn : s.calls[index]? = some call) (kind : call.kind = .redeem body)
    (phase : call.phase = .selected) :
    Happens service s (.resume index) (s.sign service index call body) := by
  have failed : ∀ error, Happens service s (.resume index)
      (s.moved index { call with phase := .failed error }) := fun _ =>
    .fails turn (phase ▸ nofun) (fun _ => phase ▸ nofun)
  unfold Registry.sign
  dsimp only
  split
  · exact failed _
  · split
    · exact failed _
    · split
      · exact failed _
      · split
        · exact failed _
        · split
          · exact failed _
          · next certificate issued =>
            obtain rfl := issueHostCert_eq issued
            exact .signs turn kind phase

theorem happens_resume (turn : s.calls[index]? = some call)
    (stepped : s.resume service index call = some t) : Happens service s (.resume index) t := by
  unfold Registry.resume at stepped
  split at stepped
  · next body kind phase =>
    cases stepped
    exact happens_sign turn kind phase
  · next kind phase =>
    cases stepped
    exact .fails turn (phase ▸ nofun) (fun _ => phase ▸ nofun)
  · next kind phase =>
    cases stepped
    exact .advances turn (.inr (.inl ⟨phase, rfl⟩))
  · next tokenId kind phase =>
    split at stepped
    · cases stepped
      exact .fails turn (phase ▸ nofun) (fun _ => phase ▸ nofun)
    · next token row =>
      split at stepped
      · cases stepped
        exact .fails turn (phase ▸ nofun) (fun _ => phase ▸ nofun)
      · cases stepped
        exact .advances turn (.inr (.inr ⟨phase, rfl, row ▸ nofun, tokenId, kind⟩))
  · cases stepped

theorem happens_of_step (stepped : s.step service step = some t) : Happens service s step t := by
  cases step with
  | mint tokenId plaintext ttl =>
    simp only [Registry.step, Registry.mint] at stepped
    split at stepped
    · cases stepped
    · next fresh =>
      cases stepped
      refine .mints (fun token member => ?_)
      have other := List.any_eq_false.mp (Bool.not_eq_true _ ▸ fresh) token member
      simpa [not_or] using other
  | start kind =>
    simp only [Registry.step, Registry.start] at stepped
    split at stepped
    · next body =>
      split at stepped
      · cases stepped
      · next fresh =>
        cases stepped
        refine .starts (fun body' same call member other kind => ?_)
        obtain rfl := Kind.redeem.inj same
        have undrawn := List.any_eq_false.mp (Bool.not_eq_true _ ▸ fresh) call member
        exact draws_false (Bool.not_eq_true _ ▸ undrawn) kind
    · cases stepped
      exact .starts (fun _ same => absurd same nofun)
  | effect index =>
    obtain ⟨call, turn, moved⟩ := Option.bind_eq_some_iff.mp stepped
    exact happens_effect turn moved
  | resume index =>
    obtain ⟨call, turn, moved⟩ := Option.bind_eq_some_iff.mp stepped
    exact happens_resume turn moved
  | fail index =>
    obtain ⟨call, turn, moved⟩ := Option.bind_eq_some_iff.mp stepped
    unfold Registry.fail at moved
    split at moved
    · cases moved
    · cases moved
    · next returned failed =>
      cases moved
      exact .fails turn returned failed
  | tick elapsed =>
    cases stepped
    exact .ticks

def Phase.Unsigned (phase : Phase) : Prop := phase = .selecting ∨ phase = .selected

structure Goes (old new : Call) : Prop where
  kind : new.kind = old.kind
  now : new.now = old.now
  unsigned : new.phase.Unsigned → old.phase.Unsigned
  returned : old.phase = .returned → new = old
  failed : ∀ error, old.phase = .failed error → new = old

theorem Goes.refl (call : Call) : Goes call call := ⟨rfl, rfl, id, fun _ => rfl, fun _ _ => rfl⟩

theorem Goes.trans {old : Call} (first : Goes old call) (second : Goes call new) :
    Goes old new where
  kind := second.kind.trans first.kind
  now := second.now.trans first.now
  unsigned is := first.unsigned (second.unsigned is)
  returned was := by
    obtain rfl := first.returned was
    exact second.returned was
  failed error was := by
    obtain rfl := first.failed error was
    exact second.failed error was

theorem onward_of_happens (happens : Happens service s step t) : Onward Goes s.calls t.calls := by
  have going : ∀ {old new : Call}, new.kind = old.kind → new.now = old.now →
      (new.phase.Unsigned → old.phase.Unsigned) → old.phase ≠ .returned →
      (∀ error, old.phase ≠ .failed error) → Goes old new :=
    fun kind now unsigned returned failed => ⟨kind, now, unsigned,
      fun was => absurd was returned, fun error was => absurd was (failed error)⟩
  cases happens with
  | mints _ => exact Onward.refl Goes.refl _
  | starts _ => exact Onward.append Goes.refl _ _
  | selects turn phase _ =>
    exact Onward.set Goes.refl turn (going rfl rfl (fun _ => .inl phase) (phase ▸ nofun)
      (fun _ => phase ▸ nofun))
  | signs turn _ phase =>
    exact Onward.set Goes.refl turn (going rfl rfl (fun _ => .inr phase) (phase ▸ nofun)
      (fun _ => phase ▸ nofun))
  | claims turn _ phase _ _ _ _ =>
    exact Onward.set Goes.refl turn (going rfl rfl (fun is => is.elim nofun nofun)
      (phase ▸ nofun) (fun _ => phase ▸ nofun))
  | commits turn _ phase _ =>
    exact Onward.set Goes.refl turn (going rfl rfl (fun is => is.elim nofun nofun)
      (phase ▸ nofun) (fun _ => phase ▸ nofun))
  | deletes turn _ phase _ =>
    exact Onward.set Goes.refl turn (going rfl rfl (fun is => is.elim nofun nofun)
      (phase ▸ nofun) (fun _ => phase ▸ nofun))
  | advances turn change =>
    refine Onward.set Goes.refl turn (going rfl rfl ?_ ?_ ?_)
    · rintro (rfl | rfl)
      · rcases change with ⟨_, other⟩ | ⟨_, other⟩ | ⟨_, other, _⟩ <;> cases other
      · rcases change with ⟨_, other⟩ | ⟨_, other⟩ | ⟨_, other, _⟩ <;> cases other
    · rcases change with ⟨phase, _⟩ | ⟨phase, _⟩ | ⟨phase, _⟩ <;> exact phase ▸ nofun
    · rcases change with ⟨phase, _⟩ | ⟨phase, _⟩ | ⟨phase, _⟩ <;> exact fun _ => phase ▸ nofun
  | fails turn returned failed =>
    exact Onward.set Goes.refl turn
      (going rfl rfl (fun is => is.elim nofun nofun) returned failed)
  | ticks => exact Onward.refl Goes.refl _

structure CallOk (service : Service) (s : Registry) (call : Call) : Prop where
  signed : ∀ body, call.kind = .redeem body → call.phase ≠ .selecting → call.phase ≠ .selected →
    (∀ error, call.phase ≠ .failed error) → ⟨body.hostId, body.serialNumber⟩ ∈ s.certificates
  held : ∀ hash, call.holds service hash = true →
    ∃ token ∈ s.tokens, token.tokenHash = hash ∧ token.redeemedAt = none
  redeemed : ∀ body, call.Redeemed body → service.host body call.now ∈ s.hosts ∧
    ∃ token ∈ s.tokens, token.tokenHash = service.hashToken body.tokenPlaintext ∧
      token.redeemedHostId = some body.hostId ∧ token.redeemedAt ≠ none
  found : ∀ tokenId, call.kind = .revokePending tokenId → ∀ token ∈ call.row,
    ∃ hash, (tokenId, hash) ∈ s.minted
  deleting : ∀ tokenId, call.kind = .revokePending tokenId →
    call.phase = .deleting ∨ call.phase = .returned → call.row ≠ none
  deleted : ∀ tokenId, call.kind = .revokePending tokenId → call.phase = .returned →
    ∀ token ∈ s.tokens, token.id ≠ tokenId

structure Sound (service : Service) (s : Registry) : Prop where
  ids : (s.minted.map Prod.fst).Nodup
  hashes : (s.minted.map Prod.snd).Nodup
  minted : (s.tokens.map (fun token => (token.id, token.tokenHash))).Sublist s.minted
  draws : ∀ (i j : Nat) call other body others, s.calls[i]? = some call →
    s.calls[j]? = some other → call.kind = .redeem body → other.kind = .redeem others →
    body.hostId = others.hostId → i = j
  exclusive : ∀ (i j : Nat) call other hash, s.calls[i]? = some call →
    s.calls[j]? = some other → call.holds service hash = true →
    other.holds service hash = true → i = j
  hosts : (s.hosts.map Host.id).Nodup
  made : ∀ host ∈ s.hosts, ∃ call ∈ s.calls, ∃ body, call.Redeemed body ∧ body.hostId = host.id
  certificates : (s.certificates.map Certificate.hostId).Nodup
  certified : ∀ certificate ∈ s.certificates, ∃ call ∈ s.calls, ∃ body,
    call.kind = .redeem body ∧ body.hostId = certificate.hostId ∧ ¬ call.phase.Unsigned
  named : ∀ token ∈ s.tokens, ∀ hostId ∈ token.redeemedHostId, ∃ call ∈ s.calls, ∃ body,
    call.Redeemed body ∧ body.hostId = hostId
  calls : ∀ call ∈ s.calls, CallOk service s call

theorem Sound.token_hashes (sound : Sound service s) : (s.tokens.map Token.tokenHash).Nodup := by
  have nodup := sound.hashes.sublist (sound.minted.map Prod.snd)
  rwa [List.map_map] at nodup

theorem Sound.mem_minted (sound : Sound service s) {token : Token} (member : token ∈ s.tokens) :
    (token.id, token.tokenHash) ∈ s.minted :=
  sound.minted.subset (List.mem_map_of_mem member)

theorem Goes.redeemed {old : Call} (goes : Goes old new) (was : old.Redeemed body) :
    new.Redeemed body := by
  obtain rfl := goes.returned was.2
  exact was

theorem CallOk.kept (ok : CallOk service s call)
    (certificates : ∀ certificate ∈ s.certificates, certificate ∈ t.certificates)
    (hosts : ∀ host ∈ s.hosts, host ∈ t.hosts) (minted : ∀ token ∈ s.minted, token ∈ t.minted)
    (held : ∀ token ∈ s.tokens, call.holds service token.tokenHash = true → token ∈ t.tokens)
    (redeemed : ∀ token ∈ s.tokens, token.redeemedAt ≠ none → token ∈ t.tokens)
    (back : ∀ token ∈ t.tokens, (∃ old ∈ s.tokens, old.id = token.id) ∨
      ∀ pair ∈ s.minted, pair.1 ≠ token.id) : CallOk service t call where
  signed body kind selecting selected failed :=
    certificates _ (ok.signed body kind selecting selected failed)
  held hash holds := by
    obtain ⟨token, member, rfl, unredeemed⟩ := ok.held hash holds
    exact ⟨token, held token member holds, rfl, unredeemed⟩
  redeemed body was := by
    obtain ⟨host, token, member, hash, named, at_time⟩ := ok.redeemed body was
    exact ⟨hosts _ host, token, redeemed token member at_time, hash, named, at_time⟩
  found tokenId kind token row := by
    obtain ⟨hash, member⟩ := ok.found tokenId kind token row
    exact ⟨hash, minted _ member⟩
  deleting := ok.deleting
  deleted tokenId kind returned token member := by
    rcases back token member with ⟨old, inside, same⟩ | fresh
    · exact same ▸ ok.deleted tokenId kind returned old inside
    · have read := ok.deleting tokenId kind (.inr returned)
      obtain ⟨row, there⟩ := Option.ne_none_iff_exists'.mp read
      obtain ⟨hash, listed⟩ := ok.found tokenId kind row there
      exact fun same => fresh _ listed same.symm

/-- A call of the later state that holds a claim held it before, or no call did. -/
def Holds (service : Service) (s : Registry) (index : Nat) (call : Call) : Prop :=
  ∀ hash, call.holds service hash = true →
    (∃ old, s.calls[index]? = some old ∧ old.holds service hash = true) ∨
      ∀ other ∈ s.calls, other.holds service hash = false

theorem Sound.next (sound : Sound service s) (index : Nat) (new : Call)
    (calls : ∀ (i : Nat) call, t.calls[i]? = some call →
      s.calls[i]? = some call ∧ i ≠ index ∨ i = index ∧ call = new)
    (onward : Onward Goes s.calls t.calls)
    (fresh : s.calls.length ≤ index → ∀ body, new.kind = .redeem body → ∀ call ∈ s.calls,
      ∀ other, call.kind = .redeem other → other.hostId ≠ body.hostId)
    (holds : Holds service s index new) (ids : (t.minted.map Prod.fst).Nodup)
    (hashes : (t.minted.map Prod.snd).Nodup)
    (minted : (t.tokens.map (fun token => (token.id, token.tokenHash))).Sublist t.minted)
    (hosts : (t.hosts.map Host.id).Nodup)
    (made : ∀ host ∈ t.hosts, host ∈ s.hosts ∨ ∃ call ∈ t.calls, ∃ body,
      call.Redeemed body ∧ body.hostId = host.id)
    (certificates : (t.certificates.map Certificate.hostId).Nodup)
    (certified : ∀ certificate ∈ t.certificates, certificate ∈ s.certificates ∨
      ∃ call ∈ t.calls, ∃ body, call.kind = .redeem body ∧ body.hostId = certificate.hostId ∧
        ¬ call.phase.Unsigned) (named : ∀ token ∈ t.tokens, ∀ hostId ∈ token.redeemedHostId,
      (∃ old ∈ s.tokens, old.redeemedHostId = some hostId) ∨ ∃ call ∈ t.calls, ∃ body,
        call.Redeemed body ∧ body.hostId = hostId)
    (rest : ∀ (i : Nat) call, s.calls[i]? = some call → i ≠ index →
      CallOk service s call → CallOk service t call) (own : CallOk service t new) :
    Sound service t where
  ids := ids
  hashes := hashes
  minted := minted
  draws i j call other body others there here kind kinds same := by
    have fresh_at : ∀ (k l : Nat) first second body others, t.calls[k]? = some first →
        t.calls[l]? = some second → s.calls.length ≤ k → first.kind = .redeem body →
        second.kind = .redeem others → body.hostId = others.hostId → k = l := by
      intro k l first second body others there here beyond kind kinds same
      rcases calls k first there with ⟨old, _⟩ | ⟨rfl, rfl⟩
      · exact absurd beyond (Nat.not_le_of_lt (List.getElem?_eq_some_iff.mp old).1)
      · rcases calls l second here with ⟨old, _⟩ | ⟨rfl, rfl⟩
        · exact absurd same.symm
            (fresh beyond body kind second (List.mem_of_getElem? old) others kinds)
        · rfl
    rcases onward.back there with ⟨old, before, goes⟩ | beyond
    · rcases onward.back here with ⟨older, earlier, went⟩ | beyond
      · exact sound.draws i j old older body others before earlier (goes.kind.symm.trans kind)
          (went.kind.symm.trans kinds) same
      · exact (fresh_at j i other call others body here there beyond kinds kind same.symm).symm
    · exact fresh_at i j call other body others there here beyond kind kinds same
  exclusive i j call other hash there here first second := by
    have was : ∀ (k : Nat) slot, t.calls[k]? = some slot → slot.holds service hash = true →
        (∃ old, s.calls[k]? = some old ∧ old.holds service hash = true) ∨ k = index ∧
          ∀ other ∈ s.calls, other.holds service hash = false := by
      intro k slot there held
      rcases calls k slot there with ⟨old, _⟩ | ⟨rfl, rfl⟩
      · exact .inl ⟨slot, old, held⟩
      · exact (holds hash held).imp_right (fun none => ⟨rfl, none⟩)
    rcases was i call there first with ⟨old, before, held⟩ | ⟨rfl, free⟩
    · rcases was j other here second with ⟨older, earlier, also⟩ | ⟨rfl, free⟩
      · exact sound.exclusive i j old older hash before earlier held also
      · exact absurd held (by rw [free old (List.mem_of_getElem? before)]; nofun)
    · rcases was j other here second with ⟨older, earlier, also⟩ | ⟨rfl, _⟩
      · exact absurd also (by rw [free older (List.mem_of_getElem? earlier)]; nofun)
      · rfl
  hosts := hosts
  made host member := by
    rcases made host member with old | new
    · obtain ⟨call, inside, body, was, same⟩ := sound.made host old
      obtain ⟨later, here, goes⟩ := onward.mem inside
      exact ⟨later, here, body, goes.redeemed was, same⟩
    · exact new
  certificates := certificates
  certified certificate member := by
    rcases certified certificate member with old | new
    · obtain ⟨call, inside, body, kind, same, signed⟩ := sound.certified certificate old
      obtain ⟨later, here, goes⟩ := onward.mem inside
      exact ⟨later, here, body, goes.kind.trans kind, same, fun is => signed (goes.unsigned is)⟩
    · exact new
  named token member hostId listed := by
    rcases named token member hostId listed with ⟨old, inside, same⟩ | new
    · obtain ⟨call, there, body, was, drawn⟩ := sound.named old inside hostId same
      obtain ⟨later, here, goes⟩ := onward.mem there
      exact ⟨later, here, body, goes.redeemed was, drawn⟩
    · exact new
  calls call member := by
    obtain ⟨i, there⟩ := List.mem_iff_getElem?.mp member
    rcases calls i call there with ⟨old, apart⟩ | ⟨rfl, rfl⟩
    · exact rest i call old apart (sound.calls call (List.mem_of_getElem? old))
    · exact own

theorem Sound.moved (sound : Sound service s) (turn : s.calls[index]? = some call)
    (goes : Onward Goes s.calls (s.moved index new).calls) (holds : Holds service s index new)
    (own : CallOk service s new) : Sound service (s.moved index new) := by
  have ok : ∀ {other : Call}, CallOk service s other → CallOk service (s.moved index new) other :=
    fun ok => ⟨ok.signed, ok.held, ok.redeemed, ok.found, ok.deleting, ok.deleted⟩
  refine sound.next index new (fun _ _ => getElem?_set_cases) goes ?_ holds sound.ids sound.hashes
    sound.minted sound.hosts (fun _ => .inl) sound.certificates (fun _ => .inl)
    (fun token member hostId listed => .inl ⟨token, member, listed⟩)
    (fun _ _ _ _ => ok) (ok own)
  intro beyond
  exact absurd beyond (Nat.not_le_of_lt (List.getElem?_eq_some_iff.mp turn).1)

theorem holds_iff {hash : Bytes} : call.holds service hash = true ↔
    ∃ body, call.kind = .redeem body ∧ service.hashToken body.tokenPlaintext = hash ∧
      (call.phase = .claimed ∨ call.phase = .committing) := by
  unfold Call.holds
  split
  · next body kind =>
    rw [Bool.and_eq_true, Bool.or_eq_true, decide_eq_true_eq, decide_eq_true_eq,
      decide_eq_true_eq]
    constructor
    · rintro ⟨same, phase⟩
      exact ⟨body, kind, same, phase⟩
    · rintro ⟨other, same_kind, same, phase⟩
      obtain rfl := Kind.redeem.inj (kind.symm.trans same_kind)
      exact ⟨same, phase⟩
  · next tokenId kind =>
    refine ⟨fun held => absurd held nofun, ?_⟩
    rintro ⟨body, other, _⟩
    exact absurd (kind.symm.trans other) nofun

theorem not_holds (phase : call.phase ≠ .claimed ∧ call.phase ≠ .committing) (hash : Bytes) :
    call.holds service hash ≠ true := by
  intro held
  obtain ⟨_, _, _, claimed | committing⟩ := holds_iff.mp held
  · exact phase.1 claimed
  · exact phase.2 committing

theorem CallOk.grown (ok : CallOk service s call)
    (certificates : ∀ certificate ∈ s.certificates, certificate ∈ t.certificates)
    (hosts : ∀ host ∈ s.hosts, host ∈ t.hosts) (minted : ∀ token ∈ s.minted, token ∈ t.minted)
    (tokens : ∀ token ∈ s.tokens, token ∈ t.tokens)
    (back : ∀ token ∈ t.tokens, token ∈ s.tokens ∨ ∀ pair ∈ s.minted, pair.1 ≠ token.id) :
    CallOk service t call :=
  ok.kept certificates hosts minted (fun token member _ => tokens token member)
    (fun token member _ => tokens token member)
    (fun token member => (back token member).imp_left (fun old => ⟨token, old, rfl⟩))

theorem sound_mint (sound : Sound service s) {tokenId : String} {hash : Bytes} {expiresAt : Int}
    (fresh : ∀ token ∈ s.minted, token.1 ≠ tokenId ∧ token.2 ≠ hash) :
    Sound service
      { s with
        tokens := s.tokens ++ [⟨tokenId, hash, expiresAt, none, none⟩]
        minted := s.minted ++ [(tokenId, hash)] } where
  __ := sound
  ids := by
    show ((s.minted ++ (some (tokenId, hash)).toList).map Prod.fst).Nodup
    refine unique_append sound.ids (fun row same listed => ?_)
    cases same
    obtain ⟨token, member, same⟩ := List.mem_map.mp listed
    exact (fresh token member).1 same
  hashes := by
    show ((s.minted ++ (some (tokenId, hash)).toList).map Prod.snd).Nodup
    refine unique_append sound.hashes (fun row same listed => ?_)
    cases same
    obtain ⟨token, member, same⟩ := List.mem_map.mp listed
    exact (fresh token member).2 same
  minted := by
    rw [List.map_append, List.map_singleton]
    exact sound.minted.append (List.Sublist.refl _)
  named token member hostId listed := by
    rcases List.mem_append.mp member with old | single
    · exact sound.named token old hostId listed
    · obtain rfl := List.mem_singleton.mp single
      cases listed
  calls call member := by
    refine (sound.calls call member).grown (fun _ => id) (fun _ => id)
      (fun _ => List.mem_append_left _) (fun _ => List.mem_append_left _) (fun token there => ?_)
    rcases List.mem_append.mp there with old | single
    · exact .inl old
    · obtain rfl := List.mem_singleton.mp single
      exact .inr (fun pair listed => (fresh pair listed).1)

theorem sound_start (sound : Sound service s) {kind : Kind}
    (fresh : ∀ body, kind = .redeem body → ∀ call ∈ s.calls, ∀ other,
      call.kind = .redeem other → other.hostId ≠ body.hostId) :
    Sound service { s with calls := s.calls ++ [⟨kind, s.now, .selecting, none⟩] } := by
  have free : ∀ hash, Call.holds service hash ⟨kind, s.now, .selecting, none⟩ ≠ true :=
    not_holds ⟨nofun, nofun⟩
  refine sound.next s.calls.length ⟨kind, s.now, .selecting, none⟩ ?_
    (Onward.append Goes.refl _ _) (fun _ => fresh)
    (fun hash held => absurd held (free hash)) sound.ids sound.hashes
    sound.minted sound.hosts (fun _ => .inl) sound.certificates (fun _ => .inl)
    (fun token member hostId listed => .inl ⟨token, member, listed⟩)
    (fun i call _ _ ok => ⟨ok.signed, ok.held, ok.redeemed, ok.found, ok.deleting, ok.deleted⟩)
    ⟨fun _ _ selecting => absurd rfl selecting, fun hash held =>
      absurd held (free hash), fun _ was => absurd was.2 nofun,
      fun _ _ _ row => absurd row nofun, fun _ _ phase => phase.elim nofun nofun,
      fun _ _ returned => absurd returned nofun⟩
  intro i call there
  by_cases known : i < s.calls.length
  · rw [List.getElem?_append_left known] at there
    exact .inl ⟨there, Nat.ne_of_lt known⟩
  · exact .inr (getElem?_concat_of_le there (Nat.le_of_not_lt known))

theorem sound_sign (sound : Sound service s) (turn : s.calls[index]? = some call)
    (kind : call.kind = .redeem body) (phase : call.phase = .selected)
    (onward : Onward Goes s.calls t.calls) (same : t =
      { s.moved index { call with phase := .updating } with
        certificates := s.certificates ++ [⟨body.hostId, body.serialNumber⟩] }) :
    Sound service t := by
  subst same
  have free : ∀ hash, Call.holds service hash { call with phase := .updating } ≠ true :=
    not_holds ⟨nofun, nofun⟩
  have inside := (List.getElem?_eq_some_iff.mp turn).1
  have undrawn : body.hostId ∉ s.certificates.map Certificate.hostId := by
    intro listed
    obtain ⟨certificate, member, drawn⟩ := List.mem_map.mp listed
    obtain ⟨other, there, others, kinds, same, signed⟩ := sound.certified certificate member
    obtain ⟨j, here⟩ := List.mem_iff_getElem?.mp there
    obtain rfl := sound.draws index j call other body others turn here kind kinds
      (drawn.symm.trans same.symm)
    obtain rfl := Option.some.inj (turn.symm.trans here)
    exact signed (.inr phase)
  refine sound.next index { call with phase := .updating } (fun _ _ => getElem?_set_cases) onward
    (fun beyond => absurd inside (Nat.not_lt_of_le beyond))
    (fun hash held => absurd held (free hash)) sound.ids sound.hashes sound.minted sound.hosts
    (fun _ => .inl) ?_ ?_ (fun token member hostId listed => .inl ⟨token, member, listed⟩)
    (fun _ other _ _ ok => ok.grown (fun _ => List.mem_append_left _) (fun _ => id) (fun _ => id)
      (fun _ => id) (fun _ => .inl)) ?_
  · show ((s.certificates ++ (some (Certificate.mk body.hostId body.serialNumber)).toList).map
      Certificate.hostId).Nodup
    refine unique_append sound.certificates (fun row same => ?_)
    cases same
    exact undrawn
  · intro certificate member
    rcases List.mem_append.mp member with old | single
    · exact .inl old
    · obtain rfl := List.mem_singleton.mp single
      exact .inr ⟨_, List.mem_set inside _, body, kind, rfl, fun is => is.elim nofun nofun⟩
  · refine ⟨fun others kinds _ _ _ => ?_, fun hash held => absurd held (free hash),
      fun _ was => absurd was.2 nofun, fun _ other => absurd (kind.symm.trans other) nofun,
      fun _ other => absurd (kind.symm.trans other) nofun,
      fun _ other => absurd (kind.symm.trans other) nofun⟩
    obtain rfl := Kind.redeem.inj (kind.symm.trans kinds)
    exact List.mem_append_right _ List.mem_cons_self

theorem claim_map_minted (tokens : List Token) (hash : Bytes) (now : Int) (hostId : String) :
    (tokens.map (fun token =>
      if token.tokenHash = hash then
        { token with redeemedAt := some now, redeemedHostId := some hostId }
      else token)).map (fun token => (token.id, token.tokenHash)) =
    tokens.map (fun token => (token.id, token.tokenHash)) := by
  rw [List.map_map]
  refine List.map_congr_left (fun token _ => ?_)
  simp only [Function.comp_apply]
  split
  · rfl
  · rfl

section

variable (sound : Sound service s)
include sound

section

variable (turn : s.calls[index]? = some call)
include turn

theorem sound_commit (kind : call.kind = .redeem body) (phase : call.phase = .committing)
    (fresh : ∀ host ∈ s.hosts, host.id ≠ body.hostId) (onward : Onward Goes s.calls t.calls)
    (same : t =
      { s.moved index { call with phase := .returned } with
        tokens := s.tokens.map (fun token =>
          if token.tokenHash = service.hashToken body.tokenPlaintext then
            { token with redeemedAt := some call.now, redeemedHostId := some body.hostId }
          else token)
        hosts := s.hosts ++ [service.host body call.now] }) : Sound service t := by
  subst same
  have inside := (List.getElem?_eq_some_iff.mp turn).1
  have ok := sound.calls call (List.mem_of_getElem? turn)
  have held : call.holds service (service.hashToken body.tokenPlaintext) = true :=
    holds_iff.mpr ⟨body, kind, rfl, .inr phase⟩
  have free : ∀ hash, Call.holds service hash { call with phase := .returned } ≠ true :=
    not_holds ⟨nofun, nofun⟩
  obtain ⟨claimed, claimed_mem, claimed_hash, unredeemed⟩ := ok.held _ held
  have redeemed : Call.Redeemed body { call with phase := .returned } := ⟨kind, rfl⟩
  have placed :
      { call with phase := .returned } ∈ s.calls.set index { call with phase := .returned } :=
    List.mem_set inside _
  -- a row of another hash is not written
  have left : ∀ {tokens : List Token} {token : Token}, token ∈ tokens →
      token.tokenHash ≠ service.hashToken body.tokenPlaintext →
      token ∈ tokens.map (fun token =>
        if token.tokenHash = service.hashToken body.tokenPlaintext then
          { token with redeemedAt := some call.now, redeemedHostId := some body.hostId }
        else token) :=
    fun member other => List.mem_map.mpr ⟨_, member, if_neg other⟩
  refine sound.next index { call with phase := .returned } (fun _ _ => getElem?_set_cases) onward
    (fun beyond => absurd inside (Nat.not_lt_of_le beyond))
    (fun hash holds => absurd holds (free hash)) sound.ids sound.hashes
    ((claim_map_minted ..).symm ▸ sound.minted) ?_ ?_ sound.certificates (fun _ => .inl) ?_ ?_ ?_
  · show ((s.hosts ++ (some (service.host body call.now)).toList).map Host.id).Nodup
    refine unique_append sound.hosts (fun row same listed => ?_)
    cases same
    obtain ⟨host, member, same⟩ := List.mem_map.mp listed
    exact fresh host member same
  · intro host member
    rcases List.mem_append.mp member with old | single
    · exact .inl old
    · obtain rfl := List.mem_singleton.mp single
      exact .inr ⟨_, placed, body, redeemed, rfl⟩
  · intro token member hostId listed
    obtain ⟨old, there, rfl⟩ := List.mem_map.mp member
    split at listed
    · exact .inr ⟨_, placed, body, redeemed, Option.some.inj listed⟩
    · exact .inl ⟨old, there, listed⟩
  · intro i other there apart others_ok
    refine others_ok.kept (fun _ => id) (fun _ => List.mem_append_left _) (fun _ => id)
      (fun token member holds => left member (fun same => ?_))
      (fun token member was => left member (fun same => ?_)) (fun token member => ?_)
    · rw [same] at holds
      exact apart (sound.exclusive i index other call _ there turn holds held)
    · obtain rfl := key_injective sound.token_hashes member claimed_mem
        (same.trans claimed_hash.symm)
      exact was unredeemed
    · obtain ⟨old, there, rfl⟩ := List.mem_map.mp member
      refine .inl ⟨old, there, ?_⟩
      split
      · rfl
      · rfl
  · refine ⟨fun others kinds _ _ _ => ok.signed others kinds (phase ▸ nofun) (phase ▸ nofun)
      (fun _ => phase ▸ nofun), fun hash holds => absurd holds (free hash), fun others was => ?_,
      fun _ other => absurd (kind.symm.trans other) nofun,
      fun _ other => absurd (kind.symm.trans other) nofun,
      fun _ other => absurd (kind.symm.trans other) nofun⟩
    obtain rfl := Kind.redeem.inj (kind.symm.trans was.1)
    refine ⟨List.mem_append_right _ List.mem_cons_self, _, List.mem_map_of_mem claimed_mem, ?_⟩
    rw [if_pos claimed_hash]
    exact ⟨claimed_hash, rfl, nofun⟩

theorem sound_delete {tokenId : String} (kind : call.kind = .revokePending tokenId)
    (phase : call.phase = .deleting)
    (free : ∀ token ∈ s.tokens, token.id = tokenId → ∀ other ∈ s.calls,
      other.holds service token.tokenHash = false)
    (careful : ∀ token ∈ s.tokens, token.id = tokenId → token.redeemedAt = none)
    (onward : Onward Goes s.calls t.calls) (same : t =
      { s.moved index { call with phase := .returned } with
        tokens := s.tokens.filter (fun token => token.id ≠ tokenId) }) : Sound service t := by
  subst same
  have inside := (List.getElem?_eq_some_iff.mp turn).1
  have ok := sound.calls call (List.mem_of_getElem? turn)
  have none_held : ∀ hash, Call.holds service hash { call with phase := .returned } ≠ true :=
    not_holds ⟨nofun, nofun⟩
  have left : ∀ token ∈ s.tokens, token.id ≠ tokenId →
      token ∈ s.tokens.filter (fun token => token.id ≠ tokenId) :=
    fun token member other => List.mem_filter.mpr ⟨member, decide_eq_true other⟩
  refine sound.next index { call with phase := .returned } (fun _ _ => getElem?_set_cases) onward
    (fun beyond => absurd inside (Nat.not_lt_of_le beyond))
    (fun hash holds => absurd holds (none_held hash)) sound.ids sound.hashes
    ((List.filter_sublist.map _).trans sound.minted) sound.hosts (fun _ => .inl)
    sound.certificates (fun _ => .inl) ?_ ?_ ?_
  · exact fun token member hostId listed =>
      .inl ⟨token, List.mem_of_mem_filter member, listed⟩
  · intro i other there _ others_ok
    refine others_ok.kept (fun _ => id) (fun _ => id) (fun _ => id)
      (fun token member holds => left token member (fun same => ?_))
      (fun token member was => left token member (fun same => was (careful token member same)))
      (fun token member => .inl ⟨token, List.mem_of_mem_filter member, rfl⟩)
    rw [free token member same other (List.mem_of_getElem? there)] at holds
    cases holds
  · refine ⟨fun _ other => absurd (kind.symm.trans other) nofun,
      fun hash holds => absurd holds (none_held hash),
      fun _ was => absurd (kind.symm.trans was.1) nofun, ok.found,
      fun other kinds _ => ok.deleting other kinds (.inl phase),
      fun other kinds _ token member => ?_⟩
    obtain rfl := Kind.revokePending.inj (kind.symm.trans kinds)
    exact of_decide_eq_true (List.mem_filter.mp member).2

theorem sound_select {row : Option Token}
    (found : ∀ tokenId, call.kind = .revokePending tokenId → ∀ token ∈ row,
      token ∈ s.tokens ∧ token.id = tokenId) (onward : Onward Goes s.calls
      (s.calls.set index { call with phase := .selected, row := row })) :
    Sound service (s.moved index { call with phase := .selected, row := row }) := by
  have free : ∀ hash, Call.holds service hash { call with phase := .selected, row := row } ≠ true :=
    not_holds ⟨nofun, nofun⟩
  refine sound.moved turn onward (fun hash held => absurd held (free hash))
    ⟨fun _ _ _ selected => absurd rfl selected, fun hash held => absurd held (free hash),
      fun _ was => absurd was.2 nofun, fun tokenId kind token there => ?_,
      fun _ _ phase => phase.elim nofun nofun, fun _ _ returned => absurd returned nofun⟩
  obtain ⟨member, same⟩ := found tokenId kind token there
  exact ⟨token.tokenHash, same ▸ sound.mem_minted member⟩

theorem sound_claim {token : Token} (kind : call.kind = .redeem body)
    (phase : call.phase = .updating) (member : token ∈ s.tokens)
    (hash : token.tokenHash = service.hashToken body.tokenPlaintext)
    (unredeemed : token.redeemedAt = none)
    (free : ∀ other ∈ s.calls, other.holds service token.tokenHash = false)
    (onward : Onward Goes s.calls (s.calls.set index { call with phase := .claimed })) :
    Sound service (s.moved index { call with phase := .claimed }) := by
  have ok := sound.calls call (List.mem_of_getElem? turn)
  have claims : ∀ held, Call.holds service held { call with phase := .claimed } = true →
      token.tokenHash = held := by
    intro held holds
    obtain ⟨others, kinds, same, _⟩ := holds_iff.mp holds
    obtain rfl := Kind.redeem.inj (kind.symm.trans kinds)
    exact hash.trans same
  refine sound.moved turn onward (fun held holds => .inr ?_)
    ⟨fun others kinds _ _ _ => ok.signed others kinds (phase ▸ nofun) (phase ▸ nofun)
        (fun _ => phase ▸ nofun), fun held holds => ⟨token, member, claims held holds, unredeemed⟩,
      fun _ was => absurd was.2 nofun, fun _ other => absurd (kind.symm.trans other) nofun,
      fun _ other => absurd (kind.symm.trans other) nofun,
      fun _ other => absurd (kind.symm.trans other) nofun⟩
  exact claims held holds ▸ free

theorem sound_advance {phase : Phase} (change : call.phase = .updating ∧ phase = .lost ∨
      call.phase = .claimed ∧ phase = .committing ∨
      call.phase = .selected ∧ phase = .deleting ∧ call.row ≠ none ∧
        ∃ tokenId, call.kind = .revokePending tokenId)
    (onward : Onward Goes s.calls (s.calls.set index { call with phase := phase })) :
    Sound service (s.moved index { call with phase := phase }) := by
  have ok := sound.calls call (List.mem_of_getElem? turn)
  have held : ∀ hash, Call.holds service hash { call with phase := phase } = true →
      call.holds service hash = true := by
    intro hash holds
    obtain ⟨body, kind, same, now⟩ := holds_iff.mp holds
    refine holds_iff.mpr ⟨body, kind, same, ?_⟩
    rcases change with ⟨_, rfl⟩ | ⟨claimed, _⟩ | ⟨_, rfl, _⟩
    · exact now.elim nofun nofun
    · exact .inl claimed
    · exact now.elim nofun nofun
  have unreturned : phase ≠ .returned := by
    rcases change with ⟨_, rfl⟩ | ⟨_, rfl⟩ | ⟨_, rfl, _⟩ <;> exact nofun
  refine sound.moved turn onward (fun hash holds => .inl ⟨call, turn, held hash holds⟩)
    ⟨fun body kind _ _ _ => ?_, fun hash holds => ok.held hash (held hash holds),
      fun _ was => absurd was.2 unreturned, ok.found, fun tokenId kind now => ?_,
      fun _ _ returned => absurd returned unreturned⟩
  · rcases change with ⟨was, _⟩ | ⟨was, _⟩ | ⟨_, _, _, _, other⟩
    · exact ok.signed body kind (was ▸ nofun) (was ▸ nofun) (fun _ => was ▸ nofun)
    · exact ok.signed body kind (was ▸ nofun) (was ▸ nofun) (fun _ => was ▸ nofun)
    · exact absurd (kind.symm.trans other) nofun
  · rcases now with deleting | returned
    · rcases change with ⟨_, rfl⟩ | ⟨_, rfl⟩ | ⟨_, _, row, _⟩
      · cases deleting
      · cases deleting
      · exact row
    · exact absurd returned unreturned

theorem sound_fail {error : EnrollmentError}
    (onward : Onward Goes s.calls (s.calls.set index { call with phase := .failed error })) :
    Sound service (s.moved index { call with phase := .failed error }) := by
  have ok := sound.calls call (List.mem_of_getElem? turn)
  have free : ∀ hash, Call.holds service hash { call with phase := .failed error } ≠ true :=
    not_holds ⟨nofun, nofun⟩
  exact sound.moved turn onward (fun hash held => absurd held (free hash))
    ⟨fun _ _ _ _ running => absurd rfl (running error), fun hash held => absurd held (free hash),
      fun _ was => absurd was.2 nofun, ok.found, fun _ _ phase => phase.elim nofun nofun,
      fun _ _ returned => absurd returned nofun⟩

end

theorem sound_step (careful : Careful s step) (happens : Happens service s step t) :
    Sound service t := by
  have onward := onward_of_happens happens
  cases happens with
  | mints fresh => exact sound_mint sound fresh
  | starts fresh => exact sound_start sound fresh
  | selects turn _ found => exact sound_select sound turn found onward
  | signs turn kind phase => exact sound_sign sound turn kind phase onward rfl
  | claims turn kind phase member hash unredeemed free =>
    exact sound_claim sound turn kind phase member hash unredeemed free onward
  | commits turn kind phase fresh => exact sound_commit sound turn kind phase fresh onward rfl
  | @deletes index call tokenId turn kind phase free =>
    refine sound_delete sound turn kind phase free (careful call turn tokenId ?_) onward rfl
    simp only [Call.deletes, kind, phase, Option.mem_def]
  | advances turn change => exact sound_advance sound turn change onward
  | fails turn _ _ => exact sound_fail sound turn onward
  | ticks =>
    exact ⟨sound.ids, sound.hashes, sound.minted, sound.draws, sound.exclusive, sound.hosts,
      sound.made, sound.certificates, sound.certified, sound.named, fun call member =>
        have ok := sound.calls call member
        ⟨ok.signed, ok.held, ok.redeemed, ok.found, ok.deleting, ok.deleted⟩⟩

end

theorem sound_initial (now : Int) : Sound service (.initial now) where
  ids := List.nodup_nil
  hashes := List.nodup_nil
  minted := List.Sublist.refl _
  draws _ _ _ _ _ _ there := absurd there nofun
  exclusive _ _ _ _ _ there := absurd there nofun
  hosts := List.nodup_nil
  made _ member := absurd member List.not_mem_nil
  certificates := List.nodup_nil
  certified _ member := absurd member List.not_mem_nil
  named _ member := absurd member List.not_mem_nil
  calls _ member := absurd member List.not_mem_nil

structure Later (service : Service) (s t : Registry) : Prop where
  sound : Sound service t
  calls : Onward Goes s.calls t.calls
  kept : ∀ token ∈ s.tokens, token.redeemedAt ≠ none → token ∈ t.tokens

theorem kept_step (sound : Sound service s) (careful : Careful s step)
    (happens : Happens service s step t) {token : Token} (member : token ∈ s.tokens)
    (redeemed : token.redeemedAt ≠ none) : token ∈ t.tokens := by
  cases happens with
  | mints _ => exact List.mem_append_left _ member
  | @commits index call body turn kind phase _ =>
    obtain ⟨claimed, inside, hash, unredeemed⟩ :=
      (sound.calls call (List.mem_of_getElem? turn)).held _
        (holds_iff.mpr ⟨body, kind, rfl, .inr phase⟩)
    refine List.mem_map.mpr ⟨token, member, if_neg (fun same => ?_)⟩
    obtain rfl := key_injective sound.token_hashes member inside (same.trans hash.symm)
    exact redeemed unredeemed
  | @deletes index call tokenId turn kind phase _ =>
    have deleting : tokenId ∈ call.deletes := by
      simp only [Call.deletes, kind, phase, Option.mem_def]
    exact List.mem_filter.mpr ⟨member, decide_eq_true fun same =>
      redeemed (careful call turn tokenId deleting token member same)⟩
  | _ => exact member

theorem later_step {u : Registry} (later : Later service s t) (careful : Careful t step)
    (happens : Happens service t step u) : Later service s u where
  sound := sound_step later.sound careful happens
  calls := later.calls.trans Goes.trans (onward_of_happens happens)
  kept token member redeemed :=
    kept_step later.sound careful happens (later.kept token member redeemed) redeemed

theorem later_run {steps : List Step} (sound : Sound service s)
    (reached : run (Registry.step service) s steps = some t)
    (met : Meets (Registry.step service) Careful s steps) : Later service s t :=
  run_keeps (fun _ _ _ later careful stepped => later_step later careful (happens_of_step stepped))
    (show Later service s s from ⟨sound, Onward.refl Goes.refl _, fun _ member _ => member⟩)
    reached met

theorem Sound.drawn (sound : Sound service s) {other : Call} {others : Redemption}
    (member : call ∈ s.calls) (inside : other ∈ s.calls) (kind : call.kind = .redeem body)
    (kinds : other.kind = .redeem others) (same : body.hostId = others.hostId) : call = other := by
  obtain ⟨i, there⟩ := List.mem_iff_getElem?.mp member
  obtain ⟨j, here⟩ := List.mem_iff_getElem?.mp inside
  obtain rfl := sound.draws i j call other body others there here kind kinds same
  exact Option.some.inj (there.symm.trans here)

theorem not_failed {others : Redemption} (failed : call.Failed body)
    (redeemed : call.Redeemed others) : False := by
  obtain ⟨error, phase⟩ := failed.2
  exact absurd (phase.symm.trans redeemed.2) nofun

theorem laws_of_later (later : Later service s t) : Laws service s t := by
  have sound := later.sound
  have ok : ∀ {call : Call} {i : Nat}, t.calls[i]? = some call → CallOk service t call :=
    fun there => sound.calls _ (List.mem_of_getElem? there)
  refine ⟨?_, ?_, ?_, ?_, later.kept⟩
  · intro first second call other body others there here was also same
    obtain ⟨_, token, member, hash, named, _⟩ := (ok there).redeemed body was
    obtain ⟨_, twin, inside, twin_hash, twin_named, _⟩ := (ok here).redeemed others also
    obtain rfl := key_injective sound.token_hashes member inside
      (hash.trans (same ▸ twin_hash.symm))
    exact sound.draws first second call other body others there here was.1 also.1
      (Option.some.inj (named.symm.trans twin_named))
  · intro call member body was
    have ok := sound.calls call member
    obtain ⟨host, token, inside, hash, named, _⟩ := ok.redeemed body was
    have signed := ok.signed body was.1 (was.2 ▸ nofun) (was.2 ▸ nofun) (fun _ => was.2 ▸ nofun)
    exact ⟨filter_key_eq_singleton sound.hosts host,
      filter_key_eq_singleton sound.certificates signed, token, inside, hash, named⟩
  · intro call member body failed
    constructor
    · intro host inside same
      obtain ⟨other, there, others, was, drawn⟩ := sound.made host inside
      obtain rfl := sound.drawn member there failed.1 was.1 (same.symm.trans drawn.symm)
      exact not_failed failed was
    · intro token inside named
      obtain ⟨other, there, others, was, drawn⟩ := sound.named token inside _ named
      obtain rfl := sound.drawn member there failed.1 was.1 drawn.symm
      exact not_failed failed was
  · intro call member tokenId kind returned index other body there was listed
    obtain ⟨kept, here, goes⟩ := later.calls.mem member
    obtain rfl := goes.returned returned
    obtain ⟨_, token, inside, hash, _⟩ := (ok there).redeemed body was
    have pair := sound.mem_minted inside
    have same : (token.id, token.tokenHash) = (tokenId, service.hashToken body.tokenPlaintext) :=
      key_injective sound.hashes pair listed hash
    exact absurd (Prod.mk.inj same).1
      ((sound.calls kept here).deleted tokenId kind returned token inside)

theorem deletes_eq {tokenId : String} (deletes : call.deletes = some tokenId) :
    call.kind = .revokePending tokenId ∧ call.phase = .deleting := by
  unfold Call.deletes at deletes
  split at deletes
  · next kind phase => exact ⟨kind.trans (congrArg _ (Option.some.inj deletes)), phase⟩
  · cases deletes

theorem careful_of_laws (laws : Laws service s t) (stepped : s.step service step = some t) :
    Careful s step := by
  cases step with
  | effect index =>
    intro call turn tokenId deletes token member same
    obtain ⟨kind, phase⟩ := deletes_eq deletes
    have turn : s.calls[index]? = some call := turn
    simp only [Registry.step, turn, Option.bind_some, Registry.effect, kind, phase] at stepped
    split at stepped
    · cases stepped
    · cases stepped
      by_contra redeemed
      exact of_decide_eq_true (List.mem_filter.mp (laws.kept token member redeemed)).2 same
  | _ => trivial

/-- The tokens are single use exactly in the runs in which no token that has been redeemed is
deleted. -/
theorem single_use_iff (service : Service) (now : Int) (steps : List Step)
    (finishes : (run (Registry.step service) (.initial now) steps).isSome) :
    SingleUse service (.initial now) steps ↔
      Meets (Registry.step service) Careful (.initial now) steps := by
  constructor
  · intro single
    refine meets_of_splits (fun before step after s split reached => ?_)
    obtain ⟨last, run_all⟩ := Option.isSome_iff_exists.mp finishes
    rw [split, run_append, reached, Option.bind_some] at run_all
    obtain ⟨t, stepped, _⟩ := run_cons_eq_some.mp run_all
    refine careful_of_laws (single before [step] after s t ?_ reached ?_) stepped
    · rw [split, List.append_assoc, List.singleton_append]
    · exact run_cons_eq_some.mpr ⟨t, stepped, rfl⟩
  · intro met before between after s t split run_before run_between
    subst split
    have met_between := (meets_append run_before (List.append_assoc .. ▸ met))
    have sound := (later_run (sound_initial now) run_before met_between.1).sound
    exact laws_of_later
      (later_run sound run_between (meets_append run_between met_between.2).1)

def plain : Service :=
  ⟨Sha256.head, ⟨fun _ => .ok ⟨.ed25519, true⟩, fun _ => .ok ⟨.ed25519, true⟩⟩, 3600⟩

def agent (hostId : String) (serialNumber : Nat) : Redemption :=
  ⟨"hlb_t", [], "web", List.replicate 32 0, [], hostId, serialNumber⟩

theorem second_agent_fails :
    SingleUse plain (.initial 0)
      [.mint "i" "hlb_t" 900, .start (.redeem (agent "h" 1)), .start (.redeem (agent "g" 2)),
        .effect 0, .effect 1, .resume 0, .resume 1, .effect 0, .resume 0, .effect 0, .effect 1,
        .resume 1, .start (.revokePending "i"), .effect 2, .resume 2] :=
  (single_use_iff plain 0 _ (by decide)).mpr (by decide)

theorem redeemed_token_deleted :
    ¬ SingleUse plain (.initial 0)
      [.mint "i" "hlb_t" 900, .start (.redeem (agent "h" 1)), .effect 0, .resume 0,
        .start (.revokePending "i"), .effect 1, .resume 1, .effect 0, .resume 0, .effect 0,
        .effect 1] := by
  intro single
  have laws := single (_ :: _ :: _ :: _ :: _ :: _ :: _ :: _ :: _ :: [_]) [.effect 1] [] _ _
    rfl rfl rfl
  exact absurd (laws.kept ⟨"i", plain.hashToken "hlb_t", 900, some 0, some "h"⟩ (by decide) nofun)
    (by decide)

end HlHelper.Enrollment
