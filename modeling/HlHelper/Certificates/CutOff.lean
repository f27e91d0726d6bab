import HlHelper.Certificates.Revocation
import HlHelper.Library.Slots

/-! Old certificates are cut off in the runs in which no rotation or re-enrolment commits and
no revocation fails after it has marked its serial. -/

namespace HlHelper.Certificates

open HlHelper.Library

variable {ca : Ca}

inductive Happens (s : Server) : Server → Prop where
  | stays : Happens s s
  | enrolls {hostId serial agentPubkey} : serial ≠ "" →
      (∀ certificate ∈ s.certificates, certificate.hostId ≠ hostId) →
      Happens s
        { s with
          hosts := s.hosts ++ [⟨hostId, agentPubkey, some serial, "offline"⟩]
          certificates := s.certificates ++ [⟨hostId, serial⟩] }
  | reports {hostId status} : Happens s
      { s with
        hosts := s.hosts.map (fun host =>
          if host.id = hostId then { host with status := status } else host) }
  | removes {hostId} : Happens s { s with hosts := s.hosts.filter (·.id ≠ hostId) }
  | starts {kind phase} : phase = .selecting ∨ (∃ failure, phase = .failed failure) →
      Happens s { s with calls := s.calls ++ [⟨kind, phase, none, "", []⟩] }
  | selects {index call} : s.calls[index]? = some call → call.phase = .selecting →
      Happens s (s.moved index
        { call with phase := .selected, host := findKey Host.id s.hosts call.kind.hostId })
  | chooses {index call hostId reason host} : s.calls[index]? = some call →
      call.kind = .revoke hostId reason → call.phase = .selected → call.host = some host →
      Happens s (s.moved index { call with phase := .inserting, serial := host.revokedSerial })
  | advances {index call new} : s.calls[index]? = some call → new.kind = call.kind →
      new.host = call.host → new.marks = call.marks →
      (∀ hostId ∈ new.chose, call.chose = some hostId ∧ new.serial = call.serial) →
      Happens s (s.moved index new)
  | marks {index call hostId reason} : s.calls[index]? = some call →
      call.kind = .revoke hostId reason → call.phase = .updated →
      Happens s
        { s.moved index { call with phase := .auditing } with
          revoked := call.serial :: s.revoked
          dispatcher := Server.terminate s.dispatcher hostId }
  | commits {index call hostId reason} : s.calls[index]? = some call →
      call.kind = .revoke hostId reason → call.phase = .committing →
      Happens s
        { s.moved index { call with phase := .returned } with
          hosts := s.hosts.map (fun host =>
            if host.id = hostId then { host with status := "revoked" } else host)
          revokedCerts := s.revokedCerts ++ [⟨call.serial, hostId, reason⟩]
          revokedHosts := s.revokedHosts ++ [hostId] }
  | connects {certificate} : certificate ∈ s.certificates → certificate.serial ∉ s.revoked →
      (s.state certificate.hostId).connected = false →
      Happens s
        { s with
          streams := s.streams ++ [⟨certificate, true⟩]
          dispatcher := s.dispatcher.insert certificate.hostId
            { s.state certificate.hostId with connected := true } }
  | closes {index stream} : s.streams[index]? = some stream → stream.live = true →
      Happens s (s.close index stream)
  | restarts : Happens s
      { s with
        revoked := s.revokedCerts.map RevokedCert.serial
        dispatcher := OrderedMap.empty
        streams := []
        calls := [] }

variable {s t : Server} {index : Nat} {call new : Call} {step : Step}
  {hostId : String} {host : Host}

theorem chose_revoke (chose : call.chose = some hostId) :
    ∃ reason, call.kind = .revoke hostId reason := by
  unfold Call.chose at chose
  split at chose
  all_goals first
    | next kind _ => exact ⟨_, kind.trans (by rw [Option.some.inj chose])⟩
    | cases chose

theorem chose_of_marks (marks : call.marks = some hostId) : call.chose = some hostId := by
  unfold Call.marks at marks
  split at marks
  all_goals first
    | next kind phase => simp only [Call.chose, kind, phase, marks]
    | cases marks

theorem not_chose (other : ∀ hostId reason, call.kind ≠ .revoke hostId reason) :
    call.chose = none ∧ call.marks = none := by
  have none_chosen : call.chose = none := by
    cases chose : call.chose with
    | none => rfl
    | some hostId =>
      obtain ⟨reason, kind⟩ := chose_revoke chose
      exact absurd kind (other hostId reason)
  refine ⟨none_chosen, ?_⟩
  cases marks : call.marks with
  | none => rfl
  | some hostId => exact absurd (none_chosen.symm.trans (chose_of_marks marks)) nofun

theorem advances_unmarked (turn : s.calls[index]? = some call) (kind : new.kind = call.kind)
    (host : new.host = call.host) (unmarked : call.marks = none) (unchosen : new.chose = none) :
    Happens s (s.moved index new) := by
  refine .advances turn kind host ?_ (fun hostId chose => ?_)
  · cases marks : new.marks with
    | none => exact unmarked.symm
    | some hostId => exact absurd (unchosen.symm.trans (chose_of_marks marks)) nofun
  · exact absurd (unchosen.symm.trans chose) nofun

theorem failed_chose {failure : Failure} :
    Call.chose { call with phase := .failed failure } = none := by
  unfold Call.chose
  split
  all_goals first
    | rfl
    | next _ phase => cases phase

section

variable (turn : s.calls[index]? = some call)
include turn

theorem advances_fail {failure : Failure} (unmarked : call.marks = none) :
    Happens s (s.moved index { call with phase := .failed failure }) :=
  advances_unmarked turn rfl rfl unmarked failed_chose

theorem advances_other (kind : new.kind = call.kind) (host : new.host = call.host)
    (other : ∀ hostId reason, call.kind ≠ .revoke hostId reason) : Happens s (s.moved index new) :=
  advances_unmarked turn kind host (not_chose other).2
    (not_chose (fun hostId reason => kind ▸ other hostId reason)).1

theorem happens_renew {reason : String} (unmarked : call.marks = none)
    (careful : s.renewable call = false) (renewed : s.renew index call reason = some t) :
    Happens s t := by
  unfold Server.renew at renewed
  split at renewed
  · cases renewed
  · rw [careful, if_neg nofun] at renewed
    cases renewed
    exact advances_fail turn unmarked

theorem happens_effect (careful : Careful s (.effect index))
    (stepped : s.effect index call = some t) : Happens s t := by
  unfold Server.effect at stepped
  split at stepped
  · next phase =>
    cases stepped
    exact .selects turn phase
  · next hostId reason kind phase =>
    have chose : call.chose = some hostId := by simp only [Call.chose, kind, phase]
    have unmarked : call.marks = none := by simp only [Call.marks, kind, phase]
    split at stepped
    · cases stepped
    · split at stepped
      · cases stepped
        exact advances_fail turn unmarked
      · cases stepped
        refine .advances turn rfl rfl (by simp only [Call.marks, kind, phase]) ?_
        simp only [Call.chose, kind, phase, Option.mem_def, and_true, imp_self, implies_true]
  · next hostId reason kind phase =>
    have unmarked : call.marks = none := by simp only [Call.marks, kind, phase]
    split at stepped
    · cases stepped
    · split at stepped
      · cases stepped
        refine .advances turn rfl rfl (by simp only [Call.marks, kind, phase]) ?_
        simp only [Call.chose, kind, phase, Option.mem_def, and_true, imp_self, implies_true]
      · cases stepped
        exact advances_fail turn unmarked
  · next hostId reason kind phase =>
    cases stepped
    refine .advances turn rfl rfl (by simp only [Call.marks, kind, phase]) ?_
    simp only [Call.chose, kind, phase, Option.mem_def, and_true, imp_self, implies_true]
  · next hostId reason kind phase =>
    cases stepped
    exact .commits turn kind phase
  · next request kind phase =>
    cases stepped
    have other : ∀ hostId reason, call.kind ≠ .revoke hostId reason := fun _ _ => kind ▸ nofun
    exact advances_other turn rfl rfl other
  · next context kind phase =>
    have other : ∀ hostId reason, call.kind ≠ .revoke hostId reason := fun _ _ => kind ▸ nofun
    have unmarked := (not_chose other).2
    exact happens_renew turn unmarked (careful call turn phase unmarked) stepped
  · next request kind phase =>
    have other : ∀ hostId reason, call.kind ≠ .revoke hostId reason := fun _ _ => kind ▸ nofun
    have unmarked := (not_chose other).2
    exact happens_renew turn unmarked (careful call turn phase unmarked) stepped
  · cases stepped

theorem happens_resume (stepped : s.resume ca index call = some t) : Happens s t := by
  unfold Server.resume at stepped
  dsimp only at stepped
  split at stepped
  · next hostId reason kind phase =>
    have unmarked : call.marks = none := by simp only [Call.marks, kind, phase]
    split at stepped
    · cases stepped
      exact advances_fail turn unmarked
    · next host row =>
      split at stepped
      · cases stepped
        exact advances_fail turn unmarked
      · cases stepped
        exact .chooses turn kind phase row
  · next hostId reason kind phase =>
    cases stepped
    refine .advances turn rfl rfl (by simp only [Call.marks, kind, phase]) ?_
    simp only [Call.chose, kind, phase, Option.mem_def, and_true, imp_self, implies_true]
  · next hostId reason kind phase =>
    cases stepped
    exact .marks turn kind phase
  · next hostId reason kind phase =>
    cases stepped
    refine .advances turn rfl rfl (by simp only [Call.marks, kind, phase]) ?_
    simp only [Call.chose, kind, phase, Option.mem_def, and_true, imp_self, implies_true]
  · next context kind phase =>
    have other : ∀ hostId reason, call.kind ≠ .revoke hostId reason := fun _ _ => kind ▸ nofun
    have unmarked := (not_chose other).2
    split at stepped
    · cases stepped
      exact advances_fail turn unmarked
    · split at stepped
      · cases stepped
        exact advances_fail turn unmarked
      · cases stepped
        exact advances_other turn rfl rfl other
  · next request kind phase =>
    have other : ∀ hostId reason, call.kind ≠ .revoke hostId reason := fun _ _ => kind ▸ nofun
    have unmarked := (not_chose other).2
    split at stepped
    · cases stepped
      exact advances_fail turn unmarked
    · split at stepped
      · cases stepped
        exact advances_fail turn unmarked
      · cases stepped
        exact advances_other turn rfl rfl other
  · next request kind phase =>
    cases stepped
    have other : ∀ hostId reason, call.kind ≠ .revoke hostId reason := fun _ _ => kind ▸ nofun
    exact advances_other turn rfl rfl other
  · cases stepped

end

theorem begins_cases (kind : Kind) :
    Server.begins kind = .selecting ∨ ∃ failure, Server.begins kind = .failed failure := by
  unfold Server.begins
  split
  · exact .inl rfl
  · split
    · exact .inl rfl
    · exact .inr ⟨_, rfl⟩
  · split
    · exact .inr ⟨_, rfl⟩
    · split
      · exact .inr ⟨_, rfl⟩
      · exact .inl rfl

theorem happens_of_step (careful : Careful s step) (stepped : s.step ca step = some t) :
    Happens s t := by
  cases step with
  | enroll hostId serial agentPubkey =>
    simp only [Server.step] at stepped
    split at stepped
    · cases stepped
    · next fresh =>
      cases stepped
      obtain ⟨nonempty, fresh⟩ := not_or.mp fresh
      obtain ⟨fresh, _⟩ := not_or.mp fresh
      refine .enrolls nonempty (fun certificate member same => fresh ?_)
      refine List.any_eq_true.mpr ⟨certificate, member, ?_⟩
      rw [Bool.or_eq_true]
      exact .inl (decide_eq_true same)
  | report hostId status =>
    simp only [Server.step] at stepped
    split at stepped
    · cases stepped
    · exact Option.some.inj stepped ▸ .reports
  | remove hostId =>
    simp only [Server.step] at stepped
    split at stepped
    · cases stepped
    · exact Option.some.inj stepped ▸ .removes
  | start kind => exact Option.some.inj stepped ▸ .starts (begins_cases kind)
  | effect index =>
    obtain ⟨call, turn, moved⟩ := Option.bind_eq_some_iff.mp stepped
    exact happens_effect turn careful moved
  | resume index =>
    obtain ⟨call, turn, moved⟩ := Option.bind_eq_some_iff.mp stepped
    exact happens_resume turn moved
  | fail index =>
    obtain ⟨call, turn, moved⟩ := Option.bind_eq_some_iff.mp stepped
    unfold Server.fail at moved
    split at moved
    · cases moved
    · cases moved
    · cases moved
      exact advances_fail turn (careful call turn)
  | connect certificate =>
    simp only [Server.step] at stepped
    split at stepped
    · cases stepped
    · next known =>
      split at stepped
      · next accepted =>
        cases stepped
        simp only [Server.accepts, Server.isRevoked, Bool.and_eq_true, Bool.not_eq_true',
          decide_eq_false_iff_not] at accepted
        exact .connects (not_not.mp known) accepted.1 accepted.2
      · exact Option.some.inj stepped ▸ .stays
  | serve index =>
    obtain ⟨stream, turn, served⟩ := Option.bind_eq_some_iff.mp stepped
    split at served
    · cases served
    · next live =>
      split at served
      · exact Option.some.inj served ▸ .closes turn (by simpa using live)
      · exact Option.some.inj served ▸ .stays
  | disconnect index =>
    obtain ⟨stream, turn, closed⟩ := Option.bind_eq_some_iff.mp stepped
    split at closed
    · cases closed
    · next live => exact Option.some.inj closed ▸ .closes turn (by simpa using live)
  | restart => exact Option.some.inj stepped ▸ .restarts

def stateOf (dispatcher : OrderedMap String HostState) (hostId : String) : HostState :=
  (dispatcher.get? hostId).getD ⟨false, false⟩

theorem stateOf_insert (dispatcher : OrderedMap String HostState) (hostId other : String)
    (state : HostState) : stateOf (dispatcher.insert hostId state) other =
      if other = hostId then state else stateOf dispatcher other := by
  split
  · next same =>
    subst same
    rw [stateOf, OrderedMap.get?_insert_self, Option.getD_some]
  · next different =>
    rw [stateOf, OrderedMap.get?_insert_other dispatcher different, stateOf]

theorem stateOf_terminate (dispatcher : OrderedMap String HostState) (hostId other : String) :
    stateOf (Server.terminate dispatcher hostId) other =
      if other = hostId ∧ (stateOf dispatcher hostId).connected = true then
        { stateOf dispatcher other with terminate := true }
      else stateOf dispatcher other := by
  cases held : dispatcher.get? hostId with
  | none =>
    have absent : (stateOf dispatcher hostId).connected ≠ true := by simp [stateOf, held]
    rw [if_neg (fun both => absent both.2), Server.terminate, held]
  | some state =>
    have here : stateOf dispatcher hostId = state := by simp [stateOf, held]
    rw [here, Server.terminate, held]
    dsimp only
    by_cases connected : state.connected = true
    · rw [if_pos connected, stateOf_insert]
      by_cases same : other = hostId
      · rw [if_pos same, if_pos ⟨same, connected⟩, same, here]
      · rw [if_neg same, if_neg (fun both => same both.1)]
    · rw [if_neg connected, if_neg (fun both => connected both.2)]

theorem stateOf_unregister (dispatcher : OrderedMap String HostState) (hostId other : String) :
    stateOf (Server.unregister dispatcher hostId) other =
      if other = hostId then { stateOf dispatcher other with connected := false }
      else stateOf dispatcher other := by
  cases held : dispatcher.get? hostId with
  | none =>
    have here : stateOf dispatcher hostId = ⟨false, false⟩ := by simp [stateOf, held]
    rw [Server.unregister, held]
    by_cases same : other = hostId
    · rw [if_pos same, same, here]
    · rw [if_neg same]
  | some state =>
    have here : stateOf dispatcher hostId = state := by simp [stateOf, held]
    rw [Server.unregister, held]
    dsimp only
    rw [stateOf_insert]
    by_cases same : other = hostId
    · rw [if_pos same, if_pos same, same, here]
    · rw [if_neg same, if_neg same]

def Certified (s : Server) (host : Host) : Prop :=
  ∃ serial, host.certSerial = some serial ∧ serial ≠ "" ∧ ⟨host.id, serial⟩ ∈ s.certificates

def Server.Closing (s : Server) (hostId : String) : Prop :=
  ∀ stream ∈ s.streams, stream.live = true → stream.certificate.hostId = hostId →
    (s.state hostId).terminate = true

structure CallOk (s : Server) (call : Call) : Prop where
  host : ∀ host ∈ call.host, host.id = call.kind.hostId ∧ Certified s host
  chose : ∀ hostId ∈ call.chose, ⟨hostId, call.serial⟩ ∈ s.certificates
  marks : ∀ hostId ∈ call.marks, call.serial ∈ s.revoked ∧ s.Closing hostId

structure Sound (s : Server) : Prop where
  hosts : ∀ host ∈ s.hosts, Certified s host
  unique : (s.certificates.map Certificate.hostId).Nodup
  revokedHosts : ∀ hostId ∈ s.revokedHosts, s.Closing hostId ∧
    ∃ row ∈ s.revokedCerts, ⟨hostId, row.serial⟩ ∈ s.certificates
  stored : ∀ row ∈ s.revokedCerts, row.serial ∈ s.revoked
  superseded : s.superseded = []
  only : ∀ serial ∈ s.revoked, s.Cut serial
  signalled : ∀ hostId, (s.state hostId).terminate = true → s.CutHost hostId
  streams : ∀ stream ∈ s.streams, stream.live = true →
    (s.state stream.certificate.hostId).connected = true ∧ stream.certificate ∈ s.certificates
  one : ∀ (i j : Nat) first second, s.streams[i]? = some first → s.streams[j]? = some second →
    first.live = true → second.live = true →
    first.certificate.hostId = second.certificate.hostId → i = j
  calls : ∀ call ∈ s.calls, CallOk s call

theorem Certified.mono (certified : Certified s host)
    (certificates : ∀ certificate ∈ s.certificates, certificate ∈ t.certificates) :
    Certified t host := by
  obtain ⟨serial, held, nonempty, member⟩ := certified
  exact ⟨serial, held, nonempty, certificates _ member⟩

theorem CallOk.kept (ok : CallOk s call)
    (certificates : ∀ certificate ∈ s.certificates, certificate ∈ t.certificates)
    (revoked : ∀ serial ∈ s.revoked, serial ∈ t.revoked)
    (closing : ∀ hostId ∈ call.marks, s.Closing hostId → t.Closing hostId) : CallOk t call where
  host host row := ⟨(ok.host host row).1, (ok.host host row).2.mono certificates⟩
  chose hostId chose := certificates _ (ok.chose hostId chose)
  marks hostId marks :=
    ⟨revoked _ (ok.marks hostId marks).1, closing hostId marks (ok.marks hostId marks).2⟩

section

variable (sound : Sound s)
include sound

theorem Sound.certificate_eq {first second : Certificate} (left : first ∈ s.certificates)
    (right : second ∈ s.certificates) (same : first.hostId = second.hostId) : first = second :=
  key_injective sound.unique left right same

theorem Sound.moved (turn : s.calls[index]? = some call) (marks : new.marks = call.marks)
    (serial : ∀ hostId ∈ call.marks, new.serial = call.serial) (own : CallOk s new) :
    Sound (s.moved index new) := by
  have inside := (List.getElem?_eq_some_iff.mp turn).1
  have marking : ∀ other ∈ s.calls, other.marks.isSome → ∃ later ∈ s.calls.set index new,
      later.marks = other.marks ∧ later.serial = other.serial := by
    intro other member some_mark
    obtain ⟨i, there⟩ := List.mem_iff_getElem?.mp member
    by_cases same : index = i
    · subst same
      obtain rfl := Option.some.inj (turn.symm.trans there)
      obtain ⟨hostId, mark⟩ := Option.isSome_iff_exists.mp some_mark
      exact ⟨new, List.mem_set inside _, marks, serial hostId mark⟩
    · have kept : (s.calls.set index new)[i]? = some other := by
        rwa [List.getElem?_set_ne same]
      exact ⟨other, List.mem_of_getElem? kept, rfl, rfl⟩
  refine ⟨sound.hosts, sound.unique, sound.revokedHosts, sound.stored, sound.superseded,
    fun serial member => ?_, fun hostId signal => ?_, sound.streams, sound.one,
    fun other member => ?_⟩
  · refine (sound.only serial member).imp_right (fun ⟨other, there, some_mark, same⟩ => ?_)
    obtain ⟨later, here, later_marks, later_serial⟩ := marking other there some_mark
    exact ⟨later, here, later_marks ▸ some_mark, later_serial.trans same⟩
  · refine (sound.signalled hostId signal).imp_right (fun ⟨other, there, mark⟩ => ?_)
    obtain ⟨later, here, later_marks, _⟩ := marking other there (mark ▸ rfl)
    exact ⟨later, here, later_marks.trans mark⟩
  · rcases List.mem_or_eq_of_mem_set member with old | rfl
    · exact (sound.calls other old).kept (fun _ => id) (fun _ => id) (fun _ _ => id)
    · exact own.kept (fun _ => id) (fun _ => id) (fun _ _ => id)

theorem Sound.rehosted {hosts : List Host} (certified : ∀ host ∈ hosts, Certified s host) :
    Sound { s with hosts := hosts } where
  __ := sound
  hosts := certified
  calls call member := (sound.calls call member).kept (fun _ => id) (fun _ => id) (fun _ _ => id)

theorem certified_status {status : String}
    (member : host ∈ s.hosts.map (fun host =>
      if host.id = hostId then { host with status := status } else host)) : Certified s host := by
  obtain ⟨old, inside, rfl⟩ := List.mem_map.mp member
  split
  · exact sound.hosts old inside
  · exact sound.hosts old inside

theorem sound_enroll {serial : String} {agentPubkey : Bytes} (nonempty : serial ≠ "")
    (fresh : ∀ certificate ∈ s.certificates, certificate.hostId ≠ hostId) :
    Sound
      { s with
        hosts := s.hosts ++ [⟨hostId, agentPubkey, some serial, "offline"⟩]
        certificates := s.certificates ++ [⟨hostId, serial⟩] } where
  __ := sound
  hosts host member := by
    rcases List.mem_append.mp member with old | single
    · exact (sound.hosts host old).mono (fun _ => List.mem_append_left _)
    · obtain rfl := List.mem_singleton.mp single
      exact ⟨serial, rfl, nonempty, List.mem_append_right _ List.mem_cons_self⟩
  unique := by
    show ((s.certificates ++ (some (Certificate.mk hostId serial)).toList).map
      Certificate.hostId).Nodup
    refine unique_append sound.unique (fun row same listed => ?_)
    cases same
    obtain ⟨certificate, member, same⟩ := List.mem_map.mp listed
    exact fresh certificate member same
  revokedHosts hostId member := by
    obtain ⟨closing, row, stored, certificate⟩ := sound.revokedHosts hostId member
    exact ⟨closing, row, stored, List.mem_append_left _ certificate⟩
  streams stream member live :=
    ⟨(sound.streams stream member live).1,
      List.mem_append_left _ (sound.streams stream member live).2⟩
  calls call member :=
    (sound.calls call member).kept (fun _ => List.mem_append_left _) (fun _ => id) (fun _ _ => id)

theorem sound_start {kind : Kind} {phase : Phase}
    (begins : phase = .selecting ∨ ∃ failure, phase = .failed failure) :
    Sound { s with calls := s.calls ++ [⟨kind, phase, none, "", []⟩] } := by
  have unchosen : Call.chose ⟨kind, phase, none, "", []⟩ = none := by
    rcases begins with rfl | ⟨failure, rfl⟩
    · cases kind with
      | _ => rfl
    · cases kind with
      | _ => rfl
  refine ⟨sound.hosts, sound.unique, sound.revokedHosts, sound.stored, sound.superseded,
    fun serial member => ?_, fun hostId signal => ?_, sound.streams, sound.one,
    fun call member => ?_⟩
  · refine (sound.only serial member).imp_right (fun ⟨call, there, rest⟩ => ?_)
    exact ⟨call, List.mem_append_left _ there, rest⟩
  · refine (sound.signalled hostId signal).imp_right (fun ⟨call, there, mark⟩ => ?_)
    exact ⟨call, List.mem_append_left _ there, mark⟩
  · rcases List.mem_append.mp member with old | single
    · exact (sound.calls call old).kept (fun _ => id) (fun _ => id) (fun _ _ => id)
    · obtain rfl := List.mem_singleton.mp single
      exact ⟨nofun, fun _ chose => absurd (unchosen.symm.trans chose) nofun,
        fun _ marks => absurd (unchosen.symm.trans (chose_of_marks marks)) nofun⟩

theorem sound_select (turn : s.calls[index]? = some call) (phase : call.phase = .selecting) :
    Sound (s.moved index
      { call with phase := .selected, host := findKey Host.id s.hosts call.kind.hostId }) := by
  have unmarked : call.marks = none := by
    cases kind : call.kind with
    | _ => simp only [Call.marks, kind, phase]
  have unchosen : Call.chose { call with
      phase := .selected, host := findKey Host.id s.hosts call.kind.hostId } = none := by
    cases kind : call.kind with
    | _ => simp only [Call.chose]
  have no_mark : Call.marks { call with
      phase := .selected, host := findKey Host.id s.hosts call.kind.hostId } = none := by
    cases kind : call.kind with
    | _ => simp only [Call.marks]
  refine sound.moved turn (no_mark.trans unmarked.symm)
    (fun _ marks => absurd (unmarked.symm.trans marks) nofun)
    ⟨fun host found => ?_, fun _ chose => absurd (unchosen.symm.trans chose) nofun,
      fun _ marks => absurd (no_mark.symm.trans marks) nofun⟩
  obtain ⟨member, same⟩ := findKey_some found
  exact ⟨same, sound.hosts host member⟩

theorem sound_choose {reason : Option String} (turn : s.calls[index]? = some call)
    (kind : call.kind = .revoke hostId reason) (phase : call.phase = .selected)
    (row : call.host = some host) :
    Sound (s.moved index { call with phase := .inserting, serial := host.revokedSerial }) := by
  have unmarked : call.marks = none := by simp only [Call.marks, kind, phase]
  have no_mark : Call.marks { call with
      phase := .inserting, serial := host.revokedSerial } = none := by
    simp only [Call.marks, kind]
  have ok := sound.calls call (List.mem_of_getElem? turn)
  refine sound.moved turn (no_mark.trans unmarked.symm)
    (fun _ marks => absurd (unmarked.symm.trans marks) nofun)
    ⟨ok.host, fun other chose => ?_, fun _ marks => absurd (no_mark.symm.trans marks) nofun⟩
  obtain ⟨own, serial, held, nonempty, member⟩ := ok.host host row
  simp only [Call.chose, kind, Option.mem_def, Option.some.injEq] at chose
  subst chose
  have same : host.revokedSerial = serial := by
    simp only [Host.revokedSerial, held, if_neg nonempty]
  rw [kind] at own
  show (⟨hostId, host.revokedSerial⟩ : Certificate) ∈ s.certificates
  rw [same]
  have own : host.id = hostId := own
  exact own ▸ member

theorem sound_advance (turn : s.calls[index]? = some call) (kind : new.kind = call.kind)
    (host : new.host = call.host) (marks : new.marks = call.marks)
    (chose : ∀ hostId ∈ new.chose, call.chose = some hostId ∧ new.serial = call.serial) :
    Sound (s.moved index new) := by
  have ok := sound.calls call (List.mem_of_getElem? turn)
  have serial : ∀ hostId ∈ call.marks, new.serial = call.serial := fun hostId mark =>
    (chose hostId (chose_of_marks (marks.trans mark))).2
  refine sound.moved turn marks serial ⟨?_, fun hostId chosen => ?_, fun hostId mark => ?_⟩
  · rw [host, kind]
    exact ok.host
  · obtain ⟨was, same⟩ := chose hostId chosen
    exact same ▸ ok.chose hostId was
  · rw [marks] at mark
    exact serial hostId mark ▸ ok.marks hostId mark

end

theorem terminate_keeps {other : String} (signalled : (s.state other).terminate = true) :
    (stateOf (Server.terminate s.dispatcher hostId) other).terminate = true := by
  rw [stateOf_terminate]
  split
  · rfl
  · exact signalled

theorem sound_mark (sound : Sound s) {reason : Option String} (turn : s.calls[index]? = some call)
    (kind : call.kind = .revoke hostId reason) (phase : call.phase = .updated) :
    Sound
      { s.moved index { call with phase := .auditing } with
        revoked := call.serial :: s.revoked
        dispatcher := Server.terminate s.dispatcher hostId } := by
  have inside := (List.getElem?_eq_some_iff.mp turn).1
  have ok := sound.calls call (List.mem_of_getElem? turn)
  have marks : Call.marks { call with phase := .auditing } = some hostId := by
    simp only [Call.marks, kind]
  have chose : call.chose = some hostId := by simp only [Call.chose, kind, phase]
  have placed :
      { call with phase := .auditing } ∈ s.calls.set index { call with phase := .auditing } :=
    List.mem_set inside _
  have kept : ∀ other ∈ s.calls, other.marks.isSome →
      other ∈ s.calls.set index { call with phase := .auditing } := by
    intro other member marking
    obtain ⟨i, there⟩ := List.mem_iff_getElem?.mp member
    have apart : index ≠ i := by
      rintro rfl
      obtain rfl := Option.some.inj (turn.symm.trans there)
      simp only [Call.marks, kind, phase, Option.isSome_none] at marking
      cases marking
    have still : (s.calls.set index { call with phase := .auditing })[i]? = some other := by
      rwa [List.getElem?_set_ne apart]
    exact List.mem_of_getElem? still
  have closing : ∀ other, s.Closing other → Server.Closing
      { s.moved index { call with phase := .auditing } with
        revoked := call.serial :: s.revoked
        dispatcher := Server.terminate s.dispatcher hostId } other :=
    fun other closes stream member live same => terminate_keeps (closes stream member live same)
  refine ⟨sound.hosts, sound.unique, fun other member => ?_, fun row member => ?_,
    sound.superseded, fun serial member => ?_, fun other signal => ?_, fun stream member live => ?_,
    sound.one, fun other member => ?_⟩
  · exact ⟨closing other (sound.revokedHosts other member).1, (sound.revokedHosts other member).2⟩
  · exact List.mem_cons_of_mem _ (sound.stored row member)
  · rcases List.mem_cons.mp member with rfl | old
    · exact .inr ⟨_, placed, marks ▸ rfl, rfl⟩
    · refine (sound.only serial old).imp_right (fun ⟨other, there, marking, same⟩ => ?_)
      exact ⟨other, kept other there marking, marking, same⟩
  · have signal : (stateOf (Server.terminate s.dispatcher hostId) other).terminate = true := signal
    rw [stateOf_terminate] at signal
    split at signal
    · next here => exact .inr ⟨_, placed, here.1 ▸ marks⟩
    · refine (sound.signalled other signal).imp_right (fun ⟨marking, there, mark⟩ => ?_)
      exact ⟨marking, kept marking there (mark ▸ rfl), mark⟩
  · refine ⟨?_, (sound.streams stream member live).2⟩
    show (stateOf (Server.terminate s.dispatcher hostId) stream.certificate.hostId).connected = true
    rw [stateOf_terminate]
    split
    · exact (sound.streams stream member live).1
    · exact (sound.streams stream member live).1
  · rcases List.mem_or_eq_of_mem_set member with old | rfl
    · exact (sound.calls other old).kept (fun _ => id) (fun _ => List.mem_cons_of_mem _)
        (fun _ _ => closing _)
    · refine ⟨ok.host, fun chosen same => ?_, fun marked same => ?_⟩
      · have same : Call.chose { call with phase := .auditing } = some chosen := same
        simp only [Call.chose, kind, Option.some.injEq] at same
        exact same ▸ ok.chose hostId chose
      · obtain rfl := Option.some.inj (marks.symm.trans same)
        refine ⟨List.mem_cons_self, fun stream there live own => ?_⟩
        show (stateOf (Server.terminate s.dispatcher hostId) hostId).terminate = true
        have connected : (stateOf s.dispatcher hostId).connected = true :=
          own ▸ (sound.streams stream there live).1
        rw [stateOf_terminate, if_pos ⟨rfl, connected⟩]

theorem mem_set_or {calls : List Call} {other : Call} (turn : calls[index]? = some call)
    (member : other ∈ calls) : other = call ∨ other ∈ calls.set index new := by
  obtain ⟨i, there⟩ := List.mem_iff_getElem?.mp member
  by_cases same : index = i
  · subst same
    exact .inl (Option.some.inj (there.symm.trans turn))
  · refine .inr (List.mem_of_getElem? (i := i) ?_)
    rwa [List.getElem?_set_ne same]

theorem sound_commit (sound : Sound s) {reason : Option String} (turn : s.calls[index]? = some call)
    (kind : call.kind = .revoke hostId reason) (phase : call.phase = .committing) :
    Sound
      { s.moved index { call with phase := .returned } with
        hosts := s.hosts.map (fun host =>
          if host.id = hostId then { host with status := "revoked" } else host)
        revokedCerts := s.revokedCerts ++ [⟨call.serial, hostId, reason⟩]
        revokedHosts := s.revokedHosts ++ [hostId] } := by
  have ok := sound.calls call (List.mem_of_getElem? turn)
  have marks : call.marks = some hostId := by simp only [Call.marks, kind, phase]
  obtain ⟨refused, closing⟩ := ok.marks hostId marks
  have unchosen : Call.chose { call with phase := .returned } = none := by
    simp only [Call.chose, kind]
  have unmarked : Call.marks { call with phase := .returned } = none := by
    simp only [Call.marks, kind]
  refine ⟨fun host member => ?_, sound.unique, fun other member => ?_, fun row member => ?_,
    sound.superseded, fun serial member => ?_, fun other signal => ?_, sound.streams, sound.one,
    fun other member => ?_⟩
  · exact (certified_status sound member).mono (fun _ => id)
  · rcases List.mem_append.mp member with old | single
    · obtain ⟨closes, row, stored, certificate⟩ := sound.revokedHosts other old
      exact ⟨closes, row, List.mem_append_left _ stored, certificate⟩
    · obtain rfl := List.mem_singleton.mp single
      exact ⟨closing, _, List.mem_append_right _ List.mem_cons_self,
        ok.chose other (chose_of_marks marks)⟩
  · rcases List.mem_append.mp member with old | single
    · exact sound.stored row old
    · obtain rfl := List.mem_singleton.mp single
      exact refused
  · rcases sound.only serial member with ⟨row, stored, same⟩ | ⟨other, there, marking, same⟩
    · exact .inl ⟨row, List.mem_append_left _ stored, same⟩
    · rcases mem_set_or turn there with rfl | kept
      · exact .inl ⟨_, List.mem_append_right _ List.mem_cons_self, same⟩
      · exact .inr ⟨other, kept, marking, same⟩
  · rcases sound.signalled other signal with old | ⟨marking, there, mark⟩
    · exact .inl (List.mem_append_left _ old)
    · rcases mem_set_or turn there with rfl | kept
      · obtain rfl := Option.some.inj (marks.symm.trans mark)
        exact .inl (List.mem_append_right _ List.mem_cons_self)
      · exact .inr ⟨marking, kept, mark⟩
  · rcases List.mem_or_eq_of_mem_set member with old | rfl
    · exact (sound.calls other old).kept (fun _ => id) (fun _ => id) (fun _ _ => id)
    · exact ⟨fun host row => ⟨(ok.host host row).1, (ok.host host row).2.mono (fun _ => id)⟩,
        fun _ chose => absurd (unchosen.symm.trans chose) nofun,
        fun _ mark => absurd (unmarked.symm.trans mark) nofun⟩

theorem sound_connect (sound : Sound s) {certificate : Certificate}
    (known : certificate ∈ s.certificates) (passes : certificate.serial ∉ s.revoked)
    (free : (s.state certificate.hostId).connected = false) :
    Sound
      { s with
        streams := s.streams ++ [⟨certificate, true⟩]
        dispatcher := s.dispatcher.insert certificate.hostId
          { s.state certificate.hostId with connected := true } } := by
  have terminate_eq : ∀ other, (stateOf (s.dispatcher.insert certificate.hostId
      { s.state certificate.hostId with connected := true }) other).terminate =
        (s.state other).terminate := by
    intro other
    rw [stateOf_insert]
    split
    · next same => rw [same]
    · rfl
  -- a host that is cut off has its one certificate refused
  have elsewhere : ∀ hostId serial, ⟨hostId, serial⟩ ∈ s.certificates → serial ∈ s.revoked →
      certificate.hostId ≠ hostId := by
    intro hostId serial issued refused same
    have one : certificate = ⟨hostId, serial⟩ := sound.certificate_eq known issued same
    exact passes (one ▸ refused)
  have closing : ∀ hostId, certificate.hostId ≠ hostId → s.Closing hostId → Server.Closing
      { s with
        streams := s.streams ++ [⟨certificate, true⟩]
        dispatcher := s.dispatcher.insert certificate.hostId
          { s.state certificate.hostId with connected := true } } hostId := by
    intro hostId apart closes stream member live own
    rcases List.mem_append.mp member with old | single
    · exact (terminate_eq hostId).trans (closes stream old live own)
    · obtain rfl := List.mem_singleton.mp single
      exact absurd own apart
  refine ⟨sound.hosts, sound.unique, fun hostId member => ?_, sound.stored, sound.superseded,
    sound.only, fun hostId signal => ?_, fun stream member live => ?_,
    fun i j first second left right live other same => ?_, fun call member => ?_⟩
  · obtain ⟨closes, row, stored, issued⟩ := sound.revokedHosts hostId member
    exact ⟨closing hostId (elsewhere hostId _ issued (sound.stored row stored)) closes, row,
      stored, issued⟩
  · exact sound.signalled hostId ((terminate_eq hostId).symm.trans signal)
  · show (stateOf (s.dispatcher.insert _ _) stream.certificate.hostId).connected = true ∧ _
    rw [stateOf_insert]
    rcases List.mem_append.mp member with old | single
    · refine ⟨?_, (sound.streams stream old live).2⟩
      split
      · rfl
      · exact (sound.streams stream old live).1
    · obtain rfl := List.mem_singleton.mp single
      exact ⟨by rw [if_pos rfl], known⟩
  · have taken : ∀ (k : Nat) stream, s.streams[k]? = some stream → stream.live = true →
        stream.certificate.hostId ≠ certificate.hostId := by
      intro k stream there alive own
      have connected := (sound.streams stream (List.mem_of_getElem? there) alive).1
      rw [own, free] at connected
      cases connected
    have place : ∀ (k : Nat) stream, (s.streams ++ [⟨certificate, true⟩])[k]? = some stream →
        s.streams[k]? = some stream ∨ k = s.streams.length ∧ stream = ⟨certificate, true⟩ := by
      intro k stream there
      by_cases inside : k < s.streams.length
      · exact .inl (by rwa [List.getElem?_append_left inside] at there)
      · exact .inr (getElem?_concat_of_le there (Nat.le_of_not_lt inside))
    rcases place i first left with old | ⟨last, rfl⟩
    · rcases place j second right with older | ⟨_, rfl⟩
      · exact sound.one i j first second old older live other same
      · exact absurd same (taken i first old live)
    · rcases place j second right with older | ⟨final, _⟩
      · exact absurd same.symm (taken j second older other)
      · exact last.trans final.symm
  · have ok := sound.calls call member
    refine ok.kept (fun _ => id) (fun _ => id) (fun hostId mark => ?_)
    exact closing hostId (elsewhere hostId _ (ok.chose hostId (chose_of_marks mark))
      (ok.marks hostId mark).1)

theorem sound_close (sound : Sound s) {stream : Stream} (turn : s.streams[index]? = some stream)
    (live : stream.live = true) : Sound (s.close index stream) := by
  have terminate_eq : ∀ other, (stateOf (Server.unregister s.dispatcher
      stream.certificate.hostId) other).terminate = (s.state other).terminate := by
    intro other
    rw [stateOf_unregister]
    split
    · rfl
    · rfl
  have open_before : ∀ (i : Nat) other, (s.streams.set index { stream with live := false })[i]? =
      some other → other.live = true → s.streams[i]? = some other ∧ i ≠ index := by
    intro i other there alive
    rcases getElem?_set_cases there with kept | ⟨_, rfl⟩
    · exact kept
    · cases alive
  have closing : ∀ hostId, s.Closing hostId → (s.close index stream).Closing hostId := by
    intro hostId closes other member alive own
    obtain ⟨i, there⟩ := List.mem_iff_getElem?.mp member
    have before := (open_before i other there alive).1
    exact (terminate_eq hostId).trans (closes other (List.mem_of_getElem? before) alive own)
  refine ⟨sound.hosts, sound.unique, fun hostId member => ?_, sound.stored, sound.superseded,
    sound.only, fun hostId signal => ?_, fun other member alive => ?_,
    fun i j first second left right alive other same => ?_, fun call member => ?_⟩
  · exact ⟨closing hostId (sound.revokedHosts hostId member).1,
      (sound.revokedHosts hostId member).2⟩
  · exact sound.signalled hostId ((terminate_eq hostId).symm.trans signal)
  · obtain ⟨i, there⟩ := List.mem_iff_getElem?.mp member
    obtain ⟨before, apart⟩ := open_before i other there alive
    obtain ⟨connected, issued⟩ := sound.streams other (List.mem_of_getElem? before) alive
    refine ⟨?_, issued⟩
    have different : other.certificate.hostId ≠ stream.certificate.hostId := fun same =>
      apart (sound.one i index other stream before turn alive live same)
    show (stateOf (Server.unregister _ _) other.certificate.hostId).connected = true
    rw [stateOf_unregister, if_neg different]
    exact connected
  · exact sound.one i j first second (open_before i first left alive).1
      (open_before j second right other).1 alive other same
  · refine (sound.calls call member).kept (fun _ => id) (fun _ => id) (fun hostId _ => ?_)
    exact closing hostId

theorem sound_restart (sound : Sound s) :
    Sound
      { s with
        revoked := s.revokedCerts.map RevokedCert.serial
        dispatcher := OrderedMap.empty
        streams := []
        calls := [] } where
  __ := sound
  revokedHosts hostId member := ⟨nofun, (sound.revokedHosts hostId member).2⟩
  stored _ member := List.mem_map_of_mem member
  only _ member := .inl (List.mem_map.mp member)
  signalled _ signal := absurd signal Bool.false_ne_true
  streams _ member := absurd member List.not_mem_nil
  one _ _ _ _ there := absurd (List.getElem?_nil.symm.trans there) nofun
  calls _ member := absurd member List.not_mem_nil

theorem sound_of_happens (sound : Sound s) (happens : Happens s t) : Sound t := by
  cases happens with
  | stays => exact sound
  | enrolls nonempty fresh => exact sound_enroll sound nonempty fresh
  | reports => exact sound.rehosted (fun _ => certified_status sound)
  | removes =>
    refine sound.rehosted (fun host member => ?_)
    exact sound.hosts host (List.mem_of_mem_filter member)
  | starts begins => exact sound_start sound begins
  | selects turn phase => exact sound_select sound turn phase
  | chooses turn kind phase row => exact sound_choose sound turn kind phase row
  | advances turn kind host marks chose => exact sound_advance sound turn kind host marks chose
  | marks turn kind phase => exact sound_mark sound turn kind phase
  | commits turn kind phase => exact sound_commit sound turn kind phase
  | connects known passes free => exact sound_connect sound known passes free
  | closes turn live => exact sound_close sound turn live
  | restarts => exact sound_restart sound

theorem sound_initial : Sound .initial where
  hosts := nofun
  unique := List.nodup_nil
  revokedHosts := nofun
  stored := nofun
  superseded := rfl
  only := nofun
  signalled _ signal := absurd signal Bool.false_ne_true
  streams _ member := absurd member List.not_mem_nil
  one _ _ _ _ there := absurd (List.getElem?_nil.symm.trans there) nofun
  calls _ member := absurd member List.not_mem_nil

theorem certificates_kept (happens : Happens s t) {certificate : Certificate}
    (member : certificate ∈ s.certificates) : certificate ∈ t.certificates := by
  cases happens with
  | enrolls => exact List.mem_append_left _ member
  | _ => exact member

theorem revokedHosts_kept (happens : Happens s t) (member : hostId ∈ s.revokedHosts) :
    hostId ∈ t.revokedHosts := by
  cases happens with
  | commits => exact List.mem_append_left _ member
  | _ => exact member

structure Later (s t : Server) : Prop where
  sound : Sound t
  certificates : ∀ certificate ∈ s.certificates, certificate ∈ t.certificates
  revokedHosts : ∀ hostId ∈ s.revokedHosts, hostId ∈ t.revokedHosts

theorem later_step {u : Server} (later : Later s t) (happens : Happens t u) : Later s u where
  sound := sound_of_happens later.sound happens
  certificates _ member := certificates_kept happens (later.certificates _ member)
  revokedHosts _ member := revokedHosts_kept happens (later.revokedHosts _ member)

theorem later_run {steps : List Step} (sound : Sound s)
    (reached : run (Server.step ca) s steps = some t)
    (met : Meets (Server.step ca) Careful s steps) : Later s t :=
  run_keeps (fun _ _ _ later careful stepped => later_step later (happens_of_step careful stepped))
    (show Later s s from ⟨sound, fun _ => id, fun _ => id⟩) reached met

theorem Sound.refuses (sound : Sound s) (revoked : hostId ∈ s.revokedHosts)
    {certificate : Certificate} (issued : certificate ∈ s.certificates)
    (own : certificate.hostId = hostId) : s.isRevoked certificate.serial = true := by
  obtain ⟨_, row, stored, first⟩ := sound.revokedHosts hostId revoked
  have one : certificate = ⟨hostId, row.serial⟩ := sound.certificate_eq issued first own
  rw [one]
  exact decide_eq_true (sound.stored row stored)

theorem laws_of_later (sound : Sound s) (later : Later s t) : Laws s t where
  refused hostId revoked certificate issued own := by
    have refuses := later.sound.refuses (later.revokedHosts hostId revoked) issued own
    rw [Server.accepts, refuses, Bool.not_true, Bool.false_and]
  closing hostId revoked := (later.sound.revokedHosts hostId (later.revokedHosts hostId revoked)).1
  unissued hostId revoked certificate issued own := by
    obtain ⟨_, row, _, first⟩ := sound.revokedHosts hostId revoked
    obtain rfl := later.sound.certificate_eq issued (later.certificates _ first) own
    exact first
  superseded serial member := absurd (sound.superseded ▸ member) List.not_mem_nil
  only serial refused := later.sound.only serial (of_decide_eq_true refused)
  signalled := later.sound.signalled

/-- Old certificates are cut off in every run that commits no rotation and no re-enrolment and
in which no revocation fails after it has marked its serial in memory. -/
theorem cut_off_when_careful (ca : Ca) (steps : List Step)
    (met : Meets (Server.step ca) Careful .initial steps) : CutOff ca .initial steps := by
  intro before between after s t split run_before run_between
  subst split
  obtain ⟨first, _⟩ := meets_append run_before (List.append_assoc .. ▸ met)
  have sound := (later_run sound_initial run_before first).sound
  rw [List.append_assoc] at met
  obtain ⟨second, _⟩ := meets_append run_between (meets_append run_before met).2
  exact laws_of_later sound (later_run sound run_between second)

def issuing : Ca := ⟨fun _ _ => true, fun _ _ _ => some "02"⟩

def revocation : List Step :=
  [.start (.revoke "h" none), .effect 0, .resume 0, .effect 0, .resume 0, .effect 0, .resume 0,
    .effect 0, .resume 0, .effect 0]

theorem revoked_host_is_out :
    CutOff issuing .initial
      (.enroll "h" "01" [] :: .connect ⟨"h", "01"⟩ :: revocation ++
        [.serve 0, .connect ⟨"h", "01"⟩, .restart, .connect ⟨"h", "01"⟩]) :=
  cut_off_when_careful issuing _ (by decide +kernel)

def rotated : List Step :=
  [.enroll "h" "01" [], .start (.rotate ⟨"h", [], [], "01", true, 0⟩), .effect 0, .resume 0,
    .effect 0]

def revoked : List Step := .enroll "h" "01" [] :: revocation

def reenrolled : List Step :=
  [.start (.complete ⟨"h", [], true, true, fun _ => true, true, 0⟩), .effect 1, .resume 1,
    .effect 1, .resume 1, .effect 1]

def undone : List Step := .enroll "h" "01" [] :: revocation.take 7 ++ [.fail 0]

/-- A superseded serial passes the check, a revoked host is issued a certificate that does too,
and a serial whose revocation was rolled back is refused. -/
theorem old_certificate_passes :
    ¬ CutOff issuing .initial rotated ∧ ¬ CutOff issuing .initial (revoked ++ reenrolled) ∧
      ¬ CutOff issuing .initial undone := by
  refine ⟨fun cut => ?_, fun cut => ?_, fun cut => ?_⟩
  · have passes : (run (Server.step issuing) .initial rotated).any (fun t =>
        "01" ∈ t.superseded && !t.isRevoked "01") := by decide
    obtain ⟨t, reached, found⟩ := (Option.any_eq_true _ _).mp passes
    obtain ⟨superseded, free⟩ := Bool.and_eq_true_iff.mp found
    have refused := (cut rotated [] [] t t rfl reached rfl).superseded "01"
      (of_decide_eq_true superseded)
    simp [refused] at free
  · have passes : (run (Server.step issuing) .initial revoked).any (fun s =>
        "h" ∈ s.revokedHosts && (run (Server.step issuing) s reenrolled).any (fun t =>
          ⟨"h", "02"⟩ ∈ t.certificates && t.accepts ⟨"h", "02"⟩)) := by decide +kernel
    obtain ⟨s, reached, found⟩ := (Option.any_eq_true _ _).mp passes
    obtain ⟨out, later⟩ := Bool.and_eq_true_iff.mp found
    obtain ⟨t, reaches, issued⟩ := (Option.any_eq_true _ _).mp later
    obtain ⟨issued, accepted⟩ := Bool.and_eq_true_iff.mp issued
    have refused := (cut revoked reenrolled [] s t rfl reached reaches).refused "h"
      (of_decide_eq_true out) ⟨"h", "02"⟩ (of_decide_eq_true issued) rfl
    exact absurd (accepted.symm.trans refused) nofun
  · have refuses : (run (Server.step issuing) .initial undone).any (fun t =>
        t.isRevoked "01" && decide (t.revokedCerts = [] ∧ t.calls.all (·.marks.isNone))) := by
      decide
    obtain ⟨t, reached, found⟩ := (Option.any_eq_true _ _).mp refuses
    obtain ⟨refused, untouched⟩ := Bool.and_eq_true_iff.mp found
    obtain ⟨nothing, ended⟩ := of_decide_eq_true untouched
    rcases (cut undone [] [] t t rfl reached rfl).only "01" refused with ⟨row, stored, _⟩ | marking
    · exact absurd (nothing ▸ stored) List.not_mem_nil
    · obtain ⟨call, member, marks, _⟩ := marking
      have unmarked := List.all_eq_true.mp ended call member
      rw [Option.isNone_iff_eq_none] at unmarked
      rw [unmarked] at marks
      cases marks

end HlHelper.Certificates
