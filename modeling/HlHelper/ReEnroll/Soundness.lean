import HlHelper.ReEnroll.Servicer

/-! Certificates are issued for fresh signed nonces only, and a superseded serial is revoked where
no other request has renewed the host meanwhile. -/

namespace HlHelper.ReEnroll

open HlHelper.Library

namespace Server

structure Warranted (service : Service) (s : Server) (use : Use) : Prop where
  latest : ∃ entry, findKey Prod.fst s.challenged use.request.hostId =
      some (use.request.hostId, entry) ∧
    entry.nonce = use.request.nonce ∧ use.now - entry.putAt ≤ service.nonceTtl
  skew : (use.nowUnix - use.request.ts).natAbs ≤ 60
  signed : ∃ host ∈ s.hosts, host.id = use.request.hostId ∧
    verifySignature service use.request.hostId use.request.nonce use.request.ts
      use.request.signature host.agentPubkey = true

def supersedes : Phase → Option Host
  | .committing host _ _ _ => some host
  | _ => none

/-- The commit of a request finds the serial that the request has read. -/
def Alone (s : Server) : Step → Prop
  | .advance index _ _ _ => ∀ host ∈ (s.calls[index]?).bind supersedes, ∀ row ∈ s.hosts,
      row.id = host.id → row.certSerial = host.certSerial
  | _ => True

instance (s : Server) : ∀ event, Decidable (s.Alone event)
  | .advance index _ _ _ => inferInstanceAs (Decidable (∀ host ∈ (s.calls[index]?).bind supersedes,
      ∀ row ∈ s.hosts, row.id = host.id → row.certSerial = host.certSerial))
  | .challenge _ _ | .complete _ _ _ | .fail _ => isTrue trivial

/-- Behind a commit that succeeds the host has the new serial, and the one before is revoked. -/
def Replaces (service : Service) (s : Server) : Step → Prop
  | .advance index now nonce random =>
    match s.calls[index]? with
    | some (.committing host cert revokes at_) =>
      ∀ t, s.resume service now nonce random (.committing host cert revokes at_) =
          some (t, .returned cert) →
        (∀ row ∈ t.hosts, row.id = host.id → row.certSerial = some cert.newSerial) ∧
          ∀ row ∈ s.hosts, row.id = host.id → ∀ old, row.certSerial = some old → old ≠ "" →
            ∃ revoked ∈ t.revoked, revoked.serial = old
    | _ => True
  | _ => True

def PhaseOk (s : Server) : Phase → Prop
  | .loading request nowUnix => (nowUnix - request.ts).natAbs ≤ 60
  | .committing host _ revokes _ =>
    ∀ old, host.certSerial = some old → old ≠ "" →
      revokes = some old ∨ ∃ row ∈ s.revoked, row.serial = old
  | _ => True

structure Sound (s : Server) : Prop where
  drawn : (s.challenged.map fun put => put.2.nonce).Nodup
  slots : ∀ hostId entry, s.nonces.get? hostId = some entry →
    findKey Prod.fst s.challenged hostId = some (hostId, entry)
  calls : ∀ phase ∈ s.calls, PhaseOk s phase

/-- A nonce that was put into the cache and is in no slot any more. -/
def Gone (nonce : Bytes) (s : Server) : Prop :=
  nonce ∈ s.challenged.map (fun put => put.2.nonce) ∧
    ∀ hostId entry, s.nonces.get? hostId = some entry → entry.nonce ≠ nonce

/-- What `authorise` leaves in the cache, with the phase that the call comes to. -/
inductive Authorised (service : Service) (s : Server) (request : CompleteRequest) (host : Host)
    (now : Int) (random : Nat) : OrderedMap String Entry → Phase → Prop
  | refused (nonces : OrderedMap String Entry) (failure : Failure)
      (kept : ∀ hostId entry, nonces.get? hostId = some entry →
        s.nonces.get? hostId = some entry) :
      Authorised service s request host now random nonces (.failed failure)
  | issued (cert : IssuedCert)
      (signed : verifySignature service request.hostId request.nonce request.ts request.signature
        host.agentPubkey = true)
      (consumed : (consume service (s.nonces.get? request.hostId) request.nonce now).1 = true)
      (valid : service.validateCsr request.csrPem request.hostId = none)
      (signs : service.issueHostCert request.csrPem request.hostId service.ttlDays random =
        some cert) :
      Authorised service s request host now random (s.nonces.erase request.hostId)
        (.listing request host cert now)

/-- What `resume` does, by what it changes. -/
inductive Resumed (service : Service) (s : Server) (now : Int) (nonce : Bytes) (random : Nat) :
    Phase → Server → Phase → Prop
  | rests (phase next : Phase)
      (quiet : (∃ failure, next = .failed failure) ∨ ∃ hostId, next = .closing hostId) :
      Resumed service s now nonce random phase s next
  | puts (hostId : String) (fresh : nonce ∉ s.challenged.map fun put => put.2.nonce) :
      Resumed service s now nonce random (.closing hostId)
        { s with
          nonces := s.nonces.insert hostId ⟨nonce, now⟩
          challenged := (hostId, ⟨nonce, now⟩) :: s.challenged } (.answered nonce)
  | tries (request : CompleteRequest) (nowUnix : Int) (host : Host) (t : Server) (next : Phase)
      (found : findKey Host.id s.hosts request.hostId = some host)
      (answered : s.authorise service request host now random = (t, next)) :
      Resumed service s now nonce random (.loading request nowUnix) t next
  | lists (request : CompleteRequest) (host : Host) (cert : IssuedCert) (at_ : Int) :
      Resumed service s now nonce random (.listing request host cert at_) s
        (.committing host cert (s.superseded host) at_)
  | renews (host : Host) (cert : IssuedCert) (revokes : Option String) (at_ : Int) :
      Resumed service s now nonce random (.committing host cert revokes at_)
        { s with
          hosts := s.hosts.map fun row =>
            if row.id = host.id then renewed host cert at_ row else row
          revoked := s.revoked ++
            revokes.toList.map fun serial => ⟨serial, host.id, at_, some "reenrolled"⟩ }
        (.returned cert)

end Server

open Server

variable {service : Service} {s t : Server} {phase next : Phase} {index : Nat} {now : Int}
  {nonce : Bytes} {random : Nat} {event : Step} {events : List Step} {request : CompleteRequest}
  {host : Host}

theorem consume_ok {slot : Option Entry} (valid : (consume service slot nonce now).1 = true) :
    ∃ entry, slot = some entry ∧ entry.nonce = nonce ∧ now - entry.putAt ≤ service.nonceTtl ∧
      (consume service slot nonce now).2 = none := by
  unfold consume at valid ⊢
  split at valid
  · cases valid
  · next entry =>
    split at valid
    · cases valid
    · next alive =>
      split at valid
      · cases valid
      · next same =>
        refine ⟨entry, rfl, not_not.mp same, Int.not_lt.mp alive, ?_⟩
        rw [if_neg alive, if_neg same]

theorem consume_left {slot : Option Entry} :
    (consume service slot nonce now).2 = slot ∨ (consume service slot nonce now).2 = none := by
  unfold consume
  split
  · exact .inl rfl
  · split
    · exact .inr rfl
    · split
      · exact .inl rfl
      · exact .inr rfl

theorem slot_kept {slot : Option Entry} {hostId other : String} {entry : Entry}
    (left : slot = s.nonces.get? hostId ∨ slot = none)
    (found : (s.slot hostId slot).get? other = some entry) :
    s.nonces.get? other = some entry := by
  by_cases same : other = hostId
  · subst same
    cases slot with
    | none =>
      have gone : (s.nonces.erase other).get? other = some entry := found
      rw [OrderedMap.get?_erase_self] at gone
      cases gone
    | some kept =>
      have back : (s.nonces.insert other kept).get? other = some entry := found
      rw [OrderedMap.get?_insert_self] at back
      rcases left with there | absent
      · exact there.symm.trans back
      · cases absent
  · cases slot with
    | none => rwa [Server.slot, OrderedMap.get?_erase_other _ same] at found
    | some kept => rwa [Server.slot, OrderedMap.get?_insert_other _ same] at found

theorem authorised (answered : s.authorise service request host now random = (t, next)) :
    ∃ nonces, t = { s with nonces := nonces } ∧
      Authorised service s request host now random nonces next := by
  unfold authorise at answered
  split at answered
  · cases answered
    exact ⟨s.nonces, rfl, .refused _ _ fun _ _ found => found⟩
  · next signed =>
    have signed := eq_true_of_ne_false signed
    have left := @consume_left service now request.nonce (s.nonces.get? request.hostId)
    dsimp only at answered
    split at answered
    · cases answered
      exact ⟨_, rfl, .refused _ _ fun _ _ found => slot_kept left found⟩
    · next valid =>
      have consumed := eq_true_of_ne_false valid
      split at answered
      · cases answered
        exact ⟨_, rfl, .refused _ _ fun _ _ found => slot_kept left found⟩
      · next csr =>
        split at answered
        · cases answered
          exact ⟨_, rfl, .refused _ _ fun _ _ found => slot_kept left found⟩
        · next cert signs =>
          cases answered
          obtain ⟨entry, _, _, _, none⟩ := consume_ok consumed
          refine ⟨_, rfl, ?_⟩
          rw [none]
          exact .issued cert signed consumed csr signs

theorem authorise_used
    (signed : verifySignature service request.hostId request.nonce request.ts request.signature
      host.agentPubkey = true)
    (consumed : (consume service (s.nonces.get? request.hostId) request.nonce now).1 = true) :
    (s.authorise service request host now random).1 =
      { s with nonces := s.nonces.erase request.hostId } := by
  obtain ⟨entry, _, _, _, none⟩ := consume_ok consumed
  unfold authorise
  rw [if_neg (by simp [signed])]
  simp only [consumed, none, Bool.true_eq_false, if_false]
  split
  · rfl
  · split <;> rfl

theorem Server.Authorised.kept {nonces : OrderedMap String Entry} {hostId : String} {entry : Entry}
    (authorised : Authorised service s request host now random nonces next)
    (found : nonces.get? hostId = some entry) : s.nonces.get? hostId = some entry := by
  cases authorised with
  | refused _ _ kept => exact kept hostId entry found
  | issued => exact slot_kept (.inr rfl) found

theorem Server.PhaseOk.grown (ok : PhaseOk s phase) (grown : ∀ row ∈ s.revoked, row ∈ t.revoked) :
    PhaseOk t phase := by
  cases phase with
  | committing host cert revokes at_ =>
    intro old serial there
    rcases ok old serial there with revoked | ⟨row, member, same⟩
    · exact .inl revoked
    · exact .inr ⟨row, grown row member, same⟩
  | _ => exact ok

theorem superseded_ok (host : Host) (cert : IssuedCert) (at_ : Int) :
    PhaseOk s (.committing host cert (s.superseded host) at_) := by
  intro old serial there
  unfold superseded
  rw [serial]
  dsimp only
  split
  · next known =>
    obtain ⟨row, member, same⟩ := List.any_eq_true.mp (known.resolve_left there)
    exact .inr ⟨row, member, (of_decide_eq_true same).2⟩
  · exact .inl rfl

theorem resumed (goes : s.resume service now nonce random phase = some (t, next)) :
    Resumed service s now nonce random phase t next := by
  cases phase with
  | selecting hostId signingPubkey =>
    simp only [Server.resume] at goes
    split at goes
    · cases goes
      exact .rests _ _ (.inl ⟨_, rfl⟩)
    · split at goes
      · cases goes
        exact .rests _ _ (.inr ⟨hostId, rfl⟩)
      · cases goes
        exact .rests _ _ (.inl ⟨_, rfl⟩)
  | closing hostId =>
    simp only [Server.resume] at goes
    split at goes
    · cases goes
    · next fresh =>
      cases goes
      exact .puts hostId fresh
  | loading request nowUnix =>
    simp only [Server.resume] at goes
    split at goes
    · cases goes
      exact .rests _ _ (.inl ⟨_, rfl⟩)
    · next host found =>
      exact .tries request nowUnix host t next found (Option.some.inj goes)
  | listing request host cert at_ =>
    cases goes
    exact .lists request host cert at_
  | committing host cert revokes at_ =>
    simp only [Server.resume] at goes
    split at goes
    · cases goes
      exact .rests _ _ (.inl ⟨_, rfl⟩)
    · cases goes
      exact .renews host cert revokes at_
  | answered _ | returned _ | failed _ => cases goes

theorem Server.Resumed.sound (sound : s.Sound)
    (resumed : Resumed service s now nonce random phase t next) :
    t.Sound ∧ t.calls = s.calls ∧ (∀ row ∈ s.revoked, row ∈ t.revoked) ∧ PhaseOk t next := by
  cases resumed with
  | rests _ _ quiet =>
    refine ⟨sound, rfl, fun _ member => member, ?_⟩
    rcases quiet with ⟨failure, rfl⟩ | ⟨hostId, rfl⟩
    · trivial
    · trivial
  | puts hostId fresh =>
    refine ⟨⟨List.nodup_cons.mpr ⟨fresh, sound.drawn⟩, ?_, sound.calls⟩, rfl,
      fun _ member => member, trivial⟩
    intro other entry found
    by_cases same : hostId = other
    · subst same
      rw [OrderedMap.get?_insert_self] at found
      cases found
      simp [findKey]
    · rw [OrderedMap.get?_insert_other _ (Ne.symm same)] at found
      have known := sound.slots other entry found
      unfold findKey at known ⊢
      rwa [List.find?_cons_of_neg (by simpa using same)]
  | tries request nowUnix host _ _ found answered =>
    obtain ⟨nonces, rfl, authorised⟩ := authorised answered
    refine ⟨⟨sound.drawn, fun id entry inside => sound.slots id entry (authorised.kept inside),
      sound.calls⟩, rfl, fun _ member => member, ?_⟩
    cases authorised <;> trivial
  | lists request host cert at_ =>
    exact ⟨sound, rfl, fun _ member => member, superseded_ok host cert at_⟩
  | renews host cert revokes at_ =>
    have grown : ∀ row ∈ s.revoked, row ∈ s.revoked ++
        revokes.toList.map fun serial => ⟨serial, host.id, at_, some "reenrolled"⟩ :=
      fun _ member => List.mem_append_left _ member
    exact ⟨⟨sound.drawn, sound.slots, fun phase member =>
      PhaseOk.grown (sound.calls phase member) grown⟩, rfl, grown, trivial⟩

theorem Server.Sound.step (sound : s.Sound) (stepped : s.step service event = some t) :
    t.Sound := by
  cases event with
  | challenge hostId signingPubkey =>
    cases stepped
    refine ⟨sound.drawn, sound.slots, fun phase member => ?_⟩
    rcases List.mem_append.mp member with old | new
    · exact sound.calls phase old
    · cases List.mem_singleton.mp new
      trivial
  | complete request now nowUnix =>
    cases stepped
    refine ⟨sound.drawn, sound.slots, fun phase member => ?_⟩
    rcases List.mem_append.mp member with old | new
    · exact sound.calls phase old
    · rw [List.mem_singleton.mp new]
      split
      · trivial
      · split
        · trivial
        · next inside => exact Nat.not_lt.mp inside
  | advance index now nonce random =>
    obtain ⟨phase, turn, goes⟩ := Option.bind_eq_some_iff.mp stepped
    obtain ⟨⟨u, next⟩, ran, rfl⟩ := Option.map_eq_some_iff.mp goes
    obtain ⟨after, same, grown, ended⟩ := (resumed ran).sound sound
    refine ⟨after.drawn, after.slots, fun other member => ?_⟩
    rcases List.mem_or_eq_of_mem_set member with old | rfl
    · exact PhaseOk.grown (sound.calls other old) grown
    · exact ended
  | fail index =>
    obtain ⟨phase, turn, goes⟩ := Option.bind_eq_some_iff.mp stepped
    split at goes
    · cases goes
    · cases goes
      refine ⟨sound.drawn, sound.slots, fun other member => ?_⟩
      rcases List.mem_or_eq_of_mem_set member with old | rfl
      · exact sound.calls other old
      · trivial

theorem sound_initial (hosts : List Host) (revoked : List RevokedCert) :
    (Server.initial hosts revoked).Sound :=
  ⟨List.nodup_nil, fun _ _ found => (by cases found), List.forall_mem_nil _⟩

theorem uses_eq_some {use : Use} (used : s.uses service event = some use) :
    ∃ index now nonce random host,
      event = .advance index now nonce random ∧
      s.calls[index]? = some (.loading use.request use.nowUnix) ∧ use.now = now ∧
      findKey Host.id s.hosts use.request.hostId = some host ∧
      verifySignature service use.request.hostId use.request.nonce use.request.ts
        use.request.signature host.agentPubkey = true ∧
      (consume service (s.nonces.get? use.request.hostId) use.request.nonce now).1 = true := by
  cases event with
  | advance index now nonce random =>
    obtain ⟨phase, turn, loading⟩ := Option.bind_eq_some_iff.mp used
    cases phase with
    | loading request nowUnix =>
      obtain ⟨host, found, checked⟩ := Option.bind_eq_some_iff.mp loading
      split at checked
      · next both =>
        cases checked
        exact ⟨index, now, nonce, random, host, rfl, turn, rfl, found, both⟩
      · cases checked
    | _ => cases loading
  | _ => cases used

theorem warranted_of_uses {use : Use} (sound : s.Sound) (used : s.uses service event = some use) :
    Warranted service s use := by
  obtain ⟨index, now, nonce, random, host, rfl, turn, time, found, signed, consumed⟩ :=
    uses_eq_some used
  obtain ⟨entry, there, same, alive, _⟩ := consume_ok consumed
  obtain ⟨member, id⟩ := findKey_some found
  constructor
  case latest => exact ⟨entry, sound.slots _ entry there, same, time ▸ alive⟩
  case skew => exact sound.calls _ (List.mem_of_getElem? turn)
  case signed => exact ⟨host, member, id, signed⟩

theorem uses_of_issues {cert : IssuedCert}
    (issued : s.issues service event = some (request, cert)) :
    ∃ use, s.uses service event = some use ∧ use.request = request := by
  cases event with
  | advance index now nonce random =>
    obtain ⟨phase, turn, goes⟩ := Option.bind_eq_some_iff.mp issued
    cases phase with
    | loading first nowUnix =>
      split at goes
      · next ran =>
        cases goes
        cases resumed ran with
        | tries _ _ host _ _ found answered =>
          obtain ⟨nonces, _, authorised⟩ := authorised answered
          cases authorised with
          | issued _ signed consumed _ _ =>
            exact ⟨⟨request, nowUnix, now⟩, by
              simp [Server.uses, turn, found, signed, consumed], rfl⟩
        | rests _ _ quiet => simp at quiet
      · cases goes
    | _ => cases goes
  | _ => cases issued

theorem gone_of_uses {use : Use} (sound : s.Sound) (used : s.uses service event = some use)
    (stepped : s.step service event = some t) : Gone use.request.nonce t := by
  obtain ⟨index, now, nonce, random, host, rfl, turn, time, found, signed, consumed⟩ :=
    uses_eq_some used
  obtain ⟨entry, there, same, _⟩ := consume_ok consumed
  have known := sound.slots _ entry there
  have mine := (findKey_some known).1
  obtain ⟨phase, here, goes⟩ := Option.bind_eq_some_iff.mp stepped
  obtain rfl := Option.some.inj (here.symm.trans turn)
  obtain ⟨⟨u, next⟩, resumed, rfl⟩ := Option.map_eq_some_iff.mp goes
  simp only [Server.resume, found] at resumed
  obtain rfl : u = { s with nonces := s.nonces.erase use.request.hostId } := by
    rw [← @authorise_used service s now random use.request host signed consumed,
      Option.some.inj resumed]
  refine ⟨List.mem_map.mpr ⟨_, mine, same⟩, fun hostId other left equal => ?_⟩
  have before := slot_kept (.inr rfl) left
  have put := (findKey_some (sound.slots hostId other before)).1
  have one : (hostId, other) = (use.request.hostId, entry) :=
    List.inj_on_of_nodup_map sound.drawn put mine (equal.trans same.symm)
  cases one
  have absent := OrderedMap.get?_erase_self s.nonces use.request.hostId
  cases left.symm.trans absent

theorem Server.Gone.step (gone : Gone nonce s) (stepped : s.step service event = some t) :
    Gone nonce t := by
  cases event with
  | challenge hostId signingPubkey =>
    cases stepped
    exact gone
  | complete request now nowUnix =>
    cases stepped
    exact gone
  | fail index =>
    obtain ⟨phase, turn, goes⟩ := Option.bind_eq_some_iff.mp stepped
    split at goes
    · cases goes
    · cases goes
      exact gone
  | advance index now drawn random =>
    obtain ⟨phase, turn, goes⟩ := Option.bind_eq_some_iff.mp stepped
    obtain ⟨⟨u, next⟩, ran, rfl⟩ := Option.map_eq_some_iff.mp goes
    have moved : Gone nonce u := by
      cases resumed ran with
      | rests => exact gone
      | puts hostId fresh =>
        refine ⟨List.mem_cons_of_mem _ gone.1, fun other entry found => ?_⟩
        by_cases same : other = hostId
        · subst same
          rw [OrderedMap.get?_insert_self] at found
          cases found
          rintro rfl
          exact fresh gone.1
        · rw [OrderedMap.get?_insert_other _ same] at found
          exact gone.2 other entry found
      | lists => exact gone
      | tries _ _ _ _ _ _ answered =>
        obtain ⟨nonces, rfl, authorised⟩ := authorised answered
        exact ⟨gone.1, fun other entry found => gone.2 other entry (authorised.kept found)⟩
      | renews => exact gone
    exact moved

theorem replaces_when_alone (sound : s.Sound) (alone : Alone s event) :
    Replaces service s event := by
  cases event with
  | advance index now nonce random =>
    cases turn : s.calls[index]? with
    | none => simp only [Replaces, turn]
    | some phase =>
      cases phase with
      | committing host cert revokes at_ =>
        simp only [Replaces, turn]
        intro t ran
        have ok := sound.calls _ (List.mem_of_getElem? turn)
        simp only [Server.resume] at ran
        split at ran
        · cases ran
        · cases ran
          refine ⟨fun row member same => ?_, fun row member same old serial there => ?_⟩
          · obtain ⟨before, _, rfl⟩ := List.mem_map.mp member
            split at same
            · next mine => rw [if_pos mine]; rfl
            · next other => exact absurd same other
          · have read := alone host (by rw [turn]; rfl) row member same
            rcases ok old (read.symm.trans serial) there with rfl | ⟨revoked, known, named⟩
            · exact ⟨_, List.mem_append_right _ (List.mem_singleton.mpr rfl), rfl⟩
            · exact ⟨revoked, List.mem_append_left _ known, named⟩
      | _ => simp only [Replaces, turn]
  | _ => trivial

structure Governed (service : Service) (s : Server) (events : List Step) : Prop where
  once : ((outputs (step service) (uses service) s events).map fun use => use.request.nonce).Nodup
  warranted : Meets (step service)
    (fun s event => ∀ use, s.uses service event = some use → Warranted service s use) s events
  answered : Meets (step service)
    (fun s event => ∀ request cert, s.issues service event = some (request, cert) →
      ∃ use, s.uses service event = some use ∧ use.request = request) s events
  replaced : Meets (step service) (Replaces service) s events

/-- Re-enrolment is sound in every run in which no commit finds the host renewed by another. -/
theorem reenrolls_when_alone (hosts : List Host) (revoked : List RevokedCert)
    (reached : run (step service) (initial hosts revoked) events = some s)
    (alone : Meets (step service) Alone (initial hosts revoked) events) :
    Governed service (initial hosts revoked) events := by
  have start := sound_initial hosts revoked
  have finishes : (run (step service) (initial hosts revoked) events).isSome := by
    rw [reached]
    rfl
  have keep : ∀ s event t, Sound s → Alone s event → step service s event = some t → Sound t :=
    fun _ _ _ sound _ stepped => sound.step stepped
  constructor
  case once =>
    rw [List.nodup_iff_pairwise_ne, List.pairwise_map]
    refine @outputs_pairwise _ _ (step service) Alone _ (uses service)
      (fun first second => first.request.nonce ≠ second.request.nonce) Sound
      (fun use t => Gone use.request.nonce t) keep ?_ ?_ ?_ _ _ start alone
    · exact fun s event t use sound _ stepped used => gone_of_uses sound used stepped
    · exact fun use s event t gone _ _ stepped => gone.step stepped
    · intro use s event other gone used same
      obtain ⟨_, _, _, _, _, _, _, _, _, _, consumed⟩ := uses_eq_some used
      obtain ⟨entry, there, equal, _⟩ := consume_ok consumed
      exact gone.2 _ entry there (equal.trans same.symm)
  case warranted =>
    exact meets_of_keeps keep (fun s event t sound _ _ use used => warranted_of_uses sound used)
      start finishes alone
  case answered =>
    exact meets_of_keeps keep (fun s event t _ _ _ request cert issued => uses_of_issues issued)
      start finishes alone
  case replaced =>
    exact meets_of_keeps keep (fun s event t sound met _ => replaces_when_alone sound met)
      start finishes alone

def plain : Service where
  sha := .head
  verify pubkey message signature := signature = pubkey ++ message
  validateCsr _ _ := none
  issueHostCert _ _ _ random := some ⟨[], toString random, 100⟩
  ttlDays := 30
  nonceTtl := 60000000
  window := 86400000000
  maxPerWindow := 3

def enrolled : Host := ⟨"h", [1], some "0", none, none, none, none⟩

def signs (nonce : Bytes) (ts : Int) : CompleteRequest :=
  ⟨"h", nonce, ts, [1] ++ canonicalPayload plain "h" nonce ts, []⟩

def oneRenewal : List Step :=
  [.challenge "h" [1], .advance 0 0 [] 0, .advance 0 5 [7] 0, .complete (signs [7] 3) 6 4,
    .advance 1 6 [] 1, .advance 1 6 [] 0, .advance 1 6 [] 0]

theorem reenrolls_once : ∃ s, run (step plain) (initial [enrolled] []) oneRenewal = some s ∧
    s.calls[1]? = some (.returned ⟨[], "1", 100⟩) ∧
    Governed plain (initial [enrolled] []) oneRenewal := by
  have finishes : (run (step plain) (initial [enrolled] []) oneRenewal).any
      (fun s => s.calls[1]? = some (.returned ⟨[], "1", 100⟩)) = true := by decide
  obtain ⟨s, reached, returned⟩ := (Option.any_eq_true _ _).mp finishes
  exact ⟨s, reached, of_decide_eq_true returned,
    reenrolls_when_alone [enrolled] [] reached (by decide)⟩

/-- Two renewals of a host, the second of which has read the row before the first commits. -/
def overlapping : List Step :=
  [.challenge "h" [1], .advance 0 0 [] 0, .advance 0 5 [7] 0, .complete (signs [7] 3) 6 4,
    .advance 1 6 [] 1, .challenge "h" [1], .advance 2 7 [] 0, .advance 2 7 [8] 0,
    .complete (signs [8] 3) 8 4, .advance 3 8 [] 2, .advance 1 9 [] 0, .advance 1 9 [] 0,
    .advance 3 9 [] 0]

theorem superseded_serial_stays :
    ∃ s t, run (step plain) (initial [enrolled] []) overlapping = some s ∧
      s.step plain (.advance 3 9 [] 0) = some t ∧
      s.hosts.map (fun row => (row.id, row.certSerial)) = [("h", some "1")] ∧
      t.hosts.map Host.certSerial = [some "2"] ∧
      t.calls[3]? = some (.returned ⟨[], "2", 100⟩) ∧ t.revoked.map RevokedCert.serial = ["0"] ∧
      ¬ Replaces plain s (.advance 3 9 [] 0) := by
  have goes : (run (step plain) (initial [enrolled] []) overlapping).any (fun s =>
      (s.resume plain 9 [] 0 (.committing enrolled ⟨[], "2", 100⟩ none 8)).any fun moved =>
        s.calls[3]? = some (.committing enrolled ⟨[], "2", 100⟩ none 8) ∧
        s.hosts.map (fun row => (row.id, row.certSerial)) = [("h", some "1")] ∧
        moved.2 = .returned ⟨[], "2", 100⟩ ∧
        moved.1.hosts.map Host.certSerial = [some "2"] ∧
        (s.calls.set 3 moved.2)[3]? = some (.returned ⟨[], "2", 100⟩) ∧
        moved.1.revoked.map RevokedCert.serial = ["0"]) = true := by
    decide
  obtain ⟨s, reached, moves⟩ := (Option.any_eq_true _ _).mp goes
  obtain ⟨⟨t, next⟩, ran, holds⟩ := (Option.any_eq_true _ _).mp moves
  obtain ⟨turn, before, rfl, after, returned, revoked⟩ := of_decide_eq_true holds
  refine ⟨s, { t with calls := s.calls.set 3 _ }, reached, ?_, before, after, returned, revoked, ?_⟩
  · simp only [Server.step, turn, Option.bind_some, ran, Option.map_some]
  · intro replaces
    simp only [Replaces, turn] at replaces
    obtain ⟨row, hosts, shown⟩ := List.map_eq_singleton_iff.mp before
    obtain ⟨id, serial⟩ := Prod.mk.inj shown
    obtain ⟨kept, member, same⟩ :=
      (replaces t ran).2 row (by rw [hosts]; exact List.mem_singleton_self row) id "1" serial
        (by decide)
    have inside : kept.serial ∈ t.revoked.map RevokedCert.serial := List.mem_map_of_mem member
    rw [revoked, same] at inside
    exact absurd inside (by decide)

end HlHelper.ReEnroll
