import HlHelper.ReEnroll.Soundness

/-! A host that asks for a certificate while others send requests for it. -/

namespace HlHelper.ReEnroll

open HlHelper.Library

namespace Server

def held : Phase → List (String × String)
  | .listing _ host cert _ =>
    host.certSerial.toList.map (fun serial => (serial, host.id)) ++ [(cert.newSerial, host.id)]
  | .committing host cert revokes _ =>
    revokes.toList.map (fun serial => (serial, host.id)) ++ [(cert.newSerial, host.id)]
  | _ => []

def serials (s : Server) : List (String × String) :=
  s.hosts.flatMap (fun row => row.certSerial.toList.map fun serial => (serial, row.id)) ++
    s.revoked.map (fun row => (row.serial, row.hostId)) ++ s.calls.flatMap held

def Apart (s : Server) : Prop :=
  ∀ first ∈ s.serials, ∀ second ∈ s.serials, first.1 = second.1 → first.2 = second.2

instance (s : Server) : Decidable s.Apart :=
  inferInstanceAs (Decidable (∀ first ∈ s.serials, ∀ second ∈ s.serials,
    first.1 = second.1 → first.2 = second.2))

def Fresh (service : Service) (s : Server) (event : Step) : Prop :=
  ∀ issued ∈ s.issues service event, issued.2.newSerial ∉ s.serials.map Prod.fst

instance (service : Service) (s : Server) (event : Step) : Decidable (s.Fresh service event) :=
  inferInstanceAs (Decidable (∀ issued ∈ s.issues service event,
    issued.2.newSerial ∉ s.serials.map Prod.fst))

def renews : Phase → Option String
  | .listing _ host _ _ | .committing host _ _ _ => some host.id
  | _ => none

def loads : Phase → Bool
  | .loading _ _ => true
  | _ => false

/-- The host's own Complete has not come to its row yet. -/
def waiting (s : Server) (own : Option Nat) : Bool :=
  own.all fun index => (s.calls[index]?).any loads

/-- While a nonce of the host waits it does not expire and no other Challenge for the host is
answered; no other Complete for the host uses up a nonce, and its own is not cancelled. -/
def Quiet (service : Service) (hostId : String) (putAt : Int) (own : Option Nat) (s : Server) :
    Step → Prop
  | .challenge _ _ | .complete _ _ _ => True
  | .fail index => some index ≠ own
  | .advance index now nonce random =>
    (s.waiting own = true → now - putAt ≤ service.nonceTtl ∧
      s.calls[index]? ≠ some (.closing hostId)) ∧
    (some index ≠ own → ∀ use ∈ s.uses service (.advance index now nonce random),
      use.request.hostId ≠ hostId)

instance (service : Service) (hostId : String) (putAt : Int) (own : Option Nat) (s : Server) :
    ∀ event, Decidable (s.Quiet service hostId putAt own event)
  | .challenge _ _ | .complete _ _ _ => isTrue trivial
  | .fail index => inferInstanceAs (Decidable (some index ≠ own))
  | .advance index now nonce random => inferInstanceAs (Decidable (
      (s.waiting own = true → now - putAt ≤ service.nonceTtl ∧
        s.calls[index]? ≠ some (.closing hostId)) ∧
      (some index ≠ own → ∀ use ∈ s.uses service (.advance index now nonce random),
        use.request.hostId ≠ hostId)))

/-- The time of a Complete for the host that the limiter lets through. -/
def letThrough (service : Service) (hostId : String) (s : Server) : Step → Option Int
  | .complete request now _ =>
    if request.hostId = hostId ∧
        (allow service ((s.attempts.get? hostId).getD []) now).1 = true then some now
    else none
  | _ => none

def completesAt (hostId : String) : Step → Option Int
  | .complete request now _ => if request.hostId = hostId then some now else none
  | _ => none

def drawn (index : Nat) : Step → Option Nat
  | .advance place _ _ random => if place = index then some random else none
  | _ => none

/-- The stored key of the request's host verifies its signature. -/
abbrev Signed (service : Service) (request : CompleteRequest) (s : Server) : Prop :=
  ∃ host, findKey Host.id s.hosts request.hostId = some host ∧
    verifySignature service request.hostId request.nonce request.ts request.signature
      host.agentPubkey = true

/-- What others leave to a host, whose own call has the index `own`. -/
structure Clear (service : Service) (request : CompleteRequest) (own : Option Nat) (s : Server) :
    Prop where
  apart : s.Apart
  row : s.Signed service request
  others : ∀ (index : Nat) phase, some index ≠ own → s.calls[index]? = some phase →
    renews phase ≠ some request.hostId

/-- How far the host's call has come with what the CA has drawn for it. -/
inductive Outcome (service : Service) (request : CompleteRequest) (nowUnix putAt : Int)
    (s : Server) : List Nat → Phase → Prop
  | waits (slot : s.nonces.get? request.hostId = some ⟨request.nonce, putAt⟩) :
      Outcome service request nowUnix putAt s [] (.loading request nowUnix)
  | issued (random : Nat) (host : Host) (cert : IssuedCert) (at_ : Int)
      (id : host.id = request.hostId)
      (signs : service.issueHostCert request.csrPem request.hostId service.ttlDays random =
        some cert) :
      Outcome service request nowUnix putAt s [random] (.listing request host cert at_)
  | listed (random second : Nat) (host : Host) (cert : IssuedCert) (revokes : Option String)
      (at_ : Int) (id : host.id = request.hostId)
      (signs : service.issueHostCert request.csrPem request.hostId service.ttlDays random =
        some cert)
      (free : ∀ serial ∈ revokes, ∀ row ∈ s.revoked, row.serial ≠ serial) :
      Outcome service request nowUnix putAt s [random, second]
        (.committing host cert revokes at_)
  | returned (random second third : Nat) (cert : IssuedCert)
      (signs : service.issueHostCert request.csrPem request.hostId service.ttlDays random =
        some cert) :
      Outcome service request nowUnix putAt s [random, second, third] (.returned cert)

inductive Moved (service : Service) (s : Server) : Step → Server → Prop
  | starts (event : Step) (attempts : OrderedMap String (List Int)) (first : Phase)
      (holds : held first = []) (idle : renews first = none) :
      Moved service s event { s with attempts := attempts, calls := s.calls ++ [first] }
  | fails (index : Nat) :
      Moved service s (.fail index) { s with calls := s.calls.set index (.failed .raised) }
  | advances (index : Nat) (now : Int) (nonce : Bytes) (random : Nat) (phase : Phase) (u : Server)
      (next : Phase) (turn : s.calls[index]? = some phase)
      (ran : s.resume service now nonce random phase = some (u, next)) :
      Moved service s (.advance index now nonce random)
        { u with calls := s.calls.set index next }

structure Attends (service : Service) (request : CompleteRequest) (nowUnix putAt : Int)
    (index : Nat) (s : Server) (draws : List Nat) : Prop where
  clear : s.Clear service request (some index)
  own : ∃ phase, s.calls[index]? = some phase ∧
    Outcome service request nowUnix putAt s draws phase

end Server

open Server

variable {service : Service} {s t u : Server} {phase next : Phase} {index : Nat} {now : Int}
  {nonce : Bytes} {random : Nat} {event : Step} {events : List Step} {request : CompleteRequest}
  {host : Host} {own : Option Nat} {hostId serial : String} {putAt nowUnix : Int}
  {hosts : List Host} {revoked : List RevokedCert} {place : Nat} {before middle after : List Step}
  {m c : Server}

theorem mem_serials : (serial, hostId) ∈ s.serials ↔
    (∃ row ∈ s.hosts, row.certSerial = some serial ∧ row.id = hostId) ∨
      (∃ row ∈ s.revoked, row.serial = serial ∧ row.hostId = hostId) ∨
      ∃ phase ∈ s.calls, (serial, hostId) ∈ held phase := by
  simp [serials]

theorem serials_of_call (s : Server) (member : (serial, hostId) ∈ t.serials)
    (hosts : t.hosts = s.hosts) (revoked : t.revoked = s.revoked)
    (calls : ∀ phase ∈ t.calls, phase ∈ s.calls ∨ phase = next) :
    (serial, hostId) ∈ s.serials ∨ (serial, hostId) ∈ held next := by
  rw [mem_serials, hosts, revoked] at member
  rw [mem_serials]
  rcases member with row | row | ⟨phase, inside, holds⟩
  · exact .inl (.inl row)
  · exact .inl (.inr (.inl row))
  · rcases calls phase inside with old | rfl
    · exact .inl (.inr (.inr ⟨phase, old, holds⟩))
    · exact .inr holds

theorem held_quiet
    (quiet : (∃ failure, phase = .failed failure) ∨ ∃ hostId, phase = .closing hostId) :
    held phase = [] ∧ renews phase = none := by
  rcases quiet with ⟨failure, rfl⟩ | ⟨hostId, rfl⟩
  · exact ⟨rfl, rfl⟩
  · exact ⟨rfl, rfl⟩

theorem moved (stepped : s.step service event = some t) : Moved service s event t := by
  cases event with
  | challenge hostId signingPubkey =>
    cases stepped
    exact .starts _ s.attempts _ rfl rfl
  | complete request now nowUnix =>
    cases stepped
    refine .starts _ _ _ ?_ ?_
    · split
      · rfl
      · split <;> rfl
    · split
      · rfl
      · split <;> rfl
  | fail index =>
    obtain ⟨phase, turn, goes⟩ := Option.bind_eq_some_iff.mp stepped
    split at goes
    · cases goes
    · cases goes
      exact .fails index
  | advance index now nonce random =>
    obtain ⟨phase, turn, goes⟩ := Option.bind_eq_some_iff.mp stepped
    obtain ⟨⟨u, next⟩, ran, rfl⟩ := Option.map_eq_some_iff.mp goes
    exact .advances index now nonce random phase u next turn ran

theorem superseded_of_mem (inside : serial ∈ s.superseded host) : serial ∈ host.certSerial := by
  unfold superseded at inside
  split at inside
  · cases inside
  · next old read =>
    split at inside
    · cases inside
    · cases inside
      exact read

theorem superseded_not_revoked (inside : serial ∈ s.superseded host) :
    ∀ row ∈ s.revoked, row.hostId = host.id → row.serial ≠ serial := by
  intro row member mine same
  unfold superseded at inside
  split at inside
  · cases inside
  · next old read =>
    split at inside
    · cases inside
    · next unknown =>
      cases inside
      exact unknown (.inr (List.any_eq_true.mpr ⟨row, member, decide_eq_true ⟨mine, same⟩⟩))

theorem issues_of_issued {cert : IssuedCert} {at_ : Int} {nowUnix : Int}
    (turn : s.calls[index]? = some (.loading request nowUnix))
    (ran : s.resume service now nonce random (.loading request nowUnix) =
      some (t, .listing request host cert at_)) :
    s.issues service (.advance index now nonce random) = some (request, cert) := by
  simp [Server.issues, turn, ran]

theorem serials_step (stepped : s.step service event = some t)
    (member : (serial, hostId) ∈ t.serials) :
    (serial, hostId) ∈ s.serials ∨
      ∃ issued ∈ s.issues service event, serial = issued.2.newSerial ∧
        hostId = issued.1.hostId := by
  cases moved stepped with
  | starts event attempts first holds idle =>
    have called : ∀ phase ∈ s.calls ++ [first], phase ∈ s.calls ∨ phase = first :=
      fun phase inside => (List.mem_append.mp inside).imp_right List.mem_singleton.mp
    rcases serials_of_call s member rfl rfl called with old | new
    · exact .inl old
    · rw [holds] at new
      cases new
  | fails index =>
    have called : ∀ phase ∈ s.calls.set index (.failed .raised),
        phase ∈ s.calls ∨ phase = .failed .raised := fun _ inside =>
      List.mem_or_eq_of_mem_set inside
    rcases serials_of_call s member rfl rfl called with old | new
    · exact .inl old
    · cases new
  | advances index now nonce random phase u next turn ran =>
    have here := List.mem_of_getElem? turn
    have sets : ∀ {t : Server}, (serial, hostId) ∈ t.serials → t.hosts = s.hosts →
        t.revoked = s.revoked → t.calls = s.calls.set index next →
        (serial, hostId) ∈ s.serials ∨ (serial, hostId) ∈ held next := by
      intro t inside hosts revoked calls
      refine serials_of_call s inside hosts revoked fun phase called => ?_
      rw [calls] at called
      exact List.mem_or_eq_of_mem_set called
    cases resumed ran with
    | rests _ _ quiet =>
      rcases sets member rfl rfl rfl with old | new
      · exact .inl old
      · rw [(held_quiet quiet).1] at new
        cases new
    | puts hostId fresh =>
      rcases sets member rfl rfl rfl with old | new
      · exact .inl old
      · cases new
    | tries request nowUnix host _ _ found answered =>
      obtain ⟨nonces, rfl, authorised⟩ := authorised answered
      rcases sets member rfl rfl rfl with old | new
      · exact .inl old
      · cases authorised with
        | refused => cases new
        | issued cert =>
          obtain ⟨row, id⟩ := findKey_some found
          rcases List.mem_append.mp new with read | draws
          · obtain ⟨known, inside, same⟩ := List.mem_map.mp read
            cases same
            exact .inl (mem_serials.mpr
              (.inl ⟨host, row, Option.mem_toList.mp inside, rfl⟩))
          · cases List.mem_singleton.mp draws
            exact .inr ⟨_, issues_of_issued turn ran, rfl, id⟩
    | lists request host cert at_ =>
      rcases sets member rfl rfl rfl with old | new
      · exact .inl old
      · refine .inl (mem_serials.mpr (.inr (.inr ⟨_, here, ?_⟩)))
        rcases List.mem_append.mp new with read | draws
        · obtain ⟨known, inside, same⟩ := List.mem_map.mp read
          cases same
          refine List.mem_append_left _ (List.mem_map_of_mem (Option.mem_toList.mpr ?_))
          exact superseded_of_mem (Option.mem_toList.mp inside)
        · exact List.mem_append_right _ draws
    | renews host cert revokes at_ =>
      refine .inl (mem_serials.mpr ?_)
      rcases mem_serials.mp member with
        ⟨row, inside, named, id⟩ | ⟨row, inside, named, id⟩ | held
      · obtain ⟨before, old, rfl⟩ := List.mem_map.mp inside
        by_cases mine : before.id = host.id
        · rw [if_pos mine] at named id
          cases named
          refine .inr (.inr ⟨_, here, List.mem_append_right _ (List.mem_singleton.mpr ?_)⟩)
          rw [← mine, ← id]
          rfl
        · rw [if_neg mine] at named id
          exact .inl ⟨before, old, named, id⟩
      · rcases List.mem_append.mp inside with old | new
        · exact .inr (.inl ⟨row, old, named, id⟩)
        · obtain ⟨revoked, known, rfl⟩ := List.mem_map.mp new
          cases named
          cases id
          exact .inr (.inr ⟨_, here, List.mem_append_left _ (List.mem_map_of_mem known)⟩)
      · obtain ⟨phase, inside, holds⟩ := held
        rcases List.mem_or_eq_of_mem_set inside with old | rfl
        · exact .inr (.inr ⟨phase, old, holds⟩)
        · cases holds

theorem Server.Apart.step (apart : s.Apart) (fresh : s.Fresh service event)
    (stepped : s.step service event = some t) : t.Apart := by
  have drawn : ∀ issued ∈ s.issues service event, ∀ hostId,
      (issued.2.newSerial, hostId) ∉ s.serials := fun issued out hostId inside =>
    fresh issued out (List.mem_map.mpr ⟨_, inside, rfl⟩)
  rintro ⟨serial, first⟩ left ⟨other, second⟩ right same
  obtain rfl : serial = other := same
  rcases serials_step stepped left with old | ⟨issued, out, rfl, id⟩
  · rcases serials_step stepped right with oldToo | ⟨issued, out, rfl, _⟩
    · exact apart _ old _ oldToo rfl
    · exact absurd old (drawn issued out first)
  · rcases serials_step stepped right with old | ⟨again, outToo, _, idToo⟩
    · exact absurd old (drawn issued out second)
    · obtain rfl := Option.some.inj (out.symm.trans outToo)
      exact id.trans idToo.symm

theorem row_step (stepped : s.step service event = some t)
    (row : s.Signed service request) : t.Signed service request := by
  cases moved stepped with
  | starts => exact row
  | fails => exact row
  | advances index now nonce random phase u next turn ran =>
    cases resumed ran with
    | rests => exact row
    | puts => exact row
    | tries _ _ _ _ _ _ answered =>
      obtain ⟨nonces, rfl, _⟩ := authorised answered
      exact row
    | lists => exact row
    | renews host cert revokes at_ =>
      obtain ⟨old, found, signed⟩ := row
      have kept : ∀ row : Host,
          (if row.id = host.id then renewed host cert at_ row else row).id = row.id := by
        intro row
        split <;> rfl
      refine ⟨if old.id = host.id then renewed host cert at_ old else old, ?_, ?_⟩
      · rw [findKey_map kept, found]
        rfl
      · split
        · exact signed
        · exact signed

theorem consume_spares {slot : Option Entry}
    (refused : (consume service slot nonce now).1 = false)
    (alive : ∀ entry ∈ slot, now - entry.putAt ≤ service.nonceTtl) :
    (consume service slot nonce now).2 = slot := by
  unfold consume at refused ⊢
  split
  · rfl
  · next entry =>
    have alive := Int.not_lt.mpr (alive entry rfl)
    dsimp only at refused
    rw [if_neg alive] at refused ⊢
    split
    · rfl
    · next same =>
      rw [if_neg same] at refused
      cases refused

theorem slot_same (s : Server) (hostId other : String) :
    (s.slot hostId (s.nonces.get? hostId)).get? other = s.nonces.get? other := by
  by_cases same : other = hostId
  · subst same
    cases found : s.nonces.get? other with
    | none => exact OrderedMap.get?_erase_self _ _
    | some entry => exact OrderedMap.get?_insert_self _ _ _
  · cases s.nonces.get? hostId with
    | none => exact OrderedMap.get?_erase_other _ same
    | some entry => exact OrderedMap.get?_insert_other _ same _

theorem slot_other {slot : Option Entry} {other : String} (different : other ≠ hostId) :
    (s.slot hostId slot).get? other = s.nonces.get? other := by
  cases slot with
  | none => exact OrderedMap.get?_erase_other _ different
  | some entry => exact OrderedMap.get?_insert_other _ different _

theorem authorise_leaves (answered : s.authorise service request host now random = (t, next)) :
    verifySignature service request.hostId request.nonce request.ts request.signature
        host.agentPubkey = false ∧ t = s ∨
      verifySignature service request.hostId request.nonce request.ts request.signature
          host.agentPubkey = true ∧
        t = { s with
          nonces := s.slot request.hostId
            (consume service (s.nonces.get? request.hostId) request.nonce now).2 } := by
  unfold authorise at answered
  split at answered
  · next unsigned =>
    cases answered
    exact .inl ⟨unsigned, rfl⟩
  · next signed =>
    refine .inr ⟨eq_true_of_ne_false signed, ?_⟩
    dsimp only at answered
    split at answered
    · cases answered
      rfl
    · split at answered
      · cases answered
        rfl
      · split at answered
        · cases answered
          rfl
        · cases answered
          rfl

theorem slot_authorise (answered : s.authorise service request host now random = (t, next))
    (spares : hostId ≠ request.hostId ∨
      ¬ (verifySignature service request.hostId request.nonce request.ts request.signature
          host.agentPubkey = true ∧
        (consume service (s.nonces.get? request.hostId) request.nonce now).1 = true) ∧
      ∀ entry ∈ s.nonces.get? request.hostId, now - entry.putAt ≤ service.nonceTtl) :
    t.nonces.get? hostId = s.nonces.get? hostId := by
  rcases authorise_leaves answered with ⟨_, rfl⟩ | ⟨signed, rfl⟩
  · rfl
  · rcases spares with different | ⟨refused, alive⟩
    · exact slot_other different
    · have refused := eq_false_of_ne_true fun valid => refused ⟨signed, valid⟩
      dsimp only
      rw [consume_spares refused alive]
      exact slot_same s request.hostId hostId

theorem uses_of_checks {nowUnix : Int}
    (turn : s.calls[index]? = some (.loading request nowUnix))
    (found : findKey Host.id s.hosts request.hostId = some host)
    (checks : verifySignature service request.hostId request.nonce request.ts request.signature
        host.agentPubkey = true ∧
      (consume service (s.nonces.get? request.hostId) request.nonce now).1 = true) :
    s.uses service (.advance index now nonce random) = some ⟨request, nowUnix, now⟩ := by
  simp [Server.uses, turn, found, checks]

theorem slot_quiet (quiet : s.Quiet service hostId putAt own event)
    (waits : s.waiting own = true)
    (slot : ∀ entry ∈ s.nonces.get? hostId, entry.putAt = putAt)
    (foreign : ∀ index now nonce random, event = .advance index now nonce random →
      some index ≠ own)
    (stepped : s.step service event = some t) : t.nonces.get? hostId = s.nonces.get? hostId := by
  cases moved stepped with
  | starts => rfl
  | fails => rfl
  | advances index now nonce random phase u next turn ran =>
    obtain ⟨timely, unused⟩ := quiet
    obtain ⟨alive, unanswered⟩ := timely waits
    cases resumed ran with
    | rests => rfl
    | puts other fresh =>
      refine OrderedMap.get?_insert_other _ ?_ _
      rintro rfl
      exact unanswered turn
    | tries request nowUnix host _ _ found answered =>
      change u.nonces.get? hostId = _
      refine slot_authorise answered (or_iff_not_imp_left.mpr fun same => ?_)
      have same := not_not.mp same
      subst same
      refine ⟨fun checks => ?_, fun entry inside => ?_⟩
      · exact unused (foreign _ _ _ _ rfl) _ (uses_of_checks turn found checks) rfl
      · rw [slot entry inside]
        exact alive
    | lists => rfl
    | renews => rfl

theorem renews_resumed (turn : s.calls[index]? = some phase)
    (ran : s.resume service now nonce random phase = some (u, next))
    (renewing : renews next = some hostId) :
    renews phase = some hostId ∨
      ∃ use ∈ s.uses service (.advance index now nonce random), use.request.hostId = hostId := by
  cases resumed ran with
  | rests _ _ quiet =>
    rw [(held_quiet quiet).2] at renewing
    cases renewing
  | puts => cases renewing
  | tries request nowUnix host _ _ found answered =>
    obtain ⟨nonces, _, authorised⟩ := authorised answered
    cases authorised with
    | refused => cases renewing
    | issued cert signed consumed =>
      cases renewing
      exact .inr
        ⟨_, uses_of_checks turn found ⟨signed, consumed⟩, (findKey_some found).2.symm⟩
  | lists => exact .inl renewing
  | renews => cases renewing

theorem revoked_resumed {row : RevokedCert}
    (ran : s.resume service now nonce random phase = some (u, next)) (member : row ∈ u.revoked) :
    row ∈ s.revoked ∨ (row.serial, row.hostId) ∈ held phase ∧ renews phase = some row.hostId := by
  cases resumed ran with
  | rests => exact .inl member
  | puts => exact .inl member
  | tries _ _ _ _ _ _ answered =>
    obtain ⟨nonces, rfl, _⟩ := authorised answered
    exact .inl member
  | lists => exact .inl member
  | renews host cert revokes at_ =>
    rcases List.mem_append.mp member with old | new
    · exact .inl old
    · obtain ⟨serial, inside, rfl⟩ := List.mem_map.mp new
      exact .inr ⟨List.mem_append_left _ (List.mem_map_of_mem inside), rfl⟩

theorem Server.Clear.step (clear : s.Clear service request own) (fresh : s.Fresh service event)
    (quiet : s.Quiet service request.hostId putAt own event)
    (stepped : s.step service event = some t) : t.Clear service request own := by
  refine ⟨clear.apart.step fresh stepped, row_step stepped clear.row, ?_⟩
  intro j phase other there
  cases moved stepped with
  | starts event attempts first holds idle =>
    by_cases known : j < s.calls.length
    · refine clear.others j phase other ?_
      rwa [List.getElem?_append_left known] at there
    · obtain ⟨_, rfl⟩ := getElem?_concat_of_le there (Nat.le_of_not_lt known)
      rw [idle]
      exact fun same => by cases same
  | fails index =>
    rcases getElem?_set_cases there with ⟨old, _⟩ | ⟨_, rfl⟩
    · exact clear.others j phase other old
    · exact fun same => by cases same
  | advances index now nonce random before u next turn ran =>
    rcases getElem?_set_cases there with ⟨old, _⟩ | ⟨rfl, rfl⟩
    · exact clear.others j phase other old
    · intro renewing
      rcases renews_resumed turn ran renewing with already | ⟨use, used, same⟩
      · exact clear.others j before other turn already
      · exact quiet.2 other use used same

structure Entitled (service : Service) (request : CompleteRequest) : Prop where
  csr : service.validateCsr request.csrPem request.hostId = none
  ca : ∀ random, (service.issueHostCert request.csrPem request.hostId service.ttlDays
    random).isSome

theorem authorise_entitled {cert : IssuedCert}
    (signed : verifySignature service request.hostId request.nonce request.ts request.signature
      host.agentPubkey = true)
    (slot : s.nonces.get? request.hostId = some ⟨request.nonce, putAt⟩)
    (alive : now - putAt ≤ service.nonceTtl)
    (csr : service.validateCsr request.csrPem request.hostId = none)
    (signs : service.issueHostCert request.csrPem request.hostId service.ttlDays random =
      some cert) :
    s.authorise service request host now random =
      ({ s with nonces := s.nonces.erase request.hostId }, .listing request host cert now) := by
  have consumed : consume service (some ⟨request.nonce, putAt⟩) request.nonce now =
      (true, none) := by
    simp [consume, Int.not_lt.mpr alive]
  unfold authorise
  rw [if_neg (by simp [signed]), slot, consumed]
  simp only [csr, signs, Bool.true_eq_false, if_false]
  rfl

theorem resume_commits {cert : IssuedCert} {revokes : Option String} {at_ : Int}
    (free : ∀ serial ∈ revokes, ∀ row ∈ s.revoked, row.serial ≠ serial) :
    s.resume service now nonce random (.committing host cert revokes at_) =
      some ({ s with
        hosts := s.hosts.map fun row => if row.id = host.id then renewed host cert at_ row else row
        revoked := s.revoked ++
          revokes.toList.map fun serial => ⟨serial, host.id, at_, some "reenrolled"⟩ },
        .returned cert) := by
  have none : (revokes.any fun serial => s.revoked.any fun row => row.serial = serial) =
      false := by
    cases revokes with
    | none => rfl
    | some serial => simpa using free serial rfl
  simp only [Server.resume, none, Bool.false_eq_true, if_false]

theorem own_resumed {draws : List Nat} (entitled : Entitled service request)
    (clear : s.Clear service request (some index))
    (turn : s.calls[index]? = some phase)
    (outcome : Outcome service request nowUnix putAt s draws phase)
    (alive : s.waiting (some index) = true → now - putAt ≤ service.nonceTtl)
    (short : draws.length < 3) :
    ∃ u next, s.resume service now nonce random phase = some (u, next) ∧
      Outcome service request nowUnix putAt
        { u with calls := s.calls.set index next } (draws ++ [random]) next := by
  cases outcome with
  | waits slot =>
    have alive := alive (by simp [waiting, turn, loads])
    obtain ⟨host, found, signed⟩ := clear.row
    obtain ⟨cert, signs⟩ := Option.isSome_iff_exists.mp (entitled.ca random)
    refine ⟨{ s with nonces := s.nonces.erase request.hostId }, _, ?_,
      .issued random host cert now (findKey_some found).2 signs⟩
    simp only [Server.resume, found]
    rw [authorise_entitled signed slot alive entitled.csr signs]
  | issued first host cert at_ id signs =>
    refine ⟨_, _, rfl, .listed first random host cert _ at_ id signs ?_⟩
    intro serial superseded row member same
    have here : (serial, host.id) ∈ held (.listing request host cert at_) :=
      List.mem_append_left _ (List.mem_map_of_mem
        (Option.mem_toList.mpr (superseded_of_mem superseded)))
    have mine : row.hostId = host.id := clear.apart (row.serial, row.hostId)
      (mem_serials.mpr (.inr (.inl ⟨row, member, rfl, rfl⟩))) (serial, host.id)
      (mem_serials.mpr (.inr (.inr ⟨_, List.mem_of_getElem? turn, here⟩))) same
    exact superseded_not_revoked superseded row member mine same
  | listed first second host cert revokes at_ id signs free =>
    exact ⟨_, _, resume_commits free, .returned first second random cert signs⟩
  | returned => exact absurd short (Nat.lt_irrefl 3)

theorem Server.Outcome.length_le {draws : List Nat}
    (outcome : Outcome service request nowUnix putAt s draws phase) :
    draws.length < 3 ∨ ∃ cert, phase = .returned cert := by
  cases outcome with
  | returned _ _ _ cert => exact .inr ⟨cert, rfl⟩
  | _ => exact .inl (by simp)

theorem Server.Outcome.foreign {draws : List Nat}
    (outcome : Outcome service request nowUnix putAt s draws phase)
    (clear : s.Clear service request (some index))
    (turn : s.calls[index]? = some phase)
    (quiet : s.Quiet service request.hostId putAt (some index) event)
    (other : ∀ place now nonce random, event = .advance place now nonce random → place ≠ index)
    (stepped : s.step service event = some t) :
    Outcome service request nowUnix putAt t draws phase := by
  have apart : ∀ place now nonce random, event = .advance place now nonce random →
      some place ≠ some index :=
    fun place now nonce random same equal =>
      other place now nonce random same (Option.some.inj equal)
  cases outcome with
  | waits slot =>
    refine .waits ?_
    have waits : s.waiting (some index) = true := by simp [waiting, turn, loads]
    rw [slot_quiet quiet waits (fun entry inside => ?_) apart stepped]
    · exact slot
    · rw [slot] at inside
      cases inside
      rfl
  | issued random host cert at_ id signs => exact .issued random host cert at_ id signs
  | listed random second host cert revokes at_ id signs free =>
    refine .listed random second host cert revokes at_ id signs ?_
    intro serial revoked row member same
    cases moved stepped with
    | starts => exact free serial revoked row member same
    | fails => exact free serial revoked row member same
    | advances place now nonce drawn before u next there ran =>
      rcases revoked_resumed ran member with old | ⟨holds, renewing⟩
      · exact free serial revoked row old same
      · have mine : (serial, host.id) ∈ held (.committing host cert revokes at_) :=
          List.mem_append_left _ (List.mem_map_of_mem (Option.mem_toList.mpr revoked))
        have one : row.hostId = host.id := clear.apart (row.serial, row.hostId)
          (mem_serials.mpr (.inr (.inr ⟨_, List.mem_of_getElem? there, holds⟩)))
          (serial, host.id)
          (mem_serials.mpr (.inr (.inr ⟨_, List.mem_of_getElem? turn, mine⟩))) same
        refine clear.others place before (apart place now nonce drawn rfl) there ?_
        rw [renewing, one, id]
  | returned random second third cert signs => exact .returned random second third cert signs

theorem step_advance (turn : s.calls[index]? = some phase)
    (ran : s.resume service now nonce random phase = some (u, next)) :
    s.step service (.advance index now nonce random) =
      some { u with calls := s.calls.set index next } := by
  simp [Server.step, turn, ran]

theorem Server.Attends.step {draws : List Nat} (entitled : Entitled service request)
    (attends : Attends service request nowUnix putAt index s draws)
    (fresh : s.Fresh service event)
    (quiet : s.Quiet service request.hostId putAt (some index) event)
    (stepped : s.step service event = some t) :
    Attends service request nowUnix putAt index t (draws ++ (drawn index event).toList) := by
  obtain ⟨clear, phase, turn, outcome⟩ := attends
  refine ⟨clear.step fresh quiet stepped, ?_⟩
  have inside := (List.getElem?_eq_some_iff.mp turn).1
  by_cases own : ∃ now nonce random, event = .advance index now nonce random
  · obtain ⟨now, nonce, random, rfl⟩ := own
    rcases outcome.length_le with short | ⟨cert, rfl⟩
    · obtain ⟨u, next, ran, done⟩ :=
        own_resumed entitled clear turn outcome (fun waits => (quiet.1 waits).1) short
      obtain rfl := Option.some.inj ((step_advance turn ran).symm.trans stepped)
      refine ⟨next, List.getElem?_set_self inside, ?_⟩
      simpa [drawn] using done
    · simp [Server.step, turn, Server.resume] at stepped
  · have other : ∀ place now nonce random, event = .advance place now nonce random →
        place ≠ index := by
      rintro place now nonce random rfl rfl
      exact own ⟨now, nonce, random, rfl⟩
    have none : drawn index event = none := by
      cases event with
      | advance place now nonce random => simp [drawn, other place now nonce random rfl]
      | _ => rfl
    rw [none, Option.toList_none, List.append_nil]
    refine ⟨phase, ?_, outcome.foreign clear turn quiet other stepped⟩
    cases moved stepped with
    | starts => rwa [List.getElem?_append_left inside]
    | fails place =>
      rwa [List.getElem?_set_ne]
      rintro rfl
      exact quiet rfl
    | advances place now nonce random before u next there ran =>
      rwa [List.getElem?_set_ne (other place now nonce random rfl)]

theorem dropWhile_length_le {times : List Int} (cutoff : Int) (sorted : times.Pairwise (· ≤ ·)) :
    (times.dropWhile fun at_ => at_ < cutoff).length ≤
      times.countP (fun at_ => cutoff ≤ at_) := by
  induction times with
  | nil => exact Nat.le_refl _
  | cons first rest ih =>
    obtain ⟨least, sorted⟩ := List.pairwise_cons.mp sorted
    by_cases old : first < cutoff
    · rw [List.dropWhile_cons_of_pos (by simpa using old),
        List.countP_cons_of_neg (by simpa using old)]
      exact ih sorted
    · have recent : ∀ at_ ∈ first :: rest, cutoff ≤ at_ := by
        intro at_ member
        rcases List.mem_cons.mp member with rfl | later
        · exact Int.not_lt.mp old
        · exact Int.le_trans (Int.not_lt.mp old) (least at_ later)
      have kept : (first :: rest).dropWhile (fun at_ => at_ < cutoff) = first :: rest :=
        List.dropWhile_cons_of_neg (by simpa using old)
      have counted : (first :: rest).countP (fun at_ => cutoff ≤ at_) = (first :: rest).length :=
        List.countP_eq_length.mpr fun at_ member => decide_eq_true (recent at_ member)
      exact Nat.le_of_eq ((congrArg List.length kept).trans counted.symm)

theorem allow_of_few {attempts : List Int} (sorted : attempts.Pairwise (· ≤ ·))
    (few : attempts.countP (fun at_ => now - service.window ≤ at_) < service.maxPerWindow) :
    (allow service attempts now).1 = true := by
  have short := Nat.lt_of_le_of_lt (dropWhile_length_le (now - service.window) sorted) few
  unfold allow
  dsimp only
  rw [if_neg (Nat.not_le.mpr short)]

theorem allow_sublist {attempts times : List Int} (held : attempts.Sublist times) :
    (allow service attempts now).2.Sublist
      (times ++ if (allow service attempts now).1 = true then [now] else []) := by
  have recent := (List.dropWhile_sublist fun at_ => decide (at_ < now - service.window)).trans held
  unfold allow
  dsimp only
  split
  · simpa using recent
  · simpa using recent

theorem attempts_step {times : List Int}
    (held : ((s.attempts.get? hostId).getD []).Sublist times)
    (stepped : s.step service event = some t) :
    ((t.attempts.get? hostId).getD []).Sublist
      (times ++ (s.letThrough service hostId event).toList) := by
  cases event with
  | challenge other signingPubkey =>
    cases stepped
    simpa [letThrough] using held
  | fail index =>
    obtain ⟨phase, turn, goes⟩ := Option.bind_eq_some_iff.mp stepped
    split at goes
    · cases goes
    · cases goes
      simpa [letThrough] using held
  | advance index now nonce random =>
    obtain ⟨phase, turn, goes⟩ := Option.bind_eq_some_iff.mp stepped
    obtain ⟨⟨u, next⟩, ran, rfl⟩ := Option.map_eq_some_iff.mp goes
    have same : u.attempts = s.attempts := by
      cases resumed ran with
      | tries _ _ _ _ _ _ answered =>
        obtain ⟨nonces, rfl, _⟩ := authorised answered
        rfl
      | _ => rfl
    rw [← same] at held
    simpa [letThrough] using held
  | complete request now nowUnix =>
    cases stepped
    dsimp only
    by_cases same : request.hostId = hostId
    · subst same
      rw [OrderedMap.get?_insert_self, Option.getD_some]
      have kept := @allow_sublist service now _ _ held
      unfold letThrough
      simp only [true_and]
      split
      · next allowed => rwa [if_pos allowed] at kept
      · next denied => rwa [if_neg denied] at kept
    · rw [OrderedMap.get?_insert_other _ (Ne.symm same)]
      simpa [letThrough, same] using held

theorem attempts_run {times : List Int}
    (held : ((s.attempts.get? hostId).getD []).Sublist times)
    (reached : run (step service) s events = some t) :
    ((t.attempts.get? hostId).getD []).Sublist
      (times ++ outputs (step service) (letThrough service hostId) s events) := by
  induction events generalizing s times with
  | nil =>
    obtain rfl : s = t := by simpa [run] using reached
    simpa [outputs] using held
  | cons event events ih =>
    obtain ⟨u, stepped, rest⟩ := run_cons_eq_some.mp reached
    rw [outputs_cons stepped, ← List.append_assoc]
    exact ih (attempts_step held stepped) rest

theorem letThrough_sublist (s : Server) (events : List Step) :
    (outputs (step service) (letThrough service hostId) s events).Sublist
      (events.filterMap (completesAt hostId)) := by
  induction events generalizing s with
  | nil => exact List.Sublist.refl _
  | cons event events ih =>
    have first : (s.letThrough service hostId event).toList.Sublist
        (completesAt hostId event).toList := by
      cases event with
      | complete request now nowUnix =>
        unfold letThrough completesAt
        dsimp only
        split
        · next both => rw [if_pos both.1]
        · exact List.nil_sublist _
      | _ => exact List.nil_sublist _
    have split : (event :: events).filterMap (completesAt hostId) =
        (completesAt hostId event).toList ++ events.filterMap (completesAt hostId) := by
      cases found : completesAt hostId event <;> simp [found]
    rw [outputs, split]
    refine first.append ?_
    cases s.step service event with
    | none => exact List.nil_sublist _
    | some t => exact ih t

namespace Server

def Undisturbed (service : Service) (hostId : String) (putAt : Int) (own : Option Nat) (s : Server)
    (event : Step) : Prop :=
  s.Fresh service event ∧ s.Quiet service hostId putAt own event

instance (service : Service) (hostId : String) (putAt : Int) (own : Option Nat) (s : Server)
    (event : Step) : Decidable (s.Undisturbed service hostId putAt own event) :=
  inferInstanceAs (Decidable (s.Fresh service event ∧ s.Quiet service hostId putAt own event))

/-- A host has its Challenge answered in `s`, sends its Complete in `m` and waits until `u`. -/
structure Attempt (service : Service) (hosts : List Host) (revoked : List RevokedCert)
    (request : CompleteRequest) (putAt now nowUnix : Int) (before middle after : List Step)
    (place : Nat) (s t m c u : Server) : Prop where
  first : run (step service) (initial hosts revoked) before = some s
  challenge : s.calls[place]? = some (.closing request.hostId)
  alone : ∀ phase ∈ s.calls, renews phase ≠ some request.hostId
  answered : s.step service (.advance place putAt request.nonce 0) = some t
  second : run (step service) t middle = some m
  completes : m.step service (.complete request now nowUnix) = some c
  third : run (step service) c after = some u
  fresh : Meets (step service) (Fresh service) (initial hosts revoked) before
  quiet : Meets (step service) (Undisturbed service request.hostId putAt none) t middle
  still : Meets (step service) (Undisturbed service request.hostId putAt (some m.calls.length)) c
    after
  sorted : ((before ++ .advance place putAt request.nonce 0 :: middle).filterMap
    (completesAt request.hostId)).Pairwise (· ≤ ·)
  few : (outputs (step service) (letThrough service request.hostId) (initial hosts revoked)
      (before ++ .advance place putAt request.nonce 0 :: middle)).countP
    (fun at_ => now - service.window ≤ at_) < service.maxPerWindow

end Server

theorem step_answers (turn : s.calls[index]? = some (.closing hostId))
    (stepped : s.step service (.advance index now nonce random) = some t) :
    t = { s with
      nonces := s.nonces.insert hostId ⟨nonce, now⟩
      challenged := (hostId, ⟨nonce, now⟩) :: s.challenged
      calls := s.calls.set index (.answered nonce) } := by
  simp only [Server.step, turn, Option.bind_some, Server.resume] at stepped
  split at stepped
  · cases stepped
  · cases stepped
    rfl

theorem step_loads
    (allowed : (allow service ((s.attempts.get? request.hostId).getD []) now).1 = true)
    (skew : (nowUnix - request.ts).natAbs ≤ 60)
    (stepped : s.step service (.complete request now nowUnix) = some t) :
    t = { s with
      attempts := s.attempts.insert request.hostId
        (allow service ((s.attempts.get? request.hostId).getD []) now).2
      calls := s.calls ++ [.loading request nowUnix] } := by
  simp only [Server.step, allowed, Bool.true_eq_false, if_false, if_neg (Nat.not_lt.mpr skew)]
    at stepped
  exact (Option.some.inj stepped).symm

section

variable (attempt :
  Attempt service hosts revoked request putAt now nowUnix before middle after place s t m c u)
include attempt

theorem Server.Attempt.waits (apart : (initial hosts revoked).Apart)
    (row : (initial hosts revoked).Signed service request) :
    m.Clear service request none ∧
      m.nonces.get? request.hostId = some ⟨request.nonce, putAt⟩ := by
  have start : s.Apart ∧ s.Signed service request := by
    refine @run_keeps _ _ (step service) (Fresh service)
      (fun s => s.Apart ∧ s.Signed service request) ?_ _ _ _ ⟨apart, row⟩ attempt.first
      attempt.fresh
    exact fun s event t holds fresh stepped =>
      ⟨holds.1.step fresh stepped, row_step stepped holds.2⟩
  have fresh : s.Fresh service (.advance place putAt request.nonce 0) := by
    simp [Fresh, Server.issues, attempt.challenge]
  have answered : t.Clear service request none ∧
      t.nonces.get? request.hostId = some ⟨request.nonce, putAt⟩ := by
    have after := step_answers attempt.challenge attempt.answered
    refine ⟨⟨start.1.step fresh attempt.answered, row_step attempt.answered start.2, ?_⟩, ?_⟩
    · intro j phase _ there
      rw [after] at there
      rcases getElem?_set_cases there with ⟨old, _⟩ | ⟨_, rfl⟩
      · exact attempt.alone phase (List.mem_of_getElem? old)
      · exact fun same => by cases same
    · rw [after]
      exact OrderedMap.get?_insert_self _ _ _
  refine @run_keeps _ _ (step service) (Undisturbed service request.hostId putAt none)
    (fun m => m.Clear service request none ∧
      m.nonces.get? request.hostId = some ⟨request.nonce, putAt⟩) ?_ _ _ _ answered attempt.second
    attempt.quiet
  intro s event t holds undisturbed stepped
  refine ⟨holds.1.step undisturbed.1 undisturbed.2 stepped, ?_⟩
  rw [slot_quiet undisturbed.2 rfl (fun entry inside => ?_)
    (fun _ _ _ _ _ same => by cases same) stepped]
  · exact holds.2
  · rw [holds.2] at inside
    cases inside
    rfl

theorem Server.Attempt.allowed :
    (allow service ((m.attempts.get? request.hostId).getD []) now).1 = true := by
  have reached : run (step service) (initial hosts revoked)
      (before ++ .advance place putAt request.nonce 0 :: middle) = some m := by
    rw [run_append, attempt.first, Option.bind_some, run, attempt.answered, Option.bind_some,
      attempt.second]
  have none : (((initial hosts revoked).attempts.get? request.hostId).getD []).Sublist [] :=
    List.Sublist.refl _
  have held := attempts_run none reached
  rw [List.nil_append] at held
  refine allow_of_few ?_ (Nat.lt_of_le_of_lt (held.countP_le) attempt.few)
  exact attempt.sorted.sublist (held.trans (letThrough_sublist _ _))

theorem Server.Attempt.attends (apart : (initial hosts revoked).Apart)
    (row : (initial hosts revoked).Signed service request)
    (skew : (nowUnix - request.ts).natAbs ≤ 60) :
    Attends service request nowUnix putAt m.calls.length c [] := by
  obtain ⟨clear, slot⟩ := attempt.waits apart row
  have completes := attempt.completes
  have after := step_loads attempt.allowed skew completes
  have fresh : m.Fresh service (.complete request now nowUnix) := fun _ out => by cases out
  refine ⟨⟨clear.apart.step fresh completes, row_step completes clear.row, ?_⟩,
    .loading request nowUnix, ?_, .waits ?_⟩
  · intro j phase other there
    rw [after] at there
    by_cases known : j < m.calls.length
    · rw [List.getElem?_append_left known] at there
      exact clear.others j phase (fun same => by cases same) there
    · obtain ⟨last, _⟩ := getElem?_concat_of_le there (Nat.le_of_not_lt known)
      exact absurd (congrArg some last) other
  · rw [after]
    exact List.getElem?_concat_length
  · rw [after]
    exact slot

end

namespace Server

def lone (request : CompleteRequest) (pubkey : Bytes) (putAt now nowUnix loadedAt : Int)
    (draws : List Nat) : List Step :=
  [.challenge request.hostId pubkey, .advance 0 putAt [] 0, .advance 0 putAt request.nonce 0,
    .complete request now nowUnix] ++ draws.map fun random => .advance 1 loadedAt [] random

/-- What the host gets, and would get without the others. -/
structure Unblocked (service : Service) (start : Server) (request : CompleteRequest)
    (pubkey : Bytes) (putAt now nowUnix : Int) (index : Nat) (u : Server) (draws : List Nat) :
    Prop where
  outcome : ∃ phase, u.calls[index]? = some phase ∧
    Outcome service request nowUnix putAt u draws phase
  proceeds : draws.length < 3 → ∀ at_ nonce random, at_ - putAt ≤ service.nonceTtl →
    ∃ v, u.step service (.advance index at_ nonce random) = some v
  agrees : draws.length = 3 → ∀ loadedAt, loadedAt - putAt ≤ service.nonceTtl →
    ∃ cert v, u.calls[index]? = some (.returned cert) ∧
      run (step service) start (lone request pubkey putAt now nowUnix loadedAt draws) = some v ∧
      v.calls[1]? = some (.returned cert)

end Server

theorem foldl_drawn (index : Nat) (events : List Step) (draws : List Nat) :
    events.foldl (fun draws event => draws ++ (drawn index event).toList) draws =
      draws ++ events.filterMap (drawn index) := by
  induction events generalizing draws with
  | nil => simp
  | cons event events ih =>
    rw [List.foldl_cons, ih]
    cases found : drawn index event <;> simp [found]

theorem lone_returns {cert : IssuedCert} {loadedAt : Int} (second third : Nat)
    (csr : service.validateCsr request.csrPem request.hostId = none)
    (signs : service.issueHostCert request.csrPem request.hostId service.ttlDays random =
      some cert)
    (found : findKey Host.id hosts request.hostId = some host)
    (signed : verifySignature service request.hostId request.nonce request.ts request.signature
      host.agentPubkey = true)
    (skew : (nowUnix - request.ts).natAbs ≤ 60) (alive : loadedAt - putAt ≤ service.nonceTtl)
    (some_ : 0 < service.maxPerWindow) (apart : (initial hosts revoked).Apart) :
    ∃ v, run (step service) (initial hosts revoked)
        (lone request host.agentPubkey putAt now nowUnix loadedAt [random, second, third]) =
        some v ∧
      v.calls[1]? = some (.returned cert) := by
  let entry : Entry := ⟨request.nonce, putAt⟩
  let waits : Server := { initial hosts revoked with
    nonces := OrderedMap.empty.insert request.hostId entry
    attempts := OrderedMap.empty.insert request.hostId [now]
    challenged := [(request.hostId, entry)]
    calls := [.answered request.nonce, .loading request nowUnix] }
  have begins : run (step service) (initial hosts revoked)
      [.challenge request.hostId host.agentPubkey, .advance 0 putAt [] 0,
        .advance 0 putAt request.nonce 0, .complete request now nowUnix] = some waits := by
    have room : ¬ service.maxPerWindow ≤ 0 := Nat.not_le.mpr some_
    have none : (OrderedMap.empty : OrderedMap String (List Int)).get? request.hostId = none := rfl
    simp [run, Server.step, Server.resume, initial, found, allow, none, room, skew, waits, entry]
  let lists : Server := { waits with
    nonces := waits.nonces.erase request.hostId
    calls := [.answered request.nonce, .listing request host cert loadedAt] }
  have loads : waits.step service (.advance 1 loadedAt [] random) = some lists := by
    have slot : waits.nonces.get? request.hostId = some entry := OrderedMap.get?_insert_self _ _ _
    have ran : waits.resume service loadedAt [] random (.loading request nowUnix) =
        some ({ waits with nonces := waits.nonces.erase request.hostId },
          .listing request host cert loadedAt) := by
      simp only [Server.resume, waits, initial, found]
      exact congrArg some (authorise_entitled signed slot alive csr signs)
    exact step_advance rfl ran
  let commits : Server := { lists with
    calls := [.answered request.nonce,
      .committing host cert (lists.superseded host) loadedAt] }
  have listed : lists.step service (.advance 1 loadedAt [] second) = some commits := rfl
  have free : ∀ serial ∈ lists.superseded host, ∀ row ∈ revoked, row.serial ≠ serial := by
    intro serial superseded row member same
    obtain ⟨inside, _⟩ := findKey_some found
    have mine : row.hostId = host.id := apart (row.serial, row.hostId)
      (mem_serials.mpr (.inr (.inl ⟨row, member, rfl, rfl⟩))) (serial, host.id)
      (mem_serials.mpr (.inl ⟨host, inside, superseded_of_mem superseded, rfl⟩)) same
    exact superseded_not_revoked superseded row member mine same
  have ended : ∃ v, commits.step service (.advance 1 loadedAt [] third) = some v ∧
      v.calls[1]? = some (.returned cert) :=
    ⟨_, step_advance rfl (resume_commits free), rfl⟩
  obtain ⟨v, committed, returned⟩ := ended
  refine ⟨v, ?_, returned⟩
  rw [lone, run_append, begins, Option.bind_some]
  simp only [List.map_cons, List.map_nil, run, loads, listed, committed, Option.bind_some]

/-- The host gets its certificate whatever others request, and the same as without them. -/
theorem unblocked (entitled : Entitled service request)
    (found : findKey Host.id hosts request.hostId = some host)
    (signed : verifySignature service request.hostId request.nonce request.ts request.signature
      host.agentPubkey = true)
    (skew : (nowUnix - request.ts).natAbs ≤ 60) (apart : (initial hosts revoked).Apart)
    (attempt : Attempt service hosts revoked request putAt now nowUnix before middle after place
      s t m c u) :
    Unblocked service (initial hosts revoked) request host.agentPubkey putAt now nowUnix
      m.calls.length u (after.filterMap (drawn m.calls.length)) := by
  have start := attempt.attends apart ⟨host, found, signed⟩ skew
  have attends : Attends service request nowUnix putAt m.calls.length u
      (after.filterMap (drawn m.calls.length)) := by
    have tracked := @run_tracks _ _ (step service)
      (Undisturbed service request.hostId putAt (some m.calls.length)) _
      (Attends service request nowUnix putAt m.calls.length)
      (fun draws event => draws ++ (drawn m.calls.length event).toList)
      (fun s event t draws attends undisturbed stepped =>
        attends.step entitled undisturbed.1 undisturbed.2 stepped)
      _ _ _ _ start attempt.third attempt.still
    rwa [foldl_drawn, List.nil_append] at tracked
  obtain ⟨phase, turn, outcome⟩ := attends.own
  constructor
  case outcome => exact ⟨phase, turn, outcome⟩
  case proceeds =>
    intro short at_ nonce random alive
    obtain ⟨v, next, ran, _⟩ :=
      own_resumed entitled attends.clear turn outcome (fun _ => alive) short
    exact ⟨_, step_advance turn ran⟩
  case agrees =>
    intro all loadedAt alive
    generalize after.filterMap (drawn m.calls.length) = draws at outcome all
    cases outcome with
    | returned first second third cert signs =>
      obtain ⟨v, reached, returned⟩ := lone_returns second third entitled.csr signs found signed
        skew alive (Nat.lt_of_le_of_lt (Nat.zero_le _) attempt.few) apart
      exact ⟨cert, v, turn, reached, returned⟩
    | _ => cases all

def forged (nonce : Bytes) : CompleteRequest := ⟨"h", nonce, 3, [], []⟩

def asked : List Step :=
  [.challenge "h" [1], .advance 0 0 [] 0, .advance 0 0 [5] 0, .challenge "h" [1],
    .advance 1 5 [] 0]

def tried : List Step :=
  [.challenge "h" [2], .advance 2 6 [] 0, .complete (forged [7]) 6 4, .advance 3 6 [] 0]

def waited : List Step :=
  [.complete (forged [5]) 8 4, .advance 4 8 [] 1, .advance 5 8 [] 0, .advance 4 9 [] 0,
    .challenge "h" [1], .advance 6 9 [] 0, .advance 6 9 [9] 0, .advance 4 9 [] 0]

theorem unblocked_by_forged : ∃ s t m c u, Attempt plain [enrolled] [] (signs [7] 3) 5 7 4 asked
      tried waited 1 s t m c u ∧
    Unblocked plain (initial [enrolled] []) (signs [7] 3) [1] 5 7 4 m.calls.length u [1, 0, 0] := by
  have goes : (run (step plain) (initial [enrolled] []) asked).any (fun s =>
      (s.step plain (.advance 1 5 [7] 0)).any fun t => (run (step plain) t tried).any fun m =>
        (m.step plain (.complete (signs [7] 3) 7 4)).any fun c =>
          (run (step plain) c waited).any fun u =>
            s.calls[1]? = some (.closing "h") ∧ (∀ phase ∈ s.calls, renews phase ≠ some "h") ∧
            Meets (step plain) (Undisturbed plain "h" 5 none) t tried ∧
            Meets (step plain) (Undisturbed plain "h" 5 (some m.calls.length)) c waited ∧
            waited.filterMap (drawn m.calls.length) = [1, 0, 0]) = true := by
    decide
  obtain ⟨s, first, goes⟩ := (Option.any_eq_true _ _).mp goes
  obtain ⟨t, answered, goes⟩ := (Option.any_eq_true _ _).mp goes
  obtain ⟨m, second, goes⟩ := (Option.any_eq_true _ _).mp goes
  obtain ⟨c, completes, goes⟩ := (Option.any_eq_true _ _).mp goes
  obtain ⟨u, third, goes⟩ := (Option.any_eq_true _ _).mp goes
  obtain ⟨challenge, alone, quiet, still, draws⟩ := of_decide_eq_true goes
  have attempt : Attempt plain [enrolled] [] (signs [7] 3) 5 7 4 asked tried waited 1 s t m c u :=
    ⟨first, challenge, alone, answered, second, completes, third, by decide, quiet, still,
      by decide, by decide⟩
  have entitled : Entitled plain (signs [7] 3) := ⟨rfl, fun _ => rfl⟩
  have result := @unblocked plain _ _ _ _ _ enrolled _ _ _ _ _ _ _ _ _ _ entitled rfl (by decide)
    (by decide) (by decide) attempt
  rw [draws] at result
  exact ⟨s, t, m, c, u, attempt, result⟩

/-- A Challenge of a stranger who knows the public key takes the slot of the nonce, three forged
Completes take the budget, and a Complete of the host's own takes the serial. -/
theorem strangers_block :
    (run (step plain) (initial [enrolled] []) [.challenge "h" [1], .advance 0 0 [] 0,
        .advance 0 0 [7] 0, .challenge "h" [1], .advance 1 0 [] 0, .advance 1 0 [8] 0,
        .complete (signs [7] 3) 6 4, .advance 2 6 [] 1]).map (fun s => s.calls[2]?) =
      some (some (.failed (.aborted "PERMISSION_DENIED" "nonce invalid or consumed"))) ∧
    (run (step plain) (initial [enrolled] []) [.complete (forged []) 0 4,
        .complete (forged []) 1 4, .complete (forged []) 2 4, .challenge "h" [1],
        .advance 3 3 [] 0, .advance 3 3 [7] 0, .complete (signs [7] 3) 6 4]).map
          (fun s => s.calls[4]?) =
      some (some (.failed (.aborted "RESOURCE_EXHAUSTED" "reenroll rate limit"))) ∧
    (run (step plain) (initial [enrolled] []) [.challenge "h" [1], .advance 0 0 [] 0,
        .advance 0 5 [7] 0, .complete (signs [7] 3) 6 4, .advance 1 6 [] 1, .challenge "h" [1],
        .advance 2 7 [] 0, .advance 2 7 [8] 0, .complete (signs [8] 3) 8 4, .advance 3 8 [] 2,
        .advance 1 9 [] 0, .advance 3 9 [] 0, .advance 1 9 [] 0, .advance 3 9 [] 0]).map
          (fun s => s.calls[3]?) = some (some (.failed .raised)) := by
  decide

end HlHelper.ReEnroll
