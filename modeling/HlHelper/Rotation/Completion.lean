import HlHelper.ReEnroll.Soundness
import HlHelper.Rotation.Orchestrator

/-! With the CA of the server no attempt completes: what it returns is not what `rotate` and
`Complete` take apart. -/

namespace HlHelper.Rotation

open HlHelper.Library
open ReEnroll (Host RevokedCert)

/-- The service with the CA that the server is started with. -/
def Service.internal (service : Service) : Service :=
  { service with
    ca := fun csrPem hostId ttl random =>
      (issueHostCert service.x509 csrPem hostId ttl random).map .pem }

def Agent.serial (agent : Agent) (held : Certificate) : Option String :=
  (agent.certInfo held.chain).map fun info => info.2.2

/-- The call has come to its end within the rate limit, and not by the database. -/
def RotatePhase.handled : RotatePhase → Prop
  | .returned _ _ _ => True
  | .failed error => error ≠ .rateLimited ∧ error ≠ .raised
  | .loading _ | .committing _ _ _ _ _ _ => False

def certless : ReEnroll.Phase → Bool
  | .listing _ _ _ _ | .committing _ _ _ _ | .returned _ => false
  | _ => true

namespace World

variable (service : Service)

/-- The request of the attempt was let through and served, and the response, if there is one, has
arrived. -/
def InTime (w : World) (attempt : Nat) : Prop :=
  ∃ call ∈ w.rotations, call.attempt = attempt ∧ call.phase.handled ∧
    ∀ response ∈ sends attempt call.phase, w.channel = some response

/-- The attempt that an event ends, be it with its response or without. -/
def ends : Step → Option Nat
  | .take index none | .timeout index => some index
  | _ => none

/-- The attempt has got its certificate, and the server stores the serial. -/
def Renewed (w : World) (index : Nat) : Prop :=
  ∃ attempt chain serial, w.attempts[index]? = some attempt ∧ attempt.phase = .done chain ∧
    w.held.chain = chain ∧ service.agent.serial w.held = some serial ∧
    ∃ row ∈ w.server.hosts, row.id = service.agent.hostId ∧ row.certSerial = some serial

def Completes (w : World) (event : Step) : Prop :=
  ∀ index ∈ ends event, w.InTime index →
    ∀ t, w.step service event = some t → t.Renewed service index

def Unserved (w : World) (event : Step) : Prop :=
  ∀ index ∈ ends event, ¬ w.InTime index

def starts (now : Int) : Step → Prop
  | .rotateOnce _ _ none at_ | .checkAndRecover at_ => at_ = now
  | _ => False

def CanObtain (w : World) : Prop :=
  ∃ first events t, starts w.clock first ∧
    run (step service) w (first :: events) = some t ∧
    service.agent.serial t.held ≠ service.agent.serial w.held

/-- The certificate is not revoked, or the agent can obtain another. -/
def Safe (w : World) : Prop :=
  (∀ row ∈ w.server.revoked, some row.serial ≠ service.agent.serial w.held) ∨ w.CanObtain service

structure Barren (hosts : List Host) (revoked : List RevokedCert) (held : Certificate)
    (w : World) : Prop where
  hosts : w.server.hosts = hosts
  revoked : w.server.revoked = revoked
  held : w.held = held
  responses : w.responses = []
  channel : w.channel = none
  rotations : ∀ call ∈ w.rotations,
    (∃ context, call.phase = .loading context) ∨ ∃ error, call.phase = .failed error
  attempts : ∀ attempt ∈ w.attempts, ∀ chain, attempt.phase ≠ .done chain
  calls : ∀ phase ∈ w.server.calls, certless phase = true

end World

open World

theorem barren_step {service : ReEnroll.Service} {s t : ReEnroll.Server} {event : ReEnroll.Step}
    (fruitless : ∀ csrPem hostId ttlDays random,
      service.issueHostCert csrPem hostId ttlDays random = none)
    (calls : ∀ phase ∈ s.calls, certless phase = true)
    (stepped : s.step service event = some t) :
    t.hosts = s.hosts ∧ t.revoked = s.revoked ∧ ∀ phase ∈ t.calls, certless phase = true := by
  have sets : ∀ index next, certless next = true →
      ∀ phase ∈ s.calls.set index next, certless phase = true := by
    intro index next ok phase member
    rcases List.mem_or_eq_of_mem_set member with old | rfl
    · exact calls phase old
    · exact ok
  have appends : ∀ next, certless next = true →
      ∀ phase ∈ s.calls ++ [next], certless phase = true := by
    intro next ok phase member
    rcases List.mem_append.mp member with old | new
    · exact calls phase old
    · rw [List.mem_singleton.mp new]
      exact ok
  cases event with
  | challenge hostId signingPubkey =>
    cases stepped
    exact ⟨rfl, rfl, appends _ rfl⟩
  | complete request now nowUnix =>
    cases stepped
    refine ⟨rfl, rfl, appends _ ?_⟩
    split
    · rfl
    · split <;> rfl
  | fail index =>
    obtain ⟨phase, turn, goes⟩ := Option.bind_eq_some_iff.mp stepped
    split at goes
    · cases goes
    · cases goes
      exact ⟨rfl, rfl, sets index _ rfl⟩
  | advance index now nonce random =>
    obtain ⟨phase, turn, goes⟩ := Option.bind_eq_some_iff.mp stepped
    obtain ⟨⟨u, next⟩, ran, rfl⟩ := Option.map_eq_some_iff.mp goes
    have before := calls phase (List.mem_of_getElem? turn)
    cases ReEnroll.resumed ran with
    | rests _ _ quiet =>
      refine ⟨rfl, rfl, sets index _ ?_⟩
      rcases quiet with ⟨failure, rfl⟩ | ⟨hostId, rfl⟩
      · rfl
      · rfl
    | puts => exact ⟨rfl, rfl, sets index _ rfl⟩
    | tries request nowUnix host _ _ found answered =>
      obtain ⟨nonces, rfl, authorised⟩ := ReEnroll.authorised answered
      cases authorised with
      | refused => exact ⟨rfl, rfl, sets index _ rfl⟩
      | issued cert _ _ _ signs => cases (fruitless _ _ _ _).symm.trans signs
    | lists => cases before
    | renews => cases before

variable {service : Service} {w t : World} {hosts : List Host} {revoked : List RevokedCert}
  {held : Certificate} {event : Step} {events : List Step}

theorem internal_unpack (csrPem : Bytes) (hostId : String) (ttl : Int) (random : Nat) :
    ∃ text, (service.internal.ca csrPem hostId ttl random).bind Issued.unpack = .error text := by
  have returns : service.internal.ca csrPem hostId ttl random =
      (issueHostCert service.x509 csrPem hostId ttl random).map .pem := rfl
  rw [returns]
  cases issueHostCert service.x509 csrPem hostId ttl random with
  | error text => exact ⟨text, rfl⟩
  | ok pem => exact ⟨_, rfl⟩

theorem fruitless (csrPem : Bytes) (hostId : String) (ttlDays : Int) (random : Nat) :
    service.internal.reenrolls.issueHostCert csrPem hostId ttlDays random = none := by
  obtain ⟨text, failed⟩ := @internal_unpack service csrPem hostId service.internal.ttl random
  simp only [Service.reenrolls, failed]

theorem resume_fails {context : RotationContext} {now : Int} {random : Nat} {phase : RotatePhase}
    {after : List Host} {superseded : List RevokedCert}
    (ran : resume service.internal.x509 service.internal.ca service.internal.ttl hosts revoked now
      random (.loading context) = some (after, superseded, phase)) :
    after = hosts ∧ superseded = revoked ∧ ∃ error, phase = .failed error := by
  unfold resume at ran
  dsimp only at ran
  split at ran
  · cases ran
    exact ⟨rfl, rfl, _, rfl⟩
  · next host found =>
    cases ran
    refine ⟨rfl, rfl, ?_⟩
    unfold authorise
    split
    · exact ⟨_, rfl⟩
    · split
      · exact ⟨_, rfl⟩
      · split
        · exact ⟨_, rfl⟩
        · obtain ⟨text, failed⟩ := @internal_unpack service context.csrPem context.hostId
            service.internal.ttl random
          rw [failed]
          exact ⟨_, rfl⟩

theorem mem_set_attempts {attempts : List Attempt} {index : Nat} {next : Attempt}
    (kept : ∀ attempt ∈ attempts, ∀ chain, attempt.phase ≠ .done chain)
    (waits : ∀ chain, next.phase ≠ .done chain) :
    ∀ attempt ∈ attempts.set index next, ∀ chain, attempt.phase ≠ .done chain := by
  intro attempt member
  rcases List.mem_or_eq_of_mem_set member with old | rfl
  · exact kept attempt old
  · exact waits

theorem mem_concat_attempts {attempts : List Attempt} {next : Attempt}
    (kept : ∀ attempt ∈ attempts, ∀ chain, attempt.phase ≠ .done chain)
    (waits : ∀ chain, next.phase ≠ .done chain) :
    ∀ attempt ∈ attempts ++ [next], ∀ chain, attempt.phase ≠ .done chain := by
  intro attempt member
  rcases List.mem_append.mp member with old | new
  · exact kept attempt old
  · rw [List.mem_singleton.mp new]
    exact waits

theorem delivered_phase (allowed : Bool) (context : RotationContext) :
    (∃ context', (if allowed = false then RotatePhase.failed .rateLimited else .loading context) =
        .loading context') ∨
      ∃ error, (if allowed = false then RotatePhase.failed .rateLimited else .loading context) =
        .failed error := by
  cases allowed with
  | false => exact .inr ⟨_, rfl⟩
  | true => exact .inl ⟨_, rfl⟩

namespace World.Barren

variable (barren : w.Barren hosts revoked held)
include barren

theorem served {event : ReEnroll.Step} {server : ReEnroll.Server} {recoveries : List RecoveryPhase}
    (stepped : w.server.step service.internal.reenrolls event = some server) :
    ({ w with server := server, recoveries := recoveries } : World).Barren hosts revoked held := by
  obtain ⟨same, also, calls⟩ := barren_step fruitless barren.calls stepped
  exact ⟨same.trans barren.hosts, also.trans barren.revoked, barren.held, barren.responses,
    barren.channel, barren.rotations, barren.attempts, calls⟩

theorem rotateOnce (csrPem privPem : Bytes) (error : Option String) :
    (w.rotateOnce service.internal csrPem privPem error).Barren hosts revoked held := by
  unfold World.rotateOnce
  split
  · exact { barren with
      attempts := mem_concat_attempts barren.attempts fun _ same => by cases same }
  · exact { barren with
      attempts := mem_concat_attempts barren.attempts fun _ same => by cases same }
  · exact { barren with
      attempts := mem_concat_attempts barren.attempts fun _ same => by cases same }

theorem advance {index random : Nat} {now : Int}
    (acted : w.act service.internal (.advance index now random) = some t) :
    t.Barren hosts revoked held := by
  obtain ⟨call, there, goes⟩ := Option.bind_eq_some_iff.mp acted
  obtain ⟨⟨after, superseded, phase⟩, ran, rfl⟩ := Option.map_eq_some_iff.mp goes
  rcases barren.rotations call (List.mem_of_getElem? there) with
    ⟨context, loads⟩ | ⟨error, ended⟩
  · rw [loads] at ran
    obtain ⟨rfl, rfl, error, rfl⟩ := resume_fails ran
    refine ⟨barren.hosts, barren.revoked, barren.held, ?_, barren.channel, ?_, barren.attempts,
      barren.calls⟩
    · exact (List.append_nil _).trans barren.responses
    · intro other member
      rcases List.mem_or_eq_of_mem_set member with old | rfl
      · exact barren.rotations other old
      · exact .inr ⟨error, rfl⟩
  · rw [ended] at ran
    cases ran

theorem fail {index : Nat} (acted : w.act service.internal (.fail index) = some t) :
    t.Barren hosts revoked held := by
  obtain ⟨call, there, goes⟩ := Option.bind_eq_some_iff.mp acted
  split at goes
  · cases goes
  · cases goes
  · cases goes
    refine { barren with rotations := fun other member => ?_ }
    rcases List.mem_or_eq_of_mem_set member with old | rfl
    · exact barren.rotations other old
    · exact .inr ⟨_, rfl⟩

theorem checkAndRecover {now : Int} (acted : w.checkAndRecover service.internal now = some t) :
    t.Barren hosts revoked held := by
  unfold World.checkAndRecover at acted
  split at acted
  · cases acted
    exact barren
  · split at acted
    · cases acted
      exact barren
    · obtain ⟨server, stepped, rfl⟩ := Option.map_eq_some_iff.mp acted
      exact barren.served stepped

theorem answer {index : Nat} {csrPem privPem : Bytes} {now ts nowUnix : Int}
    (acted : w.answer service.internal index csrPem privPem now ts nowUnix = some t) :
    t.Barren hosts revoked held := by
  unfold World.answer at acted
  split at acted
  · split at acted
    · obtain ⟨server, stepped, rfl⟩ := Option.map_eq_some_iff.mp acted
      exact barren.served stepped
    · cases acted
  · cases acted

theorem complete {index : Nat} {error : Bool}
    (acted : w.complete service.internal index error = some t) : t.Barren hosts revoked held := by
  unfold World.complete at acted
  split at acted
  · split at acted
    · next returned =>
      cases barren.calls _ (List.mem_of_getElem? returned)
    · cases acted
  · cases acted

theorem act (acted : w.act service.internal event = some t) : t.Barren hosts revoked held := by
  cases event with
  | rotateOnce csrPem privPem error now =>
    cases acted
    exact barren.rotateOnce csrPem privPem error
  | deliver index now =>
    obtain ⟨request, there, rfl⟩ := Option.map_eq_some_iff.mp acted
    refine { barren with rotations := fun call member => ?_ }
    rcases List.mem_append.mp member with old | new
    · exact barren.rotations call old
    · rw [List.mem_singleton.mp new]
      exact delivered_phase _ _
  | advance index now random => exact barren.advance acted
  | fail index => exact barren.fail acted
  | loseRequest index =>
    cases acted
    exact { barren with }
  | loseResponse index =>
    cases acted
    exact { barren with responses := by rw [barren.responses]; rfl }
  | receive index =>
    obtain ⟨response, there, _⟩ := Option.map_eq_some_iff.mp acted
    rw [barren.responses] at there
    cases there
  | take index error =>
    obtain ⟨attempt, there, goes⟩ := Option.bind_eq_some_iff.mp acted
    split at goes
    · next some_ =>
      rw [barren.channel] at some_
      cases some_
    · cases goes
  | timeout index =>
    obtain ⟨attempt, there, goes⟩ := Option.bind_eq_some_iff.mp acted
    split at goes
    · cases goes
      exact { barren with
        attempts := mem_set_attempts barren.attempts fun _ same => by cases same }
    · cases goes
  | checkAndRecover now => exact barren.checkAndRecover acted
  | answer index csrPem privPem now ts nowUnix => exact barren.answer acted
  | complete index error => exact barren.complete acted
  | giveUp index =>
    obtain rfl := World.giveUp_eq _ acted
    exact { barren with }
  | serve event =>
    obtain ⟨server, stepped, rfl⟩ := Option.map_eq_some_iff.mp acted
    exact barren.served stepped

end World.Barren

theorem World.Barren.step (barren : w.Barren hosts revoked held)
    (stepped : w.step service.internal event = some t) : t.Barren hosts revoked held := by
  obtain ⟨u, acted, rfl⟩ := Option.map_eq_some_iff.mp stepped
  exact { barren.act acted with }

theorem World.Barren.safe (barren : w.Barren hosts revoked held)
    (free : ∀ row ∈ revoked, some row.serial ≠ service.agent.serial held) :
    w.Safe service.internal := by
  refine .inl fun row member => ?_
  rw [barren.held]
  rw [barren.revoked] at member
  exact free row member

/-- An attempt completes in no run: the first part of the statement holds where there is nothing to
complete. The held certificate is never revoked. -/
theorem completes_iff_unserved
    (free : ∀ row ∈ revoked, some row.serial ≠ service.agent.serial held)
    (reached : run (step service.internal) (initial hosts revoked held) events = some w) :
    (Meets (step service.internal) (Completes service.internal) (initial hosts revoked held)
        events ↔
      Meets (step service.internal) Unserved (initial hosts revoked held) events) ∧
    w.Safe service.internal ∧ w.Barren hosts revoked held := by
  have start : (initial hosts revoked held).Barren hosts revoked held :=
    ⟨rfl, rfl, rfl, rfl, rfl, List.forall_mem_nil _, List.forall_mem_nil _, List.forall_mem_nil _⟩
  have finishes : (run (step service.internal) (initial hosts revoked held) events).isSome := by
    rw [reached]
    rfl
  have barren : w.Barren hosts revoked held :=
    run_preserves (fun _ _ _ barren stepped => barren.step stepped) start reached
  refine ⟨⟨fun completes => ?_, fun unserved => ?_⟩, barren.safe free, barren⟩
  · refine meets_of_keeps (fun _ _ _ barren _ stepped => World.Barren.step barren stepped) ?_ start
      finishes completes
    intro w event t barren completes stepped index ended inTime
    obtain ⟨attempt, chain, _, there, done, _⟩ := completes index ended inTime t stepped
    exact (barren.step stepped).attempts attempt (List.mem_of_getElem? there) chain done
  · refine meets_of_keeps (fun _ _ _ barren _ stepped => World.Barren.step barren stepped) ?_ start
      finishes unserved
    intro w event t _ unserved _ index ended inTime
    exact absurd inTime (unserved index ended)

def expected : Service where
  x509 := ⟨fun csrPem => .ok ⟨true, some "h", csrPem⟩, fun _ publicKey _ _ => publicKey⟩
  ca _ _ _ random := .ok (.parts [1] (toString random) 200)
  window := 3600000000
  ttl := 604800000000
  repr := id
  sha := .head
  verify pubkey message signature := signature = pubkey ++ message
  nonceTtl := 60000000
  reenrollWindow := 86400000000
  maxPerWindow := 3
  agent := ⟨"h", [1], fun message => [1] ++ message, ⟨fun _ _ => true, fun _ _ => true⟩, [],
    fun chain => some (0, 100, if chain = [0] then "0" else "1")⟩

def enrolledHost : Host := ⟨"h", [1], some "0", some 100, none, none, none⟩

/-- With a CA that returns what the callers expect, the rotation completes. -/
example : (run (step expected) (initial [enrolledHost] [] ⟨[0], [3]⟩)
      [.rotateOnce [9] [7] none 5, .deliver 0 6, .advance 0 6 1, .advance 0 6 0, .receive 0,
        .take 0 none]).map (fun w =>
      (w.attempts.map Attempt.phase, w.held, w.server.hosts.map Host.certSerial,
        w.server.revoked.map RevokedCert.serial)) =
    some ([.done [1]], ⟨[1], [7]⟩, [some "1"], ["0"]) := by
  decide

def oneAttempt : List Step :=
  [.rotateOnce [9] [7] none 5, .deliver 0 6, .advance 0 6 1]

theorem completes_iff_unserved_at_once : ∃ w,
    run (step expected.internal) (initial [enrolledHost] [] ⟨[0], [3]⟩)
      (oneAttempt ++ [.timeout 0]) = some w ∧
    (Meets (step expected.internal) (Completes expected.internal)
        (initial [enrolledHost] [] ⟨[0], [3]⟩) (oneAttempt ++ [.timeout 0]) ↔
      Meets (step expected.internal) Unserved (initial [enrolledHost] [] ⟨[0], [3]⟩)
        (oneAttempt ++ [.timeout 0])) ∧
    w.Safe expected.internal ∧ w.Barren [enrolledHost] [] ⟨[0], [3]⟩ := by
  have finishes : (run (step expected.internal) (initial [enrolledHost] [] ⟨[0], [3]⟩)
      (oneAttempt ++ [.timeout 0])).isSome := by
    decide
  obtain ⟨w, reached⟩ := Option.isSome_iff_exists.mp finishes
  exact ⟨w, reached, completes_iff_unserved (List.forall_mem_nil _) reached⟩

/-- The request is let through and served, and the attempt waits for a response in vain. -/
theorem rotation_waits_in_vain :
    (run (step expected.internal) (initial [enrolledHost] [] ⟨[0], [3]⟩)
      (oneAttempt ++ [.timeout 0])).map (fun w =>
        (w.rotations.map ServerCall.phase, w.attempts.map Attempt.phase,
          w.server.hosts.map Host.certSerial, w.held)) =
      some ([.failed (.value "too many values to unpack (expected 3)")], [.failed "await-issue"],
        [some "0"], ⟨[0], [3]⟩) ∧
    ¬ Meets (step expected.internal) (Completes expected.internal)
      (initial [enrolledHost] [] ⟨[0], [3]⟩) (oneAttempt ++ [.timeout 0]) := by
  refine ⟨by decide, fun completes => ?_⟩
  have goes : (run (step expected.internal) (initial [enrolledHost] [] ⟨[0], [3]⟩)
      oneAttempt).any (fun w => w.rotations =
          [⟨0, .failed (.value "too many values to unpack (expected 3)")⟩] ∧
        (w.step expected.internal (.timeout 0)).any fun t =>
          t.attempts.map Attempt.phase = [.failed "await-issue"]) = true := by
    decide
  obtain ⟨w, reached, goes⟩ := (Option.any_eq_true _ _).mp goes
  obtain ⟨served, goes⟩ := of_decide_eq_true goes
  obtain ⟨t, stepped, failed⟩ := (Option.any_eq_true _ _).mp goes
  have inTime : w.InTime 0 := by
    refine ⟨_, by rw [served]; exact List.mem_singleton_self _, rfl, ?_, ?_⟩
    · exact ⟨fun same => (by cases same), fun same => (by cases same)⟩
    · exact fun response member => by cases member
  obtain ⟨attempt, chain, _, there, done, _⟩ :=
    (meets_append reached completes).2.1 0 rfl inTime t stepped
  have member : AttemptPhase.done chain ∈ t.attempts.map Attempt.phase :=
    List.mem_map.mpr ⟨attempt, List.mem_of_getElem? there, done⟩
  rw [of_decide_eq_true failed] at member
  cases List.mem_singleton.mp member

end HlHelper.Rotation
