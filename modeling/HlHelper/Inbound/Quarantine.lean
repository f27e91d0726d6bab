import HlHelper.Audit.Retention
import HlHelper.Inbound.Standing

/-! The writers of `Host.status` other than operators and enrolment, and how long a
quarantine stands. -/

namespace HlHelper.Inbound

open Audit Library Results

/-- `Host.heartbeat_interval_s` stands beside the rows of the other columns. -/
structure Fleet where
  db : Db
  heartbeatIntervalS : HostId → Int

def staleFactor : Int := 3

/-- `(now - seen).total_seconds() > host.heartbeat_interval_s * STALE_FACTOR`, for a host
that has been seen. -/
def Stale (intervalS : Int) (now : Datetime) (host : Host) : Prop :=
  ∃ seen ∈ host.lastSeenAt,
    intervalS * staleFactor * 1000000 < now.instant - seen.instant

instance (intervalS : Int) (now : Datetime) (host : Host) : Decidable (Stale intervalS now host) :=
  match seen : host.lastSeenAt with
  | none => isFalse (by simp [Stale, seen])
  | some time =>
    decidable_of_iff (intervalS * staleFactor * 1000000 < now.instant - time.instant)
      (by simp [Stale, seen])

/-- `scan_offline_transitions`: the hosts left are those of its select. -/
def scanOfflineTransitions (fleet : Fleet) (now : Datetime) : Fleet :=
  { fleet with
    db := { fleet.db with
      hosts := fleet.db.hosts.map (fun host =>
        if host.status ≠ .offline ∧ Stale (fleet.heartbeatIntervalS host.id) now host then
          { host with status := .offline }
        else host) } }

/-- A message of an agent, a sweep of the watcher, or a stream that opens, which only reads
the interval. -/
inductive FleetStep where
  | message (hostId : HostId) (now : Datetime) (resultId : String) (raced : Bool)
      (msg : AgentToServer)
  | scan (now : Datetime)
  | reconnect (hostId : HostId)

section Quarantine

variable (sql : Tasks.SqlOrder) (sha : Sha256) (proto : ResultProtobuf) (ed : Ed25519)

def fleetStep (fleet : Fleet) : FleetStep → Option Fleet
  | .message hostId now resultId raced msg =>
    some { fleet with db := recvMessage sql sha proto ed fleet.db hostId now resultId raced msg }
  | .scan now => some (scanOfflineTransitions fleet now)
  | .reconnect _ => some fleet

end Quarantine

def statusOf (h : HostId) (db : Db) : Option HostStatus :=
  (findKey Host.id db.hosts h).map Host.status

def Quarantined (h : HostId) (fleet : Fleet) : Prop :=
  statusOf h fleet.db = some .quarantined

instance (h : HostId) (fleet : Fleet) : Decidable (Quarantined h fleet) :=
  inferInstanceAs (Decidable (_ = _))

/-- No heartbeat of the host, and no sweep that finds it stale. -/
def Undisturbed (h : HostId) (fleet : Fleet) : FleetStep → Prop
  | .message g _ _ _ (.heartbeat _) => g ≠ h
  | .message _ _ _ _ _ => True
  | .scan now => ∀ host ∈ findKey Host.id fleet.db.hosts h,
      ¬ Stale (fleet.heartbeatIntervalS h) now host
  | .reconnect _ => True

instance (h : HostId) (fleet : Fleet) : DecidablePred (Undisturbed h fleet)
  | .message g _ _ _ (.heartbeat _) => inferInstanceAs (Decidable (g ≠ h))
  | .message _ _ _ _ (.result _) => isTrue trivial
  | .message _ _ _ _ (.hostSurvey _) => isTrue trivial
  | .message _ _ _ _ (.audit _) => isTrue trivial
  | .message _ _ _ _ (.packageInventory _) => isTrue trivial
  | .message _ _ _ _ (.containerInventory _) => isTrue trivial
  | .message _ _ _ _ (.hostFacts _) => isTrue trivial
  | .scan now => inferInstanceAs (Decidable (∀ host ∈ findKey Host.id fleet.db.hosts h,
      ¬ Stale (fleet.heartbeatIntervalS h) now host))
  | .reconnect _ => isTrue trivial

variable {sql : Tasks.SqlOrder} {sha : Sha256} {proto : ResultProtobuf} {ed : Ed25519}
  {fleet later : Fleet} {db other : Db} {g h : HostId}

theorem statusOf_setHost {update : Host → Host} (kept : ∀ host, (update host).id = host.id) :
    statusOf h (db.setHost g update) =
      (findKey Host.id db.hosts h).map (fun host =>
        (if host.id = g then update host else host).status) := by
  rw [statusOf, findKey_setHost kept, Option.map_map]
  rfl

theorem setHost_quarantined {update : Host → Host} (kept : ∀ host, (update host).id = host.id)
    (safe : ∀ host, host.status = .quarantined → (update host).status = .quarantined)
    (quarantined : statusOf h db = some .quarantined) :
    statusOf h (db.setHost g update) = some .quarantined := by
  rw [statusOf_setHost kept]
  unfold statusOf at quarantined
  obtain ⟨host, found, status⟩ := Option.map_eq_some_iff.mp quarantined
  rw [found, Option.map_some, Option.some.injEq]
  split
  · exact safe host status
  · exact status

theorem statusOf_congr (same : other.hosts = db.hosts) : statusOf h other = statusOf h db := by
  unfold statusOf
  rw [same]

theorem statusOf_setHost_set {update : Host → Host} {status : HostStatus}
    (kept : ∀ host, (update host).id = host.id) (set : ∀ host, (update host).status = status) :
    statusOf h (db.setHost g update) =
      if h = g then (statusOf h db).map (fun _ => status) else statusOf h db := by
  rw [statusOf_setHost kept]
  unfold statusOf
  cases found : findKey Host.id db.hosts h with
  | none => simp
  | some host =>
    obtain rfl := (findKey_some found).2
    by_cases same : host.id = g
    · simp [same, set]
    · simp [same]

theorem heartbeat_quarantined (quarantined : statusOf h db = some .quarantined) (beat : Heartbeat)
    (now : Datetime) :
    statusOf h (db.setHost g (heartbeat beat now)) = some .quarantined ↔ g ≠ h := by
  rw [statusOf_setHost_set (fun host => (heartbeat_standing beat now host).1)
    (fun host => (heartbeat_standing beat now host).2.2), quarantined]
  by_cases same : h = g
  · simp [same]
  · simp [same, Ne.symm same]

theorem recvMessage_quarantined (quarantined : statusOf h db = some .quarantined)
    (now : Datetime) (resultId : String) (raced : Bool) {msg : AgentToServer}
    (other : ∀ beat, msg ≠ .heartbeat beat) :
    statusOf h (recvMessage sql sha proto ed db g now resultId raced msg) = some .quarantined := by
  cases msg with
  | result env =>
    rcases handle_hosts sql sha proto ed db env g now resultId raced with same | set
    · exact (statusOf_congr same).trans quarantined
    · refine (statusOf_congr set).trans (setHost_quarantined ?_ ?_ quarantined)
      · exact fun _ => rfl
      · exact fun _ _ => rfl
  | heartbeat beat => exact absurd rfl (other beat)
  | hostSurvey survey =>
    refine (statusOf_congr (hosts_closeResurvey _ g now).1).trans
      (setHost_quarantined ?_ ?_ quarantined)
    · exact fun _ => rfl
    · exact fun _ status => status
  | audit event => exact quarantined
  | packageInventory inventory =>
    refine (statusOf_congr ?_).trans quarantined
    simp only [recvMessage, handlePackageInventory]
    split_ifs <;> rfl
  | containerInventory inventory =>
    refine (statusOf_congr ?_).trans quarantined
    simp only [recvMessage, handleContainerInventory]
    split_ifs <;> rfl
  | hostFacts facts =>
    simp only [recvMessage, handleHostFacts]
    split_ifs
    · exact quarantined
    · refine setHost_quarantined ?_ ?_ quarantined
      · exact fun _ => rfl
      · exact fun _ status => status

theorem scan_quarantined (quarantined : Quarantined h fleet) (now : Datetime) :
    Quarantined h (scanOfflineTransitions fleet now) ↔
      ∀ host ∈ findKey Host.id fleet.db.hosts h,
        ¬ Stale (fleet.heartbeatIntervalS h) now host := by
  have kept : ∀ host : Host,
      (if host.status ≠ .offline ∧ Stale (fleet.heartbeatIntervalS host.id) now host then
        { host with status := .offline } else host).id = host.id := by
    intro host
    split <;> rfl
  unfold Quarantined statusOf at quarantined ⊢
  rw [scanOfflineTransitions, findKey_map kept]
  cases found : findKey Host.id fleet.db.hosts h with
  | none => simp [found] at quarantined
  | some host =>
    obtain rfl := (findKey_some found).2
    have status : host.status = .quarantined := by simpa [found] using quarantined
    by_cases stale : Stale (fleet.heartbeatIntervalS host.id) now host
    · simp [status, stale]
    · simp [status, stale]

theorem fleetStep_quarantined (quarantined : Quarantined h fleet) {step : FleetStep}
    (stepped : fleetStep sql sha proto ed fleet step = some later) :
    Quarantined h later ↔ Undisturbed h fleet step := by
  cases step with
  | message g now resultId raced msg =>
    cases stepped
    cases msg with
    | heartbeat beat => exact heartbeat_quarantined quarantined beat now
    | _ =>
      refine iff_of_true ?_ trivial
      exact recvMessage_quarantined quarantined now resultId raced (by simp)
  | scan now =>
    cases stepped
    exact scan_quarantined quarantined now
  | reconnect g =>
    cases stepped
    exact iff_of_true quarantined trivial

/-- The host is in quarantine in every state along the run of the steps. -/
def StaysQuarantined (sql : Tasks.SqlOrder) (sha : Sha256) (proto : ResultProtobuf) (ed : Ed25519)
    (h : HostId) (fleet : Fleet) (steps : List FleetStep) : Prop :=
  ∀ front later, front <+: steps → run (fleetStep sql sha proto ed) fleet front = some later →
    Quarantined h later

/-- A host in quarantine stays there exactly if no heartbeat of it is processed and no sweep
finds it stale. -/
theorem quarantine_sticky_iff (sql : Tasks.SqlOrder) (sha : Sha256) (proto : ResultProtobuf)
    (ed : Ed25519) {h : HostId} {fleet : Fleet} (quarantined : Quarantined h fleet)
    (steps : List FleetStep) :
    StaysQuarantined sql sha proto ed h fleet steps ↔
      Meets (fleetStep sql sha proto ed) (Undisturbed h) fleet steps := by
  induction steps generalizing fleet with
  | nil =>
    refine iff_of_true ?_ trivial
    intro front later isFront reached
    obtain rfl := List.prefix_nil.mp isFront
    cases reached
    exact quarantined
  | cons step steps ih =>
    obtain ⟨next, stepped⟩ : ∃ next, fleetStep sql sha proto ed fleet step = some next := by
      cases step <;> exact ⟨_, rfl⟩
    have first := fleetStep_quarantined quarantined stepped
    constructor
    · intro stays
      have still : Quarantined h next :=
        stays [step] next ⟨steps, rfl⟩ (run_cons_eq_some.mpr ⟨next, stepped, rfl⟩)
      refine ⟨first.mp still, fun other same => ?_⟩
      obtain rfl : next = other := Option.some.inj (stepped.symm.trans same)
      refine (ih still).mp fun front later isFront reached => ?_
      exact stays (step :: front) later (List.cons_prefix_cons.mpr ⟨rfl, isFront⟩)
        (run_cons_eq_some.mpr ⟨next, stepped, reached⟩)
    · intro met front later isFront reached
      cases front with
      | nil =>
        cases reached
        exact quarantined
      | cons head rest =>
        obtain ⟨rfl, isRest⟩ := List.cons_prefix_cons.mp isFront
        obtain ⟨other, same, reached⟩ := run_cons_eq_some.mp reached
        obtain rfl : next = other := Option.some.inj (stepped.symm.trans same)
        exact (ih (first.mpr met.1)).mpr (met.2 next stepped) rest later isRest reached

def healthyFleet (seen : Datetime) : Fleet where
  db :=
    { Db.empty with
      hosts := [{ (default : Host) with id := "h1", status := .healthy, lastSeenAt := some seen }] }
  heartbeatIntervalS := fun _ => 30

def foreignResult : AgentToServer := .result { (default : ResultEnvelope) with hostId := "h2" }

def firstOfMay (minute : Nat) : Datetime := ⟨2025, 5, 1, 12, minute, 0, 0⟩

def inQuarantine : Fleet :=
  { healthyFleet (firstOfMay 0) with
    db := recvMessage Tasks.firstOfLatest .head Results.Wire.protobuf .plain
      (healthyFleet (firstOfMay 0)).db "h1" (firstOfMay 0) "r1" false foreignResult }

/-- A survey, a new stream and a sweep within ninety seconds leave the quarantine. -/
theorem quarantine_outlasts_survey :
    Quarantined "h1" inQuarantine ∧
      StaysQuarantined Tasks.firstOfLatest .head Results.Wire.protobuf .plain "h1" inQuarantine
        [.message "h1" (firstOfMay 0) "" false (.hostSurvey []), .reconnect "h1",
          .scan (firstOfMay 1)] := by
  have quarantined : Quarantined "h1" inQuarantine := by decide
  exact ⟨quarantined, (quarantine_sticky_iff Tasks.firstOfLatest .head Results.Wire.protobuf .plain
    quarantined _).mpr (by decide)⟩

/-- The next heartbeat, or a sweep two minutes later, ends the quarantine. -/
theorem quarantine_ended_by_heartbeat :
    (run (fleetStep Tasks.firstOfLatest .head Results.Wire.protobuf .plain)
        (healthyFleet (firstOfMay 0)) [.message "h1" (firstOfMay 0) "r1" false foreignResult]).any
        (fun fleet => Quarantined "h1" fleet) = true ∧
      (run (fleetStep Tasks.firstOfLatest .head Results.Wire.protobuf .plain)
        (healthyFleet (firstOfMay 0)) [.message "h1" (firstOfMay 0) "r1" false foreignResult,
          .message "h1" (firstOfMay 0) "" false (.heartbeat default)]).any
        (fun fleet => ¬ Quarantined "h1" fleet) = true ∧
      (run (fleetStep Tasks.firstOfLatest .head Results.Wire.protobuf .plain)
        (healthyFleet (firstOfMay 0)) [.message "h1" (firstOfMay 0) "r1" false foreignResult,
          .scan (firstOfMay 2)]).any
        (fun fleet => ¬ Quarantined "h1" fleet) = true := by
  refine ⟨by decide, by decide, by decide⟩

end HlHelper.Inbound
