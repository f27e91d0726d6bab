import HlHelper.Inbound.RecvLoop

/-! What messages do to the key and the status of a host, and to its results. -/

namespace HlHelper.Inbound

open Audit Library Results

/-- The host is known with the key, and is not quarantined. -/
def InGoodStanding (db : Db) (hostId : HostId) (pubkey : Bytes) : Prop :=
  ∃ host, findKey Host.id db.hosts hostId = some host ∧ host.agentPubkey = pubkey ∧
    host.status ≠ .quarantined

variable {sql : Tasks.SqlOrder} {sha : Sha256} {proto : ResultProtobuf} {ed : Ed25519}
  {db other : Db} {g h : HostId} {pubkey : Bytes} {env : ResultEnvelope} {now : Datetime}
  {resultId : String} {raced : Bool}

theorem InGoodStanding.congr (standing : InGoodStanding db h pubkey)
    (same : other.hosts = db.hosts) : InGoodStanding other h pubkey := by
  unfold InGoodStanding
  rw [same]
  exact standing

theorem setHost_standing {update : Host → Host} (kept : ∀ host, (update host).id = host.id)
    (safe : g = h → ∀ host, (update host).agentPubkey = host.agentPubkey ∧
      (host.status ≠ .quarantined → (update host).status ≠ .quarantined))
    (standing : InGoodStanding db h pubkey) : InGoodStanding (db.setHost g update) h pubkey := by
  obtain ⟨host, found, key, status⟩ := standing
  refine ⟨if host.id = g then update host else host, ?_, ?_⟩
  · rw [findKey_setHost kept, found]
    rfl
  · split
    · next same =>
      obtain ⟨sameKey, sameStatus⟩ := safe (same.symm.trans (findKey_some found).2) host
      exact ⟨sameKey.trans key, sameStatus status⟩
    · exact ⟨key, status⟩

theorem store_hosts (warning : Option Warning) :
    (store sql db env g now resultId raced warning).2.hosts = db.hosts := by
  unfold store
  split_ifs
  · rfl
  · cases raced <;> rfl

theorem store_results (warning : Option Warning) :
    (store sql db env g now resultId raced warning).2.results = db.results ∨
      (store sql db env g now resultId raced warning).2.results =
        db.results ++ [rowOf env g now resultId] := by
  unfold store
  split_ifs
  · exact .inl rfl
  · cases raced
    · exact .inr rfl
    · exact .inl rfl

theorem handle_hosts (sql : Tasks.SqlOrder) (sha : Sha256) (proto : ResultProtobuf) (ed : Ed25519)
    (db : Db) (env : ResultEnvelope) (g : HostId) (now : Datetime) (resultId : String)
    (raced : Bool) :
    (handle sql sha proto ed db env g now resultId raced).2.hosts = db.hosts ∨
      (handle sql sha proto ed db env g now resultId raced).2.hosts =
        (db.setHost g (fun host => { host with status := .quarantined })).hosts := by
  simp only [handle]
  split
  · cases raced <;> exact .inl rfl
  · split_ifs
    · cases raced
      · exact .inr rfl
      · exact .inl rfl
    · cases raced
      · exact .inr rfl
      · exact .inl rfl
    · split
      · exact .inl (store_hosts _)
      · split_ifs
        · cases raced <;> exact .inl rfl
        · exact .inl (store_hosts _)

theorem handle_results (sql : Tasks.SqlOrder) (sha : Sha256) (proto : ResultProtobuf)
    (ed : Ed25519) (db : Db) (env : ResultEnvelope) (g : HostId) (now : Datetime)
    (resultId : String) (raced : Bool) :
    (handle sql sha proto ed db env g now resultId raced).2.results = db.results ∨
      (handle sql sha proto ed db env g now resultId raced).2.results =
        db.results ++ [rowOf env g now resultId] := by
  simp only [handle]
  split
  · cases raced <;> exact .inl rfl
  · split_ifs
    · cases raced <;> exact .inl rfl
    · cases raced <;> exact .inl rfl
    · split
      · exact store_results _
      · split_ifs
        · cases raced <;> exact .inl rfl
        · exact store_results _

theorem handle_signed {host : Host} (found : findKey Host.id db.hosts h = some host)
    (own : env.hostId = h) (signed : verifyResult proto ed env host.agentPubkey = true) :
    (handle sql sha proto ed db env h now resultId raced).2.hosts = db.hosts ∧
      (env.sequence < sql.intLimit →
        (∀ row ∈ db.results, row.hostId = h → row.sequence < env.sequence) →
        ∃ row warning, (handle sql sha proto ed db env h now resultId raced).1 =
          .ok (row, warning)) := by
  constructor
  · simp only [handle, found, own, ne_eq, not_true_eq_false, if_false, signed,
      Bool.true_eq_false]
    split
    · exact store_hosts _
    · split_ifs
      · cases raced <;> rfl
      · exact store_hosts _
  · intro held newer
    have accepted : handle sql sha proto ed db env h now resultId raced =
        (.ok (rowOf env h now resultId, linkWarning sha proto env (lastRow sql db h)),
          conclude db (insert sql db env h now resultId) (acceptance env h now) raced) := by
      refine handle_eq_ok.mpr ⟨⟨host, found, signed⟩, own, ?_, held, rfl, rfl, rfl⟩
      intro last newest
      obtain ⟨inside, here⟩ := List.mem_filter.mp (sql.latest_mem newest).1
      exact newer last inside (of_decide_eq_true here)
    rw [accepted]
    exact ⟨_, _, rfl⟩

theorem heartbeat_standing (beat : Heartbeat) (now : Datetime) (host : Host) :
    (heartbeat beat now host).id = host.id ∧
      (heartbeat beat now host).agentPubkey = host.agentPubkey ∧
      (heartbeat beat now host).status = .healthy := by
  simp only [heartbeat, persistHeartbeat]
  split <;> exact ⟨rfl, rfl, rfl⟩

theorem hosts_closeResurvey (db : Db) (g : HostId) (now : Datetime) :
    (closeResurvey db g now).hosts = db.hosts ∧
      (closeResurvey db g now).results = db.results := by
  unfold closeResurvey
  split <;> exact ⟨rfl, rfl⟩

theorem recvMessage_standing (standing : InGoodStanding db h pubkey) {msg : AgentToServer}
    (safe : ∀ env, msg = .result env → g ≠ h) :
    InGoodStanding (recvMessage sql sha proto ed db g now resultId raced msg) h pubkey := by
  cases msg with
  | result env =>
    rcases handle_hosts sql sha proto ed db env g now resultId raced with same | quarantined
    · exact standing.congr same
    · apply InGoodStanding.congr ?_ quarantined
      refine setHost_standing ?_ ?_ standing
      · exact fun _ => rfl
      · exact fun same => absurd same (safe env rfl)
  | heartbeat beat =>
    apply setHost_standing (fun host => (heartbeat_standing beat now host).1) ?_ standing
    intro _ host
    obtain ⟨-, key, healthy⟩ := heartbeat_standing beat now host
    refine ⟨key, ?_⟩
    intro _
    rw [healthy]
    decide
  | hostSurvey survey =>
    apply InGoodStanding.congr ?_ (hosts_closeResurvey _ g now).1
    refine setHost_standing ?_ ?_ standing
    · exact fun _ => rfl
    · exact fun _ _ => ⟨rfl, id⟩
  | audit event => exact standing.congr rfl
  | packageInventory inventory =>
    apply standing.congr
    simp only [recvMessage, handlePackageInventory]
    split_ifs <;> rfl
  | containerInventory inventory =>
    apply standing.congr
    simp only [recvMessage, handleContainerInventory]
    split_ifs <;> rfl
  | hostFacts facts =>
    simp only [recvMessage, handleHostFacts]
    split_ifs
    · exact standing
    · refine setHost_standing ?_ ?_ standing
      · exact fun _ => rfl
      · exact fun _ _ => ⟨rfl, id⟩

theorem recvMessage_results (sql : Tasks.SqlOrder) (sha : Sha256) (proto : ResultProtobuf)
    (ed : Ed25519) (db : Db) (g : HostId) (now : Datetime) (resultId : String) (raced : Bool)
    (msg : AgentToServer) :
    (recvMessage sql sha proto ed db g now resultId raced msg).results = db.results ∨
      ∃ env, msg = .result env ∧
        (recvMessage sql sha proto ed db g now resultId raced msg).results =
          db.results ++ [rowOf env g now resultId] := by
  cases msg with
  | result env =>
    rcases handle_results sql sha proto ed db env g now resultId raced with same | added
    · exact .inl same
    · exact .inr ⟨env, rfl, added⟩
  | heartbeat beat => exact .inl rfl
  | hostSurvey survey => exact .inl (hosts_closeResurvey _ g now).2
  | audit event => exact .inl rfl
  | packageInventory inventory =>
    simp only [recvMessage, handlePackageInventory]
    split_ifs <;> exact .inl rfl
  | containerInventory inventory =>
    simp only [recvMessage, handleContainerInventory]
    split_ifs <;> exact .inl rfl
  | hostFacts facts =>
    simp only [recvMessage, handleHostFacts]
    split_ifs <;> exact .inl rfl

end HlHelper.Inbound
