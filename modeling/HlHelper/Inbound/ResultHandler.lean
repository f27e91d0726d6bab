import HlHelper.Inbound.Tables
import HlHelper.Results.Envelope

/-! `ResultHandler.handle`: a result is checked, stored and audited. When the row of a result gives
back the hash that the next result is linked to. -/

namespace HlHelper.Inbound

open Audit Library Results

def resultStatusToString (status : Int) : ResultStatus :=
  if status = 0 then .ok
  else if status = 1 then .fail
  else if status = 2 then .rejected
  else if status = 3 then .timeout
  else if status = 4 then .capabilityDenied
  else .unknown

/-- `_string_to_result_status`: what the table does not know is `RESULT_OK`. -/
def stringToResultStatus : ResultStatus → Int
  | .ok => 0
  | .fail => 1
  | .rejected => 2
  | .timeout => 3
  | .capabilityDenied => 4
  | .unknown => 0

def statusText : ResultStatus → String
  | .ok => "ok"
  | .fail => "fail"
  | .rejected => "rejected"
  | .timeout => "timeout"
  | .capabilityDenied => "capability_denied"
  | .unknown => "unknown"

/-- `bytes if bytes else None`. -/
def nonempty (content : Bytes) : Option Bytes := if content = [] then none else some content

def resultToEnvelope (row : ResultRow) : ResultEnvelope where
  commandId := row.commandId
  hostId := row.hostId
  sequence := row.sequence
  startedAt := none
  completedAt := none
  exitCode := row.exitCode.getD 0
  stdoutChunk := row.stdoutBlob.getD []
  stderrChunk := row.stderrBlob.getD []
  final := row.final
  status := stringToResultStatus row.status
  rejectionReason := ""
  prevResultHash := ((row.prevResultHash.bind nonempty).getD genesisHash)
  payload := none
  signature := row.signature

def rowOf (env : ResultEnvelope) (expectedHostId : HostId) (now : Datetime) (resultId : String) :
    ResultRow where
  id := resultId
  commandId := env.commandId
  hostId := expectedHostId
  sequence := env.sequence
  status := resultStatusToString env.status
  receivedAt := now
  exitCode := some env.exitCode
  rejectionReason := if env.rejectionReason = "" then none else some env.rejectionReason
  stdoutBlob := nonempty env.stdoutChunk
  stderrBlob := nonempty env.stderrChunk
  final := env.final
  prevResultHash := some env.prevResultHash
  signature := env.signature

inductive ResultRejected where
  | hostNotFound (text : String)
  | badSignature (text : String)
  | chainBroken (text : String)
  /-- The flush of the row raises, which is no `ResultRejectedError`. -/
  | notStored
  deriving DecidableEq, Repr

inductive Warning where
  | firstNonzeroPrevHashAccepted
  | prevHashMismatchAccepted
  | forwardGapAccepted
  deriving DecidableEq, Repr

def signatureHex (signature : Bytes) : String := String.ofList ((hex signature).toList.take 16)

def rejection (env : ResultEnvelope) (expectedHostId : HostId) (now : Datetime)
    (payload : List (String × Value)) : Args :=
  ⟨expectedHostId, "result.reject", some env.commandId, .obj payload, now⟩

def acceptance (env : ResultEnvelope) (expectedHostId : HostId) (now : Datetime) : Args :=
  let status := resultStatusToString env.status
  ⟨expectedHostId, "result.accept", some env.commandId,
    .obj [
      ("sequence", .int env.sequence),
      ("status", .str (statusText status)),
      ("exit_code", if status = .ok ∨ status = .fail then .int env.exitCode else .null),
      ("signature_hex", .str (signatureHex env.signature))],
    now⟩

section Handle

variable (sql : Tasks.SqlOrder) (sha : Sha256) (proto : ResultProtobuf) (ed : Ed25519)

def lastRow (db : Db) (hostId : HostId) : Option ResultRow :=
  sql.latest (fun row => row.sequence) (db.results.filter (fun row => row.hostId = hostId))

/-- How an envelope that is no replay links to the newest row. -/
def linkWarning (env : ResultEnvelope) : Option ResultRow → Option Warning
  | none => if env.prevResultHash ≠ genesisHash then some .firstNonzeroPrevHashAccepted else none
  | some last =>
    if env.sequence = last.sequence + 1 then
      if env.prevResultHash ≠ canonicalResultHash sha proto (resultToEnvelope last) then
        some .prevHashMismatchAccepted
      else none
    else some .forwardGapAccepted

def insert (db : Db) (env : ResultEnvelope) (expectedHostId : HostId) (now : Datetime)
    (resultId : String) : Db :=
  let row := rowOf env expectedHostId now resultId
  let rolledUp := Tasks.acceptResult sql db.rollup resultId
    ⟨env.commandId, expectedHostId, env.sequence, row.status⟩
  { db with results := db.results ++ [row], tasks := rolledUp.tasks }

/-- The audit entry and the commit. An entry that meets a conflict is written after a
rollback of the changes before it. -/
def conclude (db changed : Db) (entry : Args) (raced : Bool) : Db :=
  (if raced then db else changed).appendAudit entry

def store (db : Db) (env : ResultEnvelope) (expectedHostId : HostId) (now : Datetime)
    (resultId : String) (raced : Bool) (warning : Option Warning) :
    Except ResultRejected (ResultRow × Option Warning) × Db :=
  if sql.intLimit ≤ env.sequence then (.error .notStored, db)
  else (.ok (rowOf env expectedHostId now resultId, warning),
    conclude db (insert sql db env expectedHostId now resultId) (acceptance env expectedHostId now)
      raced)

def handle (db : Db) (env : ResultEnvelope) (expectedHostId : HostId) (now : Datetime)
    (resultId : String) (raced : Bool) : Except ResultRejected (ResultRow × Option Warning) × Db :=
  match findKey Host.id db.hosts expectedHostId with
  | none =>
    (.error (.hostNotFound ("Host " ++ expectedHostId ++ " not found")),
      conclude db db (rejection env expectedHostId now [
        ("reason", .str "host_not_found"),
        ("sequence", .int env.sequence)]) raced)
  | some host =>
    let quarantined := db.setHost expectedHostId
      (fun host => { host with status := .quarantined })
    if env.hostId ≠ expectedHostId then
      (.error (.badSignature
          ("Envelope host_id " ++ env.hostId ++ " != expected " ++ expectedHostId)),
        conclude db quarantined (rejection env expectedHostId now [
          ("reason", .str "host_id_mismatch"),
          ("claimed_host_id", .str env.hostId),
          ("sequence", .int env.sequence)]) raced)
    else if verifyResult proto ed env host.agentPubkey = false then
      (.error (.badSignature ("Signature verification failed for " ++ expectedHostId)),
        conclude db quarantined (rejection env expectedHostId now [
          ("reason", .str "bad_signature"),
          ("sequence", .int env.sequence),
          ("signature_hex", .str (signatureHex env.signature))]) raced)
    else
      let last := lastRow sql db expectedHostId
      let accepted := store sql db env expectedHostId now resultId raced
        (linkWarning sha proto env last)
      match last with
      | none => accepted
      | some row =>
        if env.sequence ≤ row.sequence then
          (.error (.chainBroken ("Replay for " ++ expectedHostId ++ ": last=" ++
              toString row.sequence ++ ", got " ++ toString env.sequence)),
            conclude db db (rejection env expectedHostId now [
              ("reason", .str "replay_or_old_seq"),
              ("expected_seq", .int (row.sequence + 1)),
              ("actual_seq", .int env.sequence)]) raced)
        else accepted

end Handle

section Accepted

variable {sql : Tasks.SqlOrder} {sha : Sha256} {proto : ResultProtobuf} {ed : Ed25519}
  {db next : Db} {env : ResultEnvelope} {expectedHostId : HostId} {now : Datetime}
  {resultId : String} {raced : Bool} {row : ResultRow} {warning : Option Warning}

/-- What an accepted result has passed, and what is stored of it. -/
structure Accepted (sql : Tasks.SqlOrder) (sha : Sha256) (proto : ResultProtobuf) (ed : Ed25519)
    (db next : Db) (env : ResultEnvelope) (expectedHostId : HostId) (now : Datetime)
    (resultId : String) (raced : Bool) (row : ResultRow) (warning : Option Warning) : Prop where
  known : ∃ host, findKey Host.id db.hosts expectedHostId = some host ∧
    verifyResult proto ed env host.agentPubkey = true
  own : env.hostId = expectedHostId
  newer : ∀ last, lastRow sql db expectedHostId = some last → last.sequence < env.sequence
  held : env.sequence < sql.intLimit
  row_eq : row = rowOf env expectedHostId now resultId
  warning_eq : warning = linkWarning sha proto env (lastRow sql db expectedHostId)
  next_eq : next = conclude db (insert sql db env expectedHostId now resultId)
    (acceptance env expectedHostId now) raced

theorem store_eq_ok {told : Option Warning} :
    store sql db env expectedHostId now resultId raced told = (.ok (row, warning), next) ↔
      env.sequence < sql.intLimit ∧ row = rowOf env expectedHostId now resultId ∧ warning = told ∧
        next = conclude db (insert sql db env expectedHostId now resultId)
          (acceptance env expectedHostId now) raced := by
  unfold store
  split_ifs with large
  · simp [Nat.not_lt.mpr large]
  · simp [Nat.lt_of_not_le large, and_assoc, eq_comm]

theorem handle_eq_ok :
    handle sql sha proto ed db env expectedHostId now resultId raced =
        (.ok (row, warning), next) ↔
      Accepted sql sha proto ed db next env expectedHostId now resultId raced row warning := by
  constructor
  · intro handled
    simp only [handle] at handled
    split at handled
    · simp at handled
    · next host found =>
      split_ifs at handled with mismatch unverified
      · simp at handled
      · simp at handled
      · have verified := Bool.not_eq_false _ |>.mp unverified
        split at handled
        · next empty =>
          obtain ⟨held, rfl, rfl, rfl⟩ := store_eq_ok.mp handled
          refine ⟨⟨host, found, verified⟩, not_not.mp mismatch, ?_, held, rfl, rfl, rfl⟩
          intro other same
          rw [empty] at same
          cases same
        · next last newest =>
          split_ifs at handled with replay
          · simp at handled
          · obtain ⟨held, rfl, rfl, rfl⟩ := store_eq_ok.mp handled
            refine ⟨⟨host, found, verified⟩, not_not.mp mismatch, ?_, held, rfl, rfl, rfl⟩
            intro other same
            rw [newest, Option.some.injEq] at same
            rw [← same]
            exact Nat.lt_of_not_le replay
  · rintro ⟨⟨host, found, verified⟩, own, newer, held, rfl, rfl, rfl⟩
    simp only [handle, found, own, ne_eq, not_true_eq_false, if_false, verified,
      Bool.true_eq_false]
    have stored : ∀ told, store sql db env expectedHostId now resultId raced told = _ :=
      fun told => store_eq_ok.mpr ⟨held, rfl, rfl, rfl⟩
    cases newest : lastRow sql db expectedHostId with
    | none => exact stored _
    | some last =>
      simp only [Nat.not_le.mpr (newer last newest), if_false]
      exact stored _

/-- The row of an accepted result is its host's newest. -/
theorem lastRow_insert (entry : Args)
    (newer : ∀ last, lastRow sql db expectedHostId = some last → last.sequence < env.sequence) :
    lastRow sql (conclude db (insert sql db env expectedHostId now resultId) entry false)
        expectedHostId = some (rowOf env expectedHostId now resultId) := by
  have rows : (conclude db (insert sql db env expectedHostId now resultId) entry
      false).results.filter (fun row => row.hostId = expectedHostId) =
        db.results.filter (fun row => row.hostId = expectedHostId) ++
          [rowOf env expectedHostId now resultId] := by
    simp [conclude, insert, Db.appendAudit, rowOf]
  have some : (lastRow sql (conclude db (insert sql db env expectedHostId now resultId) entry
      false) expectedHostId).isSome := sql.latest_some (by simp [rows])
  obtain ⟨newest, found⟩ := Option.isSome_iff_exists.mp some
  obtain ⟨inside, above⟩ := sql.latest_mem found
  rw [found, Option.some.injEq]
  rw [rows] at inside above
  rcases List.mem_append.mp inside with earlier | new
  · cases before : lastRow sql db expectedHostId with
    | none =>
      have present : (lastRow sql db expectedHostId).isSome :=
        sql.latest_some (List.ne_nil_of_mem earlier)
      simp [before] at present
    | some last =>
      have highest := (sql.latest_mem before).2 newest earlier
      have lower := newer last before
      have top := above (rowOf env expectedHostId now resultId) (by simp)
      simp only [rowOf] at top
      omega
  · exact List.mem_singleton.mp new

end Accepted

/-- What a row keeps of an envelope is the whole envelope. -/
structure Reproducible (env : ResultEnvelope) : Prop where
  startedAt : env.startedAt = none
  completedAt : env.completedAt = none
  status : 0 ≤ env.status ∧ env.status ≤ 4
  rejectionReason : env.rejectionReason = ""
  prevResultHash : env.prevResultHash ≠ []
  payload : env.payload = none

variable {sql : Tasks.SqlOrder} {sha : Sha256} {proto : ResultProtobuf} {ed : Ed25519}
  {db next : Db} {env : ResultEnvelope} {expectedHostId : HostId} {now : Datetime}
  {resultId : String} {raced : Bool} {row : ResultRow} {warning : Option Warning}

theorem nonempty_getD (content : Bytes) : (nonempty content).getD [] = content := by
  unfold nonempty
  split_ifs with empty
  · exact empty.symm
  · rfl

theorem nonempty_getD_eq_self {content other : Bytes} (different : other ≠ []) :
    (nonempty content).getD other = content ↔ content ≠ [] := by
  unfold nonempty
  split_ifs with empty
  · simp [empty, different]
  · simp [empty]

theorem stringToResultStatus_toString (status : Int) :
    stringToResultStatus (resultStatusToString status) = status ↔ 0 ≤ status ∧ status ≤ 4 := by
  unfold resultStatusToString
  split_ifs <;> simp only [stringToResultStatus] <;> omega

theorem resultToEnvelope_rowOf :
    (resultToEnvelope (rowOf env env.hostId now resultId)).unsigned = env.unsigned ↔
      Reproducible env := by
  have genesis : genesisHash ≠ [] := by simp [genesisHash]
  have link : (((some env.prevResultHash).bind nonempty).getD genesisHash) = env.prevResultHash ↔
      env.prevResultHash ≠ [] := nonempty_getD_eq_self genesis
  have status := stringToResultStatus_toString env.status
  simp only [ResultEnvelope.unsigned, resultToEnvelope, rowOf, ResultEnvelope.mk.injEq,
    nonempty_getD, Option.getD_some, true_and, and_true]
  rw [link, status]
  constructor
  · rintro ⟨started, completed, range, reason, prev, payload⟩
    exact ⟨started.symm, completed.symm, range, reason.symm, prev, payload.symm⟩
  · intro keeps
    exact ⟨keeps.startedAt.symm, keeps.completedAt.symm, keeps.status,
      keeps.rejectionReason.symm, keeps.prevResultHash, keeps.payload.symm⟩

/-- The stored row has the agent's hash exactly if nothing of the envelope was lost,
and exactly then the next contiguous result of an honest agent links to it. -/
theorem stored_hash_reproduced_iff
    (handled : handle sql sha proto ed db env expectedHostId now resultId raced =
      (.ok (row, warning), next))
    (injective : canonicalResultHash sha proto (resultToEnvelope row) =
        canonicalResultHash sha proto env →
      canonicalResultBytes proto (resultToEnvelope row) = canonicalResultBytes proto env) :
    (raced = false → lastRow sql next expectedHostId = some row) ∧
      (canonicalResultHash sha proto (resultToEnvelope row) = canonicalResultHash sha proto env ↔
        Reproducible env) ∧
      ∀ (later : Db) (after : ResultEnvelope) (time : Datetime) (afterId : String)
        (afterRaced : Bool) (afterRow : ResultRow) (afterWarning : Option Warning) (final : Db),
        lastRow sql later expectedHostId = some row →
        after.sequence = env.sequence + 1 →
        after.prevResultHash = canonicalResultHash sha proto env →
        handle sql sha proto ed later after expectedHostId time afterId afterRaced =
          (.ok (afterRow, afterWarning), final) →
        (afterWarning ≠ some .prevHashMismatchAccepted ↔ Reproducible env) := by
  have accepted := handle_eq_ok.mp handled
  have hash : canonicalResultHash sha proto (resultToEnvelope row) =
      canonicalResultHash sha proto env ↔ Reproducible env := by
    rw [canonicalResultHash_eq injective, accepted.row_eq, ← accepted.own]
    exact resultToEnvelope_rowOf
  refine ⟨?_, hash, ?_⟩
  · rintro rfl
    rw [accepted.next_eq, accepted.row_eq]
    exact lastRow_insert _ accepted.newer
  · intro later after time afterId afterRaced afterRow afterWarning final newest contiguous linked
      answered
    have sequence : row.sequence = env.sequence := by
      rw [accepted.row_eq]
      rfl
    rw [(handle_eq_ok.mp answered).warning_eq, newest, linkWarning, if_pos (by omega), linked,
      ← hash]
    split_ifs with same
    · simp [Ne.symm same]
    · simp [not_not.mp same]

def oneHost : Db :=
  { Db.empty with
    hosts := [{ (default : Host) with id := "h1", agentPubkey := Ed25519.plain.publicKey [] }] }

def bareResult : ResultEnvelope :=
  buildAndSign Results.Wire.protobuf .plain [] { (default : ResultEnvelope) with
    commandId := "c1", hostId := "h1", sequence := 1, final := true,
    prevResultHash := genesisHash }

def timedResult : ResultEnvelope :=
  buildAndSign Results.Wire.protobuf .plain [] { bareResult with
    startedAt := some ⟨5, 0⟩, completedAt := some ⟨6, 0⟩ }

theorem oneHost_accepts (own : env.hostId = "h1")
    (verified : verifyResult Results.Wire.protobuf .plain env (Ed25519.plain.publicKey []) = true)
    (held : env.sequence < sql.intLimit) :
    handle sql sha Results.Wire.protobuf .plain oneHost env "h1" now resultId raced =
      (.ok (rowOf env "h1" now resultId,
          linkWarning sha Results.Wire.protobuf env (lastRow sql oneHost "h1")),
        conclude oneHost (insert sql oneHost env "h1" now resultId) (acceptance env "h1" now)
          raced) := by
  refine handle_eq_ok.mpr ⟨⟨_, rfl, verified⟩, own, ?_, held, rfl, rfl, rfl⟩
  intro last found
  have member := (sql.latest_mem found).1
  simp [oneHost, Db.empty] at member

theorem bare_result_reproduced :
    ∃ row, canonicalResultHash .head Results.Wire.protobuf (resultToEnvelope row) =
      canonicalResultHash .head Results.Wire.protobuf bareResult := by
  have handled := @oneHost_accepts Tasks.firstOfLatest .head bareResult default "r1" false rfl
    (by decide) (by decide)
  exact ⟨_, (stored_hash_reproduced_iff handled (by decide)).2.1.mpr
    ⟨rfl, rfl, by decide, rfl, by decide, rfl⟩⟩

/-- With its times a result is stored with another hash, and the honest next result
is logged as a mismatch. -/
theorem timed_result_not_reproduced :
    ∃ row warning next,
      handle Tasks.firstOfLatest .head Results.Wire.protobuf .plain oneHost timedResult "h1" default
          "r1" false = (.ok (row, warning), next) ∧
        canonicalResultHash .head Results.Wire.protobuf (resultToEnvelope row) ≠
          canonicalResultHash .head Results.Wire.protobuf timedResult :=
  ⟨_, _, _, oneHost_accepts rfl (by decide) (by decide), by decide⟩

end HlHelper.Inbound
