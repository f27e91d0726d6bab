import Mathlib.Logic.Function.Basic
import HlHelper.Outbox.Store
import HlHelper.Results.Envelope

/-! Sequence numbers and previous hashes of the results of one agent: the variables of
each `runOnce`, the two files they are loaded from, and the executions that claim,
queue and save them. -/

namespace HlHelper.Reporting

open Library Outbox Results

structure Setting where
  sha : Sha256
  proto : ResultProtobuf
  ed : Ed25519
  secret : Bytes
  hostId : HostId

/-- `result.seq` and `result.prev_hash`, and the queued results whose saves they hold. -/
structure Files where
  seq : Option Bytes
  prevHash : Option Bytes
  seqOf : Option Nat
  hashOf : Option Nat

def loadResultSequence (files : Files) : Nat :=
  match files.seq with
  | none => 1
  | some data => if data.length ≠ 8 then 1 else uint64 data

def loadResultPrevHash (files : Files) : Option Bytes :=
  match files.prevHash with
  | none => none
  | some data => if data.length ≠ 32 then none else some data

/-- The variables of one `runOnce`, how many results were queued when it loaded them,
and whether each file then held what was saved for the newest of these. -/
structure Counters where
  seq : Nat
  prevHash : Bytes
  loadedAt : Nat
  seqCurrent : Bool
  hashCurrent : Bool

/-- Where an `executeAndQueueResult` is: in `Execute`, or past the lock with the number of
its result among the queued ones. `os.WriteFile` truncates and then writes. -/
inductive Execution where
  | running (stream : Nat) (commandId : CommandId)
  | queued (nth seq : Nat) (newHash : Bytes)
  | seqTruncated (nth seq : Nat) (newHash : Bytes)
  | seqSaved (nth : Nat) (newHash : Bytes)
  | hashTruncated (nth : Nat) (newHash : Bytes)

/-- The stream whose variables an execution claims from, and its command. -/
structure Claim where
  stream : Nat
  commandId : CommandId
  counters : Counters

/-- `log` lists the results in the order of `Outbox.Append`, with the streams whose
variables they were numbered from. -/
structure Numbering where
  files : Files
  counters : Nat → Option Counters
  executions : Nat → Option Execution
  log : List (Nat × ResultEnvelope)

def Numbering.start : Numbering := ⟨⟨none, none, none, none⟩, fun _ => none, fun _ => none, []⟩

def Numbering.newest (n : Numbering) : Option Nat :=
  match n.log.length with
  | 0 => none
  | nth + 1 => some nth

inductive LocalEvent where
  | connect (i : Nat)
  | command (e i : Nat) (commandId : CommandId)
  | finish (e : Nat) (result : ResultEnvelope) (started completed : Timestamp) (evicted : Nat)
  | fail (e : Nat) (drawn : Bool)
  | openSeq (e : Nat) (ok : Bool)
  | writeSeq (e : Nat) (ok : Bool)
  | openHash (e : Nat) (ok : Bool)
  | writeHash (e : Nat) (ok : Bool)
  | crash

section Steps

variable (setting : Setting)

def numberedResult (c : Counters) (commandId : CommandId) (result : ResultEnvelope)
    (started completed : Timestamp) : ResultEnvelope :=
  buildAndSign setting.proto setting.ed setting.secret
    { result with
      commandId := commandId
      hostId := setting.hostId
      startedAt := some (result.startedAt.getD started)
      completedAt := some (result.completedAt.getD completed)
      final := true
      sequence := c.seq
      prevResultHash := c.prevHash }

def Numbering.load (n : Numbering) : Counters where
  seq := loadResultSequence n.files
  prevHash := (loadResultPrevHash n.files).getD zeroHash
  loadedAt := n.log.length
  seqCurrent := n.files.seqOf = n.newest
  hashCurrent := n.files.hashOf = n.newest

def Numbering.connect (n : Numbering) (i : Nat) : Option Numbering :=
  match n.counters i with
  | some _ => none
  | none => some { n with counters := Function.update n.counters i (some n.load) }

def Numbering.command (n : Numbering) (e i : Nat) (commandId : CommandId) : Option Numbering :=
  match n.executions e, n.counters i with
  | none, some _ =>
    some { n with executions := Function.update n.executions e (some (.running i commandId)) }
  | _, _ => none

/-- What a running execution enters the locked region with. -/
def Numbering.claim (n : Numbering) (e : Nat) : Option Claim :=
  match n.executions e with
  | some (.running i commandId) => (n.counters i).map (fun c => ⟨i, commandId, c⟩)
  | _ => none

def Numbering.finish (n : Numbering) (e : Nat) (result : ResultEnvelope)
    (started completed : Timestamp) : Option Numbering :=
  match n.claim e with
  | none => none
  | some ⟨i, commandId, c⟩ =>
    let env := numberedResult setting c commandId result started completed
    let newHash := canonicalResultHash setting.sha setting.proto env
    some { n with
      counters := Function.update n.counters i
        (some { c with seq := (c.seq + 1) % 2 ^ 64, prevHash := newHash })
      executions := Function.update n.executions e (some (.queued n.log.length c.seq newHash))
      log := n.log ++ [(i, env)] }

/-- The locked region when signing, marshalling or appending fails. -/
def Numbering.fail (n : Numbering) (e : Nat) : Option Numbering :=
  match n.claim e with
  | none => none
  | some ⟨i, _, c⟩ =>
    some { n with
      counters := Function.update n.counters i (some { c with seq := (c.seq + 1) % 2 ^ 64 })
      executions := Function.update n.executions e none }

def Numbering.moveTo (n : Numbering) (e : Nat) (next : Option Execution) (files : Files) :
    Numbering :=
  { n with files := files, executions := Function.update n.executions e next }

/-! The saves after the lock. A file that cannot be opened or written is left as it is. -/

def Numbering.openSeq (n : Numbering) (e : Nat) (ok : Bool) : Option Numbering :=
  match n.executions e with
  | some (.queued nth seq newHash) =>
    if ok then
      some (n.moveTo e (some (.seqTruncated nth seq newHash))
        { n.files with seq := some [], seqOf := none })
    else some (n.moveTo e (some (.seqSaved nth newHash)) n.files)
  | _ => none

def Numbering.writeSeq (n : Numbering) (e : Nat) (ok : Bool) : Option Numbering :=
  match n.executions e with
  | some (.seqTruncated nth seq newHash) =>
    some (n.moveTo e (some (.seqSaved nth newHash))
      (if ok then
        { n.files with seq := some (putUint64 ((seq + 1) % 2 ^ 64)), seqOf := some nth }
      else n.files))
  | _ => none

def Numbering.openHash (n : Numbering) (e : Nat) (ok : Bool) : Option Numbering :=
  match n.executions e with
  | some (.seqSaved nth newHash) =>
    if ok then
      some (n.moveTo e (some (.hashTruncated nth newHash))
        { n.files with prevHash := some [], hashOf := none })
    else some (n.moveTo e none n.files)
  | _ => none

def Numbering.writeHash (n : Numbering) (e : Nat) (ok : Bool) : Option Numbering :=
  match n.executions e with
  | some (.hashTruncated nth newHash) =>
    some (n.moveTo e none
      (if ok then { n.files with prevHash := some newHash, hashOf := some nth } else n.files))
  | _ => none

/-- The end of the process: what is not in a file is gone. -/
def Numbering.crash (n : Numbering) : Numbering :=
  { n with counters := fun _ => none, executions := fun _ => none }

def Numbering.step (n : Numbering) : LocalEvent → Option Numbering
  | .connect i => n.connect i
  | .command e i commandId => n.command e i commandId
  | .finish e result started completed _ => n.finish setting e result started completed
  | .fail e _ => n.fail e
  | .openSeq e ok => n.openSeq e ok
  | .writeSeq e ok => n.writeSeq e ok
  | .openHash e ok => n.openHash e ok
  | .writeHash e ok => n.writeHash e ok
  | .crash => some n.crash

end Steps

section Inversion

/-- A result is queued with the number and the hash of its stream. -/
def Numbering.queue (n : Numbering) (e i : Nat) (c : Counters) (env : ResultEnvelope)
    (newHash : Bytes) : Numbering :=
  { n with
    counters := Function.update n.counters i
      (some { c with seq := (c.seq + 1) % 2 ^ 64, prevHash := newHash })
    executions := Function.update n.executions e (some (.queued n.log.length c.seq newHash))
    log := n.log ++ [(i, env)] }

/-- A number is claimed for a result that is not queued. -/
def Numbering.skip (n : Numbering) (e i : Nat) (c : Counters) : Numbering :=
  { n with
    counters := Function.update n.counters i (some { c with seq := (c.seq + 1) % 2 ^ 64 })
    executions := Function.update n.executions e none }

inductive Numbered (setting : Setting) (n : Numbering) : LocalEvent → Numbering → Prop
  | connect {i : Nat} :
      Numbered setting n (.connect i)
        { n with counters := Function.update n.counters i (some n.load) }
  | command {e i : Nat} {commandId : CommandId} :
      Numbered setting n (.command e i commandId)
        (n.moveTo e (some (.running i commandId)) n.files)
  | finish {e : Nat} {result : ResultEnvelope} {started completed : Timestamp} {evicted i : Nat}
      {commandId : CommandId} {c : Counters} (claimed : n.claim e = some ⟨i, commandId, c⟩)
      (loaded : n.counters i = some c) :
      Numbered setting n (.finish e result started completed evicted)
        (n.queue e i c (numberedResult setting c commandId result started completed)
          (canonicalResultHash setting.sha setting.proto
            (numberedResult setting c commandId result started completed)))
  | fail {e : Nat} {drawn : Bool} {i : Nat} {commandId : CommandId} {c : Counters}
      (claimed : n.claim e = some ⟨i, commandId, c⟩) (loaded : n.counters i = some c) :
      Numbered setting n (.fail e drawn) (n.skip e i c)
  | truncateSeq {e nth seq : Nat} {newHash : Bytes}
      (found : n.executions e = some (.queued nth seq newHash)) :
      Numbered setting n (.openSeq e true)
        (n.moveTo e (some (.seqTruncated nth seq newHash))
          { n.files with seq := some [], seqOf := none })
  | keepSeq {e nth seq : Nat} {newHash : Bytes}
      (found : n.executions e = some (.queued nth seq newHash)) :
      Numbered setting n (.openSeq e false) (n.moveTo e (some (.seqSaved nth newHash)) n.files)
  | saveSeq {e nth seq : Nat} {newHash : Bytes}
      (found : n.executions e = some (.seqTruncated nth seq newHash)) :
      Numbered setting n (.writeSeq e true)
        (n.moveTo e (some (.seqSaved nth newHash))
          { n.files with seq := some (putUint64 ((seq + 1) % 2 ^ 64)), seqOf := some nth })
  | unsavedSeq {e nth seq : Nat} {newHash : Bytes}
      (found : n.executions e = some (.seqTruncated nth seq newHash)) :
      Numbered setting n (.writeSeq e false) (n.moveTo e (some (.seqSaved nth newHash)) n.files)
  | truncateHash {e nth : Nat} {newHash : Bytes}
      (found : n.executions e = some (.seqSaved nth newHash)) :
      Numbered setting n (.openHash e true)
        (n.moveTo e (some (.hashTruncated nth newHash))
          { n.files with prevHash := some [], hashOf := none })
  | keepHash {e : Nat} : Numbered setting n (.openHash e false) (n.moveTo e none n.files)
  | saveHash {e nth : Nat} {newHash : Bytes}
      (found : n.executions e = some (.hashTruncated nth newHash)) :
      Numbered setting n (.writeHash e true)
        (n.moveTo e none { n.files with prevHash := some newHash, hashOf := some nth })
  | unsavedHash {e : Nat} : Numbered setting n (.writeHash e false) (n.moveTo e none n.files)
  | crash : Numbered setting n .crash n.crash

variable {setting : Setting} {n t : Numbering}

theorem claim_eq_some {e : Nat} {claim : Claim} (claimed : n.claim e = some claim) :
    n.executions e = some (.running claim.stream claim.commandId) ∧
      n.counters claim.stream = some claim.counters := by
  unfold Numbering.claim at claimed
  split at claimed
  · next i commandId running =>
    obtain ⟨c, loaded, rfl⟩ := Option.map_eq_some_iff.mp claimed
    exact ⟨running, loaded⟩
  · cases claimed

theorem numbered_of_step {event : LocalEvent} (stepped : n.step setting event = some t) :
    Numbered setting n event t := by
  cases event with
  | connect i =>
    simp only [Numbering.step, Numbering.connect] at stepped
    split at stepped
    · cases stepped
    · cases stepped
      exact .connect
  | command e i commandId =>
    simp only [Numbering.step, Numbering.command] at stepped
    split at stepped
    · cases stepped
      exact .command
    · cases stepped
  | finish e result started completed evicted =>
    simp only [Numbering.step, Numbering.finish] at stepped
    split at stepped
    · cases stepped
    · next claimed =>
      cases stepped
      exact .finish claimed (claim_eq_some claimed).2
  | fail e drawn =>
    simp only [Numbering.step, Numbering.fail] at stepped
    split at stepped
    · cases stepped
    · next claimed =>
      cases stepped
      exact .fail claimed (claim_eq_some claimed).2
  | openSeq e ok =>
    simp only [Numbering.step, Numbering.openSeq] at stepped
    split at stepped
    · next found =>
      cases ok with
      | true =>
        cases stepped
        exact .truncateSeq found
      | false =>
        cases stepped
        exact .keepSeq found
    · cases stepped
  | writeSeq e ok =>
    simp only [Numbering.step, Numbering.writeSeq] at stepped
    split at stepped
    · next found =>
      cases ok with
      | true =>
        cases stepped
        exact .saveSeq found
      | false =>
        cases stepped
        exact .unsavedSeq found
    · cases stepped
  | openHash e ok =>
    simp only [Numbering.step, Numbering.openHash] at stepped
    split at stepped
    · next found =>
      cases ok with
      | true =>
        cases stepped
        exact .truncateHash found
      | false =>
        cases stepped
        exact .keepHash
    · cases stepped
  | writeHash e ok =>
    simp only [Numbering.step, Numbering.writeHash] at stepped
    split at stepped
    · next found =>
      cases ok with
      | true =>
        cases stepped
        exact .saveHash found
      | false =>
        cases stepped
        exact .unsavedHash
    · cases stepped
  | crash =>
    cases stepped
    exact .crash

end Inversion

/-- No other stream has queued a result since this one loaded its variables. -/
def Exclusive (log : List (Nat × ResultEnvelope)) (i : Nat) (c : Counters) : Prop :=
  ∀ entry ∈ log.drop c.loadedAt, entry.1 = i

instance (log : List (Nat × ResultEnvelope)) (i : Nat) (c : Counters) :
    Decidable (Exclusive log i c) :=
  inferInstanceAs (Decidable (∀ entry ∈ log.drop c.loadedAt, entry.1 = i))

/-- A result is queued only on a stream that loaded the sequence saved for the newest
result, while no other stream queues, and the last sequence number is not claimed. -/
def Numbering.SeqOrderly (n : Numbering) : LocalEvent → Prop
  | .finish e _ _ _ _ => ∀ claim ∈ n.claim e,
      claim.counters.seq < 2 ^ 64 - 1 ∧ claim.counters.seqCurrent = true ∧
      Exclusive n.log claim.stream claim.counters
  | .fail e _ => ∀ claim ∈ n.claim e, claim.counters.seq < 2 ^ 64 - 1
  | _ => True

/-- A result is queued only on a stream that loaded the hash saved for the newest result. -/
def Numbering.HashOrderly (n : Numbering) : LocalEvent → Prop
  | .finish e _ _ _ _ => ∀ claim ∈ n.claim e,
      claim.counters.hashCurrent = true ∧ Exclusive n.log claim.stream claim.counters
  | _ => True

instance (n : Numbering) : ∀ event, Decidable (n.SeqOrderly event)
  | .finish e _ _ _ _ => inferInstanceAs (Decidable (∀ claim ∈ n.claim e, _))
  | .fail e _ => inferInstanceAs (Decidable (∀ claim ∈ n.claim e, _))
  | .connect _ | .command _ _ _ | .openSeq _ _ | .writeSeq _ _ | .openHash _ _ | .writeHash _ _
  | .crash => isTrue trivial

instance (n : Numbering) : ∀ event, Decidable (n.HashOrderly event)
  | .finish e _ _ _ _ => inferInstanceAs (Decidable (∀ claim ∈ n.claim e, _))
  | .fail _ _ | .connect _ | .command _ _ _ | .openSeq _ _ | .writeSeq _ _ | .openHash _ _
  | .writeHash _ _ | .crash => isTrue trivial

end HlHelper.Reporting
