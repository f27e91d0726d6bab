import HlHelper.Audit.Chain
import HlHelper.Library.BigEndian
import HlHelper.Library.Runs
import Mathlib.Data.List.MinMax
import Mathlib.Logic.Function.Basic

/-! `SqlAuditChain` of `sql_chain.py` in any number of sessions over one database.
A call of `append` reads, flushes and checkpoints in steps of its own, and the
steps of different sessions interleave. -/

namespace HlHelper.Audit

open HlHelper.Library

/-- Checkpoints are signed by the active key and verified by the key pinned in them. -/
structure SigningBackend where
  sign : Bytes → Bytes → Bytes
  verifyWithPubkey : Bytes → Bytes → Bytes → Bool
  verify_sign : ∀ pubkey data, verifyWithPubkey data (sign pubkey data) pubkey = true

structure Args where
  actor : String
  action : String
  subject : Option String
  payload : Value
  timestamp : Datetime
  deriving Inhabited

/-- A row that a session has flushed and not committed; `ω` is for the tables of the
callers. -/
inductive Write (ω : Type) where
  | entry (entry : AuditEntry)
  | checkpoint (checkpoint : AuditCheckpoint)
  | other (row : ω)

abbrev SessionId := Nat

/-- Where a session is in a call of `append`. -/
inductive Pc where
  | idle
  | ready (args : Args) (entry : AuditEntry) (retried : Bool)
  | retry (args : Args)
  | flushed (entry : AuditEntry)
  | returned (entry : AuditEntry)
  | raised
  deriving Inhabited

/-- The committed tables, what the sessions have flushed, and for each session how
many entries it has seen committed and where it is. -/
structure World (ω : Type) where
  entries : List AuditEntry
  checkpoints : List AuditCheckpoint
  others : List ω
  pending : List (SessionId × Write ω)
  seen : SessionId → Nat
  pc : SessionId → Pc

variable {ω : Type}

def World.empty : World ω := ⟨[], [], [], [], fun _ => 0, fun _ => .idle⟩

def Write.asEntry : Write ω → Option AuditEntry
  | .entry row => some row
  | .checkpoint _ | .other _ => none

def Write.asCheckpoint : Write ω → Option AuditCheckpoint
  | .checkpoint row => some row
  | .entry _ | .other _ => none

def Write.asOther : Write ω → Option ω
  | .other row => some row
  | .entry _ | .checkpoint _ => none

def World.own (w : World ω) (i : SessionId) : List (Write ω) :=
  (w.pending.filter (fun write => write.1 = i)).map Prod.snd

def World.ownEntries (w : World ω) (i : SessionId) : List AuditEntry :=
  (w.own i).filterMap Write.asEntry

def World.uncommitted (w : World ω) : List AuditEntry :=
  (w.pending.map Prod.snd).filterMap Write.asEntry

/-- What a statement of session `i` reads when `k` entries were committed before it:
these and the session's own. -/
def World.view (w : World ω) (i : SessionId) (k : Nat) : List AuditEntry :=
  w.entries.take k ++ w.ownEntries i

/-- `ORDER BY sequence DESC LIMIT 1`. -/
def latest (entries : List AuditEntry) : Option AuditEntry :=
  @List.argmax _ _ Int.instLinearOrder.toPreorder _ AuditEntry.sequence entries

/-- `ORDER BY sequence ASC`. -/
def ascending (entries : List AuditEntry) : List AuditEntry :=
  entries.insertionSort (fun first second => first.sequence ≤ second.sequence)

def entryHash (sha : Sha256) (entry : AuditEntry) : Bytes :=
  computeEntryHash sha entry.sequence entry.timestamp entry.actor entry.action entry.subject
    entry.payload entry.prevHash

def nextEntry (sha : Sha256) (last : Option AuditEntry) (args : Args) : AuditEntry :=
  let sequence := (last.map (fun entry => entry.sequence + 1)).getD 0
  let prevHash := (last.map AuditEntry.entryHash).getD genesisHash
  { sequence := sequence
    timestamp := args.timestamp
    actor := args.actor
    action := args.action
    subject := args.subject
    payload := args.payload
    prevHash := prevHash
    entryHash := computeEntryHash sha sequence args.timestamp args.actor args.action args.subject
      args.payload prevHash }

/-- `to_bytes(8, "big")` does not raise. -/
def Fits (n : Int) : Prop := 0 ≤ n ∧ n < 2 ^ 64

instance (n : Int) : Decidable (Fits n) := inferInstanceAs (Decidable (_ ∧ _))

def signedMessage (coversSequence : Int) (root : Bytes) : Bytes :=
  BigEndian.put 8 coversSequence.toNat ++ root

/-- The row of `_checkpoint_now` for the head of the entries read. -/
def checkpointOf (sha : Sha256) (backend : SigningBackend) (pubkey : Bytes) (time : Datetime)
    (entries : List AuditEntry) (head : AuditEntry) : AuditCheckpoint :=
  let root := merkleRoot sha ((ascending entries).map AuditEntry.entryHash)
  { coversSequence := head.sequence
    merkleRoot := root
    signature := backend.sign pubkey (signedMessage head.sequence root)
    signingPubkey := pubkey
    timestamp := time }

inductive Event (ω : Type) where
  | read (i : SessionId) (k : Nat) (args : Args)
  | flush (i : SessionId)
  | readAgain (i : SessionId) (k : Nat)
  | checkpoint (i : SessionId) (k : Nat) (pubkey : Bytes) (time : Datetime)
  | fail (i : SessionId)
  | resume (i : SessionId)
  | write (i : SessionId) (row : ω)
  | commit (i : SessionId)
  | rollback (i : SessionId)

section Step

variable (sha : Sha256) (backend : SigningBackend) (interval : Int)

/-- A statement may be answered from any state committed after those the session
has read before. -/
def World.Readable (w : World ω) (i : SessionId) (k : Nat) : Prop :=
  w.seen i ≤ k ∧ k ≤ w.entries.length

instance (w : World ω) (i : SessionId) (k : Nat) : Decidable (w.Readable i k) :=
  inferInstanceAs (Decidable (_ ∧ _))

/-- The read of `append`, the first or the second. -/
def World.readLast (w : World ω) (i : SessionId) (k : Nat) (args : Args) (retried : Bool) :
    World ω :=
  { w with
    seen := Function.update w.seen i k
    pc := Function.update w.pc i
      (.ready args (nextEntry sha (latest (w.view i k)) args) retried) }

def World.moveTo (w : World ω) (i : SessionId) (pc : Pc) : World ω :=
  { w with pc := Function.update w.pc i pc }

def World.discard (w : World ω) (i : SessionId) : World ω :=
  { w with pending := w.pending.filter (fun write => write.1 ≠ i) }

def World.add (w : World ω) (i : SessionId) (write : Write ω) : World ω :=
  { w with pending := w.pending ++ [(i, write)] }

/-- After the flush: `(sequence + 1) % self._checkpoint_interval == 0`, which raises
for the interval 0. -/
def afterFlush (entry : AuditEntry) : Pc :=
  if interval = 0 then .raised
  else if (entry.sequence + 1) % interval = 0 then .flushed entry
  else .returned entry

/-- `flush` of the new entry. A committed entry with its sequence is a conflict, an
uncommitted one of another session makes the flush wait. -/
def World.flushEntry (w : World ω) (i : SessionId) (args : Args) (entry : AuditEntry)
    (retried : Bool) : Option (World ω) :=
  if entry.sequence ∈ w.entries.map AuditEntry.sequence then
    some ((w.discard i).moveTo i (if retried then .raised else .retry args))
  else if entry.sequence ∈ w.uncommitted.map AuditEntry.sequence then none
  else some ((w.add i (.entry entry)).moveTo i (afterFlush interval entry))

def World.commit (w : World ω) (i : SessionId) : World ω :=
  { w.discard i with
    entries := w.entries ++ (w.own i).filterMap Write.asEntry
    checkpoints := w.checkpoints ++ (w.own i).filterMap Write.asCheckpoint
    others := w.others ++ (w.own i).filterMap Write.asOther }

def step (w : World ω) : Event ω → Option (World ω)
  | .read i k args =>
    match w.pc i with
    | .idle => if w.Readable i k then some (w.readLast sha i k args false) else none
    | _ => none
  | .flush i =>
    match w.pc i with
    | .ready args entry retried => w.flushEntry interval i args entry retried
    | _ => none
  | .readAgain i k =>
    match w.pc i with
    | .retry args => if w.Readable i k then some (w.readLast sha i k args true) else none
    | _ => none
  | .checkpoint i k pubkey time =>
    match w.pc i with
    | .flushed entry =>
      if w.Readable i k then
        match latest (w.view i k) with
        | none => some (w.moveTo i .raised)
        | some head =>
          if Fits head.sequence then
            some (({ w with seen := Function.update w.seen i k }.add i
              (.checkpoint (checkpointOf sha backend pubkey time (w.view i k) head))).moveTo i
                (.returned entry))
          else some (w.moveTo i .raised)
      else none
    | _ => none
  | .fail i =>
    match w.pc i with
    | .ready _ _ _ | .retry _ | .flushed _ => some (w.moveTo i .raised)
    | _ => none
  | .resume i =>
    match w.pc i with
    | .returned _ | .raised => some (w.moveTo i .idle)
    | _ => none
  | .write i row =>
    match w.pc i with
    | .idle => some (w.add i (.other row))
    | _ => none
  | .commit i =>
    match w.pc i with
    | .idle => some (w.commit i)
    | _ => none
  | .rollback i => some ((w.discard i).moveTo i .idle)

end Step

section Inversion

variable {sha : Sha256} {backend : SigningBackend} {interval : Int} {w next : World ω}

theorem flushEntry_eq_some {i : SessionId} {args : Args} {entry : AuditEntry} {retried : Bool} :
    w.flushEntry interval i args entry retried = some next ↔
      (entry.sequence ∈ w.entries.map AuditEntry.sequence ∧
        next = (w.discard i).moveTo i (if retried then .raised else .retry args)) ∨
      (entry.sequence ∉ w.entries.map AuditEntry.sequence ∧
        entry.sequence ∉ w.uncommitted.map AuditEntry.sequence ∧
        next = (w.add i (.entry entry)).moveTo i (afterFlush interval entry)) := by
  rw [World.flushEntry]
  split
  · next taken => simp [taken, eq_comm]
  · next fresh =>
    split
    · next waits => simp [fresh, waits]
    · next free => simp [fresh, free, eq_comm]

/-- What a step can do, with the guards that it passed. -/
inductive Stepped (sha : Sha256) (backend : SigningBackend) (interval : Int) (w : World ω) :
    Event ω → World ω → Prop
  | read {i : SessionId} {k : Nat} {args : Args} (idle : w.pc i = .idle)
      (readable : w.Readable i k) :
      Stepped sha backend interval w (.read i k args) (w.readLast sha i k args false)
  | conflict {i : SessionId} {args : Args} {entry : AuditEntry} {retried : Bool}
      (ready : w.pc i = .ready args entry retried)
      (taken : entry.sequence ∈ w.entries.map AuditEntry.sequence) :
      Stepped sha backend interval w (.flush i)
        ((w.discard i).moveTo i (if retried then .raised else .retry args))
  | insert {i : SessionId} {args : Args} {entry : AuditEntry} {retried : Bool}
      (ready : w.pc i = .ready args entry retried)
      (fresh : entry.sequence ∉ w.entries.map AuditEntry.sequence)
      (free : entry.sequence ∉ w.uncommitted.map AuditEntry.sequence) :
      Stepped sha backend interval w (.flush i)
        ((w.add i (.entry entry)).moveTo i (afterFlush interval entry))
  | readAgain {i : SessionId} {k : Nat} {args : Args} (retry : w.pc i = .retry args)
      (readable : w.Readable i k) :
      Stepped sha backend interval w (.readAgain i k) (w.readLast sha i k args true)
  | checkpoint {i : SessionId} {k : Nat} {pubkey : Bytes} {time : Datetime}
      {entry head : AuditEntry} (flushed : w.pc i = .flushed entry) (readable : w.Readable i k)
      (newest : latest (w.view i k) = some head) (fits : Fits head.sequence) :
      Stepped sha backend interval w (.checkpoint i k pubkey time)
        (({ w with seen := Function.update w.seen i k }.add i
          (.checkpoint (checkpointOf sha backend pubkey time (w.view i k) head))).moveTo i
            (.returned entry))
  | uncheckpointed {i : SessionId} {k : Nat} {pubkey : Bytes} {time : Datetime}
      {entry : AuditEntry} (flushed : w.pc i = .flushed entry) :
      Stepped sha backend interval w (.checkpoint i k pubkey time) (w.moveTo i .raised)
  | fail {i : SessionId} : Stepped sha backend interval w (.fail i) (w.moveTo i .raised)
  | resume {i : SessionId} : Stepped sha backend interval w (.resume i) (w.moveTo i .idle)
  | write {i : SessionId} {row : ω} (idle : w.pc i = .idle) :
      Stepped sha backend interval w (.write i row) (w.add i (.other row))
  | commit {i : SessionId} (idle : w.pc i = .idle) :
      Stepped sha backend interval w (.commit i) (w.commit i)
  | rollback {i : SessionId} :
      Stepped sha backend interval w (.rollback i) ((w.discard i).moveTo i .idle)

theorem stepped_of_step {event : Event ω}
    (stepped : step sha backend interval w event = some next) :
    Stepped sha backend interval w event next := by
  cases event with
  | read i k args =>
    simp only [step] at stepped
    split at stepped
    · next idle =>
      split at stepped
      · next readable =>
        cases stepped
        exact .read idle readable
      · cases stepped
    · cases stepped
  | flush i =>
    simp only [step] at stepped
    split at stepped
    · next ready =>
      rcases flushEntry_eq_some.mp stepped with ⟨taken, rfl⟩ | ⟨fresh, free, rfl⟩
      · exact .conflict ready taken
      · exact .insert ready fresh free
    · cases stepped
  | readAgain i k =>
    simp only [step] at stepped
    split at stepped
    · next retry =>
      split at stepped
      · next readable =>
        cases stepped
        exact .readAgain retry readable
      · cases stepped
    · cases stepped
  | checkpoint i k pubkey time =>
    simp only [step] at stepped
    split at stepped
    · next flushed =>
      split at stepped
      · next readable =>
        split at stepped
        · cases stepped
          exact .uncheckpointed flushed
        · next newest =>
          split at stepped
          · next fits =>
            cases stepped
            exact .checkpoint flushed readable newest fits
          · cases stepped
            exact .uncheckpointed flushed
      · cases stepped
    · cases stepped
  | fail i =>
    simp only [step] at stepped
    split at stepped <;> cases stepped <;> exact .fail
  | resume i =>
    simp only [step] at stepped
    split at stepped <;> cases stepped <;> exact .resume
  | write i row =>
    simp only [step] at stepped
    split at stepped
    · next idle =>
      cases stepped
      exact .write idle
    · cases stepped
  | commit i =>
    simp only [step] at stepped
    split at stepped
    · next idle =>
      cases stepped
      exact .commit idle
    · cases stepped
  | rollback i =>
    cases stepped
    exact .rollback

end Inversion

inductive VerifyError where
  | firstPrevHash
  | prevHash (index : Nat)
  | entryHash (sequence : Int)
  | exceedsEntries (coversSequence : Int)
  | rootMismatch (coversSequence : Int)
  | overflow (coversSequence : Int)
  | badSignature (coversSequence : Int)
  deriving DecidableEq, Repr

section Verify

variable (sha : Sha256) (backend : SigningBackend)

/-- The loop over the entries, from the given index and the hash before it. -/
def verifyEntries : Nat → Bytes → List AuditEntry → Except VerifyError Unit
  | _, _, [] => .ok ()
  | i, previous, entry :: rest =>
    if entry.prevHash ≠ previous then .error (if i = 0 then .firstPrevHash else .prevHash i)
    else if entryHash sha entry ≠ entry.entryHash then .error (.entryHash entry.sequence)
    else verifyEntries (i + 1) entry.entryHash rest

/-- `entries[:stop]`: a negative bound counts from the end. -/
def sliceTo (entries : List AuditEntry) (stop : Int) : List AuditEntry :=
  entries.take (if 0 ≤ stop then stop else entries.length + stop).toNat

def verifyCheckpoint (entries : List AuditEntry) (checkpoint : AuditCheckpoint) :
    Except VerifyError Unit :=
  if entries.length ≤ checkpoint.coversSequence then
    .error (.exceedsEntries checkpoint.coversSequence)
  else
    let covered := sliceTo entries (checkpoint.coversSequence + 1)
    if merkleRoot sha (covered.map AuditEntry.entryHash) ≠ checkpoint.merkleRoot then
      .error (.rootMismatch checkpoint.coversSequence)
    else if ¬ Fits checkpoint.coversSequence then .error (.overflow checkpoint.coversSequence)
    else if backend.verifyWithPubkey
        (signedMessage checkpoint.coversSequence checkpoint.merkleRoot) checkpoint.signature
        checkpoint.signingPubkey then .ok ()
    else .error (.badSignature checkpoint.coversSequence)

def verify (entries : List AuditEntry) (checkpoints : List AuditCheckpoint) :
    Except VerifyError Unit := do
  let entries := ascending entries
  verifyEntries sha 0 genesisHash entries
  (checkpoints.insertionSort (fun first second =>
    first.coversSequence ≤ second.coversSequence)).forM (verifyCheckpoint sha backend entries)

end Verify

end HlHelper.Audit
