import HlHelper.Audit.Integrity

/-! `AuditChain` of `chain.py`, and what `SqlAuditChain` has in common with it when its calls come
one after the other: the entries, the checkpoints and the verdicts. -/

namespace HlHelper.Audit

structure Checkpoint where
  sequence : Int
  merkleRoot : Bytes
  signature : Bytes
  signingPubkey : Bytes
  timestamp : Datetime
  deriving DecidableEq, Inhabited

structure AuditChain where
  entries : List AuditEntry
  checkpoints : List Checkpoint

def Checkpoint.content (checkpoint : Checkpoint) : Int × Bytes × Bytes × Bytes :=
  (checkpoint.sequence, checkpoint.merkleRoot, checkpoint.signature, checkpoint.signingPubkey)

def AuditCheckpoint.content (checkpoint : AuditCheckpoint) : Int × Bytes × Bytes × Bytes :=
  (checkpoint.coversSequence, checkpoint.merkleRoot, checkpoint.signature,
    checkpoint.signingPubkey)

inductive ChainError where
  | firstPrevHash
  | prevHash (index : Nat)
  | entryHash (index : Nat)
  | exceedsEntries (index : Nat) (sequence : Int)
  | rootMismatch (index : Nat)
  | overflow (index : Nat)
  | badSignature (index : Nat)
  deriving DecidableEq, Repr

section Definitions

variable (sha : Sha256) (backend : SigningBackend) (pubkey : Bytes) (interval : Int)

namespace AuditChain

def empty : AuditChain := ⟨[], []⟩

def headHash (chain : AuditChain) : Bytes :=
  (chain.entries.getLast?.map AuditEntry.entryHash).getD genesisHash

def checkpointOver (timestamp : Datetime) (entries : List AuditEntry) : Checkpoint :=
  let currentSequence : Int := entries.length - 1
  let root := merkleRoot sha (entries.map AuditEntry.entryHash)
  { sequence := currentSequence
    merkleRoot := root
    signature := backend.sign pubkey (signedMessage currentSequence root)
    signingPubkey := pubkey
    timestamp := timestamp }

/-- The checkpoint of `append` and `force_checkpoint`. For a sequence that has no 8 bytes,
`to_bytes` raises. -/
def addCheckpoint (timestamp : Datetime) (chain : AuditChain) :
    Option (Checkpoint × AuditChain) :=
  let checkpoint := checkpointOver sha backend pubkey timestamp chain.entries
  if Fits checkpoint.sequence then
    some (checkpoint, { chain with checkpoints := chain.checkpoints ++ [checkpoint] })
  else none

/-- `append`. The entry is there before anything can raise. -/
def append (args : Args) (now : Datetime) (chain : AuditChain) : Option AuditEntry × AuditChain :=
  let sequence := chain.entries.length
  let entry : AuditEntry :=
    { sequence := sequence
      timestamp := args.timestamp
      actor := args.actor
      action := args.action
      subject := args.subject
      payload := args.payload
      prevHash := chain.headHash
      entryHash := computeEntryHash sha sequence args.timestamp args.actor args.action
        args.subject args.payload chain.headHash }
  let appended := { chain with entries := chain.entries ++ [entry] }
  if interval = 0 then (none, appended)
  else if (appended.entries.length : Int) % interval = 0 then
    match appended.addCheckpoint sha backend pubkey now with
    | some (_, checkpointed) => (some entry, checkpointed)
    | none => (none, appended)
  else (some entry, appended)

def forceCheckpoint (timestamp : Datetime) (chain : AuditChain) :
    Option Checkpoint × AuditChain :=
  if chain.entries.isEmpty then (none, chain)
  else
    match chain.addCheckpoint sha backend pubkey timestamp with
    | some (checkpoint, checkpointed) => (some checkpoint, checkpointed)
    | none => (none, chain)

/-- The loop over the entries, from the given index and the hash before it. -/
def verifyEntries : Nat → Bytes → List AuditEntry → Except ChainError Unit
  | _, _, [] => .ok ()
  | i, previous, entry :: rest =>
    if entry.prevHash ≠ previous then .error (if i = 0 then .firstPrevHash else .prevHash i)
    else if entryHash sha entry ≠ entry.entryHash then .error (.entryHash i)
    else verifyEntries (i + 1) entry.entryHash rest

/-- The loop over the checkpoints, from the given index. -/
def verifyCheckpoints (entries : List AuditEntry) : Nat → List Checkpoint → Except ChainError Unit
  | _, [] => .ok ()
  | i, checkpoint :: rest =>
    if entries.length ≤ checkpoint.sequence then
      .error (.exceedsEntries i checkpoint.sequence)
    else if merkleRoot sha ((sliceTo entries (checkpoint.sequence + 1)).map AuditEntry.entryHash) ≠
        checkpoint.merkleRoot then .error (.rootMismatch i)
    else if ¬ Fits checkpoint.sequence then .error (.overflow i)
    else if backend.verifyWithPubkey (signedMessage checkpoint.sequence checkpoint.merkleRoot)
        checkpoint.signature checkpoint.signingPubkey then verifyCheckpoints entries (i + 1) rest
    else .error (.badSignature i)

def verify (chain : AuditChain) : Except ChainError Unit := do
  verifyEntries sha 0 genesisHash chain.entries
  verifyCheckpoints sha backend chain.entries 0 chain.checkpoints

end AuditChain

/-- What a call of `append` has come to. -/
def Pc.outcome : Pc → Option AuditEntry
  | .returned entry => some entry
  | _ => none

namespace World

variable {ω : Type}

/-- The end of `append`: the checkpoint, if one is due. -/
def checkpointIfDue (now : Datetime) (w : World ω) : Option (World ω) :=
  match w.pc 0 with
  | .flushed _ => step sha backend interval w (.checkpoint 0 w.entries.length pubkey now)
  | _ => some w

/-- A call of `append` with nothing at the same time, and the commit after it. -/
def append (args : Args) (now : Datetime) (w : World ω) :
    Option (Option AuditEntry × World ω) :=
  (step sha backend interval w (.read 0 w.entries.length args)).bind fun w =>
    (step sha backend interval w (.flush 0)).bind fun w =>
      (w.checkpointIfDue sha backend pubkey interval now).bind fun w =>
        (step sha backend interval w (.resume 0)).bind fun resumed =>
          (step sha backend interval resumed (.commit 0)).map fun committed =>
            ((w.pc 0).outcome, committed)

def forceCheckpoint (timestamp : Datetime) (w : World ω) :
    Option AuditCheckpoint × World ω :=
  match latest (w.view 0 w.entries.length) with
  | none => (none, w)
  | some head =>
    if Fits head.sequence then
      let checkpoint :=
        checkpointOf sha backend pubkey timestamp (w.view 0 w.entries.length) head
      (some checkpoint, (w.add 0 (.checkpoint checkpoint)).commit 0)
    else (none, w)

end World

/-- A call, with the clock as each of the two reads it for a checkpoint. -/
inductive ChainCall where
  | append (args : Args) (memoryTime sqlTime : Datetime)
  | forceCheckpoint (memoryTime sqlTime : Datetime)

/-- What the caller has from a call; `none` is an exception. -/
inductive Outcome where
  | appended (entry : Option AuditEntry)
  | checkpointed (content : Option (Int × Bytes × Bytes × Bytes))

def AuditChain.runCalls : AuditChain → List ChainCall → List Outcome × AuditChain
  | chain, [] => ([], chain)
  | chain, .append args memoryTime _ :: rest =>
    let (entry, chain) := chain.append sha backend pubkey interval args memoryTime
    let (outcomes, last) := AuditChain.runCalls chain rest
    (.appended entry :: outcomes, last)
  | chain, .forceCheckpoint memoryTime _ :: rest =>
    let (checkpoint, chain) := chain.forceCheckpoint sha backend pubkey memoryTime
    let (outcomes, last) := AuditChain.runCalls chain rest
    (.checkpointed (checkpoint.map Checkpoint.content) :: outcomes, last)

def World.runCalls {ω : Type} : World ω → List ChainCall → Option (List Outcome × World ω)
  | w, [] => some ([], w)
  | w, .append args _ sqlTime :: rest =>
    (w.append sha backend pubkey interval args sqlTime).bind fun (entry, w) =>
      (World.runCalls w rest).map fun (outcomes, last) => (.appended entry :: outcomes, last)
  | w, .forceCheckpoint _ sqlTime :: rest =>
    let (checkpoint, w) := w.forceCheckpoint sha backend pubkey sqlTime
    (World.runCalls w rest).map fun (outcomes, last) =>
      (.checkpointed (checkpoint.map AuditCheckpoint.content) :: outcomes, last)

end Definitions

section Calls

variable {ω : Type} {sha : Sha256} {backend : SigningBackend} {pubkey : Bytes} {interval : Int}
  {w : World ω} {chain : AuditChain}

/-- Between two calls, the tables hold what the lists hold. -/
structure Matches (sha : Sha256) (w : World ω) (chain : AuditChain) : Prop where
  quiet : w.pending = []
  idle : w.pc 0 = .idle
  seen : w.seen 0 ≤ w.entries.length
  entries : w.entries = chain.entries
  checkpoints :
    w.checkpoints.map AuditCheckpoint.content = chain.checkpoints.map Checkpoint.content
  chained : Chained sha 0 genesisHash chain.entries

theorem view_of_quiet (quiet : w.pending = []) : w.view 0 w.entries.length = w.entries := by
  simp [World.view, World.ownEntries, World.own, quiet]

theorem append_entry (chained : Chained sha 0 genesisHash chain.entries) (args : Args) :
    { sequence := chain.entries.length
      timestamp := args.timestamp
      actor := args.actor
      action := args.action
      subject := args.subject
      payload := args.payload
      prevHash := chain.headHash
      entryHash := computeEntryHash sha chain.entries.length args.timestamp args.actor args.action
        args.subject args.payload chain.headHash } =
      nextEntry sha (latest chain.entries) args := by
  have sequence := (chained.nextEntry args).1
  rw [latest_eq_getLast? chained.increasing] at sequence ⊢
  simp only [nextEntry] at sequence ⊢
  rw [sequence]
  rfl


/-- The tables after a call of `append`. -/
def World.after (w : World ω) (entry : AuditEntry) (checkpoints : List AuditCheckpoint) : World ω :=
  { w with
    entries := w.entries ++ [entry]
    checkpoints := w.checkpoints ++ checkpoints
    seen := Function.update w.seen 0 w.entries.length
    pc := Function.update w.pc 0 .idle
    pending := [] }

theorem World.read_flush (quiet : w.pending = []) (idle : w.pc 0 = .idle)
    (seen : w.seen 0 ≤ w.entries.length) (chained : Chained sha 0 genesisHash w.entries)
    (args : Args) :
    ∃ read, step sha backend interval w (.read 0 w.entries.length args) = some read ∧
      step sha backend interval read (.flush 0) =
        some ((({ w with seen := Function.update w.seen 0 w.entries.length } : World ω).add 0
          (.entry (nextEntry sha (latest w.entries) args))).moveTo 0
            (afterFlush interval (nextEntry sha (latest w.entries) args))) := by
  have readable : w.Readable 0 w.entries.length := ⟨seen, le_rfl⟩
  refine ⟨w.readLast sha 0 w.entries.length args false, by simp [step, idle, readable], ?_⟩
  have fresh : (nextEntry sha (latest w.entries) args).sequence ∉
      w.entries.map AuditEntry.sequence := by
    rw [chained.mem_sequences, (chained.nextEntry args).1]
    omega
  have none_open : (w.readLast sha 0 w.entries.length args false).uncommitted = [] := by
    simp [World.readLast, World.uncommitted, quiet]
  simp only [step, World.readLast, Function.update_self, view_of_quiet quiet]
  refine flushEntry_eq_some.mpr (.inr ⟨fresh, ?_, ?_⟩)
  · simp [World.uncommitted, quiet]
  · simp [World.add, World.moveTo, Function.update_idem]


variable {entry : AuditEntry} {checkpoints : List AuditCheckpoint} {now : Datetime}

theorem World.commit_holding
    (held : w.pending = (0, .entry entry) :: checkpoints.map fun row => (0, .checkpoint row)) :
    w.commit 0 = { w with
      entries := w.entries ++ [entry]
      checkpoints := w.checkpoints ++ checkpoints
      pending := [] } := by
  have mine : ∀ write ∈ w.pending, write.1 = 0 := by
    intro write member
    rw [held] at member
    rcases List.mem_cons.mp member with rfl | later
    · rfl
    · obtain ⟨row, _, rfl⟩ := List.mem_map.mp later
      rfl
  have own : w.own 0 = .entry entry :: checkpoints.map Write.checkpoint := by
    rw [World.own, List.filter_eq_self.mpr fun write member => decide_eq_true (mine write member),
      held, List.map_cons, List.map_map]
    rfl
  have gone : w.discard 0 = { w with pending := [] } := by
    rw [World.discard, List.filter_eq_nil_iff.mpr fun write member => by simp [mine write member]]
  have entries : (w.own 0).filterMap Write.asEntry = [entry] := by
    simp [own, Write.asEntry]
  have rows : (w.own 0).filterMap Write.asCheckpoint = checkpoints := by
    rw [own, List.filterMap_cons_none rfl, List.filterMap_map]
    exact List.filterMap_some
  have others : (w.own 0).filterMap Write.asOther = [] := by
    simp [own, Write.asOther]
  rw [World.commit, gone, entries, rows, others, List.append_nil]

/-- Where a call is after its flush, and after its checkpoint. -/
def World.holding (w : World ω) (entry : AuditEntry) (checkpoints : List AuditCheckpoint)
    (pc : Pc) : World ω :=
  { w with
    seen := Function.update w.seen 0 w.entries.length
    pending := (0, .entry entry) :: checkpoints.map fun row => (0, .checkpoint row)
    pc := Function.update w.pc 0 pc }

theorem World.resume_commit {pc : Pc} (ended : pc = .raised ∨ pc = .returned entry) :
    ((step sha backend interval (w.holding entry checkpoints pc) (.resume 0)).bind fun resumed =>
      (step sha backend interval resumed (.commit 0)).map fun committed =>
        (((w.holding entry checkpoints pc).pc 0).outcome, committed)) =
      some (pc.outcome, w.after entry checkpoints) := by
  have resumed : step sha backend interval (w.holding entry checkpoints pc) (.resume 0) =
      some (w.holding entry checkpoints .idle) := by
    rcases ended with rfl | rfl
    · simp [step, World.holding, World.moveTo, Function.update_idem]
    · simp [step, World.holding, World.moveTo, Function.update_idem]
  have committed : step sha backend interval (w.holding entry checkpoints .idle) (.commit 0) =
      some (w.after entry checkpoints) := by
    have idle : (w.holding entry checkpoints .idle).pc 0 = .idle := by simp [World.holding]
    simp only [step, idle]
    exact congrArg some (World.commit_holding rfl)
  rw [resumed, Option.bind_some, committed, Option.map_some]
  simp [World.holding]


theorem World.append_of_due {pc : Pc} (quiet : w.pending = []) (idle : w.pc 0 = .idle)
    (seen : w.seen 0 ≤ w.entries.length) (chained : Chained sha 0 genesisHash w.entries)
    {args : Args} (own : entry = nextEntry sha (latest w.entries) args)
    (due : (w.holding entry [] (afterFlush interval entry)).checkpointIfDue sha backend pubkey
      interval now = some (w.holding entry checkpoints pc))
    (ended : pc = .raised ∨ pc = .returned entry) :
    w.append sha backend pubkey interval args now =
      some (pc.outcome, w.after entry checkpoints) := by
  obtain ⟨read, was_read, flushed⟩ := World.read_flush quiet idle seen chained args
  have held : ((({ w with seen := Function.update w.seen 0 w.entries.length } : World ω).add 0
      (.entry entry)).moveTo 0 (afterFlush interval entry)) =
        w.holding entry [] (afterFlush interval entry) := by
    simp [World.add, World.moveTo, World.holding, quiet]
  rw [World.append, was_read, Option.bind_some, flushed, Option.bind_some, ← own, held, due,
    Option.bind_some]
  exact World.resume_commit ended

theorem World.checkpoint_flushed (longer : Chained sha 0 genesisHash (w.entries ++ [entry])) :
    (w.holding entry [] (.flushed entry)).checkpointIfDue sha backend pubkey interval now =
      some (if Fits entry.sequence then
        w.holding entry [checkpointOf sha backend pubkey now (w.entries ++ [entry]) entry]
          (.returned entry)
      else w.holding entry [] .raised) := by
  have flushed : (w.holding entry [] (.flushed entry)).pc 0 = .flushed entry := by
    simp [World.holding]
  have readable : (w.holding entry [] (.flushed entry)).Readable 0 w.entries.length := by
    simp [World.Readable, World.holding]
  have view : (w.holding entry [] (.flushed entry)).view 0 w.entries.length =
      w.entries ++ [entry] := by
    simp [World.view, World.holding, World.ownEntries, World.own, Write.asEntry]
  have newest : latest (w.entries ++ [entry]) = some entry := by
    rw [latest_eq_getLast? longer.increasing, List.getLast?_concat]
  rw [World.checkpointIfDue, flushed]
  have committed : (w.holding entry [] (.flushed entry)).entries = w.entries := rfl
  simp only [step, flushed, committed, if_pos readable, view, newest]
  split
  · simp [World.holding, World.add, World.moveTo, Function.update_idem]
  · simp [World.holding, World.moveTo, Function.update_idem]

theorem Matches.after (matched : Matches sha w chain)
    (longer : Chained sha 0 genesisHash (chain.entries ++ [entry])) {more : List Checkpoint}
    (same : checkpoints.map AuditCheckpoint.content = more.map Checkpoint.content) :
    Matches sha (w.after entry checkpoints)
      ⟨chain.entries ++ [entry], chain.checkpoints ++ more⟩ where
  quiet := rfl
  idle := by simp [World.after]
  seen := by simp [World.after]
  entries := by rw [World.after, matched.entries]
  checkpoints := by
    rw [World.after, List.map_append, List.map_append, matched.checkpoints, same]
  chained := longer

theorem checkpoint_content {entries : List AuditEntry} (chained : Chained sha 0 genesisHash entries)
    (newest : latest entries = some entry) (memoryTime sqlTime : Datetime) :
    (checkpointOf sha backend pubkey sqlTime entries entry).content =
      (AuditChain.checkpointOver sha backend pubkey memoryTime entries).content := by
  have sequence : entry.sequence = (entries.length : Int) - 1 := by
    rw [latest_eq_getLast? chained.increasing] at newest
    obtain ⟨front, rfl⟩ := List.getLast?_eq_some_iff.mp newest
    have tail := (chained_append.mp chained).2
    rw [tail.1.1, List.length_append]
    simp
  simp only [checkpointOf, AuditChain.checkpointOver, AuditCheckpoint.content, Checkpoint.content,
    ascending_eq chained.increasing, sequence]

theorem World.not_due {pc : Pc} (ended : pc = .raised ∨ pc = .returned entry) :
    (w.holding entry checkpoints pc).checkpointIfDue sha backend pubkey interval now =
      some (w.holding entry checkpoints pc) := by
  have there : (w.holding entry checkpoints pc).pc 0 = pc := by simp [World.holding]
  rcases ended with rfl | rfl <;> rw [World.checkpointIfDue, there]

theorem append_matches (matched : Matches sha w chain) (args : Args)
    (memoryTime sqlTime : Datetime) :
    ∃ next, w.append sha backend pubkey interval args sqlTime =
        some ((chain.append sha backend pubkey interval args memoryTime).1, next) ∧
      Matches sha next (chain.append sha backend pubkey interval args memoryTime).2 := by
  obtain ⟨sequence, longer⟩ := matched.chained.nextEntry args
  have chained : Chained sha 0 genesisHash w.entries := matched.entries ▸ matched.chained
  have own : nextEntry sha (latest chain.entries) args = nextEntry sha (latest w.entries) args := by
    rw [matched.entries]
  simp only [AuditChain.append, append_entry matched.chained]
  generalize nextEntry sha (latest chain.entries) args = entry at sequence longer own ⊢
  have flushed := @World.checkpoint_flushed ω sha backend pubkey interval w entry sqlTime
    (matched.entries ▸ longer)
  have newest : latest (chain.entries ++ [entry]) = some entry := by
    rw [latest_eq_getLast? longer.increasing, List.getLast?_concat]
  have same_content := @checkpoint_content sha backend pubkey entry _ longer newest memoryTime
    sqlTime
  have position : (AuditChain.checkpointOver sha backend pubkey memoryTime
      (chain.entries ++ [entry])).sequence = entry.sequence := by
    simp [AuditChain.checkpointOver, sequence]
  have count : ((chain.entries ++ [entry]).length : Int) = entry.sequence + 1 := by
    simp [sequence]
  have call {pc : Pc} {checkpoints : List AuditCheckpoint} :=
    @World.append_of_due ω sha backend pubkey interval w entry checkpoints sqlTime pc matched.quiet
      matched.idle matched.seen chained args own
  have plain : Matches sha (w.after entry []) ⟨chain.entries ++ [entry], chain.checkpoints⟩ := by
    have nothing : ([] : List AuditCheckpoint).map AuditCheckpoint.content =
        ([] : List Checkpoint).map Checkpoint.content := rfl
    simpa using matched.after longer nothing
  rw [afterFlush] at call
  by_cases zero : interval = 0
  · simp only [if_pos zero] at call ⊢
    exact ⟨_, call (World.not_due (.inl rfl)) (.inl rfl), plain⟩
  · rw [count]
    simp only [if_neg zero] at call ⊢
    by_cases due : (entry.sequence + 1) % interval = 0
    · simp only [if_pos due, AuditChain.addCheckpoint, position] at call ⊢
      by_cases small : Fits entry.sequence
      · rw [if_pos small] at flushed ⊢
        refine ⟨_, call flushed (.inr rfl), matched.after longer ?_⟩
        rw [matched.entries, List.map_singleton, List.map_singleton, same_content]
      · rw [if_neg small] at flushed ⊢
        exact ⟨_, call flushed (.inl rfl), plain⟩
    · simp only [if_neg due] at call ⊢
      exact ⟨_, call (World.not_due (.inr rfl)) (.inr rfl), plain⟩

theorem World.commit_checkpoint (quiet : w.pending = []) (checkpoint : AuditCheckpoint) :
    (w.add 0 (.checkpoint checkpoint)).commit 0 =
      { w with checkpoints := w.checkpoints ++ [checkpoint] } := by
  simp [World.add, World.commit, World.discard, World.own, quiet, Write.asEntry,
    Write.asCheckpoint, Write.asOther]

theorem forceCheckpoint_matches (matched : Matches sha w chain) (memoryTime sqlTime : Datetime) :
    (w.forceCheckpoint sha backend pubkey sqlTime).1.map AuditCheckpoint.content =
        (chain.forceCheckpoint sha backend pubkey memoryTime).1.map Checkpoint.content ∧
      Matches sha (w.forceCheckpoint sha backend pubkey sqlTime).2
        (chain.forceCheckpoint sha backend pubkey memoryTime).2 := by
  have view := view_of_quiet matched.quiet
  rw [matched.entries] at view
  cases newest : latest chain.entries with
  | none =>
    have nothing : chain.entries = [] := List.argmax_eq_none.mp newest
    simp only [World.forceCheckpoint, AuditChain.forceCheckpoint, matched.entries, view, newest]
    simpa [nothing] using matched
  | some head =>
    have something : chain.entries.isEmpty = false := by
      cases entries : chain.entries with
      | nil => rw [entries] at newest; cases newest
      | cons => rfl
    have same := @checkpoint_content sha backend pubkey head _ matched.chained newest memoryTime
      sqlTime
    have position : (AuditChain.checkpointOver sha backend pubkey memoryTime
        chain.entries).sequence = head.sequence := (congrArg Prod.fst same).symm
    simp only [World.forceCheckpoint, AuditChain.forceCheckpoint, AuditChain.addCheckpoint,
      matched.entries, view, newest, something, position, Bool.false_eq_true, if_false]
    split
    · refine ⟨by rw [Option.map_some, Option.map_some, same], ?_⟩
      rw [World.commit_checkpoint matched.quiet]
      refine { matched with checkpoints := ?_ }
      rw [List.map_append, List.map_append, matched.checkpoints, List.map_singleton,
        List.map_singleton, same]
    · exact ⟨rfl, matched⟩

theorem runCalls_matches {calls : List ChainCall} (matched : Matches sha w chain) :
    ∃ last, w.runCalls sha backend pubkey interval calls =
        some ((chain.runCalls sha backend pubkey interval calls).1, last) ∧
      Matches sha last (chain.runCalls sha backend pubkey interval calls).2 := by
  induction calls generalizing w chain with
  | nil => exact ⟨w, rfl, matched⟩
  | cons call rest ih =>
    cases call with
    | append args memoryTime sqlTime =>
      obtain ⟨next, called, still⟩ := @append_matches ω sha backend pubkey interval w chain
        matched args memoryTime sqlTime
      obtain ⟨last, reached, matches_last⟩ := ih still
      refine ⟨last, ?_, matches_last⟩
      simp only [World.runCalls, called, Option.bind_some, reached, Option.map_some]
      rfl
    | forceCheckpoint memoryTime sqlTime =>
      obtain ⟨same, still⟩ := @forceCheckpoint_matches ω sha backend pubkey w chain matched
        memoryTime sqlTime
      obtain ⟨last, reached, matches_last⟩ := ih still
      refine ⟨last, ?_, matches_last⟩
      simp only [World.runCalls, reached, Option.map_some, same]
      rfl

theorem matches_empty : Matches sha (World.empty : World ω) .empty :=
  ⟨rfl, rfl, le_rfl, rfl, rfl, trivial⟩

end Calls

/-- How a verification ends: `overflow` is the `OverflowError` of `to_bytes`. -/
inductive Verdict where
  | intact
  | chainBroken
  | badCheckpoint
  | overflow
  deriving DecidableEq, Repr

def ChainError.verdict : ChainError → Verdict
  | .firstPrevHash | .prevHash _ | .entryHash _ => .chainBroken
  | .exceedsEntries _ _ | .rootMismatch _ | .badSignature _ => .badCheckpoint
  | .overflow _ => .overflow

def VerifyError.verdict : VerifyError → Verdict
  | .firstPrevHash | .prevHash _ | .entryHash _ => .chainBroken
  | .exceedsEntries _ | .rootMismatch _ | .badSignature _ => .badCheckpoint
  | .overflow _ => .overflow

def verdictOf {ε : Type} (verdict : ε → Verdict) : Except ε Unit → Verdict
  | .ok _ => .intact
  | .error error => verdict error

section Verdicts

variable {sha : Sha256} {backend : SigningBackend}

theorem ChainError.verdict_ne (error : ChainError) : error.verdict ≠ .intact := by
  cases error <;> simp [verdict]

theorem VerifyError.verdict_ne (error : VerifyError) : error.verdict ≠ .intact := by
  cases error <;> simp [verdict]

theorem verdict_verifyEntries (i : Nat) (previous : Bytes) (entries : List AuditEntry) :
    verdictOf ChainError.verdict (AuditChain.verifyEntries sha i previous entries) =
      verdictOf VerifyError.verdict (verifyEntries sha i previous entries) := by
  induction entries generalizing i previous with
  | nil => rfl
  | cons entry rest ih =>
    rw [AuditChain.verifyEntries, verifyEntries]
    split
    · by_cases first : i = 0
      · rw [if_pos first, if_pos first]
        rfl
      · rw [if_neg first, if_neg first]
        rfl
    · split
      · rfl
      · exact ih (i + 1) entry.entryHash

def goodCheckpoint (sha : Sha256) (backend : SigningBackend) (entries : List AuditEntry)
    (content : Int × Bytes × Bytes × Bytes) : Prop :=
  content.1 < entries.length ∧
    merkleRoot sha ((sliceTo entries (content.1 + 1)).map AuditEntry.entryHash) = content.2.1 ∧
    Fits content.1 ∧
    backend.verifyWithPubkey (signedMessage content.1 content.2.1) content.2.2.1 content.2.2.2 =
      true

/-- The verdict on checkpoints of the given content: it depends on their order only where one of
them, with a number among those of the entries, has none that fits. -/
def Judged (sha : Sha256) (backend : SigningBackend) (entries : List AuditEntry)
    (contents : List (Int × Bytes × Bytes × Bytes)) (verdict : Verdict) : Prop :=
  (verdict = .intact ∧ ∀ content ∈ contents, goodCheckpoint sha backend entries content) ∨
    (∃ content ∈ contents, ¬ goodCheckpoint sha backend entries content) ∧
      (verdict = .badCheckpoint ∨ verdict = .overflow ∧
        ∃ content ∈ contents, content.1 < entries.length ∧ ¬ Fits content.1)

theorem judged_nil (entries : List AuditEntry) : Judged sha backend entries [] .intact :=
  .inl ⟨rfl, nofun⟩

variable {entries : List AuditEntry} {contents : List (Int × Bytes × Bytes × Bytes)}
    {verdict : Verdict}

theorem Judged.cons {content : Int × Bytes × Bytes × Bytes}
    (good : goodCheckpoint sha backend entries content)
    (judged : Judged sha backend entries contents verdict) :
    Judged sha backend entries (content :: contents) verdict := by
  rcases judged with ⟨intact, all⟩ | ⟨⟨other, member, bad⟩, found⟩
  · exact .inl ⟨intact, List.forall_mem_cons.mpr ⟨good, all⟩⟩
  · refine .inr ⟨⟨other, List.mem_cons_of_mem _ member, bad⟩, found.imp_right ?_⟩
    exact .imp_right fun ⟨large, inside, fits⟩ => ⟨large, List.mem_cons_of_mem _ inside, fits⟩

theorem judged_of_bad {content : Int × Bytes × Bytes × Bytes}
    (bad : ¬ goodCheckpoint sha backend entries content) (found : verdict = .badCheckpoint ∨
      verdict = .overflow ∧ content.1 < entries.length ∧ ¬ Fits content.1) :
    Judged sha backend entries (content :: contents) verdict := by
  refine .inr ⟨⟨content, List.mem_cons_self, bad⟩, found.imp_right ?_⟩
  exact fun ⟨same, inside, large⟩ => ⟨same, content, List.mem_cons_self, inside, large⟩

/-- The checks of one checkpoint in their order, whose outcomes both chains give these verdicts. -/
theorem Judged.check (content : Int × Bytes × Bytes × Bytes)
    (judged : Judged sha backend entries contents verdict) :
    Judged sha backend entries (content :: contents)
      (if entries.length ≤ content.1 then .badCheckpoint
      else if merkleRoot sha ((sliceTo entries (content.1 + 1)).map AuditEntry.entryHash) ≠
        content.2.1 then .badCheckpoint
      else if ¬ Fits content.1 then .overflow
      else if backend.verifyWithPubkey (signedMessage content.1 content.2.1) content.2.2.1
        content.2.2.2 = true then verdict
      else .badCheckpoint) := by
  split
  · next outside => exact judged_of_bad (fun good => absurd good.1 (not_lt.mpr outside)) (.inl rfl)
  · next inside =>
    split
    · next other => exact judged_of_bad (fun good => other good.2.1) (.inl rfl)
    · next root =>
      split
      · next large =>
        exact judged_of_bad (fun good => large good.2.2.1) (.inr ⟨rfl, not_le.mp inside, large⟩)
      · next fits =>
        split
        · next signed =>
          exact judged.cons ⟨not_le.mp inside, not_not.mp root, not_not.mp fits, signed⟩
        · next unsigned => exact judged_of_bad (fun good => unsigned good.2.2.2) (.inl rfl)

theorem judged_verifyCheckpoints (entries : List AuditEntry) (i : Nat)
    (checkpoints : List Checkpoint) :
    Judged sha backend entries (checkpoints.map Checkpoint.content) (verdictOf ChainError.verdict
      (AuditChain.verifyCheckpoints sha backend entries i checkpoints)) := by
  induction checkpoints generalizing i with
  | nil => exact judged_nil entries
  | cons checkpoint rest ih =>
    have checked := (ih (i + 1)).check checkpoint.content
    rw [AuditChain.verifyCheckpoints, List.map_cons]
    simp only [apply_ite (verdictOf ChainError.verdict)]
    exact checked

theorem judged_forM (entries : List AuditEntry) (checkpoints : List AuditCheckpoint) :
    Judged sha backend entries (checkpoints.map AuditCheckpoint.content) (verdictOf
      VerifyError.verdict (checkpoints.forM (verifyCheckpoint sha backend entries))) := by
  induction checkpoints with
  | nil => exact judged_nil entries
  | cons checkpoint rest ih =>
    have checked := ih.check checkpoint.content
    change Judged sha backend entries (checkpoint.content :: rest.map AuditCheckpoint.content)
      (verdictOf VerifyError.verdict (verifyCheckpoint sha backend entries checkpoint >>= fun _ =>
        rest.forM (verifyCheckpoint sha backend entries)))
    simp only [verifyCheckpoint, apply_ite (fun found => verdictOf VerifyError.verdict
      (found >>= fun _ => rest.forM (verifyCheckpoint sha backend entries)))]
    exact checked

/-- Checkpoints in two orders are both intact or neither, and judged alike where their numbers among
those of the entries fit. -/
theorem Judged.agree {other : Verdict} {others : List (Int × Bytes × Bytes × Bytes)}
    (first : Judged sha backend entries contents verdict)
    (second : Judged sha backend entries others other) (same : others.Perm contents) :
    (other = .intact ↔ verdict = .intact) ∧
      ((∀ content ∈ contents, content.1 < entries.length → Fits content.1) → other = verdict) := by
  rcases first with ⟨rfl, all⟩ | ⟨⟨content, member, bad⟩, found⟩ <;>
    rcases second with ⟨rfl, others_all⟩ | ⟨⟨content', member', bad'⟩, found'⟩
  · exact ⟨Iff.rfl, fun _ => rfl⟩
  · exact absurd (all content' (same.mem_iff.mp member')) bad'
  · exact absurd (others_all content (same.mem_iff.mpr member)) bad
  · constructor
    · rcases found with rfl | ⟨rfl, _⟩ <;> rcases found' with rfl | ⟨rfl, _⟩ <;> simp
    · intro fit
      have refused : verdict = .badCheckpoint :=
        found.resolve_right fun ⟨_, large, inside, less, no⟩ => no (fit large inside less)
      have refused' : other = .badCheckpoint := found'.resolve_right
        fun ⟨_, large, inside, less, no⟩ => no (fit large (same.mem_iff.mp inside) less)
      rw [refused, refused']

theorem ascending_of_perm {stored : List AuditEntry}
    (increasing : entries.Pairwise (fun first second => first.sequence < second.sequence))
    (same : stored.Perm entries) : ascending stored = entries := by
  have permuted : (ascending stored).Perm entries := (List.perm_insertionSort _ _).trans same
  have sorted : (ascending stored).Pairwise
      (fun first second => first.sequence ≤ second.sequence) := List.pairwise_insertionSort _ _
  have different : (entries.map AuditEntry.sequence).Nodup :=
    (List.pairwise_map.mpr increasing).imp Int.ne_of_lt
  refine List.Perm.eq_of_pairwise (fun first second left right below above => ?_) sorted
    (increasing.imp Int.le_of_lt) permuted
  exact List.inj_on_of_nodup_map different (permuted.mem_iff.mp left) right
    (Int.le_antisymm below above)

/-- Over the same data, with the entries of the list in the order of their sequences, the two find
both nothing or neither, and the same where the numbers of the checkpoints among those of the
entries fit. -/
theorem verdicts_agree {stored : List AuditEntry} {checkpoints : List Checkpoint}
    {storedCheckpoints : List AuditCheckpoint}
    (increasing : entries.Pairwise (fun first second => first.sequence < second.sequence))
    (same : stored.Perm entries)
    (same_checkpoints : (storedCheckpoints.map AuditCheckpoint.content).Perm
      (checkpoints.map Checkpoint.content)) :
    (verdictOf VerifyError.verdict (verify sha backend stored storedCheckpoints) = .intact ↔
        verdictOf ChainError.verdict (AuditChain.verify sha backend ⟨entries, checkpoints⟩) =
          .intact) ∧
      ((∀ checkpoint ∈ checkpoints, checkpoint.sequence < entries.length →
          Fits checkpoint.sequence) →
        verdictOf VerifyError.verdict (verify sha backend stored storedCheckpoints) =
          verdictOf ChainError.verdict (AuditChain.verify sha backend ⟨entries, checkpoints⟩)) := by
  have links := @verdict_verifyEntries sha 0 genesisHash entries
  rw [verify, AuditChain.verify, ascending_of_perm increasing same]
  cases memory : AuditChain.verifyEntries sha 0 genesisHash entries with
  | error found =>
    cases table : verifyEntries sha 0 genesisHash entries with
    | error other =>
      rw [memory, table] at links
      have equal : other.verdict = found.verdict := links.symm
      exact ⟨iff_of_eq (congrArg (· = Verdict.intact) equal), fun _ => equal⟩
    | ok _ =>
      rw [memory, table] at links
      exact absurd links (found.verdict_ne)
  | ok _ =>
    cases table : verifyEntries sha 0 genesisHash entries with
    | error other =>
      rw [memory, table] at links
      exact absurd links.symm other.verdict_ne
    | ok _ =>
      have ordered := (List.perm_insertionSort (fun first second : AuditCheckpoint =>
        first.coversSequence ≤ second.coversSequence) storedCheckpoints).map
          AuditCheckpoint.content
      have checked := @judged_verifyCheckpoints sha backend entries 0 checkpoints
      have listed := @judged_forM sha backend entries (storedCheckpoints.insertionSort
        fun first second => first.coversSequence ≤ second.coversSequence)
      obtain ⟨intact, alike⟩ := checked.agree listed (ordered.trans same_checkpoints)
      exact ⟨intact, fun fit => alike (List.forall_mem_map.mpr fit)⟩

/-- Whatever the calls, the table and the list hold the same; whatever is in them then, with the
entries of the list in the order of their sequences, the two find both nothing or neither, and the
same where the numbers of the checkpoints among those of the entries fit. -/
theorem sql_refines_memory (ω : Type) (sha : Sha256) (backend : SigningBackend) (pubkey : Bytes)
    (interval : Int) :
    (∀ calls : List ChainCall, ∃ w : World ω,
      World.empty.runCalls sha backend pubkey interval calls =
          some ((AuditChain.empty.runCalls sha backend pubkey interval calls).1, w) ∧
        w.entries = (AuditChain.empty.runCalls sha backend pubkey interval calls).2.entries ∧
        w.checkpoints.map AuditCheckpoint.content =
          (AuditChain.empty.runCalls sha backend pubkey interval calls).2.checkpoints.map
            Checkpoint.content ∧
        w.pending = []) ∧
      ∀ (entries stored : List AuditEntry) (checkpoints : List Checkpoint)
        (storedCheckpoints : List AuditCheckpoint),
        entries.Pairwise (fun first second => first.sequence < second.sequence) →
        stored.Perm entries →
        (storedCheckpoints.map AuditCheckpoint.content).Perm
          (checkpoints.map Checkpoint.content) →
        (verdictOf VerifyError.verdict (verify sha backend stored storedCheckpoints) = .intact ↔
          verdictOf ChainError.verdict (AuditChain.verify sha backend ⟨entries, checkpoints⟩) =
            .intact) ∧
        ((∀ checkpoint ∈ checkpoints, checkpoint.sequence < entries.length →
            Fits checkpoint.sequence) →
          verdictOf VerifyError.verdict (verify sha backend stored storedCheckpoints) =
            verdictOf ChainError.verdict
              (AuditChain.verify sha backend ⟨entries, checkpoints⟩)) := by
  refine ⟨fun calls => ?_, fun _ _ _ _ => verdicts_agree⟩
  obtain ⟨w, reached, matched⟩ :=
    @runCalls_matches ω sha backend pubkey interval .empty .empty calls matches_empty
  exact ⟨w, reached, matched.entries, matched.checkpoints, matched.quiet⟩

/-- An entry in the place of another one's sequence, with the hashes made to fit. -/
def misplaced (sequence : Int) (prevHash : Bytes) : AuditEntry :=
  let bare : AuditEntry := ⟨sequence, ⟨2024, 1, 1, 0, 0, 0, 0⟩, "system", "host.enroll", none,
    .obj [], prevHash, []⟩
  { bare with entryHash := entryHash .head bare }

def swapped : List AuditEntry :=
  [misplaced 1 genesisHash, misplaced 0 (misplaced 1 genesisHash).entryHash]

/-- A checkpoint of the given number with the root of no entries. -/
def numbered (sequence : Int) : Checkpoint := ⟨sequence, genesisHash, [], [], default⟩

/-- The list is read as it stands, its checkpoints too; the table by number. -/
theorem swapped_sequences_disagree :
    (verdictOf ChainError.verdict (AuditChain.verify .head plainBackend ⟨swapped, []⟩) = .intact ∧
      verdictOf VerifyError.verdict (verify .head plainBackend swapped []) = .chainBroken) ∧
      verdictOf ChainError.verdict (AuditChain.verify .head plainBackend
        ⟨[], [numbered 5, numbered (-1)]⟩) = .badCheckpoint ∧
      verdictOf VerifyError.verdict (verify .head plainBackend []
        [⟨5, genesisHash, [], [], default⟩, ⟨-1, genesisHash, [], [], default⟩]) = .overflow := by
  decide +kernel

theorem two_appends_agree : ∃ w : World Unit,
    World.empty.runCalls .head plainBackend [] 100
        [.append default default default, .append default default default,
          .forceCheckpoint default default] =
      some ((AuditChain.empty.runCalls .head plainBackend [] 100
        [.append default default default, .append default default default,
          .forceCheckpoint default default]).1, w) ∧
    verdictOf VerifyError.verdict (verify .head plainBackend [misplaced 0 genesisHash] []) =
      verdictOf ChainError.verdict
        (AuditChain.verify .head plainBackend ⟨[misplaced 0 genesisHash], []⟩) := by
  obtain ⟨runs, verdicts⟩ := sql_refines_memory Unit .head plainBackend [] 100
  obtain ⟨w, reached, _⟩ := runs [.append default default default, .append default default default,
    .forceCheckpoint default default]
  exact ⟨w, reached, (verdicts _ _ [] [] (List.pairwise_singleton _ _) (List.Perm.refl _)
    (List.Perm.refl _)).2 nofun⟩

end Verdicts

end HlHelper.Audit
