import HlHelper.Approvals.Engine
import HlHelper.Library.Runs
import Mathlib.Logic.Function.Basic

/-! Transactions of `decide`, `state` and `sweep` on one approval, statement by statement:
each reads the committed row, and updates it later by its id alone. -/

namespace HlHelper.Approvals

open HlHelper.Library

/-- The columns that an `UPDATE` sets. -/
structure Changes where
  state : Option ApprovalState
  firstDeciderId : Option (Option String)
  decidedById : Option (Option String)
  decidedAt : Option (Option Int)
  mfaProofHash : Option (Option Bytes)
  rejectedReason : Option (Option String)
  deriving DecidableEq, Repr

def changed {α : Type} [DecidableEq α] (old new : α) : Option α :=
  if new = old then none else some new

/-- The session flushes the columns that differ from what it has loaded. -/
def Changes.between (loaded row : Approval) : Changes where
  state := changed loaded.state row.state
  firstDeciderId := changed loaded.firstDeciderId row.firstDeciderId
  decidedById := changed loaded.decidedById row.decidedById
  decidedAt := changed loaded.decidedAt row.decidedAt
  mfaProofHash := changed loaded.mfaProofHash row.mfaProofHash
  rejectedReason := changed loaded.rejectedReason row.rejectedReason

def Changes.apply (changes : Changes) (row : Approval) : Approval :=
  { row with
    state := changes.state.getD row.state
    firstDeciderId := changes.firstDeciderId.getD row.firstDeciderId
    decidedById := changes.decidedById.getD row.decidedById
    decidedAt := changes.decidedAt.getD row.decidedAt
    mfaProofHash := changes.mfaProofHash.getD row.mfaProofHash
    rejectedReason := changes.rejectedReason.getD row.rejectedReason }

inductive Action where
  | decide (args : Decide)
  | state (now : Int)
  | sweep (now : Int)
  deriving DecidableEq, Repr

section Action

variable (sha : Sha256)

/-- What a transaction writes that has read the row, if it writes. -/
def Action.update (action : Action) (row : Approval) : Option Changes :=
  match action with
  | .decide args =>
    let next := (row.decide sha args).1
    if next = row then none else some (Changes.between row next)
  | .state now =>
    let next := (row.stateAt now).1
    if next = row then none else some (Changes.between row next)
  | .sweep now =>
    -- the bulk update sets its columns whatever the rows hold
    if row.Overdue now then
      some ⟨some .expired, none, none, none, none, some (some "expired")⟩
    else none

def Action.Approves (action : Action) (row : Approval) : Prop :=
  match action with
  | .decide args => (row.decide sha args).2.approved = true
  | .state _ | .sweep _ => False

instance (action : Action) (row : Approval) : Decidable (action.Approves sha row) := by
  cases action <;> unfold Action.Approves <;> infer_instance

end Action

abbrev TxnId := Nat

/-- Where a transaction is, with the row that it has read. -/
inductive Phase where
  | fresh
  | selected (action : Action) (row : Approval)
  | returned (action : Action) (row : Approval)
  | over
  deriving DecidableEq, Repr

def Phase.row : Phase → Option (Action × Approval)
  | .selected action row | .returned action row => some (action, row)
  | .fresh | .over => none

/-- The committed row, the update that holds its lock, and the transactions. `answers`
counts the decides that have returned `approved=True`, `approvers` lists the deciders of
the committed approvals. -/
structure World where
  committed : Approval
  lock : Option (TxnId × Changes)
  phase : TxnId → Phase
  answers : Nat
  approvers : List String

inductive Event where
  | select (i : TxnId) (action : Action)
  | update (i : TxnId)
  | commit (i : TxnId)
  | rollback (i : TxnId)
  deriving DecidableEq, Repr

namespace World

def of (row : Approval) : World := ⟨row, none, fun _ => .fresh, 0, []⟩

def moveTo (w : World) (i : TxnId) (phase : Phase) : World :=
  { w with phase := Function.update w.phase i phase }

def release (w : World) (i : TxnId) : World :=
  { w with lock := w.lock.filter (fun held => held.1 ≠ i) }

/-- A decider that a committed change records as an approver. -/
def approver (action : Action) (changes : Changes) : List String :=
  match action with
  | .decide args =>
    if changes.state = some .pendingSecond ∨ changes.state = some .approved then
      [args.deciderId] else []
  | .state _ | .sweep _ => []

def commit (w : World) (i : TxnId) (action : Action) : World :=
  match w.lock with
  | some (holder, changes) =>
    if holder = i then
      { w with
        committed := changes.apply w.committed
        approvers := w.approvers ++ approver action changes }
    else w
  | none => w

section Step

variable (sha : Sha256)

/-- An update waits while another transaction has updated the row and not ended. -/
def step (w : World) : Event → Option World
  | .select i action =>
    match w.phase i with
    | .fresh => some (w.moveTo i (.selected action w.committed))
    | _ => none
  | .update i =>
    match w.phase i with
    | .selected action row =>
      match action.update sha row with
      | none => some (w.moveTo i (.returned action row))
      | some changes =>
        match w.lock with
        | some _ => none
        | none =>
          some ({ w with
            lock := some (i, changes)
            answers := w.answers + if action.Approves sha row then 1 else 0 }.moveTo i
              (.returned action row))
    | _ => none
  | .commit i =>
    match w.phase i with
    | .returned action _ => some (((w.commit i action).release i).moveTo i .over)
    | _ => none
  | .rollback i => some ((w.release i).moveTo i .over)

/-- An update finds the row open, or expires it once more; and no transaction is rolled
back after its decide has returned `approved=True`. -/
def Guarded (w : World) : Event → Prop
  | .update i =>
    ∀ action row changes, w.phase i = .selected action row →
      action.update sha row = some changes →
      w.committed.state.Open ∨ w.committed.state = .expired ∧ changes.state = some .expired
  | .rollback i => ∀ action row, w.phase i = .returned action row → ¬ action.Approves sha row
  | .select _ _ | .commit _ => True

instance (w : World) : ∀ event, Decidable (w.Guarded sha event)
  | .update i =>
    match found : w.phase i with
    | .selected action row =>
      decidable_of_iff (∀ changes ∈ action.update sha row,
          w.committed.state.Open ∨
            w.committed.state = .expired ∧ changes.state = some .expired)
        ⟨fun holds action row changes selected written => by
          obtain ⟨rfl, rfl⟩ := Phase.selected.inj (found.symm.trans selected)
          exact holds changes written, fun holds changes => holds action row changes found⟩
    | .fresh | .returned _ _ | .over => isTrue (by simp [Guarded, found])
  | .rollback i =>
    match found : w.phase i with
    | .returned action row =>
      decidable_of_iff (¬ action.Approves sha row) (by simp [Guarded, found])
    | .fresh | .selected _ _ | .over => isTrue (by simp [Guarded, found])
  | .select _ _ | .commit _ => isTrue trivial

end Step

end World

section Updates

variable {sha : Sha256} {action : Action} {row : Approval} {changes : Changes}

theorem changed_eq_none {α : Type} [DecidableEq α] {old new : α} (same : new = old) :
    changed old new = none := if_pos same

theorem changed_eq_some {α : Type} [DecidableEq α] {old new : α} (differs : new ≠ old) :
    changed old new = some new := if_neg differs

inductive Updates (sha : Sha256) (action : Action) (row : Approval) (changes : Changes) : Prop
  | expires (state : changes.state = some .expired) (decider : changes.decidedById = none)
      (time : changes.decidedAt = none) (silent : ¬ action.Approves sha row)
  | rejects (state : changes.state = some .rejected) (silent : ¬ action.Approves sha row)
  | first (args : Decide) (asked : action = .decide args) (waits : row.state = .pending)
      (other : args.deciderId ≠ row.requesterId) (state : changes.state = some .pendingSecond)
      (decider : changes.firstDeciderId = changed row.firstDeciderId (some args.deciderId))
      (silent : ¬ action.Approves sha row)
  | second (args : Decide) (asked : action = .decide args) (waits : row.state = .pendingSecond)
      (other : args.deciderId ≠ row.requesterId)
      (another : row.firstDeciderId ≠ some args.deciderId) (state : changes.state = some .approved)
  | approves (policy : row.policy ≠ .twoPerson) (state : changes.state = some .approved)

theorem between_self_of_expire (opened : row.state.Open) :
    (Changes.between row row.expire).state = some .expired := by
  apply changed_eq_some
  rcases opened with state | state <;> simp [Approval.expire, state]

theorem updates_of_update (written : action.update sha row = some changes) :
    Updates sha action row changes := by
  cases action with
  | state now =>
    simp only [Action.update, Approval.stateAt] at written
    split at written
    · next late =>
      split at written
      · cases written
      · cases written
        exact .expires (between_self_of_expire (.inl late.1)) (changed_eq_none rfl)
          (changed_eq_none rfl) id
    · simp at written
  | sweep now =>
    simp only [Action.update] at written
    split at written
    · cases written
      exact .expires rfl rfl rfl id
    · cases written
  | decide args =>
    have decided := Approval.decided_decide sha row args
    have approves : (Action.decide args).Approves sha row ↔
        (row.decide sha args).2.approved = true := Iff.rfl
    simp only [Action.update] at written
    generalize (row.decide sha args).1 = next at decided written
    generalize (row.decide sha args).2 = result at decided approves
    split at written
    · cases written
    · next different =>
      cases written
      cases decided with
      | settled => exact absurd rfl different
      | mfaRequired => exact absurd rfl different
      | late opened =>
        exact .expires (between_self_of_expire opened) (changed_eq_none rfl)
          (changed_eq_none rfl) (by simp [approves])
      | reject opened early reason =>
        refine .rejects (changed_eq_some ?_) (by simp [approves, Approval.reject])
        rcases opened with state | state <;> simp [Approval.reject, Approval.settle, state]
      | first asked early other policy state =>
        exact .first args rfl state other (changed_eq_some (by simp [state])) rfl
          (by simp [approves])
      | second asked early other policy state another =>
        exact .second args rfl state other another
          (changed_eq_some (by simp [Approval.settle, state]))
      | approve asked opened early other policy hash hashed =>
        refine .approves policy (changed_eq_some ?_)
        rcases opened with state | state <;> simp [Approval.settle, state]

theorem state_of_approves (written : action.update sha row = some changes)
    (approves : action.Approves sha row) : changes.state = some .approved := by
  cases updates_of_update written with
  | expires _ _ _ silent => exact absurd approves silent
  | rejects _ silent => exact absurd approves silent
  | first _ _ _ _ _ _ silent => exact absurd approves silent
  | second _ _ _ _ _ state => exact state
  | approves _ state => exact state

end Updates

namespace World

variable {sha : Sha256} {w next : World}

/-- What a step can do, with the guards that it passed. -/
inductive Stepped (sha : Sha256) (w : World) : Event → World → Prop
  | select {i : TxnId} {action : Action} (fresh : w.phase i = .fresh) :
      Stepped sha w (.select i action) (w.moveTo i (.selected action w.committed))
  | idle {i : TxnId} {action : Action} {row : Approval}
      (selected : w.phase i = .selected action row) (unchanged : action.update sha row = none) :
      Stepped sha w (.update i) (w.moveTo i (.returned action row))
  | update {i : TxnId} {action : Action} {row : Approval} {changes : Changes}
      (selected : w.phase i = .selected action row)
      (written : action.update sha row = some changes) (free : w.lock = none) :
      Stepped sha w (.update i) ({ w with
        lock := some (i, changes)
        answers := w.answers + if action.Approves sha row then 1 else 0 }.moveTo i
          (.returned action row))
  | commit {i : TxnId} {action : Action} {row : Approval}
      (returned : w.phase i = .returned action row) :
      Stepped sha w (.commit i) (((w.commit i action).release i).moveTo i .over)
  | rollback {i : TxnId} : Stepped sha w (.rollback i) ((w.release i).moveTo i .over)

theorem stepped_of_step {event : Event} (stepped : step sha w event = some next) :
    Stepped sha w event next := by
  cases event with
  | select i action =>
    simp only [step] at stepped
    split at stepped
    · next fresh =>
      cases stepped
      exact .select fresh
    · cases stepped
  | update i =>
    simp only [step] at stepped
    split at stepped
    · next action row selected =>
      split at stepped
      · next unchanged =>
        cases stepped
        exact .idle selected unchanged
      · next changes written =>
        split at stepped
        · cases stepped
        · next free =>
          cases stepped
          exact .update selected written free
    · cases stepped
  | commit i =>
    simp only [step] at stepped
    split at stepped
    · next action row returned =>
      cases stepped
      exact .commit returned
    · cases stepped
  | rollback i =>
    cases stepped
    exact .rollback

structure Sighted (approvers : List String) (row : Approval) : Prop where
  pending : row.state = .pending → row.firstDeciderId = none
  second : row.state = .pendingSecond → ∃ first ∈ approvers,
    row.firstDeciderId = some first ∧ first ≠ row.requesterId

theorem Sighted.mono {approvers : List String} {row : Approval} (sighted : Sighted approvers row)
    (more : List String) : Sighted (approvers ++ more) row where
  pending := sighted.pending
  second := by
    intro state
    obtain ⟨first, member, rest⟩ := sighted.second state
    exact ⟨first, List.mem_append_left _ member, rest⟩

/-- Two principals other than the requester have approved. -/
def TwoApprovers (approvers : List String) (requesterId : String) : Prop :=
  ∃ first ∈ approvers, ∃ second ∈ approvers,
    first ≠ second ∧ first ≠ requesterId ∧ second ≠ requesterId

/-- The lock is held for an update that found the row open, or expires it once more; one
decide at most has answered that the row is approved, and then it is or the lock will
make it so; and two have approved what two persons must approve. -/
structure Safe (sha : Sha256) (w : World) : Prop where
  held : ∀ i changes, w.lock = some (i, changes) →
    (∃ action row, w.phase i = .returned action row ∧ action.update sha row = some changes) ∧
      (w.committed.state.Open ∨ w.committed.state = .expired ∧ changes.state = some .expired)
  answers : w.answers = 0 ∨ w.answers = 1 ∧ (w.committed.state = .approved ∨
    ∃ i changes action row, w.lock = some (i, changes) ∧ w.phase i = .returned action row ∧
      action.Approves sha row)
  sighted : Sighted w.approvers w.committed
  read : ∀ i action row, (w.phase i).row = some (action, row) →
    Sighted w.approvers row ∧ row.policy = w.committed.policy ∧
      row.requesterId = w.committed.requesterId
  twoPerson : w.committed.policy = .twoPerson → w.committed.state = .approved →
    TwoApprovers w.approvers w.committed.requesterId

theorem safe_of (request : Request) : Safe sha (of request.row) where
  held := fun _ _ held => nomatch held
  answers := .inl rfl
  sighted := ⟨fun _ => rfl, fun state => by simp [of, Request.row] at state⟩
  read := fun _ _ _ read => nomatch read
  twoPerson := fun _ state => by simp [of, Request.row] at state

@[simp] theorem phase_moveTo (i j : TxnId) (phase : Phase) :
    (w.moveTo i phase).phase j = if j = i then phase else w.phase j := by
  by_cases same : j = i
  · subst same
    simp [moveTo]
  · simp [moveTo, same]

theorem Safe.moveTo (safe : Safe sha w) {i : TxnId} {phase : Phase}
    (unlocked : ∀ changes, w.lock ≠ some (i, changes))
    (read : ∀ action row, phase.row = some (action, row) →
      Sighted w.approvers row ∧ row.policy = w.committed.policy ∧
        row.requesterId = w.committed.requesterId) : Safe sha (w.moveTo i phase) where
  __ := safe
  held := by
    intro j changes locked
    obtain ⟨⟨action, row, returned, written⟩, guard⟩ := safe.held j changes locked
    refine ⟨⟨action, row, ?_, written⟩, guard⟩
    rw [phase_moveTo, if_neg]
    · exact returned
    · rintro rfl
      exact unlocked changes locked
  answers := by
    rcases safe.answers with none_ | ⟨one, approved | ⟨j, changes, action, row, locked, rest⟩⟩
    · exact .inl none_
    · exact .inr ⟨one, .inl approved⟩
    · refine .inr ⟨one, .inr ⟨j, changes, action, row, locked, ?_⟩⟩
      rw [phase_moveTo, if_neg]
      · exact rest
      · rintro rfl
        exact unlocked changes locked
  read := by
    intro j action row here
    rw [phase_moveTo] at here
    split at here
    · exact read action row here
    · exact safe.read j action row here

theorem Safe.update (safe : Safe sha w) {i : TxnId} {action : Action} {row : Approval}
    {changes : Changes} (selected : w.phase i = .selected action row)
    (written : action.update sha row = some changes) (free : w.lock = none)
    (guarded : w.committed.state.Open ∨
      w.committed.state = .expired ∧ changes.state = some .expired) :
    Safe sha ({ w with
      lock := some (i, changes)
      answers := w.answers + if action.Approves sha row then 1 else 0 }.moveTo i
        (.returned action row)) where
  __ := safe
  held := by
    intro j others locked
    cases locked
    exact ⟨⟨action, row, by simp, written⟩, guarded⟩
  answers := by
    by_cases approves : action.Approves sha row
    · have state := state_of_approves written approves
      have opened : w.committed.state.Open := by
        refine guarded.resolve_right fun expired => ?_
        exact absurd (state.symm.trans expired.2) (by simp)
      have before : w.answers = 0 := by
        rcases safe.answers with none_ | ⟨-, approved | ⟨j, others, _, _, locked, -⟩⟩
        · exact none_
        · rw [approved] at opened
          exact absurd opened (by decide)
        · exact absurd (free.symm.trans locked) (by simp)
      refine .inr ⟨?_, .inr ⟨i, changes, action, row, rfl, by simp, approves⟩⟩
      simp [World.moveTo, before, approves]
    · rcases safe.answers with none_ | ⟨one, approved | ⟨j, others, _, _, locked, -⟩⟩
      · left
        simp [World.moveTo, none_, approves]
      · right
        exact ⟨by simp [World.moveTo, one, approves], .inl approved⟩
      · exact absurd (free.symm.trans locked) (by simp)
  read := by
    intro j other found here
    rw [phase_moveTo] at here
    split at here
    · cases here
      exact safe.read i action row (by simp [selected, Phase.row])
    · exact safe.read j other found here

theorem release_of_not_holder {i : TxnId} (unlocked : ∀ changes, w.lock ≠ some (i, changes)) :
    w.release i = w := by
  have kept : w.lock.filter (fun held => held.1 ≠ i) = w.lock := by
    cases locked : w.lock with
    | none => rfl
    | some held =>
      have other : held.1 ≠ i := by
        rintro rfl
        exact unlocked held.2 locked
      simp [Option.filter, other]
  rw [release, kept]

theorem commit_of_not_holder {i : TxnId} (unlocked : ∀ changes, w.lock ≠ some (i, changes))
    (action : Action) : w.commit i action = w := by
  unfold commit
  split
  · next holder changes locked =>
    refine if_neg ?_
    rintro rfl
    exact unlocked changes locked
  · rfl

def committing (w : World) (i : TxnId) (action : Action) (changes : Changes) : World :=
  { committed := changes.apply w.committed
    lock := none
    phase := Function.update w.phase i .over
    answers := w.answers
    approvers := w.approvers ++ approver action changes }

theorem commit_of_holder {i : TxnId} {changes : Changes} (locked : w.lock = some (i, changes))
    (action : Action) :
    ((w.commit i action).release i).moveTo i .over = w.committing i action changes := by
  simp [commit, locked, release, moveTo, committing]

theorem Safe.committed (safe : Safe sha w) {i : TxnId} {action : Action} {row : Approval}
    {changes : Changes} (returned : w.phase i = .returned action row)
    (written : action.update sha row = some changes) :
    Sighted (w.approvers ++ approver action changes) (changes.apply w.committed) ∧
      (w.committed.policy = .twoPerson → changes.state = some .approved →
        TwoApprovers (w.approvers ++ approver action changes) w.committed.requesterId) := by
  obtain ⟨sighted, policy, requester⟩ := safe.read i action row (by simp [returned, Phase.row])
  have closed : ∀ state, changes.state = some state → ¬ state.Open →
      Sighted (w.approvers ++ approver action changes) (changes.apply w.committed) := by
    intro state sets closed
    have after : (changes.apply w.committed).state = state := by simp [Changes.apply, sets]
    exact ⟨fun pending => absurd (.inl (after.symm.trans pending)) closed,
      fun second => absurd (.inr (after.symm.trans second)) closed⟩
  cases updates_of_update written with
  | expires state =>
    exact ⟨closed _ state (by decide), fun _ approved => by simp [state] at approved⟩
  | rejects state =>
    exact ⟨closed _ state (by decide), fun _ approved => by simp [state] at approved⟩
  | first args asked waits other state decider =>
    have unset := sighted.pending waits
    refine ⟨⟨?_, fun _ => ⟨args.deciderId, ?_, ?_, ?_⟩⟩, fun _ approved => by
      simp [state] at approved⟩
    · simp [Changes.apply, state]
    · simp [approver, asked, state]
    · simp [Changes.apply, decider, unset, changed]
    · simpa [Changes.apply, ← requester] using other
  | second args asked waits other another state =>
    refine ⟨closed _ state (by decide), fun _ _ => ?_⟩
    obtain ⟨first, member, stored, notRequester⟩ := sighted.second waits
    refine ⟨first, List.mem_append_left _ member, args.deciderId, ?_, ?_, ?_, ?_⟩
    · simp [approver, asked, state]
    · rintro rfl
      exact another stored
    · rwa [← requester]
    · rwa [← requester]
  | approves notTwo state =>
    exact ⟨closed _ state (by decide), fun two => absurd (policy.trans two) notTwo⟩

theorem Safe.commit (safe : Safe sha w) {i : TxnId} {action : Action} {row : Approval}
    (returned : w.phase i = .returned action row) :
    Safe sha (((w.commit i action).release i).moveTo i .over) := by
  by_cases holder : ∃ changes, w.lock = some (i, changes)
  · obtain ⟨changes, locked⟩ := holder
    obtain ⟨⟨_, _, returnedToo, written⟩, guarded⟩ := safe.held i changes locked
    obtain ⟨rfl, rfl⟩ := Phase.returned.inj (returned.symm.trans returnedToo)
    obtain ⟨sighted, two⟩ := safe.committed returned written
    have moved : changes.state.isSome := by
      cases updates_of_update written <;> simp_all
    obtain ⟨state, sets⟩ := Option.isSome_iff_exists.mp moved
    have after : (changes.apply w.committed).state = state := by simp [Changes.apply, sets]
    rw [commit_of_holder locked]
    refine ⟨(fun _ _ held => nomatch held), ?_, sighted, ?_, ?_⟩
    · rcases safe.answers with none_ | ⟨one, approved | ⟨j, _, other, read, held, there, approves⟩⟩
      · exact .inl none_
      · rw [approved] at guarded
        exact absurd guarded (by simp [ApprovalState.Open])
      · obtain ⟨rfl, rfl⟩ := Prod.mk.inj (Option.some.inj (locked.symm.trans held))
        obtain ⟨rfl, rfl⟩ := Phase.returned.inj (returned.symm.trans there)
        have approved := sets.symm.trans (state_of_approves written approves)
        exact .inr ⟨one, .inl (after.trans (Option.some.inj approved))⟩
    · intro j other read here
      have before : (w.phase j).row = some (other, read) := by
        by_cases same : j = i
        · subst same
          simp [committing, Phase.row] at here
        · simpa [committing, same] using here
      obtain ⟨sighted, policy, requester⟩ := safe.read j other read before
      exact ⟨sighted.mono _, policy, requester⟩
    · intro policy approved
      exact two policy (sets.trans (congrArg some (after.symm.trans approved)))
  · have unlocked : ∀ changes, w.lock ≠ some (i, changes) := fun changes locked =>
      holder ⟨changes, locked⟩
    rw [commit_of_not_holder unlocked, release_of_not_holder unlocked]
    exact safe.moveTo unlocked (by simp [Phase.row])

theorem Safe.rollback (safe : Safe sha w) {i : TxnId}
    (silent : ∀ action row, w.phase i = .returned action row → ¬ action.Approves sha row) :
    Safe sha ((w.release i).moveTo i .over) := by
  by_cases holder : ∃ changes, w.lock = some (i, changes)
  · obtain ⟨changes, locked⟩ := holder
    have free : w.release i = { w with lock := none } := by
      simp [release, locked]
    have released : Safe sha { w with lock := none } := by
      refine ⟨(fun _ _ held => nomatch held), ?_, safe.sighted, safe.read, safe.twoPerson⟩
      rcases safe.answers with none_ | ⟨one, approved | ⟨j, _, other, read, held, there, approves⟩⟩
      · exact .inl none_
      · exact .inr ⟨one, .inl approved⟩
      · obtain ⟨rfl, rfl⟩ := Prod.mk.inj (Option.some.inj (locked.symm.trans held))
        exact absurd approves (silent other read there)
    rw [free]
    exact released.moveTo (by simp) (by simp [Phase.row])
  · have unlocked : ∀ changes, w.lock ≠ some (i, changes) := fun changes locked =>
      holder ⟨changes, locked⟩
    rw [release_of_not_holder unlocked]
    exact safe.moveTo unlocked (by simp [Phase.row])

theorem Safe.unlocked (safe : Safe sha w) {i : TxnId}
    (early : ∀ action row, w.phase i ≠ .returned action row) (changes : Changes) :
    w.lock ≠ some (i, changes) := by
  intro locked
  obtain ⟨⟨action, row, returned, -⟩, -⟩ := safe.held i changes locked
  exact early action row returned

theorem Safe.step (safe : Safe sha w) {event : Event} (guarded : w.Guarded sha event)
    (stepped : step sha w event = some next) : Safe sha next := by
  cases stepped_of_step stepped with
  | select fresh =>
    apply safe.moveTo (safe.unlocked (by simp [fresh]))
    intro other read here
    cases here
    exact ⟨safe.sighted, rfl, rfl⟩
  | @idle i action row selected unchanged =>
    apply safe.moveTo (safe.unlocked (by simp [selected]))
    intro other read here
    cases here
    exact safe.read i action row (by simp [selected, Phase.row])
  | update selected written free =>
    exact safe.update selected written free (guarded _ _ _ selected written)
  | commit returned => exact safe.commit returned
  | rollback => exact safe.rollback guarded

def SameDecision (row next : Approval) : Prop :=
  next.state = row.state ∧ next.decidedById = row.decidedById ∧ next.decidedAt = row.decidedAt

theorem Safe.final (safe : Safe sha w) {event : Event} (terminal : ¬ w.committed.state.Open)
    (stepped : World.step sha w event = some next) : SameDecision w.committed next.committed := by
  cases stepped_of_step stepped with
  | select | idle | update | rollback => exact ⟨rfl, rfl, rfl⟩
  | @commit i action row returned =>
    by_cases holder : ∃ changes, w.lock = some (i, changes)
    · obtain ⟨changes, locked⟩ := holder
      obtain ⟨⟨_, _, returnedToo, written⟩, guarded⟩ := safe.held i changes locked
      obtain ⟨rfl, rfl⟩ := Phase.returned.inj (returned.symm.trans returnedToo)
      obtain ⟨expired, expires⟩ := guarded.resolve_left terminal
      rw [commit_of_holder locked]
      cases updates_of_update written with
      | expires state decider time =>
        simp [SameDecision, committing, Changes.apply, state, decider, time, expired]
      | rejects state => simp [state] at expires
      | first _ _ _ _ state => simp [state] at expires
      | second _ _ _ _ _ state => simp [state] at expires
      | approves _ state => simp [state] at expires
    · have unlocked : ∀ changes, w.lock ≠ some (i, changes) := fun changes locked =>
        holder ⟨changes, locked⟩
      rw [commit_of_not_holder unlocked, release_of_not_holder unlocked]
      exact ⟨rfl, rfl, rfl⟩

def twoPersons : Request := ⟨"a-1", .command, "reboot", .twoPerson, "u-1", 0, 3600⟩

def twoDecides : List Event :=
  [.select 0 (.decide ⟨"u-2", .approve, none, none, 60⟩), .update 0, .commit 0,
    .select 1 (.decide ⟨"u-3", .approve, none, none, 120⟩), .update 1, .commit 1]

def lateSweep : List Event := [.select 2 (.sweep 7200), .update 2, .commit 2]

/-- In every guarded interleaving the first terminal state that is committed stays, with
its decider and its time, one decide at most answers that the row is approved, and two
have approved what two persons must approve. -/
theorem decisions_final (sha : Sha256) (request : Request) (events more : List Event)
    {before after : World}
    (reached : run (World.step sha) (World.of request.row) events = some before)
    (continued : run (World.step sha) before more = some after)
    (guarded : Meets (World.step sha) (Guarded sha) (World.of request.row) (events ++ more)) :
    (¬ before.committed.state.Open → SameDecision before.committed after.committed) ∧
      after.answers ≤ 1 ∧
      (after.committed.policy = .twoPerson → after.committed.state = .approved →
        TwoApprovers after.approvers after.committed.requesterId) := by
  obtain ⟨first, second⟩ := meets_append reached guarded
  have keep : ∀ w event next, Safe sha w → Guarded sha w event →
      World.step sha w event = some next → Safe sha next :=
    fun _ _ _ safe guarded stepped => safe.step guarded stepped
  have safe := run_keeps keep (safe_of request) reached first
  have safeAfter := run_keeps keep safe continued second
  refine ⟨?_, ?_, safeAfter.twoPerson⟩
  · intro terminal
    have keepBoth : ∀ w event next, Safe sha w ∧ SameDecision before.committed w.committed →
        Guarded sha w event → World.step sha w event = some next →
          Safe sha next ∧ SameDecision before.committed next.committed := by
      intro w event next holds guarded stepped
      obtain ⟨safe, state, decider, time⟩ := holds
      obtain ⟨stateToo, deciderToo, timeToo⟩ := safe.final (state ▸ terminal) stepped
      exact ⟨safe.step guarded stepped, stateToo.trans state, deciderToo.trans decider,
        timeToo.trans time⟩
    have stays := run_keeps keepBoth ⟨safe, rfl, rfl, rfl⟩ continued second
    exact stays.2
  · rcases safeAfter.answers with none_ | ⟨one, -⟩ <;> omega

theorem two_persons_final : ∃ before after,
    run (World.step .head) (World.of twoPersons.row) twoDecides = some before ∧
      run (World.step .head) before lateSweep = some after ∧
      SameDecision before.committed after.committed ∧
      TwoApprovers after.approvers after.committed.requesterId := by
  have first : (run (World.step .head) (World.of twoPersons.row) twoDecides).map
      (fun before => before.committed.state) = some .approved := by
    decide
  have whole : (run (World.step .head) (World.of twoPersons.row) (twoDecides ++ lateSweep)).map
      (fun after => (after.committed.policy, after.committed.state)) =
        some (.twoPerson, .approved) := by
    decide
  obtain ⟨before, reached, approved⟩ := Option.map_eq_some_iff.mp first
  obtain ⟨after, ended, kept⟩ := Option.map_eq_some_iff.mp whole
  obtain ⟨policy, state⟩ := Prod.mk.inj kept
  have continued : run (World.step .head) before lateSweep = some after := by
    simpa [run_append, reached] using ended
  obtain ⟨final, -, two⟩ := decisions_final .head twoPersons twoDecides lateSweep reached
    continued (by decide)
  exact ⟨before, after, reached, continued, final (by simp [approved, ApprovalState.Open]),
    two policy state⟩

def lateDecide : List Event :=
  [.select 0 (.decide ⟨"u-2", .approve, none, none, 3599⟩), .select 1 (.sweep 3601), .update 0,
    .commit 0]

/-- The sweep expires the row that was approved while it waited. -/
theorem approval_expired_later : ∃ before after,
    run (World.step .head) (World.of { twoPersons with policy := .single }.row) lateDecide =
        some before ∧
      run (World.step .head) before [.update 1, .commit 1] = some after ∧
      ¬ before.committed.state.Open ∧ ¬ SameDecision before.committed after.committed := by
  have first : (run (World.step .head) (World.of { twoPersons with policy := .single }.row)
      lateDecide).map (fun before => before.committed.state) = some .approved := by
    decide
  have whole : (run (World.step .head) (World.of { twoPersons with policy := .single }.row)
      (lateDecide ++ [.update 1, .commit 1])).map (fun after => after.committed.state) =
        some .expired := by
    decide
  obtain ⟨before, reached, approved⟩ := Option.map_eq_some_iff.mp first
  obtain ⟨after, ended, expired⟩ := Option.map_eq_some_iff.mp whole
  have continued : run (World.step .head) before [.update 1, .commit 1] = some after := by
    simpa [run_append, reached] using ended
  refine ⟨before, after, reached, continued, by simp [approved, ApprovalState.Open], ?_⟩
  rintro ⟨state, -⟩
  simp [approved, expired] at state

end World

end HlHelper.Approvals
