import HlHelper.Approvals.Engine
import Mathlib.Data.List.Induction

/-! One approval through calls that follow one another: who has approved it, and what
its callers are told once it has expired. -/

namespace HlHelper.Approvals

open Dispatch (truthy)

inductive Call where
  | request (request : Request)
  | decide (args : Decide)
  | state (now : Int)
  | sweep (now : Int)
  deriving DecidableEq, Repr

/-- The row, the decisions that took effect as approvals, and the decisions to reject that
came before it was approved. -/
structure Trail where
  row : Option Approval
  approving : List Decide
  rejecting : List Decide
  deriving DecidableEq, Repr

namespace Trail

def empty : Trail := ⟨none, [], []⟩

section Step

variable (sha : Sha256)

def Approves (row next : Approval) : Prop :=
  next.state ≠ row.state ∧ (next.state = .pendingSecond ∨ next.state = .approved)

instance (row next : Approval) : Decidable (Approves row next) :=
  inferInstanceAs (Decidable (_ ∧ _))

def step (trail : Trail) : Call → Trail
  | .request request =>
    match trail.row with
    | none => { trail with row := some request.row }
    -- the primary key is taken
    | some _ => trail
  | .decide args =>
    match trail.row with
    | none => trail
    | some row =>
      let next := (row.decide sha args).1
      { row := some next
        approving := trail.approving ++ if Approves row next then [args] else []
        rejecting := trail.rejecting ++
          if args.decision = .reject ∧ row.state ≠ .approved then [args] else [] }
  | .state now => { trail with row := trail.row.map fun row => (row.stateAt now).1 }
  | .sweep now =>
    { trail with row := trail.row.map fun row => if row.Overdue now then row.sweep else row }

def after (calls : List Call) : Trail := calls.foldl (step sha) empty

def report (trail : Trail) : Call → Option (Int × ApprovalState)
  | .decide args =>
    some (args.now, match trail.row with
      | none => .rejected
      | some row => (row.decide sha args).2.state)
  | .state now =>
    some (now, match trail.row with
      | none => .rejected
      | some row => (row.stateAt now).2)
  | .request _ | .sweep _ => none

/-- From its expiry on, the row is not reported as open. -/
def Closes (trail : Trail) (call : Call) : Prop :=
  ∀ row ∈ trail.row, ∀ told ∈ trail.report sha call, row.expiresAt ≤ told.1 → ¬ told.2.Open

end Step

/-- An approved row has the authority that its policy asks for. -/
structure Authority (sha : Sha256) (approving rejecting : List Decide) (row : Approval) :
    Prop where
  decider : ∃ args ∈ approving, row.decidedById = some args.deciderId ∧
    args.deciderId ≠ row.requesterId
  early : ∀ args ∈ approving, args.now < row.expiresAt
  twoPerson : row.policy = .twoPerson → ∃ first ∈ approving, ∃ second ∈ approving,
    first.deciderId ≠ second.deciderId ∧ first.deciderId ≠ row.requesterId ∧
      second.deciderId ≠ row.requesterId
  secondFactor : row.policy = .singleSecondFactor → ∃ args ∈ approving, ∃ proof,
    truthy args.mfaProof = some proof ∧
      row.mfaProofHash = some (sha.sum (Library.Wire.utf8 proof))
  unrejected : rejecting = []

def Authorised (sha : Sha256) (trail : Trail) : Prop :=
  ∀ row ∈ trail.row, row.state = .approved →
    Authority sha trail.approving trail.rejecting row

/-- What each state of the row says about the decisions so far. -/
def Standing (sha : Sha256) (trail : Trail) : Prop :=
  match trail.row with
  | none => trail.approving = [] ∧ trail.rejecting = []
  | some row =>
    match row.state with
    | .pending => trail.approving = [] ∧ trail.rejecting = []
    | .pendingSecond => trail.rejecting = [] ∧ ∃ first, trail.approving = [first] ∧
        row.firstDeciderId = some first.deciderId ∧ first.deciderId ≠ row.requesterId ∧
        first.now < row.expiresAt
    | .approved => Authority sha trail.approving trail.rejecting row
    | .rejected | .expired => True

variable {sha : Sha256} {trail : Trail}

theorem Standing.authorised (standing : Standing sha trail) : Authorised sha trail := by
  intro row found approved
  rw [Option.mem_def] at found
  simpa [Standing, found, approved] using standing

theorem standing_empty : Standing sha empty := ⟨rfl, rfl⟩

theorem not_approves_self (row : Approval) : ¬ Approves row row := by
  simp [Approves]

theorem Standing.early {row : Approval} (standing : Standing sha trail)
    (found : trail.row = some row) (opened : row.state.Open) :
    (∀ args ∈ trail.approving, args.now < row.expiresAt) ∧ trail.rejecting = [] := by
  rcases opened with state | state
  · obtain ⟨approving, rejecting⟩ : trail.approving = [] ∧ trail.rejecting = [] := by
      simpa [Standing, found, state] using standing
    simp [approving, rejecting]
  · obtain ⟨rejecting, first, approving, -, -, early⟩ : trail.rejecting = [] ∧ ∃ first,
        trail.approving = [first] ∧ row.firstDeciderId = some first.deciderId ∧
          first.deciderId ≠ row.requesterId ∧ first.now < row.expiresAt := by
      simpa [Standing, found, state] using standing
    simp [approving, rejecting, early]

theorem authority_of_two {row : Approval} {first args : Decide} (policy : row.policy = .twoPerson)
    (notRequester : first.deciderId ≠ row.requesterId) (other : args.deciderId ≠ row.requesterId)
    (apart : first.deciderId ≠ args.deciderId) (earlyToo : first.now < row.expiresAt)
    (early : args.now < row.expiresAt) :
    Authority sha [first, args] [] (row.settle args .approved) where
  decider := ⟨args, by simp, rfl, other⟩
  early := by
    intro one member
    rcases List.mem_pair.mp member with rfl | rfl
    · exact earlyToo
    · exact early
  twoPerson := fun _ => ⟨first, by simp, args, by simp, apart, notRequester, other⟩
  secondFactor := fun alone => absurd (policy.symm.trans alone) (by simp)
  unrejected := rfl

theorem authority_of_one {row : Approval} {args : Decide} {approving : List Decide}
    {hash : Option Bytes} (policy : row.policy ≠ .twoPerson)
    (other : args.deciderId ≠ row.requesterId)
    (earlyToo : ∀ one ∈ approving, one.now < row.expiresAt) (early : args.now < row.expiresAt)
    (hashed : (∃ proof, truthy args.mfaProof = some proof ∧
        hash = some (sha.sum (Library.Wire.utf8 proof))) ∨
      row.policy = .single ∧ truthy args.mfaProof = none ∧ hash = row.mfaProofHash) :
    Authority sha (approving ++ [args]) []
      { row.settle args .approved with mfaProofHash := hash } where
  decider := ⟨args, by simp, rfl, other⟩
  early := by
    intro one member
    rcases List.mem_append.mp member with before | new
    · exact earlyToo one before
    · rw [List.mem_singleton.mp new]
      exact early
  twoPerson := fun two => absurd two policy
  secondFactor := by
    intro second
    rcases hashed with ⟨proof, found, rfl⟩ | ⟨single, -, -⟩
    · exact ⟨args, by simp, proof, found, rfl⟩
    · exact absurd (single.symm.trans second) (by simp)
  unrejected := rfl

theorem Standing.decide {row : Approval} (standing : Standing sha trail)
    (found : trail.row = some row) (args : Decide) :
    Standing sha (trail.step sha (.decide args)) := by
  have decided := Approval.decided_decide sha row args
  have earlier := standing.early found
  simp only [Standing, found] at standing
  simp only [step, found, Standing]
  generalize (row.decide sha args).1 = next at decided ⊢
  generalize (row.decide sha args).2 = result at decided
  cases decided with
  | settled closed =>
    cases state : row.state with
    | pending => exact absurd (.inl state) closed
    | pendingSecond => exact absurd (.inr state) closed
    | approved => simpa [state, not_approves_self] using standing
    | rejected | expired => trivial
  | late opened late => trivial
  | reject opened early reason => trivial
  | first asked early other policy state =>
    obtain ⟨approving, rejecting⟩ : trail.approving = [] ∧ trail.rejecting = [] := by
      simpa [state] using standing
    exact ⟨by simp [rejecting, asked], args, by simp [approving, Approves, state], rfl, other,
      early⟩
  | second asked early other policy state another =>
    obtain ⟨rejecting, first, approving, stored, notRequester, earlyToo⟩ :
        trail.rejecting = [] ∧ ∃ first, trail.approving = [first] ∧
          row.firstDeciderId = some first.deciderId ∧ first.deciderId ≠ row.requesterId ∧
          first.now < row.expiresAt := by
      simpa [state] using standing
    have both : trail.approving ++
        (if Approves row (row.settle args .approved) then [args] else []) = [first, args] := by
      simp [approving, Approves, Approval.settle, state]
    have apart : first.deciderId ≠ args.deciderId := by
      rintro same
      exact another (same ▸ stored)
    have none_ : (trail.rejecting ++
        if args.decision = .reject ∧ row.state ≠ .approved then [args] else []) = [] := by
      simp [rejecting, asked]
    rw [both, none_]
    exact authority_of_two policy notRequester other apart earlyToo early
  | mfaRequired asked opened early policy =>
    simpa [not_approves_self, asked] using standing
  | approve asked opened early other policy hash hashed =>
    have grows : trail.approving ++ (if Approves row
        { row.settle args .approved with mfaProofHash := hash } then [args] else []) =
          trail.approving ++ [args] := by
      rcases opened with state | state <;> simp [Approves, Approval.settle, state]
    obtain ⟨earlyToo, rejecting⟩ := earlier opened
    have none_ : (trail.rejecting ++
        if args.decision = .reject ∧ row.state ≠ .approved then [args] else []) = [] := by
      simp [rejecting, asked]
    rw [grows, none_]
    exact authority_of_one policy other earlyToo early hashed

theorem Standing.leave (standing : Standing sha trail) {update : Approval → Approval}
    (leaves : ∀ row, update row = row ∨ (update row).state = .expired) :
    Standing sha { trail with row := trail.row.map update } := by
  cases found : trail.row with
  | none => simpa [Standing, found] using standing
  | some row =>
    rcases leaves row with same | expired
    · simpa [Standing, found, same] using standing
    · simp [Standing, expired]

theorem Standing.step (standing : Standing sha trail) (call : Call) :
    Standing sha (trail.step sha call) := by
  cases call with
  | request request =>
    cases found : trail.row with
    | none => simpa [Trail.step, Standing, found, Request.row] using standing
    | some row => simpa [Trail.step, found] using standing
  | decide args =>
    cases found : trail.row with
    | none => simpa [Trail.step, found] using standing
    | some row => exact standing.decide found args
  | state now =>
    apply standing.leave
    intro row
    exact (row.stateAt_cases now).imp_right fun expired => by simp [expired, Approval.expire]
  | sweep now =>
    apply standing.leave
    intro row
    split
    · exact .inr rfl
    · exact .inl rfl

theorem standing_after (calls : List Call) : Standing sha (after sha calls) := by
  induction calls using List.reverseRecOn with
  | nil => exact standing_empty
  | append_singleton calls call ih =>
    rw [after, List.foldl_concat]
    exact ih.step call

theorem closes_decide (args : Decide) : Closes sha trail (.decide args) := by
  intro row found told reported late
  rw [Option.mem_def] at found
  simp only [report, found, Option.mem_some_iff] at reported
  subst reported
  have decided := Approval.decided_decide sha row args
  simp only at late
  generalize (row.decide sha args).1 = next at decided
  generalize (row.decide sha args).2 = result at decided ⊢
  cases decided with
  | settled closed => exact closed
  | late => simp [ApprovalState.Open]
  | reject => simp [ApprovalState.Open, Approval.reject]
  | first _ early => exact absurd late (by omega)
  | second _ early => exact absurd late (by omega)
  | mfaRequired _ _ early => exact absurd late (by omega)
  | approve => simp [ApprovalState.Open]

theorem closes_state_iff {now : Int} :
    Closes sha trail (.state now) ↔
      ∀ row ∈ trail.row, row.state = .pendingSecond → now < row.expiresAt := by
  constructor
  · intro closes row found second
    by_contra late
    have told : (now, ApprovalState.pendingSecond) ∈ trail.report sha (.state now) := by
      rw [Option.mem_def] at found
      simp [report, found, Approval.stateAt, second]
    exact closes row found _ told (by omega) (.inr rfl)
  · intro early row found told reported late
    have waits := early row found
    rw [Option.mem_def] at found
    simp only [report, found, Option.mem_some_iff] at reported
    subst reported
    simp only [Approval.stateAt] at late ⊢
    split
    · simp [ApprovalState.Open]
    · next other =>
      rintro (first | second)
      · exact other ⟨first, late⟩
      · exact absurd (waits second) (by omega)

/-- Along the calls an approved row has its authority, and none is reported open once it
has expired. -/
def Sound (sha : Sha256) (calls : List Call) : Prop :=
  ∀ before call rest, calls = before ++ call :: rest →
    Authorised sha (after sha (before ++ [call])) ∧ Closes sha (after sha before) call

/-- The calls are sound exactly when `state` is never asked about a row that has expired
while it waited for its second decider. -/
theorem sound_iff (sha : Sha256) (calls : List Call) :
    Sound sha calls ↔ ∀ before now rest, calls = before ++ .state now :: rest →
      ∀ row ∈ (after sha before).row, row.state = .pendingSecond → now < row.expiresAt := by
  constructor
  · intro sound before now rest split
    exact closes_state_iff.mp (sound before (.state now) rest split).2
  · intro early before call rest split
    refine ⟨(standing_after _).authorised, ?_⟩
    cases call with
    | request | sweep =>
      intro row found told reported
      simp [report] at reported
    | decide args => exact closes_decide args
    | state now => exact closes_state_iff.mpr (early before now rest split)

def waitingCalls : List Call :=
  [.request ⟨"a-1", .command, "reboot", .twoPerson, "u-1", 0, 600⟩,
    .decide ⟨"u-2", .approve, none, none, 60⟩]

theorem expired_reported_open : ¬ Sound .head (waitingCalls ++ [.state 3600]) := by
  intro sound
  have waiting : ((after .head waitingCalls).row.map
      fun row => (row.state, row.expiresAt)) = some (.pendingSecond, 600) := by
    decide
  obtain ⟨row, found, same⟩ := Option.map_eq_some_iff.mp waiting
  obtain ⟨state, expiry⟩ := Prod.mk.inj same
  have told := (sound waitingCalls (.state 3600) [] rfl).2
  have early := closes_state_iff.mp told row found state
  omega

end Trail

end HlHelper.Approvals
