import HlHelper.Dispatch.Payload
import HlHelper.Library.Wire

/-! `ApprovalEngine` of `approvals.py` and the update of `approval_sweeper.py` on one row. -/

namespace HlHelper.Approvals

open Dispatch (truthy)

inductive SubjectType where
  | command | task | policyChange
  deriving DecidableEq, Repr

inductive Policy where
  | single | twoPerson | singleSecondFactor
  deriving DecidableEq, Repr

inductive ApprovalState where
  | pending | pendingSecond | approved | rejected | expired
  deriving DecidableEq, Repr

structure Approval where
  id : String
  subjectType : SubjectType
  subjectId : String
  policy : Policy
  requesterId : String
  state : ApprovalState
  firstDeciderId : Option String
  decidedById : Option String
  decidedAt : Option Int
  mfaProofHash : Option Bytes
  rejectedReason : Option String
  expiresAt : Int
  deriving DecidableEq, Repr

structure DecisionResult where
  approved : Bool
  state : ApprovalState
  rejectedReason : Option String
  deriving DecidableEq, Repr

def ApprovalState.Open (state : ApprovalState) : Prop := state = .pending ∨ state = .pendingSecond

instance (state : ApprovalState) : Decidable state.Open := inferInstanceAs (Decidable (_ ∨ _))

structure Request where
  approvalId : String
  subjectType : SubjectType
  subjectId : String
  policy : Policy
  requesterId : String
  now : Int
  ttl : Int
  deriving DecidableEq, Repr

def Request.row (request : Request) : Approval where
  id := request.approvalId
  subjectType := request.subjectType
  subjectId := request.subjectId
  policy := request.policy
  requesterId := request.requesterId
  state := .pending
  firstDeciderId := none
  decidedById := none
  decidedAt := none
  mfaProofHash := none
  rejectedReason := none
  expiresAt := request.now + request.ttl

inductive Decision where
  | approve | reject
  deriving DecidableEq, Repr

structure Decide where
  deciderId : String
  decision : Decision
  mfaProof : Option String
  reason : Option String
  now : Int
  deriving DecidableEq, Repr

namespace Approval

def settle (row : Approval) (args : Decide) (state : ApprovalState) : Approval :=
  { row with state := state, decidedById := some args.deciderId, decidedAt := some args.now }

def reject (row : Approval) (args : Decide) (reason : String) : Approval × DecisionResult :=
  ({ row.settle args .rejected with rejectedReason := some reason },
    ⟨false, .rejected, some reason⟩)

def expire (row : Approval) : Approval := { row with state := .expired }

section Decide

variable (sha : Sha256)

def decide (row : Approval) (args : Decide) : Approval × DecisionResult :=
  if ¬ row.state.Open then (row, ⟨false, row.state, row.rejectedReason⟩)
  else if row.expiresAt ≤ args.now then (row.expire, ⟨false, .expired, some "expired"⟩)
  else
    match args.decision with
    | .reject => row.reject args ((truthy args.reason).getD "rejected")
    | .approve =>
      if args.deciderId = row.requesterId then row.reject args "same_principal"
      else if row.policy = .twoPerson ∧ row.state = .pending then
        ({ row with state := .pendingSecond, firstDeciderId := some args.deciderId },
          ⟨false, .pendingSecond, none⟩)
      else if row.policy = .twoPerson then
        if row.firstDeciderId = some args.deciderId then row.reject args "same_principal"
        else (row.settle args .approved, ⟨true, .approved, none⟩)
      else if row.policy = .singleSecondFactor ∧ truthy args.mfaProof = none then
        (row, ⟨false, .pending, some "mfa_required"⟩)
      else
        let settled := row.settle args .approved
        match truthy args.mfaProof with
        | none => (settled, ⟨true, .approved, none⟩)
        | some proof =>
          ({ settled with mfaProofHash := some (sha.sum (Library.Wire.utf8 proof)) },
            ⟨true, .approved, none⟩)

end Decide

def stateAt (row : Approval) (now : Int) : Approval × ApprovalState :=
  if row.state = .pending ∧ row.expiresAt ≤ now then (row.expire, .expired)
  else (row, row.state)

def Overdue (row : Approval) (now : Int) : Prop := row.state.Open ∧ row.expiresAt < now

instance (row : Approval) (now : Int) : Decidable (row.Overdue now) :=
  inferInstanceAs (Decidable (_ ∧ _))

/-- What `sweep` sets in them. -/
def sweep (row : Approval) : Approval := { row.expire with rejectedReason := some "expired" }

/-- What `decide` can do, with what it has checked. -/
inductive Decided (sha : Sha256) (row : Approval) (args : Decide) :
    Approval → DecisionResult → Prop
  | settled (closed : ¬ row.state.Open) :
      Decided sha row args row ⟨false, row.state, row.rejectedReason⟩
  | late (opened : row.state.Open) (late : row.expiresAt ≤ args.now) :
      Decided sha row args row.expire ⟨false, .expired, some "expired"⟩
  | reject (opened : row.state.Open) (early : args.now < row.expiresAt) (reason : String) :
      Decided sha row args (row.reject args reason).1 (row.reject args reason).2
  | first (asked : args.decision = .approve) (early : args.now < row.expiresAt)
      (other : args.deciderId ≠ row.requesterId) (policy : row.policy = .twoPerson)
      (state : row.state = .pending) :
      Decided sha row args
        { row with state := .pendingSecond, firstDeciderId := some args.deciderId }
        ⟨false, .pendingSecond, none⟩
  | second (asked : args.decision = .approve) (early : args.now < row.expiresAt)
      (other : args.deciderId ≠ row.requesterId) (policy : row.policy = .twoPerson)
      (state : row.state = .pendingSecond) (another : row.firstDeciderId ≠ some args.deciderId) :
      Decided sha row args (row.settle args .approved) ⟨true, .approved, none⟩
  | mfaRequired (asked : args.decision = .approve) (opened : row.state.Open)
      (early : args.now < row.expiresAt) (policy : row.policy = .singleSecondFactor) :
      Decided sha row args row ⟨false, .pending, some "mfa_required"⟩
  | approve (asked : args.decision = .approve) (opened : row.state.Open)
      (early : args.now < row.expiresAt) (other : args.deciderId ≠ row.requesterId)
      (policy : row.policy ≠ .twoPerson) (hash : Option Bytes)
      (hashed : (∃ proof, truthy args.mfaProof = some proof ∧
          hash = some (sha.sum (Library.Wire.utf8 proof))) ∨
        row.policy = .single ∧ truthy args.mfaProof = none ∧ hash = row.mfaProofHash) :
      Decided sha row args { row.settle args .approved with mfaProofHash := hash }
        ⟨true, .approved, none⟩

theorem decided_decide (sha : Sha256) (row : Approval) (args : Decide) :
    Decided sha row args (row.decide sha args).1 (row.decide sha args).2 := by
  unfold decide
  split
  · next closed => exact .settled closed
  next opened =>
  replace opened := not_not.mp opened
  split
  · next late => exact .late opened late
  next early =>
  replace early : args.now < row.expiresAt := by omega
  split
  · exact .reject opened early _
  next asked =>
  split
  · exact .reject opened early _
  next other =>
  split
  · next first => exact .first asked early other first.1 first.2
  next notFirst =>
  split
  · next policy =>
    split
    · exact .reject opened early _
    · next another =>
      have state : row.state = .pendingSecond :=
        opened.resolve_left fun pending => notFirst ⟨policy, pending⟩
      exact .second asked early other policy state another
  next policy =>
  split
  · next unproved => exact .mfaRequired asked opened early unproved.1
  next proved =>
  cases found : truthy args.mfaProof with
  | some proof => exact .approve asked opened early other policy _ (.inl ⟨proof, found, rfl⟩)
  | none =>
    have single : row.policy = .single := by
      cases known : row.policy with
      | single => rfl
      | twoPerson => exact absurd known policy
      | singleSecondFactor => exact absurd ⟨known, found⟩ proved
    exact .approve asked opened early other policy row.mfaProofHash (.inr ⟨single, found, rfl⟩)

theorem stateAt_cases (row : Approval) (now : Int) :
    (row.stateAt now).1 = row ∨ (row.stateAt now).1 = row.expire := by
  unfold stateAt
  split
  · exact .inr rfl
  · exact .inl rfl

end Approval

end HlHelper.Approvals
