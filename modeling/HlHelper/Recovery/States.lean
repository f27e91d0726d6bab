import HlHelper.Library.Runs
import Mathlib.Algebra.Group.Int.Defs
import Mathlib.Data.List.Infix

/-! The state file of the agent's rotator, and the calls of `RotateOnce` and `CheckAndRecover`
that load and save it without a lock: one step for each access to the file, with the outcome of
what runs before it. -/

namespace HlHelper.Recovery

inductive Phase where
  | normal
  | rotating
  | rotateBackoff
  | recovering
  | halted
  deriving DecidableEq, Repr

/-- `State`; the zero time is `none`. -/
structure RotatorState where
  phase : Phase
  lastAttemptAt : Option Int
  consecutiveFailures : Int
  haltedReason : String
  deriving DecidableEq, Repr

/-- What `os.ReadFile` and `json.Unmarshal` find; an error of either ends in a zero `State`. -/
inductive StateFile where
  | absent
  | unreadable
  | present (st : RotatorState)
  deriving DecidableEq, Repr

/-- The state that `LoadState` returns; every caller drops its error. -/
def loadState : StateFile → RotatorState
  | .absent => ⟨.normal, none, 0, ""⟩
  -- the phase is empty, and overwritten by every caller
  | .unreadable => ⟨.normal, none, 0, ""⟩
  | .present st => st

inductive Code where
  | canceled | unknown | invalidArgument | deadlineExceeded | notFound | alreadyExists
  | permissionDenied | resourceExhausted | failedPrecondition | aborted | outOfRange
  | unimplemented | internal | unavailable | dataLoss | unauthenticated
  deriving DecidableEq, Repr

def Code.text : Code → String
  | .canceled => "Canceled"
  | .unknown => "Unknown"
  | .invalidArgument => "InvalidArgument"
  | .deadlineExceeded => "DeadlineExceeded"
  | .notFound => "NotFound"
  | .alreadyExists => "AlreadyExists"
  | .permissionDenied => "PermissionDenied"
  | .resourceExhausted => "ResourceExhausted"
  | .failedPrecondition => "FailedPrecondition"
  | .aborted => "Aborted"
  | .outOfRange => "OutOfRange"
  | .unimplemented => "Unimplemented"
  | .internal => "Internal"
  | .unavailable => "Unavailable"
  | .dataLoss => "DataLoss"
  | .unauthenticated => "Unauthenticated"

/-- An error of `ReEnroll`: a status of the server behind the name of the call, or another. -/
inductive ReEnrollError where
  | status (call : String) (code : Code) (desc : String)
  | other (text : String)
  deriving DecidableEq, Repr

def ReEnrollError.text : ReEnrollError → String
  | .status call code desc =>
    call ++ ": rpc error: code = " ++ code.text ++ " desc = " ++ desc
  | .other text => text

def contains (text part : String) : Bool := decide (part.toList <:+: text.toList)

def isPermanentReEnrollFailure (error : ReEnrollError) : Bool :=
  contains error.text "PERMISSION_DENIED" || contains error.text "NOT_FOUND"

/-- The server refuses with one of the two codes that stand for a permanent failure. -/
def ReEnrollError.Refused : ReEnrollError → Prop
  | .status _ code _ => code = .permissionDenied ∨ code = .notFound
  | .other _ => False

instance : DecidablePred ReEnrollError.Refused
  | .status _ _ _ => inferInstanceAs (Decidable (_ ∨ _))
  | .other _ => isFalse id

/-- Where a call is; `save` points hold the state that is saved next. -/
inductive Point where
  | saveRotating
  | rotate
  | saveFailed
  | saveRotated
  | saveRecovering
  | reEnroll
  | saveRecovered
  /-- In `haltAt`, after a refusal of the server or for another reason. -/
  | saveHalted (refused : Bool)
  | returned
  deriving DecidableEq, Repr

/-- A call with its state and the number of saves that it has seen of the file. -/
structure Call where
  point : Point
  st : RotatorState
  seen : Nat
  deriving DecidableEq, Repr

inductive Entry where
  | started (call : Nat)
  | committed (call : Nat)
  | failed
  | succeeded
  | refused
  | recorded (call : Nat) (phase : Phase)
  deriving DecidableEq, Repr

structure Agent where
  file : StateFile
  saves : Nat
  calls : List Call
  log : List Entry
  deriving DecidableEq, Repr

def Agent.initial (file : StateFile) : Agent := ⟨file, 0, [], []⟩

inductive CertInfo where
  | missing (error : String)
  | valid
  | expired
  deriving DecidableEq, Repr

/-- `read` where the load of the event finds the file, and not an error of the disk. -/
inductive Event where
  /-- `RotateOnce`, up to its first save. -/
  | rotateOnce (now : Int) (read : Bool)
  /-- `CheckAndRecover`, up to its first save. -/
  | checkAndRecover (cert : CertInfo) (read : Bool)
  /-- The sub-steps of a rotation; `error` is the one that fails. -/
  | rotated (call : Nat) (error : Option String)
  | reEnrolled (call : Nat) (error : Option ReEnrollError) (read : Bool)
  /-- A save; `ok` where `SaveState` returns nil. -/
  | save (call : Nat) (ok : Bool)
  deriving DecidableEq, Repr

namespace Agent

def load (a : Agent) (read : Bool) : RotatorState :=
  loadState (if read then a.file else .unreadable)

def enter (a : Agent) (point : Point) (st : RotatorState) : Agent :=
  { a with calls := a.calls ++ [⟨point, st, a.saves⟩] }

/-- `haltAt` up to its save. -/
def halting (a : Agent) (read : Bool) (reason cause : String) : RotatorState :=
  { a.load read with phase := .halted, haltedReason := reason ++ ": " ++ cause }

/-- What a call goes on to after a save, and what it leaves in the log. -/
def afterSave (index : Nat) : Point → Option (Point × List Entry)
  | .saveRotating => some (.rotate, [.started index])
  | .saveFailed => some (.returned, [.failed])
  | .saveRotated => some (.returned, [.succeeded])
  | .saveRecovering => some (.reEnroll, [.started index])
  | .saveRecovered => some (.returned, [.succeeded])
  | .saveHalted refused => some (.returned, if refused then [.refused] else [])
  | .rotate | .reEnroll | .returned => none

/-- `SaveState`, whose error is dropped. -/
def saveAt (a : Agent) (index : Nat) (call : Call) (ok : Bool) : Option Agent :=
  (afterSave index call.point).map fun (point, entries) =>
    if ok then
      { file := .present call.st
        saves := a.saves + 1
        calls := a.calls.set index ⟨point, call.st, a.saves + 1⟩
        log := a.log ++ .recorded index call.st.phase :: entries }
    else
      { a with
        calls := a.calls.set index ⟨point, call.st, call.seen⟩
        log := a.log ++ entries }

/-- `++` of an `int` of 64 bits. -/
def increment (n : Int) : Int := if n = 2 ^ 63 - 1 then -2 ^ 63 else n + 1

def rotatedAt (a : Agent) (index : Nat) (call : Call) : Option String → Agent
  | some _ =>
    let st := { call.st with
      phase := .rotateBackoff
      consecutiveFailures := increment call.st.consecutiveFailures }
    { a with calls := a.calls.set index ⟨.saveFailed, st, call.seen⟩ }
  | none =>
    let st := { call.st with phase := .normal, consecutiveFailures := 0, haltedReason := "" }
    { a with
      calls := a.calls.set index ⟨.saveRotated, st, call.seen⟩
      log := a.log ++ [.committed index] }

/-- `ReEnroll` has returned. -/
def reEnrolledAt (a : Agent) (index : Nat) (call : Call) (read : Bool) :
    Option ReEnrollError → Agent
  | some error =>
    if isPermanentReEnrollFailure error then
      let st := a.halting read "reenroll-permanent" error.text
      { a with calls := a.calls.set index ⟨.saveHalted (decide error.Refused), st, a.saves⟩ }
    else
      { a with
        calls := a.calls.set index ⟨.returned, call.st, call.seen⟩
        log := a.log ++ if error.Refused then [.refused] else [] }
  | none =>
    let st := { call.st with phase := .normal, consecutiveFailures := 0 }
    { a with
      calls := a.calls.set index ⟨.saveRecovered, st, call.seen⟩
      log := a.log ++ [.committed index] }

def step (a : Agent) : Event → Option Agent
  | .rotateOnce now read =>
    some (a.enter .saveRotating
      { a.load read with phase := .rotating, lastAttemptAt := some now })
  | .checkAndRecover (.missing error) read =>
    some (a.enter (.saveHalted false) (a.halting read "no-cert" error))
  | .checkAndRecover .valid _ => some a
  | .checkAndRecover .expired read =>
    some (a.enter .saveRecovering { a.load read with phase := .recovering })
  | .rotated index error =>
    (a.calls[index]?).bind fun call =>
      if call.point = .rotate then some (a.rotatedAt index call error) else none
  | .reEnrolled index error read =>
    (a.calls[index]?).bind fun call =>
      if call.point = .reEnroll then some (a.reEnrolledAt index call read error) else none
  | .save index ok => (a.calls[index]?).bind fun call => a.saveAt index call ok

end Agent

end HlHelper.Recovery
