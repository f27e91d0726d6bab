import HlHelper.Library.Runs
import Mathlib.Logic.Function.Basic

/-! `TotpService.enroll_finish` and `verify`, one step for each await. Times are microseconds. -/

namespace HlHelper.Mfa

open HlHelper.Library

/-- `pyotp.TOTP` of the secret: the code of each step. -/
structure Totp where
  period : Int
  codeAt : Int → String
  distinct : Function.Injective codeAt

def Totp.timecode (totp : Totp) (time : Int) : Int := time / 1000000 / totp.period

def Totp.window (totp : Totp) (time : Int) : List Int :=
  [totp.timecode time - 1, totp.timecode time, totp.timecode time + 1]

def Totp.verify (totp : Totp) (code : String) (time : Int) : Bool :=
  code ∈ (totp.window time).map totp.codeAt

structure TotpSecret where
  confirmedAt : Option Int
  lastUsedStep : Option Int
  deriving DecidableEq, Repr

inductive Kind where
  | enrollFinish | verify
  deriving DecidableEq, Repr

inductive Phase where
  | selecting
  | selected (row : Option TotpSecret)
  | committing (loaded : TotpSecret) (confirmedAt : Option Int) (lastUsedStep : Int)
  | returned (success : Bool)
  | cooldown
  | raised
  deriving DecidableEq, Repr

structure Call where
  service : Nat
  kind : Kind
  code : String
  phase : Phase
  deriving DecidableEq, Repr

/-- The row of the secret, and of each service the count of failures with the first one's time. -/
structure Server where
  row : Option TotpSecret
  trackers : Nat → Option (Nat × Int)
  clock : Int
  calls : List Call

inductive Step where
  | start (service : Nat) (kind : Kind) (code : String) (now : Int)
  | select (index : Nat)
  | resume (index : Nat) (now checked tracked : Int)
  | commit (index : Nat)
  | fail (index : Nat)
  deriving DecidableEq, Repr

/-- `cooldown_check`: the tracker it leaves, or none where it raises. -/
def cooldownCheck (tracker : Option (Nat × Int)) (now : Int) : Option (Option (Nat × Int)) :=
  match tracker with
  | none => some none
  | some (count, first) =>
    if now - first < 60 * 1000000 then
      if 5 ≤ count then none else some (some (count, first))
    else some none

def trackFailure (tracker : Option (Nat × Int)) (now : Int) : Nat × Int :=
  match tracker with
  | none => (1, now)
  | some (count, first) =>
    if now - first < 60 * 1000000 then (count + 1, first) else (1, now)

/-- Between the row and the commit: `now` is read first, and pyotp reads the clock itself. -/
def answer (totp : Totp) (kind : Kind) (code : String) (now checked : Int) :
    Option TotpSecret → Phase
  | none => .returned false
  | some loaded =>
    if kind = .verify ∧ loaded.confirmedAt = none then .returned false
    else if totp.verify code checked then
      match kind with
      | .enrollFinish => .committing loaded (some now) (totp.timecode now)
      | .verify =>
        if ∃ last ∈ loaded.lastUsedStep, totp.timecode now ≤ last then .returned false
        else .committing loaded loaded.confirmedAt (totp.timecode now)
    else .returned false

/-- A column is written when its value is another than the loaded one. -/
def flush {α : Type} [DecidableEq α] (loaded new stored : α) : α :=
  if new = loaded then stored else new

namespace Server

def moved (s : Server) (index : Nat) (call : Call) : Server :=
  { s with calls := s.calls.set index call }

def resume (totp : Totp) (s : Server) (index : Nat) (now checked tracked : Int) (call : Call) :
    Option Server :=
  match call.phase with
  | .selected row =>
    let phase := answer totp call.kind call.code now checked row
    let after := { s.moved index { call with phase := phase } with clock := tracked }
    some (match phase with
      | .returned false =>
        { after with
          trackers := Function.update s.trackers call.service
            (some (trackFailure (s.trackers call.service) tracked)) }
      | _ => after)
  | _ => none

def commit (s : Server) (index : Nat) (call : Call) : Option Server :=
  match call.phase, s.row with
  | .committing loaded confirmedAt lastUsedStep, some row =>
    some
      { s.moved index { call with phase := .returned true } with
        row := some
          ⟨flush loaded.confirmedAt confirmedAt row.confirmedAt,
            flush loaded.lastUsedStep (some lastUsedStep) row.lastUsedStep⟩ }
  | .committing _ _ _, none => some (s.moved index { call with phase := .raised })
  | _, _ => none

def fail (s : Server) (index : Nat) (call : Call) : Option Server :=
  match call.phase with
  | .returned _ | .cooldown | .raised => none
  | _ => some (s.moved index { call with phase := .raised })

def step (totp : Totp) (s : Server) : Step → Option Server
  | .start service kind code now =>
    if s.clock ≤ now then
      match kind with
      | .enrollFinish =>
        some { s with clock := now, calls := s.calls ++ [⟨service, kind, code, .selecting⟩] }
      | .verify =>
        match cooldownCheck (s.trackers service) now with
        | none =>
          some
            { s with clock := now, calls := s.calls ++ [⟨service, kind, code, .cooldown⟩] }
        | some tracker =>
          some
            { s with
              clock := now
              trackers := Function.update s.trackers service tracker
              calls := s.calls ++ [⟨service, kind, code, .selecting⟩] }
    else none
  | .select index =>
    (s.calls[index]?).bind fun call =>
      if call.phase = .selecting then
        some (s.moved index { call with phase := .selected s.row })
      else none
  | .resume index now checked tracked =>
    if s.clock ≤ now ∧ now ≤ checked ∧ checked ≤ tracked then
      (s.calls[index]?).bind (s.resume totp index now checked tracked)
    else none
  | .commit index => (s.calls[index]?).bind (s.commit index)
  | .fail index => (s.calls[index]?).bind (s.fail index)

end Server

/-- The code for which a step returns `True`. -/
def accepted (s : Server) : Step → Option String
  | .commit index =>
    (s.calls[index]?).bind fun call =>
      match call.phase, s.row with
      | .committing _ _ _, some _ => some call.code
      | _, _ => none
  | _ => none

/-- Of two codes that are accepted, the later one is of a later step. -/
def OneTime (totp : Totp) (s : Server) (steps : List Step) : Prop :=
  (outputs (Server.step totp) accepted s steps).Pairwise fun first second =>
    ∀ earlier later, first = totp.codeAt earlier → second = totp.codeAt later → earlier < later

/-- A code that goes on to the commit is of a step behind the last one used, and of no step to
come; and between the selection and the commit of a call no other call commits. -/
def Careful (totp : Totp) (s : Server) : Step → Prop
  | .resume index now checked _ =>
    match s.calls[index]? with
    | some ⟨_, kind, code, .selected (some loaded)⟩ =>
      match answer totp kind code now checked (some loaded) with
      | .committing _ _ _ =>
        ∀ step ∈ totp.window checked, code = totp.codeAt step →
          (∀ last ∈ loaded.lastUsedStep, last < step) ∧ step ≤ totp.timecode now
      | _ => True
    | _ => True
  | .commit index =>
    match s.calls[index]? with
    | some ⟨_, _, _, .committing loaded _ _⟩ => s.row = some loaded
    | _ => True
  | _ => True

instance (totp : Totp) (s : Server) (event : Step) : Decidable (Careful totp s event) := by
  unfold Careful
  split
  · split
    · split <;> infer_instance
    · infer_instance
  · split <;> infer_instance
  · infer_instance

end HlHelper.Mfa
