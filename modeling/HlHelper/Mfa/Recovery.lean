import HlHelper.Library.Runs
import Mathlib.Logic.Function.Basic

/-! `RecoveryService` of one user, one step for each statement of the database with the code
behind it. Times are microseconds. -/

namespace HlHelper.Mfa.Recovery

open HlHelper.Library

variable (hash : String → String)

/-- The place of a code: the call that has drawn it, and where it stands among its codes. -/
abbrev CodeId := Nat × Nat

structure RecoveryCode where
  id : CodeId
  codeHash : String
  consumedAt : Option Int
  deriving DecidableEq, Repr

inductive Kind where
  | consume (code : String)
  | generate (count : Nat)
  | regenerate (count : Nat)
  deriving DecidableEq, Repr

/-- The statement that a call executes next, or how it has ended. A deletion that is not
committed yet holds the rows that it deletes. -/
inductive Phase where
  | selecting
  | updating (id : CodeId) (consumedAt : Int)
  | deleting
  | committing (doomed : List CodeId)
  | inserting
  | returned (success : Bool)
  | raised
  deriving DecidableEq, Repr

/-- `codes` are those that the call has drawn, and `completed` is the number of regenerations
completed by then. -/
structure Call where
  service : Nat
  kind : Kind
  began : Int
  codes : List String
  completed : Nat
  phase : Phase
  deriving DecidableEq, Repr

/-- The rows of the user, the cooldown in each service, and the number of regenerations that
have completed. -/
structure Server where
  rows : List RecoveryCode
  cooldowns : Nat → Option (Int × Nat)
  calls : List Call
  completed : Nat

/-- The draws of `secrets.token_hex` come with the step that makes them. -/
inductive Step where
  | start (service : Nat) (kind : Kind) (now : Int) (draws : List String)
  | advance (index : Nat) (now : Int) (draws : List String)
  | fail (index : Nat)
  deriving DecidableEq, Repr

/-- The cooldown check of `consume`: the entry it leaves, or none where it raises. -/
def cooldownCheck (entry : Option (Int × Nat)) (now : Int) : Option (Option (Int × Nat)) :=
  match entry with
  | none => some none
  | some (expires, failCount) =>
    if now < expires ∧ 3 ≤ failCount then none
    else if expires ≤ now then some none
    else some (some (expires, failCount))

def recordFailure (entry : Option (Int × Nat)) (began : Int) : Int × Nat :=
  match entry with
  | none => (began + 60 * 1000000, 1)
  | some (expires, failCount) => (expires, failCount + 1)

def Phase.doomed : Phase → List CodeId
  | .committing doomed => doomed
  | _ => []

def Kind.regenerates : Kind → Bool
  | .regenerate _ => true
  | _ => false

def Call.emptied (call : Call) : Bool :=
  call.kind.regenerates &&
    match call.phase with
    | .committing _ | .inserting => true
    | _ => false

def Call.completes (call : Call) : Bool :=
  call.kind.regenerates && decide (call.phase = .returned true)

namespace Server

def initial : Server := ⟨[], fun _ => none, [], 0⟩

def moved (s : Server) (index : Nat) (call : Call) : Server :=
  { s with calls := s.calls.set index call }

def locked (s : Server) (id : CodeId) : Bool := s.calls.any (fun call => id ∈ call.phase.doomed)

/-- Draws are as many as asked for, and no code of the user is drawn twice. -/
def Draws (s : Server) (count : Nat) (draws : List String) : Prop :=
  draws.length = count ∧ (draws.map hash).Nodup ∧
    ∀ call ∈ s.calls, ∀ code ∈ call.codes, hash code ∉ draws.map hash

instance (s : Server) (count : Nat) (draws : List String) : Decidable (s.Draws hash count draws) :=
  inferInstanceAs (Decidable (_ ∧ _))

def setCooldown (s : Server) (service : Nat) (entry : Option (Int × Nat)) : Server :=
  { s with cooldowns := Function.update s.cooldowns service entry }

def start (s : Server) (service : Nat) (now : Int) (draws : List String) (kind : Kind) :
    Option Server :=
  match kind with
  | .consume _ =>
    match cooldownCheck (s.cooldowns service) now with
    | none =>
      some { s with calls := s.calls ++ [⟨service, kind, now, [], s.completed, .raised⟩] }
    | some entry =>
      some
        { s.setCooldown service entry with
          calls := s.calls ++ [⟨service, kind, now, [], s.completed, .selecting⟩] }
  | .generate count =>
    if s.Draws hash count draws then
      some { s with calls := s.calls ++ [⟨service, kind, now, draws, s.completed, .inserting⟩] }
    else none
  | .regenerate _ =>
    some { s with calls := s.calls ++ [⟨service, kind, now, [], s.completed, .deleting⟩] }

def select (s : Server) (index : Nat) (call : Call) (code : String) (now : Int) : Server :=
  match s.rows.find? (fun row => row.codeHash = hash code ∧ row.consumedAt = none) with
  | some row => s.moved index { call with phase := .updating row.id now }
  | none =>
    let (expires, failCount) := recordFailure (s.cooldowns call.service) call.began
    (s.moved index { call with phase := if 3 ≤ failCount then .raised else .returned false })
      |>.setCooldown call.service (some (expires, failCount))

/-- `UPDATE … WHERE id`, whether the code has been consumed or not; without a row it raises. -/
def update (s : Server) (index : Nat) (call : Call) (id : CodeId) (consumedAt : Int) : Server :=
  if id ∈ s.rows.map RecoveryCode.id then
    { s.moved index { call with phase := .returned true } with
      rows := s.rows.map (fun row =>
        if row.id = id then { row with consumedAt := some consumedAt } else row)
      cooldowns := Function.update s.cooldowns call.service none }
  else s.moved index { call with phase := .raised }

def inserted (index : Nat) (codes : List String) : List RecoveryCode :=
  codes.zipIdx.map (fun (code, place) => ⟨(index, place), hash code, none⟩)

def insert (s : Server) (index : Nat) (call : Call) : Server :=
  if ∃ row ∈ s.rows, row.codeHash ∈ call.codes.map hash then
    s.moved index { call with phase := .raised }
  else
    { s.moved index { call with phase := .returned true } with
      rows := s.rows ++ inserted hash index call.codes
      completed := if call.kind.regenerates then s.completed + 1 else s.completed }

def advance (s : Server) (index : Nat) (now : Int) (draws : List String) (call : Call) :
    Option Server :=
  match call.kind, call.phase with
  | .consume code, .selecting => some (s.select hash index call code now)
  | .consume _, .updating id consumedAt =>
    if s.locked id then none else some (s.update index call id consumedAt)
  | .regenerate _, .deleting =>
    if s.rows.any (fun row => s.locked row.id) then none
    else some (s.moved index { call with phase := .committing (s.rows.map RecoveryCode.id) })
  | .regenerate count, .committing doomed =>
    if s.Draws hash count draws then
      some
        { s.moved index
            { call with codes := draws, completed := s.completed, phase := .inserting } with
          rows := s.rows.filter (fun row => row.id ∉ doomed) }
    else none
  | .generate _, .inserting | .regenerate _, .inserting => some (s.insert hash index call)
  | _, _ => none

def fail (s : Server) (index : Nat) (call : Call) : Option Server :=
  match call.phase with
  | .returned _ | .raised => none
  | _ => some (s.moved index { call with phase := .raised })

def step (s : Server) : Step → Option Server
  | .start service kind now draws => s.start hash service now draws kind
  | .advance index now draws => (s.calls[index]?).bind (s.advance hash index now draws)
  | .fail index => (s.calls[index]?).bind (s.fail index)

def Valid (s : Server) (code : String) : Prop :=
  ∃ row ∈ s.rows, row.codeHash = hash code ∧ row.consumedAt = none

end Server

/-- The hash of the code for which a step makes `consume` return `True`. -/
def accepted (s : Server) : Step → Option String
  | .advance index _ _ =>
    (s.calls[index]?).bind fun call =>
      match call.kind, call.phase with
      | .consume code, .updating id _ =>
        if id ∈ s.rows.map RecoveryCode.id ∧ ¬ s.locked id then some (hash code) else none
      | _, _ => none
  | _ => none

/-- Each code is accepted once; a code that another call has drawn is not accepted once a
regeneration has completed; and of two regenerations that have completed, overlapping or not,
at least one has no valid code. -/
structure OneTime (steps : List Step) : Prop where
  once : (outputs (Server.step hash) (accepted hash) .initial steps).Nodup
  retired : ∀ (before after : List Step) (index : Nat) (now : Int) (draws : List String)
    (s t : Server) (call : Call), steps = before ++ .advance index now draws :: after →
    run (Server.step hash) .initial before = some s →
    s.step hash (.advance index now draws) = some t →
    t.calls[index]? = some call → call.completes = true →
    ∀ (other : Nat) (old : Call), other ≠ index → s.calls[other]? = some old →
      ∀ code ∈ old.codes, hash code ∉ outputs (Server.step hash) (accepted hash) t after
  oneSet : ∀ (before after : List Step) (s : Server), steps = before ++ after →
    run (Server.step hash) .initial before = some s →
    ∀ (left right : Nat) (first second : Call), left ≠ right →
      s.calls[left]? = some first → first.completes = true →
      s.calls[right]? = some second → second.completes = true →
      (∀ code ∈ first.codes, ¬ s.Valid hash code) ∨ (∀ code ∈ second.codes, ¬ s.Valid hash code)

/-- An update meets no consumed row. At an insertion no other regeneration stands between its
deletion and its end, and none has completed since the codes were drawn. -/
def Careful (s : Server) : Step → Prop
  | .advance index _ _ =>
    match s.calls[index]? with
    | some call =>
      match call.phase with
      | .updating id _ => ∀ row ∈ s.rows, row.id = id → row.consumedAt = none
      | .inserting =>
        call.completed = s.completed ∧
          ∀ other ∈ s.calls.eraseIdx index, other.emptied = false
      | _ => True
    | none => True
  | _ => True

instance (s : Server) (event : Step) : Decidable (Careful s event) := by
  unfold Careful
  split
  · split
    · split <;> infer_instance
    · infer_instance
  · infer_instance

end HlHelper.Mfa.Recovery
