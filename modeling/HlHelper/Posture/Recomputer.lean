import HlHelper.Library.Runs
import HlHelper.Library.Slots
import HlHelper.Posture.Aggregator
import Mathlib.Logic.Function.Basic

/-! Calls of the risk recomputer, which wait for the lock of their host, and the
database under them. -/

namespace HlHelper.Posture

open HlHelper.Library

variable {F : Type} [Python F]

inductive Statement where
  | host
  | hostAdvisories
  | findings
  | exposures
  | setting (tier : String)
  | catalog
  | releases
  | packageCount
  deriving DecidableEq, Repr

def statements : List Statement :=
  [.host, .hostAdvisories, .findings, .exposures, .setting "NETWORK_EXPOSED", .setting "ACTIVE",
    .setting "INSTALLED_ONLY", .setting "UNKNOWN", .catalog, .releases, .packageCount]

/-- A statement, with the step of the run it ran at and the state of the host it saw. -/
structure Read (F : Type) where
  time : Nat
  statement : Statement
  seen : Inputs F

/-- What a statement adds to what was read before it; every part but the row of the host is
read again by a statement of its own. -/
def Read.fetch (read : Read F) (before : Inputs F) : Inputs F :=
  match read.statement with
  | .host => read.seen
  | .hostAdvisories => { before with hostAdvisories := read.seen.hostAdvisories }
  | .findings => { before with findings := read.seen.findings }
  | .exposures => { before with exposures := read.seen.exposures, unique := read.seen.unique }
  | .setting tier =>
    let key := "risk.exposure_multiplier." ++ tier
    { before with settings := Function.update before.settings key (read.seen.settings key) }
  | .catalog => { before with catalog := read.seen.catalog }
  | .releases => { before with releases := read.seen.releases }
  | .packageCount => { before with packageCount := read.seen.packageCount }

/-- The inputs from what was read, oldest first, with the weights and the time of the scoring. -/
def assemble (reads : List (Read F)) (registry : ScorerRegistry F) (now : Int) :
    Option (Inputs F) :=
  match reads with
  | [] => none
  | first :: rest =>
    some { rest.foldl (fun before read => read.fetch before) first.seen with registry, now }

/-- The clock and the end of the last run as a call finds them once it has the lock. -/
structure Turn where
  clock : ℚ
  lastRun : ℚ
  deriving DecidableEq, Repr

inductive Phase (F : Type) where
  | waiting
  | dropped (turn : Turn)
  | reading (turn : Turn) (todo : List Statement) (reads : List (Read F))
  | storing (turn : Turn) (reads : List (Read F)) (inputs : Inputs F)
      (prev : Option (HostRisk F))
  | closing (turn : Turn) (reads : List (Read F)) (inputs : Option (Inputs F))
  | ended (turn : Turn) (reads : List (Read F)) (inputs : Option (Inputs F))
  | failed (turn : Option Turn)

structure Call (F : Type) where
  host : String
  debounced : Bool
  force : Bool
  time : Nat
  phase : Phase F

structure Db (F : Type) where
  enrolled : String → Bool
  inputs : String → Inputs F

structure Recomputer (F : Type) where
  steps : Nat
  clock : ℚ
  db : Db F
  rows : String → Option (HostRisk F)
  lastRun : String → Option ℚ
  holder : String → Option Nat
  calls : List (Call F)

inductive Act where
  | turn
  | read
  | check (now : Int)
  | commit
  | release
  | fail

inductive Event (F : Type) where
  | call (host : String) (debounced force : Bool)
  | pass (duration : ℚ)
  | update (db : Db F)
  | act (index : Nat) (act : Act)

def debounceS : ℚ := 30

namespace Recomputer

variable (digest : Payload F → String) (s : Recomputer F)

def unlock (host : String) : Recomputer F :=
  { s with
    lastRun := Function.update s.lastRun host (some s.clock)
    holder := Function.update s.holder host none }

/-- The end of the wait for the lock, and the debounce. -/
def takeTurn (index : Nat) (call : Call F) : Phase F × Recomputer F :=
  let turn : Turn := ⟨s.clock, (s.lastRun call.host).getD 0⟩
  if call.debounced ∧ turn.clock - turn.lastRun < debounceS then (.dropped turn, s)
  else
    (.reading turn statements [],
      { s with holder := Function.update s.holder call.host (some index) })

def act (index : Nat) (call : Call F) : Act → Phase F → Option (Phase F × Recomputer F)
  | .turn, .waiting => if s.holder call.host = none then some (s.takeTurn index call) else none
  | .read, .reading turn (statement :: todo) reads =>
    if statement = .host ∧ s.db.enrolled call.host = false then
      some (.closing turn reads none, s)
    else
      some (.reading turn todo (reads ++ [⟨s.steps, statement, s.db.inputs call.host⟩]), s)
  | .check now, .reading turn [] reads =>
    (assemble reads (s.db.inputs call.host).registry now).map fun inputs =>
      match s.rows call.host with
      | some row =>
        if !call.force && row.inputsHash = inputs.hash digest then
          (.closing turn reads (some inputs), s)
        else (.storing turn reads inputs (some row), s)
      | none => (.storing turn reads inputs none, s)
  | .commit, .storing turn reads inputs prev =>
    some (.closing turn reads (some inputs),
      { s with rows := Function.update s.rows call.host (some (storedRow digest inputs prev)) })
  | .release, .closing turn reads inputs => some (.ended turn reads inputs, s.unlock call.host)
  | .fail, .waiting => some (.failed none, s)
  | .fail, .reading turn _ _ => some (.failed (some turn), s.unlock call.host)
  | .fail, .storing turn _ _ _ => some (.failed (some turn), s.unlock call.host)
  | _, _ => none

def step (s : Recomputer F) (event : Event F) : Option (Recomputer F) :=
  let s := { s with steps := s.steps + 1 }
  match event with
  | .call host debounced force =>
    some { s with calls := s.calls ++ [⟨host, debounced, force, s.steps, .waiting⟩] }
  | .pass duration => if 0 ≤ duration then some { s with clock := s.clock + duration } else none
  | .update db => some { s with db }
  | .act index act =>
    (s.calls[index]?).bind fun call =>
      (s.act digest index call act call.phase).map fun (phase, t) =>
        { t with calls := t.calls.set index { call with phase } }

end Recomputer

end HlHelper.Posture
