import HlHelper.Library.Runs
import Mathlib.Data.Finset.Erase
import Mathlib.Data.Finset.Insert
import Mathlib.Data.List.Nodup

/-! The match queue of the advisory worker: every interleaving of `enqueue_match` with the loop
that takes hosts from the queue and matches them, a step for what runs between two awaits. -/

namespace HlHelper.Advisory

open HlHelper.Library

/-- Where `_match_loop` is. -/
inductive MatchLoop where
  | waiting
  | matching (host : String)
  /-- The match has ended, and the lock is awaited. -/
  | unmarking (host : String)
  /-- In `_close_rescan_tasks` and the request for a new risk. -/
  | closing (host : String)
  deriving DecidableEq, Repr

/-- The host whose mark the loop will take out of the pending set. -/
def MatchLoop.marked : MatchLoop → Option String
  | .matching host | .unmarking host => some host
  | .waiting | .closing _ => none

/-- Why `enqueue_match` answers as it does: True, or False for one of two reasons. -/
inductive Enqueued where
  | queued
  | pending
  | full
  deriving DecidableEq, Repr

inductive MatchEntry where
  /-- A call of `enqueue_match`, and whether the loop was busy with its host. -/
  | asked (host : String) (answer : Enqueued) (busy : Bool)
  /-- `match_host` is called. -/
  | started (host : String)
  deriving DecidableEq, Repr

structure MatchWorker where
  matchQueue : List String
  maxsize : Int
  pendingMatches : Finset String
  loop : MatchLoop
  log : List MatchEntry
  deriving DecidableEq

inductive MatchEvent where
  | enqueueMatch (host : String)
  | get
  | matched (count : Except String Nat)
  | unmark
  | closed
  deriving DecidableEq

namespace MatchWorker

def initial (maxsize : Int) : MatchWorker := ⟨[], maxsize, ∅, .waiting, []⟩

/-- `Queue.full`; a queue without a positive bound never is. -/
def full (w : MatchWorker) : Bool :=
  decide (0 < w.maxsize) && decide (w.maxsize ≤ w.matchQueue.length)

/-- What `enqueue_match` answers. -/
def answer (w : MatchWorker) (host : String) : Enqueued :=
  if host ∈ w.pendingMatches then .pending
  else if w.full then .full
  else .queued

def enqueueMatch (w : MatchWorker) (host : String) : MatchWorker :=
  let log := w.log ++ [.asked host (w.answer host) (decide (w.loop.marked = some host))]
  match w.answer host with
  | .pending | .full => { w with log := log }
  | .queued => { w with
      matchQueue := w.matchQueue ++ [host]
      pendingMatches := insert host w.pendingMatches
      log := log }

def step (w : MatchWorker) : MatchEvent → Option MatchWorker
  | .enqueueMatch host => some (w.enqueueMatch host)
  | .get =>
    match w.loop, w.matchQueue with
    | .waiting, host :: rest => some { w with
        matchQueue := rest
        loop := .matching host
        log := w.log ++ [.started host] }
    | _, _ => none
  | .matched _ =>
    match w.loop with
    | .matching host => some { w with loop := .unmarking host }
    | _ => none
  | .unmark =>
    match w.loop with
    | .unmarking host => some { w with
        pendingMatches := w.pendingMatches.erase host
        loop := .closing host }
    | _ => none
  | .closed =>
    match w.loop with
    | .closing _ => some { w with loop := .waiting }
    | _ => none

/-- The host waits, or it has been matched anew since the log was at `after`. -/
def Served (w : MatchWorker) (host : String) (after : List MatchEntry) : Prop :=
  host ∈ w.matchQueue ∨ .started host ∈ after

instance (w : MatchWorker) (host : String) (after : List MatchEntry) :
    Decidable (w.Served host after) := inferInstanceAs (Decidable (_ ∨ _))

/-- No match that was asked for while `allowed` holds is lost. -/
def NoneLost (allowed : Enqueued → Bool → Prop) (w : MatchWorker) : Prop :=
  ∀ before host answer busy after, w.log = before ++ .asked host answer busy :: after →
    (∀ later busier, .asked host later busier ∉ after) → allowed answer busy →
      w.Served host after

/-- The pending set holds the hosts that wait and the one that the loop is at. -/
structure Marked (w : MatchWorker) : Prop where
  pending : ∀ host, host ∈ w.pendingMatches ↔ host ∈ w.matchQueue ∨ w.loop.marked = some host
  nodup : w.matchQueue.Nodup
  apart : ∀ host, w.loop.marked = some host → host ∉ w.matchQueue

/-- What is asked for while the loop is not at the host, and not refused for a full queue. -/
def Kept (answer : Enqueued) (busy : Bool) : Prop := answer = .queued ∨ answer = .pending ∧ ¬ busy

structure Sound (w : MatchWorker) : Prop extends Marked w where
  served : ∀ before host answer busy after, w.log = before ++ .asked host answer busy :: after →
    Kept answer busy → w.Served host after

variable {w v : MatchWorker} {event : MatchEvent}

theorem marked_initial (maxsize : Int) : Marked (initial maxsize) where
  pending := by simp [initial, MatchLoop.marked]
  nodup := List.nodup_nil
  apart := fun _ _ => List.not_mem_nil

theorem answer_pending {host : String} : w.answer host = .pending ↔ host ∈ w.pendingMatches := by
  unfold answer
  split_ifs <;> simp_all

theorem enqueueMatch_log (w : MatchWorker) (host : String) : (w.enqueueMatch host).log =
    w.log ++ [.asked host (w.answer host) (decide (w.loop.marked = some host))] := by
  unfold enqueueMatch
  cases w.answer host <;> rfl

theorem mem_enqueueMatch (w : MatchWorker) (host other : String) :
    other ∈ (w.enqueueMatch host).matchQueue ↔
      other ∈ w.matchQueue ∨ w.answer host = .queued ∧ other = host := by
  unfold enqueueMatch
  cases w.answer host <;> simp

theorem Marked.kept_waits (marked : Marked w) {host : String}
    (kept : Kept (w.answer host) (decide (w.loop.marked = some host))) :
    host ∈ (w.enqueueMatch host).matchQueue := by
  rw [mem_enqueueMatch]
  rcases kept with queued | ⟨pending, idle⟩
  · exact .inr ⟨queued, rfl⟩
  · rcases (marked.pending host).mp (answer_pending.mp pending) with waits | at_host
    · exact .inl waits
    · exact absurd (decide_eq_true at_host) idle

theorem Marked.enqueueMatch (marked : Marked w) (host : String) :
    Marked (w.enqueueMatch host) := by
  cases answered : w.answer host with
  | pending | full =>
    simp only [MatchWorker.enqueueMatch, answered]
    exact ⟨marked.pending, marked.nodup, marked.apart⟩
  | queued =>
    have fresh : host ∉ w.pendingMatches := by
      rw [← answer_pending, answered]
      exact nofun
    rw [marked.pending, not_or] at fresh
    obtain ⟨absent, idle⟩ := fresh
    simp only [MatchWorker.enqueueMatch, answered]
    refine ⟨?_, ?_, ?_⟩
    · intro other
      rw [Finset.mem_insert, marked.pending, List.mem_append, List.mem_singleton]
      tauto
    · exact List.nodup_append.mpr ⟨marked.nodup, List.nodup_singleton host, by
        rintro other waits _ last rfl
        exact absent (List.mem_singleton.mp last ▸ waits)⟩
    · intro other at_other member
      rcases List.mem_append.mp member with waits | last
      · exact marked.apart other at_other waits
      · obtain rfl := List.mem_singleton.mp last
        exact idle at_other

theorem Marked.step (marked : Marked w) (stepped : w.step event = some v) : Marked v := by
  cases event with
  | enqueueMatch host =>
    cases stepped
    exact marked.enqueueMatch host
  | get =>
    obtain ⟨queue, maxsize, pending, loop, log⟩ := w
    cases loop <;> cases queue <;> cases stepped
    next host rest =>
    have parts := List.nodup_cons.mp marked.nodup
    refine ⟨?_, parts.2, ?_⟩
    · intro other
      rw [marked.pending]
      simp [MatchLoop.marked, or_comm, eq_comm]
    · intro other at_other
      cases at_other
      exact parts.1
  | matched count =>
    obtain ⟨queue, maxsize, pending, loop, log⟩ := w
    cases loop <;> cases stepped
    exact ⟨marked.pending, marked.nodup, marked.apart⟩
  | unmark =>
    obtain ⟨queue, maxsize, pending, loop, log⟩ := w
    cases loop <;> cases stepped
    next host =>
    refine ⟨?_, marked.nodup, fun _ idle => nomatch idle⟩
    intro other
    have absent := marked.apart host rfl
    have before := marked.pending other
    simp only [MatchLoop.marked, Option.some.injEq] at before
    rw [Finset.mem_erase, before]
    simp only [MatchLoop.marked, reduceCtorEq, or_false]
    constructor
    · rintro ⟨different, waits | rfl⟩
      · exact waits
      · exact absurd rfl different
    · intro waits
      exact ⟨fun same => absent (same ▸ waits), .inl waits⟩
  | closed =>
    obtain ⟨queue, maxsize, pending, loop, log⟩ := w
    cases loop <;> cases stepped
    exact ⟨marked.pending, marked.nodup, fun _ idle => nomatch idle⟩

theorem Marked.step_log (marked : Marked w) (stepped : w.step event = some v) :
    ∃ more, v.log = w.log ++ more ∧
      (∀ host ∈ w.matchQueue, host ∈ v.matchQueue ∨ .started host ∈ more) ∧
      ∀ host answer busy, .asked host answer busy ∈ more → Kept answer busy →
        host ∈ v.matchQueue := by
  cases event with
  | enqueueMatch host =>
    cases stepped
    refine ⟨_, enqueueMatch_log w host, ?_, ?_⟩
    · intro other waits
      exact .inl ((mem_enqueueMatch w host other).mpr (.inl waits))
    · intro other answer busy asked kept
      obtain ⟨rfl, rfl, rfl⟩ := MatchEntry.asked.inj (List.mem_singleton.mp asked)
      exact marked.kept_waits kept
  | get =>
    obtain ⟨queue, maxsize, pending, loop, log⟩ := w
    cases loop <;> cases queue <;> cases stepped
    next host rest =>
    refine ⟨[.started host], rfl, ?_, ?_⟩
    · intro other waits
      rcases List.mem_cons.mp waits with rfl | later
      · exact .inr (List.mem_singleton_self _)
      · exact .inl later
    · intro other answer busy asked
      cases List.mem_singleton.mp asked
  | matched _ | unmark | closed =>
    obtain ⟨queue, maxsize, pending, loop, log⟩ := w
    cases loop <;> cases stepped
    all_goals
      exact ⟨[], (List.append_nil _).symm, fun _ waits => .inl waits,
        fun _ _ _ asked => absurd asked List.not_mem_nil⟩

theorem Sound.step (sound : Sound w) (stepped : w.step event = some v) : Sound v := by
  obtain ⟨more, grows, waits, asked⟩ := sound.step_log stepped
  refine ⟨sound.toMarked.step stepped, ?_⟩
  intro before host answer busy after split kept
  rw [grows] at split
  rcases cut_append split with ⟨rest, inside, rfl⟩ | ⟨rest, inside, rfl⟩
  · rcases sound.served before host answer busy rest inside kept with waiting | started
    · rcases waits host waiting with still | now
      · exact .inl still
      · exact .inr (List.mem_append_right _ now)
    · exact .inr (List.mem_append_left _ started)
  · refine .inl (asked host answer busy ?_ kept)
    rw [inside]
    exact List.mem_append_right _ List.mem_cons_self

/-- In every run no host waits twice, and every host whose last request was answered True, or came
while the host waited already, waits or has been matched anew. -/
theorem matches_kept (maxsize : Int) (events : List MatchEvent) :
    ∀ w, run step (initial maxsize) events = some w →
      w.matchQueue.Nodup ∧ w.NoneLost Kept := by
  intro w reached
  have start : Sound (initial maxsize) := by
    refine ⟨marked_initial maxsize, ?_⟩
    intro before host answer busy after split
    exact absurd split (by simp [initial])
  have sound := run_preserves (fun _ _ _ sound stepped => Sound.step sound stepped) start reached
  exact ⟨sound.nodup, fun before host answer busy after split _ kept =>
    sound.served before host answer busy after split kept⟩

section Example

/-- `h` is asked for twice while it waits behind `g`, whose match raises. -/
def askedTwice : List MatchEvent :=
  [.enqueueMatch "g", .get, .enqueueMatch "h", .enqueueMatch "h", .matched (.error "timeout"),
    .unmark, .closed, .get]

theorem asked_twice_matched : ∃ w, run step (initial 1) askedTwice = some w ∧
    w.loop = .matching "h" ∧ w.matchQueue.Nodup ∧ w.NoneLost Kept :=
  ⟨_, rfl, rfl, matches_kept 1 askedTwice _ rfl⟩

/-- The inventory of `h` changes while the old one is matched, and nothing matches the new one. -/
def changedWhileMatched : List MatchEvent :=
  [.enqueueMatch "h", .get, .enqueueMatch "h", .matched (.ok 3), .unmark, .closed]

theorem request_dropped : ∃ w, run step (initial 32) changedWhileMatched = some w ∧
    ¬ w.NoneLost (fun answer _ => answer ≠ .full) := by
  refine ⟨_, rfl, ?_⟩
  intro kept
  have served := kept [.asked "h" .queued false, .started "h"] "h" .pending true [] rfl
    (by simp) (by decide)
  revert served
  decide

end Example

end MatchWorker

end HlHelper.Advisory
