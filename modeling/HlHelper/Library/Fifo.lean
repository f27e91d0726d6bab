import Mathlib.Algebra.GroupWithZero.Nat
import Mathlib.Data.List.Nodup
import Mathlib.Data.List.Pairwise

/-! Bounded first-in first-out queues with numbered entries. An entry leaves the
queue when it is acknowledged, or when it is the oldest and the queue is above
its limits. The history of the queue is part of its state. -/

namespace HlHelper.Library

/-- Bounds on the number of waiting entries and on their total size. -/
structure Limits where
  entries : Int
  bytes : Int
  deriving DecidableEq, Repr

structure Fifo (α : Type*) where
  limits : Limits
  appended : List (Nat × α)
  acked : List Nat
  evicted : List Nat
  increasing : appended.Pairwise (fun first second => first.1 < second.1)
  acked_known : ∀ id ∈ acked, id ∈ appended.map Prod.fst
  evicted_known : ∀ id ∈ evicted, id ∈ appended.map Prod.fst
  evicted_oldest : ∀ id ∈ evicted, ∀ entry ∈ appended,
    entry.1 ∉ acked → entry.1 ∉ evicted → id < entry.1

namespace Fifo

variable {α : Type*}

def empty (limits : Limits) : Fifo α where
  limits := limits
  appended := []
  acked := []
  evicted := []
  increasing := List.Pairwise.nil
  acked_known := by simp
  evicted_known := by simp
  evicted_oldest := by simp

/-- The entries that were neither acknowledged nor evicted, oldest first. -/
def waiting (f : Fifo α) : List (Nat × α) :=
  f.appended.filter (fun entry => entry.1 ∉ f.acked ∧ entry.1 ∉ f.evicted)

theorem mem_waiting {f : Fifo α} {entry : Nat × α} :
    entry ∈ f.waiting ↔ entry ∈ f.appended ∧ entry.1 ∉ f.acked ∧ entry.1 ∉ f.evicted := by
  simp [waiting]

theorem waiting_increasing (f : Fifo α) :
    f.waiting.Pairwise (fun first second => first.1 < second.1) := f.increasing.filter _

/-- A number no earlier entry was given, nor will be reused. -/
def Fresh (f : Fifo α) (id : Nat) : Prop := ∀ entry ∈ f.appended, entry.1 < id

instance (f : Fifo α) (id : Nat) : Decidable (f.Fresh id) :=
  inferInstanceAs (Decidable (∀ entry ∈ f.appended, entry.1 < id))

theorem Fresh.lt_of_known {f : Fifo α} {id other : Nat} (fresh : f.Fresh id)
    (known : other ∈ f.appended.map Prod.fst) : other < id := by
  obtain ⟨entry, member, rfl⟩ := List.mem_map.mp known
  exact fresh entry member

def push (f : Fifo α) (id : Nat) (content : α) (fresh : f.Fresh id) : Fifo α where
  limits := f.limits
  appended := f.appended ++ [(id, content)]
  acked := f.acked
  evicted := f.evicted
  increasing := by
    apply List.pairwise_append.mpr
    refine ⟨f.increasing, List.pairwise_singleton _ _, ?_⟩
    intro entry old other new
    rw [List.mem_singleton.mp new]
    exact fresh entry old
  acked_known := by
    intro known member
    rw [List.map_append]
    exact List.mem_append_left _ (f.acked_known known member)
  evicted_known := by
    intro known member
    rw [List.map_append]
    exact List.mem_append_left _ (f.evicted_known known member)
  evicted_oldest := by
    intro known member entry inside unacked kept
    rcases List.mem_append.mp inside with old | new
    · exact f.evicted_oldest known member entry old unacked kept
    · rw [List.mem_singleton.mp new]
      exact fresh.lt_of_known (f.evicted_known known member)

@[simp] theorem waiting_push (f : Fifo α) (id : Nat) (content : α) (fresh : f.Fresh id) :
    (f.push id content fresh).waiting = f.waiting ++ [(id, content)] := by
  have unacked : id ∉ f.acked := by
    intro member
    exact Nat.lt_irrefl id (fresh.lt_of_known (f.acked_known id member))
  have kept : id ∉ f.evicted := by
    intro member
    exact Nat.lt_irrefl id (fresh.lt_of_known (f.evicted_known id member))
  have last : [(id, content)].filter (fun entry => entry.1 ∉ f.acked ∧ entry.1 ∉ f.evicted) =
      [(id, content)] := by
    simp [unacked, kept]
  rw [waiting, push, List.filter_append, last]
  rfl

/-- An acknowledgement of an entry that does not wait changes nothing. -/
def ack (f : Fifo α) (id : Nat) : Fifo α :=
  if waits : id ∈ f.waiting.map Prod.fst then
    { f with
      acked := f.acked ++ [id]
      acked_known := by
        intro known member
        rcases List.mem_append.mp member with old | new
        · exact f.acked_known known old
        · rw [List.mem_singleton.mp new]
          exact (List.filter_sublist.map Prod.fst).subset waits
      evicted_oldest := by
        intro known member entry inside unacked kept
        have before : entry.1 ∉ f.acked := fun old => unacked (List.mem_append_left _ old)
        exact f.evicted_oldest known member entry inside before kept }
  else f

@[simp] theorem waiting_ack (f : Fifo α) (id : Nat) :
    (f.ack id).waiting = f.waiting.filter (fun entry => entry.1 ≠ id) := by
  unfold ack
  split
  · simp only [waiting, List.filter_filter, List.mem_append, List.mem_singleton]
    apply List.filter_congr
    intro entry _
    simp only [decide_eq_decide, not_or, ne_eq, ← Bool.decide_and]
    tauto
  · next absent =>
    symm
    rw [List.filter_eq_self]
    intro entry member
    have other : entry.1 ≠ id := by
      intro same
      exact absent (List.mem_map.mpr ⟨entry, member, same⟩)
    simpa using other

/-- Evict the `count` oldest entries that wait. -/
def evict (f : Fifo α) (count : Nat) : Fifo α where
  limits := f.limits
  appended := f.appended
  acked := f.acked
  evicted := f.evicted ++ (f.waiting.take count).map Prod.fst
  increasing := f.increasing
  acked_known := f.acked_known
  evicted_known := by
    intro known member
    rcases List.mem_append.mp member with old | new
    · exact f.evicted_known known old
    · have waits := (List.take_sublist count f.waiting).map Prod.fst
      exact (List.filter_sublist.map Prod.fst).subset (waits.subset new)
  evicted_oldest := by
    intro known member entry inside unacked kept
    have before : entry.1 ∉ f.evicted := fun old => kept (List.mem_append_left _ old)
    rcases List.mem_append.mp member with old | new
    · exact f.evicted_oldest known old entry inside unacked before
    · obtain ⟨first, oldest, rfl⟩ := List.mem_map.mp new
      have waits : entry ∈ f.waiting := mem_waiting.mpr ⟨inside, unacked, before⟩
      rw [← List.take_append_drop count f.waiting] at waits
      rcases List.mem_append.mp waits with taken | left
      · exact absurd (List.mem_append_right _ (List.mem_map.mpr ⟨entry, taken, rfl⟩)) kept
      · have ordered := f.waiting_increasing
        rw [← List.take_append_drop count f.waiting] at ordered
        exact (List.pairwise_append.mp ordered).2.2 first oldest entry left

theorem filter_not_taken {entries : List (Nat × α)}
    (increasing : entries.Pairwise (fun first second => first.1 < second.1)) (count : Nat) :
    entries.filter (fun entry => entry.1 ∉ (entries.take count).map Prod.fst) =
      entries.drop count := by
  obtain ⟨front, frontEq⟩ : ∃ front, entries.take count = front := ⟨_, rfl⟩
  obtain ⟨back, backEq⟩ : ∃ back, entries.drop count = back := ⟨_, rfl⟩
  have whole := List.take_append_drop count entries
  rw [frontEq, backEq] at whole ⊢
  subst whole
  have ordered := (List.pairwise_append.mp increasing).2.2
  have gone : front.filter (fun entry => entry.1 ∉ front.map Prod.fst) = [] := by
    apply List.filter_eq_nil_iff.mpr
    intro entry member
    simpa using ⟨entry.2, member⟩
  have kept : back.filter (fun entry => entry.1 ∉ front.map Prod.fst) = back := by
    apply List.filter_eq_self.mpr
    intro entry member
    rw [decide_eq_true_eq]
    intro taken
    obtain ⟨first, oldest, same⟩ := List.mem_map.mp taken
    exact Nat.ne_of_lt (ordered first oldest entry member) same
  rw [List.filter_append, gone, kept, List.nil_append]

@[simp] theorem waiting_evict (f : Fifo α) (count : Nat) :
    (f.evict count).waiting = f.waiting.drop count := by
  have left : (f.evict count).waiting = f.appended.filter (fun entry =>
      entry.1 ∉ f.acked ∧ entry.1 ∉ f.evicted ++ (f.waiting.take count).map Prod.fst) := rfl
  rw [← filter_not_taken f.waiting_increasing count, left]
  generalize (f.waiting.take count).map Prod.fst = oldest
  simp only [waiting, List.filter_filter, List.mem_append]
  apply List.filter_congr
  intro entry _
  rw [← Bool.decide_and, decide_eq_decide]
  tauto

def Fits (size : α → Nat) (limits : Limits) (entries : List (Nat × α)) : Prop :=
  entries.length ≤ limits.entries ∧
    ((entries.map (fun entry => size entry.2)).sum : Nat) ≤ limits.bytes

instance (size : α → Nat) (limits : Limits) (entries : List (Nat × α)) :
    Decidable (Fits size limits entries) :=
  inferInstanceAs (Decidable (_ ∧ _))

/-- What is left when the oldest entries go until the rest fits. -/
def trim (size : α → Nat) (limits : Limits) : List (Nat × α) → List (Nat × α)
  | [] => []
  | entry :: rest =>
    if Fits size limits (entry :: rest) then entry :: rest else trim size limits rest

theorem trim_suffix (size : α → Nat) (limits : Limits) (entries : List (Nat × α)) :
    trim size limits entries <:+ entries := by
  induction entries with
  | nil => exact List.suffix_refl []
  | cons entry rest ih =>
    unfold trim
    split
    · exact List.suffix_refl _
    · exact ih.trans (List.suffix_cons entry rest)

theorem fits_trim (size : α → Nat) {limits : Limits} (entries : List (Nat × α))
    (allowed : 0 ≤ limits.entries ∧ 0 ≤ limits.bytes) :
    Fits size limits (trim size limits entries) := by
  induction entries with
  | nil => simpa [Fits, trim] using allowed
  | cons entry rest ih =>
    unfold trim
    split
    · next fits => exact fits
    · exact ih

inductive Op (α : Type*) where
  | append (id : Nat) (content : α)
  | ack (id : Nat)
  | limit (limits : Limits)

/-- Evict the oldest entries that wait until the rest fits. -/
def evictOldest (size : α → Nat) (f : Fifo α) : Fifo α :=
  f.evict (f.waiting.length - (trim size f.limits f.waiting).length)

def step (size : α → Nat) (f : Fifo α) : Op α → Option (Fifo α)
  | .append id content =>
    if fresh : f.Fresh id then some (evictOldest size (f.push id content fresh)) else none
  | .ack id => some (f.ack id)
  | .limit limits => some { f with limits := limits }

@[simp] theorem waiting_evictOldest (size : α → Nat) (f : Fifo α) :
    (evictOldest size f).waiting = trim size f.limits f.waiting := by
  rw [evictOldest, waiting_evict]
  obtain ⟨front, whole⟩ := trim_suffix size f.limits f.waiting
  have length := congrArg List.length whole
  rw [List.length_append] at length
  nth_rewrite 3 [← whole]
  have count : f.waiting.length - (trim size f.limits f.waiting).length = front.length := by
    omega
  rw [count, List.drop_left]

end Fifo

end HlHelper.Library
