import HlHelper.Library.Machine
import HlHelper.Secrets.Freshness
import Mathlib.Data.List.DropRight
import Mathlib.Data.List.ReduceOption

/-! `SealedModeMonitor`, poll after poll, and the broker that it closes: what the probes say of
the mode, and which calls may read a backend. The times of the probes are microseconds. -/

namespace HlHelper.Secrets.Sealed

open HlHelper.Library

/-- What `health_check` says; where it raises, the backend counts as sealed. -/
inductive Health where
  | sealed
  | unsealed
  | failing
  deriving DecidableEq, Repr

def Health.isSealed : Health → Bool
  | .sealed | .failing => true
  | .unsealed => false

structure Probe where
  health : Health
  now : Int
  deriving DecidableEq, Repr

structure SealedState where
  active : Bool
  since : Option Int
  lastHealth : Option Health
  deriving DecidableEq, Repr

/-- The state of the monitor with the starts of its two timers. -/
structure Monitor where
  state : SealedState
  sealedSince : Option Int
  unsealedSince : Option Int
  deriving DecidableEq, Repr

/-- What is published on `secrets.status`. -/
inductive Announcement where
  | sealedDegraded (since : Int)
  | recovered (at_ : Int)
  deriving DecidableEq, Repr

structure Config where
  graceSeconds : Int
  recoverySeconds : Int
  /-- A bus is there to publish on. -/
  bus : Bool

def micros (seconds : Int) : Int := seconds * 1000000

namespace Monitor

def initial : Monitor := ⟨⟨false, none, none⟩, none, none⟩

variable (config : Config)

def publish (announcement : Announcement) : Option Announcement :=
  if config.bus then some announcement else none

def enterDegraded (m : Monitor) (now : Int) : Monitor × Option Announcement :=
  ({ m with state := { m.state with active := true, since := some now } },
    publish config (.sealedDegraded now))

def exitDegraded (m : Monitor) (now : Int) : Monitor × Option Announcement :=
  ({ m with state := { m.state with active := false, since := none } },
    publish config (.recovered now))

def pollOnce (m : Monitor) (probe : Probe) : Monitor × Option Announcement :=
  let state := { m.state with lastHealth := some probe.health }
  if probe.health.isSealed then
    let start := m.sealedSince.getD probe.now
    if m.state.active = false ∧ micros config.graceSeconds ≤ probe.now - start then
      enterDegraded config ⟨state, some start, none⟩ probe.now
    else (⟨state, some start, none⟩, none)
  else
    let start := m.unsealedSince.getD probe.now
    if m.state.active = true ∧ micros config.recoverySeconds ≤ probe.now - start then
      exitDegraded config ⟨state, none, some start⟩ probe.now
    else (⟨state, none, some start⟩, none)

def polled (probes : List Probe) : Monitor := after (pollOnce config) initial probes

end Monitor

/-- The last probes are consecutive ones of this kind that span the given time. -/
def EndsRun (sealed : Bool) (span : Int) (probes : List Probe) : Prop :=
  ∃ before first rest, probes = before ++ first :: rest ∧
    (∀ probe ∈ first :: rest, probe.health.isSealed = sealed) ∧
    ∃ last ∈ probes.getLast?, span ≤ last.now - first.now

/-- Some probe ended a sealed run of the grace time, and no later one an unsealed run of the
recovery time. -/
def Degraded (config : Config) (probes : List Probe) : Prop :=
  ∃ early late, probes = early ++ late ∧ EndsRun true (micros config.graceSeconds) early ∧
    ∀ between rest, late = between ++ rest →
      ¬ EndsRun false (micros config.recoverySeconds) (early ++ between)

/-- The time of the probe at which the mode was entered that still lasts. -/
def EnteredAt (config : Config) (probes : List Probe) (since : Int) : Prop :=
  ∃ early entry late, probes = early ++ entry :: late ∧ entry.now = since ∧
    ¬ Degraded config early ∧
    ∀ between rest, late = between ++ rest → Degraded config (early ++ entry :: between)

/-- The mode changes with the probe, and the announcement says how. -/
def Transition (config : Config) (before : List Probe) (probe : Probe) : Announcement → Prop
  | .sealedDegraded since =>
    ¬ Degraded config before ∧ Degraded config (before ++ [probe]) ∧ since = probe.now
  | .recovered at_ =>
    Degraded config before ∧ ¬ Degraded config (before ++ [probe]) ∧ at_ = probe.now

def Announcement.enters : Announcement → Bool
  | .sealedDegraded _ => true
  | .recovered _ => false

def Alternate (published : List Announcement) : Prop :=
  ∀ i announcement, published[i]? = some announcement → announcement.enters = decide (i % 2 = 0)

def announcements (config : Config) (probes : List Probe) : List (Option Announcement) :=
  answers (Monitor.pollOnce config) .initial probes

structure System where
  broker : Broker.State
  monitor : Monitor
  published : List Announcement

inductive Event where
  | poll (probe : Probe)
  | call (step : Broker.Step)
  deriving DecidableEq, Repr

def Event.probe : Event → Option Probe
  | .poll probe => some probe
  | .call _ => none

namespace System

def initial (stored : Place → List Bytes) (now : Int) : System :=
  ⟨.initial stored now, .initial, []⟩

/-- The broker asks the monitor, so that its mode changes with the polls only. -/
def step (config : Config) (backends : Backends) (s : System) : Event → Option System
  | .poll probe =>
    let (monitor, announcement) := s.monitor.pollOnce config probe
    some
      { broker := { s.broker with degraded := monitor.state.active }
        monitor := monitor
        published := s.published ++ announcement.toList }
  | .call (.degrade _) => none
  | .call step => (s.broker.step backends step).map fun broker => { s with broker := broker }

end System

section Trace

variable {config : Config} {probes : List Probe} {probe : Probe} {sealed : Bool} {span since : Int}

def Probe.ofKind (sealed : Bool) (probe : Probe) : Bool :=
  decide (probe.health.isSealed = sealed)

def runStart (sealed : Bool) (probes : List Probe) : Option Int :=
  (probes.rtakeWhile (Probe.ofKind sealed)).head?.map Probe.now

theorem runStart_concat (same : probe.health.isSealed = sealed) :
    runStart sealed (probes ++ [probe]) = some ((runStart sealed probes).getD probe.now) := by
  have kind : probe.ofKind sealed = true := decide_eq_true same
  rw [runStart, List.rtakeWhile_concat_pos _ _ _ kind, runStart]
  cases probes.rtakeWhile (Probe.ofKind sealed) <;> rfl

theorem runStart_concat_other (other : probe.health.isSealed ≠ sealed) :
    runStart sealed (probes ++ [probe]) = none := by
  have kind : ¬ probe.ofKind sealed = true := by simpa [Probe.ofKind] using other
  rw [runStart, List.rtakeWhile_concat_neg _ _ _ kind]
  rfl

theorem rtakeWhile_append_all {run : List Probe}
    (all : ∀ probe ∈ run, probe.health.isSealed = sealed) (before : List Probe) :
    (before ++ run).rtakeWhile (Probe.ofKind sealed) =
      before.rtakeWhile (Probe.ofKind sealed) ++ run := by
  induction run using List.reverseRecOn with
  | nil => rw [List.append_nil, List.append_nil]
  | append_singleton run probe ih =>
    have here : probe.ofKind sealed = true := decide_eq_true (all probe (by simp))
    have front := ih fun other member => all other (List.mem_append_left _ member)
    rw [← List.append_assoc, List.rtakeWhile_concat_pos _ _ _ here, front, List.append_assoc]

theorem endsRun_concat (ordered : ((probes ++ [probe]).map Probe.now).Pairwise (· ≤ ·)) :
    EndsRun sealed span (probes ++ [probe]) ↔
      ∃ start ∈ runStart sealed (probes ++ [probe]), span ≤ probe.now - start := by
  constructor
  · rintro ⟨before, first, rest, same, all, last, final, long⟩
    rw [List.getLast?_concat, Option.mem_some_iff] at final
    subst final
    have whole := rtakeWhile_append_all all before
    rw [runStart, same, whole]
    rw [same, List.map_append, List.pairwise_append] at ordered
    cases found : before.rtakeWhile (Probe.ofKind sealed) with
    | nil => exact ⟨first.now, rfl, long⟩
    | cons head tail =>
      refine ⟨head.now, rfl, ?_⟩
      have inside : head ∈ before :=
        (List.rtakeWhile_suffix _ before).subset (found ▸ List.mem_cons_self)
      have earlier := ordered.2.2 _ (List.mem_map_of_mem inside) first.now (by simp)
      omega
  · rintro ⟨start, found, long⟩
    rw [runStart, Option.mem_def, Option.map_eq_some_iff] at found
    obtain ⟨first, head, rfl⟩ := found
    obtain ⟨rest, run⟩ := List.head?_eq_some_iff.mp head
    obtain ⟨before, split⟩ := List.rtakeWhile_suffix (Probe.ofKind sealed) (probes ++ [probe])
    rw [run] at split
    refine ⟨before, first, rest, split.symm, fun other member => ?_, probe, by simp, long⟩
    rw [← run] at member
    have holds := List.mem_rtakeWhile_imp member
    exact of_decide_eq_true holds

theorem EndsRun.last (ends : EndsRun sealed span (probes ++ [probe])) :
    probe.health.isSealed = sealed := by
  obtain ⟨before, first, rest, same, all, -⟩ := ends
  have final := congrArg List.getLast? same
  rw [List.getLast?_concat, List.getLast?_append_cons] at final
  exact all probe (List.mem_of_getLast? final.symm)

theorem not_endsRun_nil : ¬ EndsRun sealed span [] := by
  rintro ⟨before, first, rest, same, -⟩
  simp at same

theorem not_degraded_nil : ¬ Degraded config [] := by
  rintro ⟨early, late, same, ends, -⟩
  rw [(List.append_eq_nil_iff.mp same.symm).1] at ends
  exact not_endsRun_nil ends

theorem degraded_concat : Degraded config (probes ++ [probe]) ↔
    EndsRun true (micros config.graceSeconds) (probes ++ [probe]) ∨
      Degraded config probes ∧
        ¬ EndsRun false (micros config.recoverySeconds) (probes ++ [probe]) := by
  constructor
  · rintro ⟨early, late, same, ends, lasts⟩
    rcases List.eq_nil_or_concat late with rfl | ⟨front, final, rfl⟩
    · rw [List.append_nil] at same
      exact .inl (same ▸ ends)
    · rw [List.concat_eq_append] at same lasts
      have still := lasts _ [] (List.append_nil _).symm
      rw [← same] at still
      rw [← List.append_assoc] at same
      obtain ⟨rfl, -⟩ := List.append_inj' same rfl
      refine .inr ⟨⟨early, front, rfl, ends, ?_⟩, still⟩
      rintro between rest rfl
      exact lasts between (rest ++ [final]) (List.append_assoc _ _ _)
  · rintro (ends | ⟨⟨early, late, rfl, ends, lasts⟩, still⟩)
    · refine ⟨probes ++ [probe], [], (List.append_nil _).symm, ends, ?_⟩
      intro between rest same recovered
      obtain rfl := (List.append_eq_nil_iff.mp same.symm).1
      rw [List.append_nil] at recovered
      exact absurd (ends.last.symm.trans recovered.last) (by decide)
    · refine ⟨early, late ++ [probe], List.append_assoc _ _ _, ends, ?_⟩
      intro between rest same
      rcases List.eq_nil_or_concat rest with rfl | ⟨front, final, rfl⟩
      · rw [List.append_nil] at same
        rwa [← same, ← List.append_assoc]
      · rw [List.concat_eq_append, ← List.append_assoc] at same
        exact lasts between front (List.append_inj' same rfl).1

theorem enteredAt_concat : EnteredAt config (probes ++ [probe]) since ↔
    Degraded config (probes ++ [probe]) ∧
      (¬ Degraded config probes ∧ probe.now = since ∨ EnteredAt config probes since) := by
  constructor
  · rintro ⟨early, entry, late, same, rfl, fresh, lasts⟩
    have still : Degraded config (probes ++ [probe]) := by
      rw [same]
      exact lasts late [] (List.append_nil late).symm
    refine ⟨still, ?_⟩
    rcases List.eq_nil_or_concat late with rfl | ⟨front, final, rfl⟩
    · obtain ⟨rfl, finals⟩ := List.append_inj' same rfl
      obtain rfl := (List.cons.inj finals).1
      exact .inl ⟨fresh, rfl⟩
    · rw [List.concat_eq_append, ← List.cons_append, ← List.append_assoc] at same
      obtain ⟨rfl, -⟩ := List.append_inj' same rfl
      refine .inr ⟨early, entry, front, rfl, rfl, fresh, ?_⟩
      rintro between rest rfl
      exact lasts between (rest ++ [final]) (by simp)
  · rintro ⟨still, ⟨fresh, rfl⟩ | ⟨early, entry, late, rfl, rfl, fresh, lasts⟩⟩
    · refine ⟨probes, probe, [], rfl, rfl, fresh, ?_⟩
      intro between rest same
      obtain rfl := (List.append_eq_nil_iff.mp same.symm).1
      exact still
    · refine ⟨early, entry, late ++ [probe], by simp, rfl, fresh, ?_⟩
      intro between rest same
      rcases List.eq_nil_or_concat rest with rfl | ⟨front, final, rfl⟩
      · rw [List.append_nil] at same
        simpa [← same] using still
      · rw [List.concat_eq_append, ← List.append_assoc] at same
        exact lasts between front (List.append_inj' same rfl).1

theorem EnteredAt.degraded (entered : EnteredAt config probes since) : Degraded config probes := by
  obtain ⟨early, entry, late, rfl, -, -, lasts⟩ := entered
  exact lasts late [] (List.append_nil late).symm

end Trace

section Polls

variable {config : Config} {probes : List Probe} {probe : Probe} {m : Monitor} {since : Int}

structure Tells (config : Config) (probes : List Probe) (m : Monitor) : Prop where
  sealedSince : m.sealedSince = runStart true probes
  unsealedSince : m.unsealedSince = runStart false probes
  active : m.state.active = true ↔ Degraded config probes
  since : ∀ since, m.state.since = some since ↔ EnteredAt config probes since

theorem tells_initial : Tells config [] .initial where
  sealedSince := rfl
  unsealedSince := rfl
  active := iff_of_false Bool.false_ne_true not_degraded_nil
  since since := by
    refine iff_of_false (fun found => by cases found) ?_
    rintro ⟨early, entry, late, same, -⟩
    simp at same

theorem degraded_sealed (sealed : probe.health.isSealed = true)
    (ordered : ((probes ++ [probe]).map Probe.now).Pairwise (· ≤ ·)) :
    Degraded config (probes ++ [probe]) ↔
      micros config.graceSeconds ≤ probe.now - (runStart true probes).getD probe.now ∨
        Degraded config probes := by
  have other : ¬ EndsRun false (micros config.recoverySeconds) (probes ++ [probe]) :=
    fun ends => absurd (sealed.symm.trans ends.last) (by decide)
  rw [degraded_concat, endsRun_concat ordered, runStart_concat sealed]
  simp [other]

theorem degraded_unsealed (unsealed : probe.health.isSealed = false)
    (ordered : ((probes ++ [probe]).map Probe.now).Pairwise (· ≤ ·)) :
    Degraded config (probes ++ [probe]) ↔ Degraded config probes ∧
      ¬ micros config.recoverySeconds ≤ probe.now - (runStart false probes).getD probe.now := by
  have other : ¬ EndsRun true (micros config.graceSeconds) (probes ++ [probe]) :=
    fun ends => absurd (ends.last.symm.trans unsealed) (by decide)
  have recovered := @endsRun_concat _ _ false (micros config.recoverySeconds) ordered
  rw [degraded_concat, recovered, runStart_concat unsealed]
  simp [other]

theorem enteredAt_kept (same : Degraded config (probes ++ [probe]) ↔ Degraded config probes) :
    EnteredAt config (probes ++ [probe]) since ↔ EnteredAt config probes since := by
  rw [enteredAt_concat, same]
  constructor
  · rintro ⟨still, ⟨fresh, -⟩ | entered⟩
    · exact absurd still fresh
    · exact entered
  · exact fun entered => ⟨entered.degraded, .inr entered⟩

theorem not_transition_kept (same : Degraded config (probes ++ [probe]) ↔ Degraded config probes)
    (announcement : Announcement) : ¬ Transition config probes probe announcement := by
  cases announcement with
  | sealedDegraded since => exact fun ⟨fresh, still, _⟩ => fresh (same.mp still)
  | recovered at_ => exact fun ⟨before, gone, _⟩ => gone (same.mpr before)

theorem enteredAt_fresh (fresh : ¬ Degraded config probes)
    (still : Degraded config (probes ++ [probe])) :
    EnteredAt config (probes ++ [probe]) since ↔ probe.now = since := by
  rw [enteredAt_concat]
  exact ⟨fun entered => entered.2.elim And.right fun before => absurd before.degraded fresh,
    fun same => ⟨still, .inl ⟨fresh, same⟩⟩⟩

/-- The announcement of a poll is that of a transition. -/
def Announces (config : Config) (probes : List Probe) (probe : Probe)
    (announced : Option Announcement) : Prop :=
  ∀ announcement, announced = some announcement ↔
    config.bus = true ∧ Transition config probes probe announcement

theorem announces_none (same : Degraded config (probes ++ [probe]) ↔ Degraded config probes) :
    Announces config probes probe none :=
  fun announcement =>
    iff_of_false (by simp) fun both => not_transition_kept same announcement both.2

theorem publish_eq_some (announcement other : Announcement) :
    Monitor.publish config announcement = some other ↔
      config.bus = true ∧ other = announcement := by
  unfold Monitor.publish
  split
  · next bus => simp [bus, eq_comm]
  · next bus => simp [bus]

theorem announces_entry (fresh : ¬ Degraded config probes)
    (still : Degraded config (probes ++ [probe])) :
    Announces config probes probe (Monitor.publish config (.sealedDegraded probe.now)) := by
  intro announcement
  rw [publish_eq_some]
  cases announcement <;> simp [Transition, fresh, still]

theorem announces_exit (before : Degraded config probes)
    (gone : ¬ Degraded config (probes ++ [probe])) :
    Announces config probes probe (Monitor.publish config (.recovered probe.now)) := by
  intro announcement
  rw [publish_eq_some]
  cases announcement <;> simp [Transition, before, gone]

/-- A poll keeps the monitor right. -/
theorem Tells.poll (tells : Tells config probes m)
    (ordered : ((probes ++ [probe]).map Probe.now).Pairwise (· ≤ ·)) :
    Tells config (probes ++ [probe]) (m.pollOnce config probe).1 ∧
      Announces config probes probe (m.pollOnce config probe).2 := by
  have active := tells.active
  cases kind : probe.health.isSealed with
  | true =>
    have mode := @degraded_sealed config _ _ kind ordered
    have other := @runStart_concat_other probes probe false (by simp [kind])
    have start := @runStart_concat probes _ _ kind
    rw [← tells.sealedSince] at mode start
    simp only [Monitor.pollOnce, kind, if_true]
    split
    · next entering =>
      have fresh : ¬ Degraded config probes := fun before => by
        simp [active.mpr before] at entering
      have still := mode.mpr (.inl entering.2)
      refine ⟨⟨start.symm, other.symm, iff_of_true rfl still, fun since => ?_⟩,
        announces_entry fresh still⟩
      rw [enteredAt_fresh fresh still]
      exact Option.some_inj
    · next kept =>
      have same : Degraded config (probes ++ [probe]) ↔ Degraded config probes := by
        rw [mode, or_iff_right_iff_imp]
        intro long
        exact active.mp (by simpa [long] using kept)
      refine ⟨⟨start.symm, other.symm, active.trans same.symm, fun since => ?_⟩,
        announces_none same⟩
      rw [enteredAt_kept same]
      exact tells.since since
  | false =>
    have mode := @degraded_unsealed config _ _ kind ordered
    have other := @runStart_concat_other probes probe true (by simp [kind])
    have start := @runStart_concat probes _ _ kind
    rw [← tells.unsealedSince] at mode start
    simp only [Monitor.pollOnce, kind, Bool.false_eq_true, if_false]
    split
    · next leaving =>
      have before := active.mp leaving.1
      have gone : ¬ Degraded config (probes ++ [probe]) := fun still =>
        (mode.mp still).2 leaving.2
      refine ⟨⟨other.symm, start.symm, iff_of_false Bool.false_ne_true gone, fun since => ?_⟩,
        announces_exit before gone⟩
      exact iff_of_false (fun found => by cases found) fun entered => gone entered.degraded
    · next kept =>
      have same : Degraded config (probes ++ [probe]) ↔ Degraded config probes := by
        rw [mode, and_iff_left_iff_imp]
        intro before long
        exact kept ⟨active.mpr before, long⟩
      refine ⟨⟨other.symm, start.symm, active.trans same.symm, fun since => ?_⟩,
        announces_none same⟩
      rw [enteredAt_kept same]
      exact tells.since since

theorem polled_concat : Monitor.polled config (probes ++ [probe]) =
    ((Monitor.polled config probes).pollOnce config probe).1 :=
  after_concat _ _ _ _

theorem announcements_concat : announcements config (probes ++ [probe]) =
    announcements config probes ++ [((Monitor.polled config probes).pollOnce config probe).2] :=
  answers_concat _ _ _ _

theorem length_announcements : (announcements config probes).length = probes.length := by
  induction probes using List.reverseRecOn with
  | nil => rfl
  | append_singleton probes probe ih =>
    rw [announcements_concat, List.length_append, ih, List.length_append]
    rfl

theorem ordered_front {more : List Probe}
    (ordered : ((probes ++ more).map Probe.now).Pairwise (· ≤ ·)) :
    (probes.map Probe.now).Pairwise (· ≤ ·) := by
  rw [List.map_append] at ordered
  exact (List.pairwise_append.mp ordered).1

theorem tells_polled (ordered : (probes.map Probe.now).Pairwise (· ≤ ·)) :
    Tells config probes (Monitor.polled config probes) := by
  induction probes using List.reverseRecOn with
  | nil => exact tells_initial
  | append_singleton probes probe ih =>
    rw [polled_concat]
    exact ((ih (ordered_front ordered)).poll ordered).1

theorem one_timer (probes : List Probe) :
    (Monitor.polled config probes).sealedSince = none ∨
      (Monitor.polled config probes).unsealedSince = none := by
  rcases List.eq_nil_or_concat probes with rfl | ⟨front, final, rfl⟩
  · exact .inl rfl
  · rw [List.concat_eq_append, polled_concat]
    generalize Monitor.polled config front = m
    unfold Monitor.pollOnce
    cases final.health.isSealed with
    | true =>
      refine .inr ?_
      simp only [if_true]
      split <;> rfl
    | false =>
      refine .inl ?_
      simp only [Bool.false_eq_true, if_false]
      split <;> rfl

theorem announced (ordered : (probes.map Probe.now).Pairwise (· ≤ ·)) {before rest : List Probe}
    (split : probes = before ++ probe :: rest) :
    ∃ announced, (announcements config probes)[before.length]? = some announced ∧
      Announces config before probe announced := by
  induction probes using List.reverseRecOn generalizing rest with
  | nil => simp at split
  | append_singleton probes last ih =>
    have front := ordered_front ordered
    have answered := @length_announcements config probes
    rcases List.eq_nil_or_concat rest with rfl | ⟨middle, final, rfl⟩
    · obtain ⟨rfl, lasts⟩ := List.append_inj' split rfl
      obtain rfl := (List.cons.inj lasts).1
      refine ⟨_, ?_, ((tells_polled front).poll ordered).2⟩
      rw [announcements_concat, ← answered, List.getElem?_concat_length]
    · rw [List.concat_eq_append, ← List.cons_append, ← List.append_assoc] at split
      obtain ⟨same, -⟩ := List.append_inj' split rfl
      obtain ⟨announced, found, announces⟩ := ih front same
      refine ⟨announced, ?_, announces⟩
      rw [announcements_concat, List.getElem?_append_left, found]
      exact (List.getElem?_eq_some_iff.mp found).1

theorem alternate_concat {published : List Announcement} {announcement : Announcement}
    (alternate : Alternate published)
    (turn : announcement.enters = decide (published.length % 2 = 0)) :
    Alternate (published ++ [announcement]) := by
  intro i other found
  by_cases inside : i < published.length
  · rw [List.getElem?_append_left inside] at found
    exact alternate i other found
  · have last : i = published.length := by
      have bound := (List.getElem?_eq_some_iff.mp found).1
      rw [List.length_append, List.length_singleton] at bound
      omega
    subst last
    rw [List.getElem?_concat_length, Option.some.injEq] at found
    exact found ▸ turn

theorem published_concat : (announcements config (probes ++ [probe])).reduceOption =
    (announcements config probes).reduceOption ++
      ((Monitor.polled config probes).pollOnce config probe).2.toList := by
  rw [announcements_concat, List.reduceOption_append]
  cases ((Monitor.polled config probes).pollOnce config probe).2 <;> rfl

/-- Entries and exits take turns: an odd number of announcements says that the mode lasts. -/
theorem alternate_announcements (ordered : (probes.map Probe.now).Pairwise (· ≤ ·)) :
    Alternate (announcements config probes).reduceOption ∧
      ((announcements config probes).reduceOption.length % 2 = 1 ↔
        config.bus = true ∧ Degraded config probes) := by
  induction probes using List.reverseRecOn with
  | nil =>
    have nothing : (announcements config []).reduceOption = [] := rfl
    refine ⟨fun i announcement found => absurd found (by simp [nothing]), ?_⟩
    exact iff_of_false Nat.zero_ne_one fun both => not_degraded_nil both.2
  | append_singleton probes probe ih =>
    have front := ordered_front ordered
    obtain ⟨alternate, parity⟩ := ih front
    obtain ⟨-, announces⟩ := (@tells_polled config probes front).poll ordered
    rw [published_concat]
    generalize ((Monitor.polled config probes).pollOnce config probe).2 = announced at announces ⊢
    generalize (announcements config probes).reduceOption = published at alternate parity ⊢
    cases announced with
    | none =>
      have quiet : config.bus = true → ∀ other, ¬ Transition config probes probe other :=
        fun bus other change => absurd ((announces other).mpr ⟨bus, change⟩) (by simp)
      have same : config.bus = true →
          (Degraded config (probes ++ [probe]) ↔ Degraded config probes) := by
        intro bus
        constructor
        · intro still
          by_contra fresh
          exact quiet bus (.sealedDegraded probe.now) ⟨fresh, still, rfl⟩
        · intro before
          by_contra gone
          exact quiet bus (.recovered probe.now) ⟨before, gone, rfl⟩
      rw [Option.toList_none, List.append_nil, parity]
      exact ⟨alternate, and_congr_right fun bus => (same bus).symm⟩
    | some announcement =>
      obtain ⟨bus, change⟩ := (announces announcement).mp rfl
      rw [Option.toList_some, List.length_append, List.length_singleton]
      cases announcement with
      | sealedDegraded since =>
        obtain ⟨fresh, still, -⟩ := change
        have even : published.length % 2 = 0 := by
          have := mt parity.mp fun both => fresh both.2
          omega
        refine ⟨alternate_concat alternate (by simp [Announcement.enters, even]), ?_⟩
        exact iff_of_true (by omega) ⟨bus, still⟩
      | recovered at_ =>
        obtain ⟨before, gone, -⟩ := change
        have odd := parity.mpr ⟨bus, before⟩
        refine ⟨alternate_concat alternate (by simp [Announcement.enters, odd]), ?_⟩
        exact iff_of_false (by omega) fun both => gone both.2

end Polls

section Gate

variable {config : Config} {backends : Backends} {s t : System} {events : List Event}

theorem call_eq_some {step : Broker.Step}
    (stepped : s.step config backends (.call step) = some t) :
    (∀ flag, step ≠ .degrade flag) ∧
      ∃ broker, Broker.Happens backends s.broker step broker ∧ t = { s with broker := broker } := by
  have other : ∀ flag, step ≠ .degrade flag := by
    rintro flag rfl
    cases stepped
  have moved : (s.broker.step backends step).map (fun broker => { s with broker := broker }) =
      some t := by
    cases step with
    | degrade flag => exact absurd rfl (other flag)
    | start | effect | resume | fail | clock => exact stepped
  obtain ⟨broker, ran, rfl⟩ := Option.map_eq_some_iff.mp moved
  exact ⟨other, broker, Broker.happens_of_step ran, rfl⟩

theorem degraded_kept {before after : Broker.State} {step : Broker.Step}
    (happens : Broker.Happens backends before step after)
    (other : ∀ flag, step ≠ .degrade flag) : after.degraded = before.degraded := by
  cases happens with
  | opened popped => rcases popped with rfl | rfl <;> rfl
  | degrade => exact absurd rfl (other _)
  | hit | reads | writes | fills | invalidates | relabels | clock => rfl

theorem system_polled {stored : Place → List Bytes} {now : Int}
    (reached : run (System.step config backends) (.initial stored now) events = some s) :
    s.monitor = .polled config (events.filterMap Event.probe) ∧
      s.published = (announcements config (events.filterMap Event.probe)).reduceOption ∧
      s.broker.degraded = s.monitor.state.active := by
  induction events using List.reverseRecOn generalizing s with
  | nil =>
    obtain rfl : System.initial stored now = s := by simpa [run] using reached
    exact ⟨rfl, rfl, rfl⟩
  | append_singleton events event ih =>
    rw [run_append, Option.bind_eq_some_iff] at reached
    obtain ⟨u, before, last⟩ := reached
    obtain ⟨t, stepped, final⟩ := run_cons_eq_some.mp last
    obtain rfl : t = s := by simpa [run] using final
    obtain ⟨monitor, published, mode⟩ := ih before
    rw [List.filterMap_append]
    cases event with
    | poll probe =>
      cases stepped
      have seen : [Event.poll probe].filterMap Event.probe = [probe] := rfl
      rw [seen, polled_concat, published_concat, ← monitor, ← published]
      exact ⟨rfl, rfl, rfl⟩
    | call step =>
      have unseen : [Event.call step].filterMap Event.probe = [] := rfl
      obtain ⟨other, broker, happens, rfl⟩ := call_eq_some stepped
      rw [unseen, List.append_nil]
      exact ⟨monitor, published, (degraded_kept happens other).trans mode⟩

/-- A call that never reads a backend: it was closed out, or served from the cache. -/
def Gated (call : Broker.Call) : Prop :=
  call.seen = none ∧ (call.phase = .failed ∨ call.Settled)

def Stays (before after : Broker.Call) : Prop :=
  Gated before → Gated after ∧ after.handle = before.handle

theorem stays_refl (call : Broker.Call) : Stays call call := fun gated => ⟨gated, rfl⟩

theorem stays_open {call next : Broker.Call}
    (waits : call.phase = .reading ∨ call.phase = .read ∨ call.phase = .writing ∨
      call.phase = .wrote) : Stays call next := by
  rintro ⟨-, phase | phase | phase | phase⟩ <;> simp [phase] at waits

theorem gated_step {before after : Broker.State} {step : Broker.Step}
    (happens : Broker.Happens backends before step after) :
    Onward Stays before.calls after.calls ∧ before.handles <+: after.handles := by
  cases happens with
  | hit held => exact ⟨.append stays_refl _ _, List.prefix_append _ _⟩
  | opened popped asked =>
    rcases popped with rfl | rfl
    · exact ⟨.append stays_refl _ _, List.prefix_rfl⟩
    · exact ⟨.append stays_refl _ _, List.prefix_rfl⟩
  | reads turn place phase value =>
    exact ⟨.set stays_refl turn (stays_open (.inl phase)), List.prefix_rfl⟩
  | writes turn place phase =>
    exact ⟨.set stays_refl turn (stays_open (.inr (.inr (.inl phase)))), List.prefix_rfl⟩
  | fills turn phase kind =>
    exact ⟨.set stays_refl turn (stays_open (.inr (.inl phase))), List.prefix_append _ _⟩
  | invalidates turn phase =>
    exact ⟨.set stays_refl turn (stays_open (.inr (.inr (.inr phase)))), List.prefix_rfl⟩
  | relabels which turn phases =>
    refine ⟨.set stays_refl turn ?_, List.prefix_rfl⟩
    rcases phases with ⟨rfl, phase⟩ | ⟨phase, settled⟩ | rfl
    · exact stays_open (.inr (.inl phase))
    · refine fun gated => ⟨⟨gated.1, .inr ?_⟩, rfl⟩
      exact phase.elim (fun next => .inr (.inl next)) (fun next => .inr (.inr next))
    · exact fun gated => ⟨⟨gated.1, .inl rfl⟩, rfl⟩
  | clock => exact ⟨.refl stays_refl _, List.prefix_rfl⟩
  | degrade => exact ⟨.refl stays_refl _, List.prefix_rfl⟩

theorem gated_run (reached : run (System.step config backends) s events = some t) :
    Onward Stays s.broker.calls t.broker.calls ∧ s.broker.handles <+: t.broker.handles := by
  induction events generalizing s with
  | nil =>
    obtain rfl : s = t := by simpa [run] using reached
    exact ⟨.refl stays_refl _, List.prefix_rfl⟩
  | cons event events ih =>
    obtain ⟨u, stepped, rest⟩ := run_cons_eq_some.mp reached
    obtain ⟨calls, handles⟩ := ih rest
    have first : Onward Stays s.broker.calls u.broker.calls ∧
        s.broker.handles <+: u.broker.handles := by
      cases event with
      | poll probe =>
        cases stepped
        exact ⟨.refl stays_refl _, List.prefix_rfl⟩
      | call step =>
        obtain ⟨-, broker, happens, rfl⟩ := call_eq_some stepped
        exact gated_step happens
    refine ⟨first.1.trans (fun {_ _ _} one two gated => ?_) calls, first.2.trans handles⟩
    obtain ⟨next, same⟩ := one gated
    exact ⟨(two next).1, (two next).2.trans same⟩

/-- The handle of a call is of a value that the cache held for its ref and had not let expire. -/
def ServedFrom (cached : Broker.State) (ref : SecretRef) (requester : Name)
    (handles : List Broker.HandleEntry) (call : Broker.Call) : Prop :=
  ∀ id, call.handle = some id → ∃ value expiresAt,
    cached.cache ref.text = some (value, expiresAt) ∧ cached.now ≤ expiresAt ∧
      handles[id]? = some ⟨ref, value, requester, cached.now + 60⟩

theorem rawGet_closed {u : Broker.State} (closed : u.degraded = true) (ref : SecretRef) :
    u.rawGet backends ref = .failed := by
  unfold Broker.State.rawGet
  rw [if_pos closed]
  split <;> rfl

theorem start_gated {u : Broker.State} {kind : Broker.Kind} (closed : u.degraded = true)
    (reads : ∀ value, kind ≠ .put value) (ref : SecretRef) (requester : Name) :
    ∃ call, (u.start backends kind ref requester).calls = u.calls ++ [call] ∧ Gated call ∧
      ServedFrom u ref requester (u.start backends kind ref requester).handles call := by
  cases kind with
  | put value => exact absurd rfl (reads value)
  | rotate =>
    refine ⟨_, rfl, ⟨rfl, .inl (rawGet_closed closed ref)⟩, ?_⟩
    exact fun id nothing => absurd nothing (by simp)
  | get =>
    simp only [Broker.State.start, Broker.State.cached]
    cases held : u.cache ref.text with
    | none =>
      refine ⟨_, rfl, ⟨rfl, .inl (rawGet_closed closed ref)⟩, ?_⟩
      exact fun id nothing => absurd nothing (by simp)
    | some entry =>
      obtain ⟨value, expiresAt⟩ := entry
      by_cases expired : expiresAt < u.now
      · have still : (u.invalidate ref).degraded = true := closed
        simp only [expired, if_true]
        refine ⟨_, rfl, ⟨rfl, .inl (rawGet_closed still ref)⟩, ?_⟩
        exact fun id nothing => absurd nothing (by simp)
      · simp only [expired, if_false]
        refine ⟨_, rfl, ⟨rfl, .inr (.inl rfl)⟩, fun id found => ?_⟩
        cases found
        exact ⟨value, expiresAt, held, Int.not_lt.mp expired, List.getElem?_concat_length⟩

theorem gated_to_the_end {kind : Broker.Kind} {ref : SecretRef} {requester : Name}
    (reached : run (System.step config backends) s (.call (.start kind ref requester) :: events) =
      some t) (closed : s.broker.degraded = true) (reads : ∀ value, kind ≠ .put value) :
    ∃ call, t.broker.calls[s.broker.calls.length]? = some call ∧ Gated call ∧
      ServedFrom s.broker ref requester t.broker.handles call := by
  obtain ⟨u, stepped, rest⟩ := run_cons_eq_some.mp reached
  cases stepped
  obtain ⟨call, calls, gated, served⟩ := @start_gated backends _ _ closed reads ref requester
  obtain ⟨onward, handles⟩ := gated_run rest
  have here : (s.broker.start backends kind ref requester).calls[s.broker.calls.length]? =
      some call := by
    rw [calls, List.getElem?_concat_length]
  obtain ⟨last, there, stays⟩ := onward _ _ here
  obtain ⟨still, same⟩ := stays gated
  refine ⟨last, there, still, fun id found => ?_⟩
  obtain ⟨value, expiresAt, held, alive, entry⟩ := served id (same ▸ found)
  exact ⟨value, expiresAt, held, alive, Broker.getElem?_of_prefix handles entry⟩

end Gate

/-- Behind every poll the mode is what the probes say, with its entry and its announcements; while
it lasts, what is called reads no backend and is served from the cache at most. -/
theorem sealed_mode (config : Config) (backends : Backends) (stored : Place → List Bytes)
    (now : Int) (events : List Event) (s : System)
    (reached : run (System.step config backends) (.initial stored now) events = some s)
    (ordered : ((events.filterMap Event.probe).map Probe.now).Pairwise (· ≤ ·)) :
    (s.monitor.state.active = true ↔ Degraded config (events.filterMap Event.probe)) ∧
    (s.monitor.sealedSince = none ∨ s.monitor.unsealedSince = none) ∧
    (∀ since, s.monitor.state.since = some since ↔
      EnteredAt config (events.filterMap Event.probe) since) ∧
    s.published = (announcements config (events.filterMap Event.probe)).reduceOption ∧
    (∀ before probe rest, events.filterMap Event.probe = before ++ probe :: rest →
      ∃ announced,
        (announcements config (events.filterMap Event.probe))[before.length]? = some announced ∧
          Announces config before probe announced) ∧
    Alternate s.published ∧
    s.broker.degraded = s.monitor.state.active ∧
    ∀ before kind ref requester after u,
      events = before ++ .call (.start kind ref requester) :: after →
      run (System.step config backends) (.initial stored now) before = some u →
      u.broker.degraded = true → (∀ value, kind ≠ .put value) →
      ∃ call, s.broker.calls[u.broker.calls.length]? = some call ∧ Gated call ∧
        ServedFrom u.broker ref requester s.broker.handles call := by
  obtain ⟨monitor, published, mode⟩ := system_polled reached
  have tells := @tells_polled config _ ordered
  rw [← monitor] at tells
  refine ⟨tells.active, ?_, tells.since, published, ?_, ?_, mode, ?_⟩
  · rw [monitor]
    exact one_timer _
  · exact fun before probe rest split => announced ordered split
  · rw [published]
    exact (alternate_announcements ordered).1
  · intro before kind ref requester after u split found closed reads
    rw [split, run_append, found] at reached
    exact gated_to_the_end reached closed reads

/-- The step reads no backend, and every handle that it issues is of an unexpired cached value. -/
def Closed (s t : System) : Prop :=
  (∀ (i : Nat) (before after : Broker.Call), s.broker.calls[i]? = some before →
    t.broker.calls[i]? = some after → after.seen = before.seen) ∧
  ∀ entry ∈ t.broker.handles.drop s.broker.handles.length, ∃ expiresAt,
    s.broker.cache entry.ref.text = some (entry.value, expiresAt) ∧ s.broker.now ≤ expiresAt

def prompt : Config := ⟨0, 30, true⟩

def inFlight : List Event :=
  [.call (.start .get Broker.plainRef ['u']), .poll ⟨.failing, 5⟩]

theorem read_in_flight : ∃ s t u,
    run (System.step prompt Broker.plainBackends) (.initial Broker.oneStored 0) inFlight = some s ∧
      s.broker.degraded = true ∧
      s.step prompt Broker.plainBackends (.call (.effect 0)) = some t ∧ ¬ Closed s t ∧
      t.broker.degraded = true ∧
      t.step prompt Broker.plainBackends (.call (.resume 0)) = some u ∧ ¬ Closed t u := by
  refine ⟨_, _, _, rfl, rfl, rfl, fun closed => ?_, rfl, rfl, fun closed => ?_⟩
  · exact absurd (closed.1 0 _ _ rfl rfl) (by decide)
  · obtain ⟨expiresAt, held, -⟩ := closed.2 _ List.mem_cons_self
    cases held

theorem refused_and_recovered : ∃ s,
    run (System.step prompt Broker.plainBackends) (.initial Broker.oneStored 0)
        [.poll ⟨.sealed, 5⟩, .call (.start .get Broker.plainRef ['u']), .poll ⟨.unsealed, 6⟩,
          .poll ⟨.unsealed, 30000006⟩] = some s ∧
      Alternate s.published ∧ ∃ call, s.broker.calls[0]? = some call ∧ Gated call := by
  obtain ⟨-, -, -, -, -, alternate, -, gate⟩ := sealed_mode prompt Broker.plainBackends
    Broker.oneStored 0 [.poll ⟨.sealed, 5⟩, .call (.start .get Broker.plainRef ['u']),
      .poll ⟨.unsealed, 6⟩, .poll ⟨.unsealed, 30000006⟩] _ rfl (by decide)
  obtain ⟨call, there, gated, -⟩ := gate [.poll ⟨.sealed, 5⟩] .get Broker.plainRef ['u'] _ _ rfl rfl
    rfl (fun _ => Broker.Kind.noConfusion)
  exact ⟨_, rfl, alternate, call, there, gated⟩

end HlHelper.Secrets.Sealed
