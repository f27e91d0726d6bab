import HlHelper.Secrets.Freshness
import HlHelper.Secrets.Reveal

/-! Plaintext leaves the broker only through controlled reveals, none of which is recorded. -/

namespace HlHelper.Secrets.Broker

open HlHelper.Library

/-- The get that was issued a handle has read the value that the store holds. -/
def IssuedBy (calls : List Call) (id : Nat) (entry : HandleEntry) : Prop :=
  ∃ call ∈ calls, call.kind = .get ∧ call.handle = some id ∧ call.ref = entry.ref ∧
    call.requester = entry.requester ∧ call.value = entry.value

/-- What a reveal has gone through that found a value at a time. -/
structure Disclosed (w : World) (call : RevealCall) (value : Bytes) (found : Int) : Prop where
  recent : call.recent = some true
  entry : ∃ entry, w.broker.handles[call.handle.id]? = some entry ∧
    entry.requester = call.requester ∧ found ≤ entry.expiresAt ∧ entry.value = value ∧
      IssuedBy w.broker.calls call.handle.id entry

/-- Only reveals return plaintext, and those that do have gone through all checks. -/
structure Controlled (w : World) : Prop where
  only : ∀ call ∈ w.broker.calls, ∀ value,
    call.result w.broker.handles ≠ some (.plaintext value)
  reveals : ∀ call ∈ w.reveals, ∀ value, call.result = some (.plaintext value) →
    ∃ found, Disclosed w call value found

def Operation.names (operation : Operation) (entry : Audit.AuditEntry) : Bool :=
  entry.actor = String.ofList operation.requester && entry.action = operation.action &&
    entry.subject = some (String.ofList operation.subject)

/-- Disclosure is controlled, up to the moment that a reveal returns, and every operation has left
its entries, one for each time that it was done. -/
structure ControlledAndRecorded (w : World) : Prop extends Controlled w where
  timely : ∀ call ∈ w.reveals, ∀ value found now, call.phase = .returned value found now →
    ∀ entry, w.broker.handles[call.handle.id]? = some entry → now ≤ entry.expiresAt
  recorded : ∀ operation, (w.chain.filter operation.names).length = w.done.count operation

/-- The operation whose append comes back with an event. -/
def World.operation (w : World) : Event → Option Operation
  | .broker step => (w.brokerRecord step).map Prod.fst
  | .resume index => ((w.reveals[index]?).bind RevealCall.record).map Prod.fst
  | .reveal _ _ | .answer _ _ | .fail _ => none

/-- The event does not bring a call back from its append. -/
def Unrecorded (w : World) (event : Event) : Prop := w.operation event = none

instance (w : World) (event : Event) : Decidable (Unrecorded w event) :=
  inferInstanceAs (Decidable (_ = _))

def Keeps (old new : Call) : Prop := ∀ id, old.handle = some id →
  new.handle = some id ∧ new.kind = old.kind ∧ new.ref = old.ref ∧
    new.requester = old.requester ∧ new.value = old.value

structure Issues (s : State) : Prop where
  unissued : ∀ call ∈ s.calls, call.phase = .reading ∨ call.phase = .read → call.handle = none
  issued : ∀ (id : Nat) entry, s.handles[id]? = some entry → IssuedBy s.calls id entry

section Issue

variable {backends : Backends} {s t : State} {move : Step}

theorem keeps_self (call : Call) : Keeps call call := fun _ held => ⟨held, rfl, rfl, rfl, rfl⟩

theorem IssuedBy.onward {before after : List Call} {id : Nat} {entry : HandleEntry}
    (onward : Onward Keeps before after) (issued : IssuedBy before id entry) :
    IssuedBy after id entry := by
  obtain ⟨old, member, kind, handle, ref, requester, value⟩ := issued
  obtain ⟨new, there, keeps⟩ := onward.mem member
  obtain ⟨held, same_kind, same_ref, same_requester, same_value⟩ := keeps id handle
  exact ⟨new, there, same_kind.trans kind, held, same_ref.trans ref,
    same_requester.trans requester, same_value.trans value⟩

theorem Issues.onward (issues : Issues s) (onward : Onward Keeps s.calls t.calls)
    (handles : t.handles = s.handles)
    (unissued : ∀ call ∈ t.calls, call ∉ s.calls → call.phase = .reading ∨ call.phase = .read →
      call.handle = none) : Issues t := by
  constructor
  · intro call member waits
    by_cases old : call ∈ s.calls
    · exact issues.unissued call old waits
    · exact unissued call member old waits
  · intro id entry there
    rw [handles] at there
    exact (issues.issued id entry there).onward onward

theorem Issues.issue (issues : Issues s) {call : Call} (onward : Onward Keeps s.calls t.calls)
    (member : call ∈ t.calls) (kind : call.kind = .get)
    (handle : call.handle = some s.handles.length)
    (handles : t.handles = s.handles ++ [⟨call.ref, call.value, call.requester, s.now + 60⟩])
    (unissued : ∀ other ∈ t.calls, other ∈ s.calls ∨ other.phase = .auditing) : Issues t := by
  constructor
  · intro other there waits
    rcases unissued other there with old | auditing
    · exact issues.unissued other old waits
    · rw [auditing] at waits
      rcases waits with wrong | wrong <;> cases wrong
  · intro id entry there
    rw [handles] at there
    by_cases old : id < s.handles.length
    · rw [List.getElem?_append_left old] at there
      exact (issues.issued id entry there).onward onward
    · obtain ⟨rfl, rfl⟩ := getElem?_concat_of_le there (Nat.le_of_not_lt old)
      exact ⟨call, member, kind, handle, rfl, rfl, rfl⟩

theorem Issues.set (issues : Issues s) {index : Nat} {old new : Call}
    (turn : s.calls[index]? = some old) (keeps : Keeps old new)
    (calls : t.calls = s.calls.set index new) (handles : t.handles = s.handles)
    (unissued : new.phase = .reading ∨ new.phase = .read → new.handle = none) : Issues t := by
  refine issues.onward ?_ handles ?_
  · rw [calls]
    exact Onward.set keeps_self turn keeps
  · rw [calls]
    intro call member fresh
    rcases List.mem_or_eq_of_mem_set member with there | rfl
    · exact absurd there fresh
    · exact unissued

theorem Issues.step (issues : Issues s) (happens : Happens backends s move t) : Issues t := by
  cases happens with
  | @hit ref requester value expiresAt held =>
    refine @Issues.issue s _ issues
      ⟨.get, ref, requester, .auditing, value, none, none, some s.handles.length⟩
      (Onward.append keeps_self _ _) (List.mem_append_right _ (List.mem_singleton_self _)) rfl rfl
      rfl ?_
    intro other member
    rcases List.mem_append.mp member with old | new
    · exact .inl old
    · exact .inr (List.mem_singleton.mp new ▸ rfl)
  | @opened kind ref requester phase value s' popped opens =>
    have same : s'.calls = s.calls ∧ s'.handles = s.handles := by
      rcases popped with rfl | rfl
      · exact ⟨rfl, rfl⟩
      · exact ⟨rfl, rfl⟩
    refine issues.onward ?_ same.2 ?_
    · rw [State.push, same.1]
      exact Onward.append keeps_self _ _
    · intro call member fresh _
      rw [State.push, same.1] at member
      rcases List.mem_append.mp member with old | new
      · exact absurd old fresh
      · exact List.mem_singleton.mp new ▸ rfl
  | @reads index call place value turn found phase last =>
    have unissued := issues.unissued call (List.mem_of_getElem? turn) (.inl phase)
    refine issues.set turn ?_ rfl rfl (fun _ => unissued)
    intro id held
    cases unissued.symm.trans held
  | writes turn found phase =>
    refine issues.set turn ?_ rfl rfl ?_
    · exact fun _ held => ⟨held, rfl, rfl, rfl, rfl⟩
    · rintro (wrong | wrong) <;> cases wrong
  | @fills index call turn phase kind =>
    have unissued := issues.unissued call (List.mem_of_getElem? turn) (.inr phase)
    have inside := (List.getElem?_eq_some_iff.mp turn).1
    refine @Issues.issue s _ issues
      { call with phase := .auditing, handle := some s.handles.length }
      (Onward.set keeps_self turn ?_) (List.mem_set inside _) kind rfl rfl ?_
    · intro id held
      cases unissued.symm.trans held
    · intro other member
      rcases List.mem_or_eq_of_mem_set member with old | rfl
      · exact .inl old
      · exact .inr rfl
  | invalidates turn phase =>
    refine issues.set turn ?_ rfl rfl ?_
    · exact fun _ held => ⟨held, rfl, rfl, rfl, rfl⟩
    · rintro (wrong | wrong) <;> cases wrong
  | relabels own turn change =>
    refine issues.set turn ?_ rfl rfl ?_
    · exact fun _ held => ⟨held, rfl, rfl, rfl, rfl⟩
    · rintro (rfl | rfl)
      · rcases change with ⟨wrong, _⟩ | ⟨wrong | wrong, _⟩ | wrong <;> cases wrong
      · rcases change with ⟨wrong, _⟩ | ⟨wrong | wrong, _⟩ | wrong <;> cases wrong
  | clock => exact ⟨issues.unissued, issues.issued⟩
  | degrade => exact ⟨issues.unissued, issues.issued⟩

theorem handles_of_happens (happens : Happens backends s move t) : s.handles <+: t.handles := by
  cases happens with
  | opened popped _ => rcases popped with rfl | rfl <;> exact List.prefix_rfl
  | hit _ => exact List.prefix_append _ _
  | fills _ _ _ => exact List.prefix_append _ _
  | _ => exact List.prefix_rfl

end Issue

section Reveal

variable {c : Config} {w v : World} {event : Event}

/-- What a call of `reveal` that has found a value, or returned it, has gone through. -/
def Found (w : World) (call : RevealCall) : Prop := ∀ value found,
  call.phase = .auditing value found ∨ (∃ now, call.phase = .returned value found now) →
    call.recent = some true ∧ ∃ entry, w.broker.handles[call.handle.id]? = some entry ∧
      entry.requester = call.requester ∧ found ≤ entry.expiresAt ∧ entry.value = value

structure Held (w : World) : Prop where
  issues : Issues w.broker
  reveals : ∀ call ∈ w.reveals, Found w call
  returned : ∀ call ∈ w.reveals, ∀ value found now, call.phase = .returned value found now →
    w.done ≠ []
  chain : w.chain = []

theorem held_initial (stored : Place → List Bytes) (now : Int) : Held (.initial stored now) where
  issues :=
    { unissued := fun _ member => (List.not_mem_nil member).elim
      issued := by
        intro id entry there
        cases there }
  reveals := fun _ member => (List.not_mem_nil member).elim
  returned := fun _ member => (List.not_mem_nil member).elim
  chain := rfl

theorem stepBroker_eq {move : Step} (stepped : w.stepBroker c move = some v) :
    ∃ broker, w.broker.step c.backends move = some broker ∧
      v = { w with
        broker := broker
        done := w.done ++ ((w.brokerRecord move).map Prod.fst).toList } := by
  obtain ⟨broker, moves, rfl⟩ := Option.map_eq_some_iff.mp stepped
  refine ⟨broker, moves, ?_⟩
  cases w.brokerRecord move with
  | none => simp
  | some record => rfl

theorem lookup_cases (w : World) (handle : SecretHandle) (requester : Name) :
    (∃ popped, w.lookup handle requester = (none, { w with popped := popped })) ∨
      ∃ entry, w.lookup handle requester = (some entry.value, w) ∧
        w.broker.handles[handle.id]? = some entry ∧ entry.requester = requester ∧
          w.broker.now ≤ entry.expiresAt := by
  unfold World.lookup
  cases there : w.broker.handles[handle.id]? with
  | none => exact .inl ⟨w.popped, rfl⟩
  | some entry =>
    dsimp only
    split
    · exact .inl ⟨w.popped, rfl⟩
    · split
      · exact .inl ⟨w.popped, rfl⟩
      · next same =>
        split
        · exact .inl ⟨_, rfl⟩
        · next unexpired =>
          exact .inr ⟨entry, rfl, rfl, not_ne_iff.mp same, not_lt.mp unexpired⟩

theorem answered_cases (w : World) (index : Nat) (call : RevealCall) (recent : Bool) :
    ∃ popped phase, w.answered index call recent =
      { w with
        popped := popped
        reveals := w.reveals.set index { call with phase := phase, recent := some recent } } ∧
      (phase = .failed ∨ recent = true ∧ ∃ entry,
        w.broker.handles[call.handle.id]? = some entry ∧ entry.requester = call.requester ∧
          w.broker.now ≤ entry.expiresAt ∧ phase = .auditing entry.value w.broker.now) := by
  cases recent with
  | false => exact ⟨w.popped, .failed, rfl, .inl rfl⟩
  | true =>
    unfold World.answered
    rcases lookup_cases w call.handle call.requester with
      ⟨popped, lost⟩ | ⟨entry, met, there, requester, unexpired⟩
    · rw [lost]
      exact ⟨popped, .failed, rfl, .inl rfl⟩
    · rw [met]
      exact ⟨w.popped, _, rfl, .inr ⟨rfl, entry, there, requester, unexpired, rfl⟩⟩

theorem resumed_eq {index : Nat} {call : RevealCall} (goes : w.resumed c index call = some v) :
    ∃ value found operation, call.phase = .auditing value found ∧
      call.record.map Prod.fst = some operation ∧
      v = { w with
        done := w.done ++ [operation]
        reveals := w.reveals.set index
          { call with phase := .returned value found w.broker.now } } := by
  unfold World.resumed at goes
  split at goes
  · next value found operation payload phase record =>
    cases goes
    exact ⟨value, found, operation, phase, congrArg (Option.map Prod.fst) record, rfl⟩
  · cases goes

theorem step_done (stepped : w.step c event = some v) :
    v.done = w.done ++ (w.operation event).toList := by
  cases event with
  | broker move =>
    obtain ⟨broker, _, rfl⟩ := stepBroker_eq stepped
    rfl
  | reveal handle requester =>
    cases stepped
    exact (List.append_nil _).symm
  | answer index recent =>
    obtain ⟨call, _, goes⟩ := Option.bind_eq_some_iff.mp stepped
    split at goes
    · cases goes
      obtain ⟨popped, phase, answered, _⟩ := answered_cases w index call recent
      rw [answered]
      exact (List.append_nil _).symm
    · cases goes
  | resume index =>
    obtain ⟨call, there, goes⟩ := Option.bind_eq_some_iff.mp stepped
    obtain ⟨value, found, operation, _, record, rfl⟩ := resumed_eq goes
    simp only [World.operation, there, Option.bind_some, record, Option.toList_some]
  | fail index =>
    obtain ⟨call, _, goes⟩ := Option.bind_eq_some_iff.mp stepped
    split at goes
    · cases goes
      exact (List.append_nil _).symm
    · cases goes
      exact (List.append_nil _).symm
    · cases goes
    · cases goes

theorem Found.kept {call : RevealCall} (found : Found w call)
    (grows : w.broker.handles <+: v.broker.handles) : Found v call := by
  intro value at_time phase
  obtain ⟨recent, entry, there, rest⟩ := found value at_time phase
  exact ⟨recent, entry, getElem?_of_prefix grows there, rest⟩

theorem Held.next (held : Held w) (broker : v.broker = w.broker) (chain : v.chain = w.chain)
    (done : w.done ≠ [] → v.done ≠ [])
    (reveals : ∀ call ∈ v.reveals, call ∈ w.reveals ∨ Found w call ∧
      ∀ value found now, call.phase = .returned value found now → v.done ≠ []) : Held v := by
  refine ⟨broker ▸ held.issues, ?_, ?_, chain.trans held.chain⟩
  · intro call member
    have grows : w.broker.handles <+: v.broker.handles := by rw [broker]
    rcases reveals call member with old | ⟨found, _⟩
    · exact (held.reveals call old).kept grows
    · exact found.kept grows
  · intro call member value found now phase
    rcases reveals call member with old | ⟨_, returned⟩
    · exact done (held.returned call old value found now phase)
    · exact returned value found now phase

theorem found_failed {call : RevealCall} (failed : call.phase = .failed) : Found w call := by
  rintro value found (phase | ⟨now, phase⟩) <;> cases failed.symm.trans phase

theorem Held.step (held : Held w) (stepped : w.step c event = some v) : Held v := by
  have logged := step_done stepped
  have grown : w.done ≠ [] → v.done ≠ [] := by
    intro some none
    rw [none] at logged
    exact some (List.append_eq_nil_iff.mp logged.symm).1
  cases event with
  | broker move =>
    obtain ⟨broker, moves, rfl⟩ := stepBroker_eq stepped
    have happens := happens_of_step moves
    refine ⟨held.issues.step happens, ?_, ?_, held.chain⟩
    · intro call member
      exact (held.reveals call member).kept (handles_of_happens happens)
    · intro call member value found now phase
      exact grown (held.returned call member value found now phase)
  | reveal handle requester =>
    cases stepped
    refine held.next rfl rfl grown ?_
    intro call member
    rcases List.mem_append.mp member with old | new
    · exact .inl old
    · obtain rfl := List.mem_singleton.mp new
      refine .inr ⟨?_, ?_⟩
      · rintro value found (phase | ⟨now, phase⟩)
        all_goals cases configured : c.mfaRecencyCheck <;> simp [configured] at phase
      · intro value found now phase
        cases configured : c.mfaRecencyCheck <;> simp [configured] at phase
  | answer index recent =>
    obtain ⟨call, there, goes⟩ := Option.bind_eq_some_iff.mp stepped
    split at goes
    · cases goes
      obtain ⟨popped, phase, answered, outcome⟩ := answered_cases w index call recent
      rw [answered] at grown ⊢
      refine held.next rfl rfl grown ?_
      intro other member
      rcases List.mem_or_eq_of_mem_set member with old | rfl
      · exact .inl old
      rcases outcome with rfl | ⟨rfl, entry, stored, requester, unexpired, rfl⟩
      · exact .inr ⟨found_failed rfl, nofun⟩
      · refine .inr ⟨?_, nofun⟩
        rintro value found (phase | ⟨now, phase⟩)
        · obtain ⟨rfl, rfl⟩ := RevealPhase.auditing.inj phase
          exact ⟨rfl, entry, stored, requester, unexpired, rfl⟩
        · cases phase
    · cases goes
  | resume index =>
    obtain ⟨call, there, goes⟩ := Option.bind_eq_some_iff.mp stepped
    obtain ⟨value, found, operation, auditing, _, rfl⟩ := resumed_eq goes
    refine held.next rfl rfl grown ?_
    intro other member
    rcases List.mem_or_eq_of_mem_set member with old | rfl
    · exact .inl old
    · refine .inr ⟨?_, fun _ _ _ _ => List.append_ne_nil_of_right_ne_nil _ nofun⟩
      rintro read at_time (phase | ⟨now, phase⟩)
      · cases phase
      · obtain ⟨rfl, rfl, -⟩ := RevealPhase.returned.inj phase
        exact held.reveals call (List.mem_of_getElem? there) value found (.inl auditing)
  | fail index =>
    have failed : ∀ call : RevealCall, w.moved index { call with phase := .failed } = v →
        Held v := by
      rintro call rfl
      refine held.next rfl rfl grown ?_
      intro other member
      rcases List.mem_or_eq_of_mem_set member with old | rfl
      · exact .inl old
      · exact .inr ⟨found_failed rfl, nofun⟩
    obtain ⟨call, _, goes⟩ := Option.bind_eq_some_iff.mp stepped
    split at goes
    · exact failed call (Option.some.inj goes)
    · exact failed call (Option.some.inj goes)
    · cases goes
    · cases goes

theorem result_not_plaintext (handles : List HandleEntry) (call : Call) (value : Bytes) :
    call.result handles ≠ some (.plaintext value) := by
  unfold Call.result
  split
  · intro same
    obtain ⟨id, _, issued⟩ := Option.bind_eq_some_iff.mp same
    obtain ⟨entry, _, wrong⟩ := Option.map_eq_some_iff.mp issued
    cases wrong
  · nofun
  · nofun

theorem returned_of_result {call : RevealCall} {value : Bytes}
    (result : call.result = some (.plaintext value)) :
    ∃ found now, call.phase = .returned value found now := by
  unfold RevealCall.result at result
  split at result
  · next returned found now phase =>
    obtain rfl := Result.plaintext.inj (Option.some.inj result)
    exact ⟨found, now, phase⟩
  · cases result

theorem Held.controlled (held : Held w) : Controlled w where
  only := fun call _ value => result_not_plaintext w.broker.handles call value
  reveals := by
    intro call member value result
    obtain ⟨found, now, phase⟩ := returned_of_result result
    obtain ⟨recent, entry, there, requester, unexpired, same⟩ :=
      held.reveals call member value found (.inr ⟨now, phase⟩)
    exact ⟨found, recent, entry, there, requester, unexpired, same,
      held.issues.issued call.handle.id entry there⟩

theorem Held.recorded_iff (held : Held w) :
    (∀ operation : Operation, (w.chain.filter operation.names).length = w.done.count operation) ↔
      w.done = [] := by
  rw [held.chain]
  constructor
  · intro recorded
    rw [List.eq_nil_iff_forall_not_mem]
    intro operation member
    have counted := recorded operation
    have some := List.count_pos_iff.mpr member
    rw [← counted] at some
    exact Nat.lt_irrefl 0 some
  · intro none operation
    rw [none]
    rfl

theorem Held.claimed_iff (held : Held w) : ControlledAndRecorded w ↔ w.done = [] := by
  constructor
  · intro claimed
    exact held.recorded_iff.mp claimed.recorded
  · intro none
    refine ⟨held.controlled, ?_, held.recorded_iff.mpr none⟩
    intro call member value found now phase
    exact absurd none (held.returned call member value found now phase)

theorem run_done {events : List Event} (reached : run (World.step c) w events = some v) :
    v.done = [] ↔ w.done = [] ∧ Meets (World.step c) Unrecorded w events := by
  induction events generalizing w with
  | nil =>
    obtain rfl : w = v := by simpa [run] using reached
    exact ⟨fun none => ⟨none, trivial⟩, And.left⟩
  | cons event events ih =>
    obtain ⟨u, stepped, rest⟩ := run_cons_eq_some.mp reached
    have logged : u.done = [] ↔ w.done = [] ∧ Unrecorded w event := by
      rw [step_done stepped, List.append_eq_nil_iff, Option.toList_eq_nil_iff]
      rfl
    rw [ih rest, logged]
    constructor
    · rintro ⟨⟨none, here⟩, later⟩
      refine ⟨none, here, ?_⟩
      intro t other
      obtain rfl := Option.some.inj (stepped.symm.trans other)
      exact later
    · rintro ⟨none, here, later⟩
      exact ⟨⟨none, here⟩, later u stepped⟩

end Reveal

/-- In every run the reveals are controlled, and the record holds as long as no call has come back
from its append. -/
theorem disclosure_unrecorded (c : Config) (stored : Place → List Bytes) (now : Int)
    (events : List Event) (w : World)
    (reached : run (World.step c) (.initial stored now) events = some w) :
    Controlled w ∧ (ControlledAndRecorded w ↔
      Meets (World.step c) Unrecorded (.initial stored now) events) := by
  have held := run_preserves (fun _ _ _ held stepped => Held.step held stepped)
    (held_initial stored now) reached
  refine ⟨held.controlled, ?_⟩
  rw [held.claimed_iff, run_done reached]
  exact ⟨And.right, fun met => ⟨rfl, met⟩⟩

section Example

def plainConfig : Config :=
  ⟨plainBackends, .head, fun _ => default, true⟩

def plainHandle : SecretHandle := ⟨0, plainRef, 60, ['u']⟩

def revealed : List Event :=
  [.broker (.start .get plainRef ['u']), .broker (.effect 0), .broker (.resume 0),
    .broker (.resume 0), .reveal plainHandle ['u'], .answer 0 true, .resume 0,
    .broker (.start .rotate plainRef ['u']), .broker (.effect 1), .broker (.resume 1),
    .broker (.effect 1), .broker (.resume 1), .broker (.resume 1), .broker (.resume 1)]

theorem revealed_controlled : ∃ w, run (World.step plainConfig) (.initial oneStored 0) revealed =
    some w ∧ Controlled w ∧ (ControlledAndRecorded w ↔
      Meets (World.step plainConfig) Unrecorded (.initial oneStored 0) revealed) :=
  ⟨_, rfl, disclosure_unrecorded plainConfig oneStored 0 revealed _ rfl⟩

theorem revealed_unrecorded :
    ∃ w, run (World.step plainConfig) (.initial oneStored 0) revealed = some w ∧
      w.reveals.map RevealCall.result = [some (.plaintext [0])] ∧ w.done.length = 4 ∧
      ¬ ControlledAndRecorded w := by
  refine ⟨_, rfl, by decide +kernel, by decide +kernel, ?_⟩
  intro claimed
  have counted := claimed.recorded ⟨['u'], "secret.revealed", plainRef.text⟩
  revert counted
  decide +kernel

end Example

end HlHelper.Secrets.Broker
