import HlHelper.Library.Slots
import HlHelper.Secrets.Broker
import Mathlib.Order.Basic

/-! When the broker's reads see completed writes: no cache fill and no rotation may be
overtaken between its backend read and its next step. -/

namespace HlHelper.Secrets.Broker

open HlHelper.Library

variable {backends : Backends}

/-- What one step does to the calls, the cache and the stored values. -/
inductive Happens (backends : Backends) (s : State) : Step → State → Prop where
  | hit {ref requester value expiresAt} : s.cache ref.text = some (value, expiresAt) →
      Happens backends s (.start .get ref requester)
        ((s.issue ref value requester).push
          ⟨.get, ref, requester, .auditing, value, none, none, some s.handles.length⟩)
  | opened {kind ref requester phase value} {s' : State} :
      s' = s ∨ s' = s.invalidate ref →
      phase = .reading ∨ phase = .writing ∧ kind ≠ .rotate ∨ phase = .failed →
      Happens backends s (.start kind ref requester)
        (s'.push ⟨kind, ref, requester, phase, value, none, none, none⟩)
  | reads {index call place value} : s.calls[index]? = some call →
      placeOf backends call.ref = some place → call.phase = .reading →
      (s.stored place).getLast? = some value →
      Happens backends s (.effect index)
        (s.moved index
          { call with
            phase := .read
            value := value
            seen := some ((s.stored place).length - 1) })
  | writes {index call place} : s.calls[index]? = some call →
      placeOf backends call.ref = some place → call.phase = .writing →
      Happens backends s (.effect index)
        { s.moved index
            { call with phase := .wrote, wroteAt := some (s.stored place).length } with
          stored := fun other =>
            if other = place then s.stored place ++ [call.value] else s.stored other }
  | fills {index call} : s.calls[index]? = some call → call.phase = .read → call.kind = .get →
      Happens backends s (.resume index)
        (((s.remember call.ref call.value).issue call.ref call.value call.requester).moved index
          { call with phase := .auditing, handle := some s.handles.length })
  | invalidates {index call} : s.calls[index]? = some call → call.phase = .wrote →
      Happens backends s (.resume index)
        ((s.invalidate call.ref).moved index { call with phase := .auditing })
  | relabels {step index call phase} :
      step = .effect index ∨ step = .resume index ∨ step = .fail index →
      s.calls[index]? = some call →
      phase = .writing ∧ call.phase = .read ∨
        (phase = .auditingRotate ∨ phase = .done) ∧ call.Settled ∨ phase = .failed →
      Happens backends s step (s.moved index { call with phase := phase })
  | clock {now} : Happens backends s (.clock now) { s with now := now }
  | degrade {degraded} : Happens backends s (.degrade degraded) { s with degraded := degraded }

variable {s t : State} {index : Nat} {call new : Call} {step : Step}

theorem rawGet_cases (s : State) (ref : SecretRef) :
    s.rawGet backends ref = .reading ∨ s.rawGet backends ref = .failed := by
  unfold State.rawGet
  split
  · exact .inr rfl
  · split
    · exact .inr rfl
    · exact .inl rfl

theorem happens_start (s : State) (kind : Kind) (ref : SecretRef) (requester : Name) :
    Happens backends s (.start kind ref requester) (s.start backends kind ref requester) := by
  have asking : ∀ s' : State, s'.rawGet backends ref = .reading ∨
      s'.rawGet backends ref = .writing ∧ kind ≠ .rotate ∨
        s'.rawGet backends ref = .failed := fun s' =>
    (rawGet_cases s' ref).imp_right .inr
  cases kind with
  | get =>
    simp only [State.start, State.cached]
    cases held : s.cache ref.text with
    | none => exact .opened (.inl rfl) (asking s)
    | some entry =>
      obtain ⟨value, expiresAt⟩ := entry
      by_cases expired : expiresAt < s.now
      · simp only [expired, if_true]
        exact .opened (.inr rfl) (asking (s.invalidate ref))
      · simp only [expired, if_false]
        exact .hit held
  | put value =>
    simp only [State.start]
    refine .opened (.inl rfl) ?_
    split
    · exact .inr (.inr rfl)
    · exact .inr (.inl ⟨rfl, nofun⟩)
  | rotate => exact .opened (.inl rfl) (asking s)

theorem happens_effect (turn : s.calls[index]? = some call)
    (stepped : s.effect backends index call = some t) : Happens backends s (.effect index) t := by
  unfold State.effect at stepped
  split at stepped
  · next place found phase =>
    split at stepped
    · cases stepped
      exact .relabels (.inl rfl) turn (.inr (.inr rfl))
    · next value last =>
      cases stepped
      exact .reads turn found phase last
  · next place found phase =>
    cases stepped
    exact .writes turn found phase
  · exact absurd stepped (by simp)

theorem happens_resume (turn : s.calls[index]? = some call)
    (stepped : s.resume backends index call = some t) : Happens backends s (.resume index) t := by
  have settled : call.phase = .auditing ∨ call.phase = .auditingRotate → call.Settled :=
    Or.imp_right .inl
  have resumed : Step.resume index = .effect index ∨ Step.resume index = .resume index ∨
      Step.resume index = .fail index := .inr (.inl rfl)
  unfold State.resume at stepped
  split at stepped
  · next phase kind =>
    cases stepped
    exact .fills turn phase kind
  · next phase kind =>
    cases stepped
    refine .relabels resumed turn ?_
    split
    · exact .inr (.inr rfl)
    · exact .inl ⟨rfl, phase⟩
  · next phase =>
    cases stepped
    exact .invalidates turn phase
  · next phase kind =>
    cases stepped
    exact .relabels resumed turn (.inr (.inl ⟨.inl rfl, settled (.inl phase)⟩))
  · next phase _ =>
    cases stepped
    exact .relabels resumed turn (.inr (.inl ⟨.inr rfl, settled (.inl phase)⟩))
  · next phase =>
    cases stepped
    exact .relabels resumed turn (.inr (.inl ⟨.inr rfl, settled (.inr phase)⟩))
  · exact absurd stepped (by simp)

theorem happens_of_step (stepped : s.step backends step = some t) : Happens backends s step t := by
  cases step with
  | start kind ref requester =>
    cases stepped
    exact happens_start s kind ref requester
  | effect index =>
    obtain ⟨call, turn, moved⟩ := Option.bind_eq_some_iff.mp stepped
    exact happens_effect turn moved
  | resume index =>
    obtain ⟨call, turn, moved⟩ := Option.bind_eq_some_iff.mp stepped
    exact happens_resume turn moved
  | fail index =>
    obtain ⟨call, turn, moved⟩ := Option.bind_eq_some_iff.mp stepped
    unfold State.fail at moved
    split at moved
    · exact absurd moved (by simp)
    · cases moved
      exact .relabels (.inr (.inr rfl)) turn (.inr (.inr rfl))
  | clock now =>
    cases stepped
    exact .clock
  | degrade degraded =>
    cases stepped
    exact .degrade

/-- Two refs share their cache entry exactly when they name one place. -/
def Agree (backends : Backends) (ref other : SecretRef) : Prop :=
  ∀ place ∈ placeOf backends ref, ∀ second ∈ placeOf backends other,
    (ref.text = other.text ↔ place = second)

instance (backends : Backends) (ref other : SecretRef) : Decidable (Agree backends ref other) :=
  inferInstanceAs (Decidable (∀ place ∈ placeOf backends ref, _))

/-- A write that came after the call's read has already invalidated the cache. -/
def Overtaken (backends : Backends) (s : State) (call : Call) : Prop :=
  ∃ other ∈ s.calls, other.Settled ∧ placeOf backends other.ref = placeOf backends call.ref ∧
    ∃ n ∈ call.seen, ∃ m ∈ other.wroteAt, n < m

instance (backends : Backends) (s : State) (call : Call) :
    Decidable (Overtaken backends s call) :=
  inferInstanceAs (Decidable (∃ other ∈ s.calls, _))

/-- The step neither fills the cache with what has been overtaken, nor writes back what has
been written over, nor starts on a ref whose cache entry is another place's. -/
def Careful (backends : Backends) (s : State) : Step → Prop
  | .start _ ref _ => ∀ call ∈ s.calls, Agree backends call.ref ref
  | .effect index =>
    ∀ call ∈ s.calls[index]?, call.kind = .rotate → call.phase = .writing →
      ∀ place ∈ placeOf backends call.ref, ∀ n ∈ call.seen, (s.stored place).length = n + 1
  | .resume index =>
    ∀ call ∈ s.calls[index]?, call.kind = .get → call.phase = .read →
      ¬ Overtaken backends s call
  | _ => True

instance (backends : Backends) (s : State) : ∀ step, Decidable (Careful backends s step)
  | .start _ _ _ => inferInstanceAs (Decidable (∀ call ∈ s.calls, _))
  | .effect index => inferInstanceAs (Decidable (∀ call ∈ s.calls[index]?, _))
  | .resume index => inferInstanceAs (Decidable (∀ call ∈ s.calls[index]?, _))
  | .fail _ => .isTrue trivial
  | .clock _ => .isTrue trivial
  | .degrade _ => .isTrue trivial

def CarefulRun (backends : Backends) (s : State) (steps : List Step) : Prop :=
  Meets (State.step backends) (Careful backends) s steps

instance (backends : Backends) (s : State) (steps : List Step) :
    Decidable (CarefulRun backends s steps) :=
  inferInstanceAs (Decidable (Meets (State.step backends) (Careful backends) s steps))

structure CallOk (backends : Backends) (stored : Place → List Bytes) (call : Call) : Prop where
  read : call.phase = .read → ∃ place n, placeOf backends call.ref = some place ∧
    call.seen = some n ∧ (stored place)[n]? = some call.value
  unwritten : call.phase = .reading ∨ call.phase = .read → call.wroteAt = none
  wrote : ∀ place n, placeOf backends call.ref = some place → call.wroteAt = some n →
    n < (stored place).length
  rotated : call.kind = .rotate → ∀ n m, call.seen = some n → call.wroteAt = some m → m = n + 1

/-- A value of a place that no settled write of the place is newer than. -/
def Serves (backends : Backends) (s : State) (key : Name) (value : Bytes) : Prop :=
  ∃ call ∈ s.calls, call.ref.text = key ∧ ∃ place n, placeOf backends call.ref = some place ∧
    (s.stored place)[n]? = some value ∧
      ∀ writer ∈ s.calls, writer.Settled → placeOf backends writer.ref = some place →
        ∀ m, writer.wroteAt = some m → m ≤ n

structure Sound (backends : Backends) (s : State) : Prop where
  calls : ∀ call ∈ s.calls, CallOk backends s.stored call
  cache : ∀ key value expiresAt, s.cache key = some (value, expiresAt) →
    Serves backends s key value
  agree : ∀ call ∈ s.calls, ∀ other ∈ s.calls, Agree backends call.ref other.ref

def Grows (s t : State) : Prop := ∀ place, s.stored place <+: t.stored place

theorem getElem?_of_prefix {α : Type*} {first last : List α} (grows : first <+: last) {n : Nat}
    {value : α} (held : first[n]? = some value) : last[n]? = some value := by
  obtain ⟨rest, rfl⟩ := grows
  rw [List.getElem?_append_left (List.getElem?_eq_some_iff.mp held).1, held]

theorem CallOk.grown (ok : CallOk backends s.stored call) (grows : Grows s t) :
    CallOk backends t.stored call where
  __ := ok
  read phase := by
    obtain ⟨place, n, found, seen, held⟩ := ok.read phase
    exact ⟨place, n, found, seen, getElem?_of_prefix (grows place) held⟩
  wrote place n found wrote := (ok.wrote place n found wrote).trans_le (grows place).length_le

theorem Serves.kept {key : Name} {value : Bytes} (serves : Serves backends s key value)
    (grows : Grows s t) (used : ∀ call ∈ s.calls, ∃ later ∈ t.calls, later.ref = call.ref)
    (writers : ∀ writer ∈ t.calls, writer.Settled → ∀ m, writer.wroteAt = some m →
      (∃ before ∈ s.calls, before.Settled ∧ before.ref = writer.ref ∧ before.wroteAt = some m) ∨
        ∀ call ∈ s.calls, call.ref.text = key → ∀ place,
          placeOf backends call.ref = some place → placeOf backends writer.ref ≠ some place) :
    Serves backends t key value := by
  obtain ⟨call, member, text, place, n, found, held, newest⟩ := serves
  obtain ⟨later, later_member, same⟩ := used call member
  refine ⟨later, later_member, same ▸ text, place, n, same ▸ found,
    getElem?_of_prefix (grows place) held, ?_⟩
  intro writer inside settled its_place m wrote
  rcases writers writer inside settled m wrote with old | elsewhere
  · obtain ⟨before, there, was_settled, ref, had_written⟩ := old
    exact newest before there was_settled (ref ▸ its_place) m had_written
  · exact absurd its_place (elsewhere call member text place found)

theorem mem_moved (member : call ∈ s.calls.set index new) : call ∈ s.calls ∨ call = new :=
  List.mem_or_eq_of_mem_set member

theorem used_moved {old : Call} (turn : s.calls[index]? = some old) (same : new.ref = old.ref) :
    ∀ call ∈ s.calls, ∃ later ∈ s.calls.set index new, later.ref = call.ref := by
  intro call member
  obtain ⟨place, here, rfl⟩ := List.mem_iff_getElem.mp member
  by_cases equal : place = index
  · subst equal
    refine ⟨new, List.mem_set here new, ?_⟩
    rw [List.getElem?_eq_getElem here, Option.some.injEq] at turn
    rw [same, turn]
  · refine ⟨s.calls[place], ?_, rfl⟩
    refine List.mem_iff_getElem.mpr ⟨place, by simpa using here, ?_⟩
    rw [List.getElem_set_ne (Ne.symm equal)]

theorem Sound.moved (sound : Sound backends s) {old : Call} (turn : s.calls[index]? = some old)
    (calls : t.calls = s.calls.set index new) (ref : new.ref = old.ref) (grows : Grows s t)
    (ok : CallOk backends t.stored new)
    (cache : ∀ key value expiresAt, t.cache key = some (value, expiresAt) →
      s.cache key = some (value, expiresAt) ∧
          (∀ m, new.Settled → new.wroteAt = some m →
            (old.Settled ∧ old.wroteAt = some m) ∨ key ≠ new.ref.text) ∨
        Serves backends t key value) : Sound backends t where
  calls call member := by
    rw [calls] at member
    rcases mem_moved member with same | rfl
    · exact (sound.calls call same).grown grows
    · exact ok
  cache key value expiresAt held := by
    rcases cache key value expiresAt held with ⟨before, settled⟩ | serves
    · refine (sound.cache key value expiresAt before).kept grows ?_ ?_
      · rw [calls]
        exact used_moved turn ref
      · intro writer member was_settled m wrote
        rw [calls] at member
        rcases mem_moved member with same | rfl
        · exact .inl ⟨writer, same, was_settled, rfl, wrote⟩
        · rcases settled m was_settled wrote with already | other_key
          · exact .inl ⟨old, List.mem_of_getElem? turn, already.1, ref.symm, already.2⟩
          · refine .inr (fun call inside text place found its_place => ?_)
            have agree := sound.agree call inside old (List.mem_of_getElem? turn)
            have one := (agree place found place (ref ▸ its_place)).mpr rfl
            exact other_key (by rw [← text, one, ref])
    · exact serves
  agree call member other other_member := by
    rw [calls] at member other_member
    have known : ∀ c, c ∈ s.calls.set index new → ∃ before ∈ s.calls, before.ref = c.ref := by
      intro c inside
      rcases mem_moved inside with same | rfl
      · exact ⟨c, same, rfl⟩
      · exact ⟨old, List.mem_of_getElem? turn, ref.symm⟩
    obtain ⟨first, first_member, first_ref⟩ := known call member
    obtain ⟨second, second_member, second_ref⟩ := known other other_member
    have agree := sound.agree first first_member second second_member
    rwa [first_ref, second_ref] at agree

theorem agree_self (ref : SecretRef) : Agree backends ref ref := by
  intro place found second other
  rw [Option.mem_def] at found
  rw [found] at other
  exact iff_of_true rfl (Option.some.inj other)

theorem Agree.symm {ref other : SecretRef} (agree : Agree backends ref other) :
    Agree backends other ref := fun place found second held =>
  ⟨fun same => ((agree second held place found).mp same.symm).symm,
    fun same => ((agree second held place found).mpr same.symm).symm⟩

theorem Sound.opened (sound : Sound backends s) (calls : t.calls = s.calls ++ [new])
    (stored : t.stored = s.stored) (unwritten : new.wroteAt = none) (unread : new.phase ≠ .read)
    (agree : ∀ call ∈ s.calls, Agree backends call.ref new.ref)
    (cache : ∀ key value expiresAt, t.cache key = some (value, expiresAt) →
      s.cache key = some (value, expiresAt)) : Sound backends t where
  calls call member := by
    rw [calls] at member
    rcases List.mem_append.mp member with old | single
    · exact stored ▸ sound.calls call old
    · obtain rfl := List.mem_singleton.mp single
      constructor
      case read => exact fun phase => absurd phase unread
      case unwritten => exact fun _ => unwritten
      case wrote =>
        intro place n _ wrote
        rw [unwritten] at wrote
        exact absurd wrote (by simp)
      case rotated =>
        intro _ n m _ wrote
        rw [unwritten] at wrote
        exact absurd wrote (by simp)
  cache key value expiresAt held := by
    refine (sound.cache key value expiresAt (cache key value expiresAt held)).kept ?_ ?_ ?_
    · exact fun place => stored ▸ List.prefix_rfl
    · exact fun call member => ⟨call, calls ▸ List.mem_append_left _ member, rfl⟩
    · intro writer member settled m wrote
      rw [calls] at member
      rcases List.mem_append.mp member with old | single
      · exact .inl ⟨writer, old, settled, rfl, wrote⟩
      · obtain rfl := List.mem_singleton.mp single
        rw [unwritten] at wrote
        exact absurd wrote (by simp)
  agree call member other other_member := by
    rw [calls] at member other_member
    rcases List.mem_append.mp member with old | single
    · rcases List.mem_append.mp other_member with other_old | other_single
      · exact sound.agree call old other other_old
      · obtain rfl := List.mem_singleton.mp other_single
        exact agree call old
    · obtain rfl := List.mem_singleton.mp single
      rcases List.mem_append.mp other_member with other_old | other_single
      · exact (agree other other_old).symm
      · obtain rfl := List.mem_singleton.mp other_single
        exact agree_self _

theorem invalidate_cache {ref : SecretRef} {key : Name} {entry : Bytes × Int}
    (held : (s.invalidate ref).cache key = some entry) :
    s.cache key = some entry ∧ key ≠ ref.text := by
  simp only [State.invalidate] at held
  split at held
  · exact absurd held (by simp)
  · next other => exact ⟨held, other⟩

theorem grows_refl (s : State) : Grows s s := fun _ => List.prefix_rfl

/-- A call past its read, and past its write if it has one, may change its phase. -/
theorem CallOk.later {stored : Place → List Bytes} {phase : Phase} {handle : Option Nat}
    (ok : CallOk backends stored call) (unread : phase ≠ .reading ∧ phase ≠ .read) :
    CallOk backends stored { call with phase := phase, handle := handle } where
  __ := ok
  read read := absurd read unread.2
  unwritten early := by
    rcases early with reading | read
    · exact absurd reading unread.1
    · exact absurd read unread.2

section

variable (sound : Sound backends s) (turn : s.calls[index]? = some call)
include sound turn

theorem Sound.reads {place : Place} {value : Bytes}
    (found : placeOf backends call.ref = some place) (phase : call.phase = .reading)
    (last : (s.stored place).getLast? = some value) :
    Sound backends (s.moved index
      { call with
        phase := .read
        value := value
        seen := some ((s.stored place).length - 1) }) := by
  have ok := sound.calls call (List.mem_of_getElem? turn)
  have unwritten := ok.unwritten (.inl phase)
  refine sound.moved turn rfl rfl (grows_refl s) ?_ (fun _ _ _ held => .inl ⟨held, ?_⟩)
  · constructor
    case read =>
      refine fun _ => ⟨place, _, found, rfl, ?_⟩
      rw [List.getLast?_eq_getElem?] at last
      exact last
    case unwritten => exact fun _ => unwritten
    case wrote => exact ok.wrote
    case rotated =>
      intro _ n m _ wrote
      rw [unwritten] at wrote
      exact absurd wrote (by simp)
  · intro m _ wrote
    rw [unwritten] at wrote
    exact absurd wrote (by simp)

theorem Sound.writes {place : Place} (found : placeOf backends call.ref = some place)
    (phase : call.phase = .writing) (careful : Careful backends s (.effect index)) :
    Sound backends
      { s.moved index { call with phase := .wrote, wroteAt := some (s.stored place).length } with
        stored := fun other =>
          if other = place then s.stored place ++ [call.value] else s.stored other } := by
  refine sound.moved turn rfl rfl ?_ ?_ (fun _ _ _ held => .inl ⟨held, ?_⟩)
  · intro other
    by_cases same : other = place
    · subst same
      simp
    · simp [same]
  · constructor
    case read => exact nofun
    case unwritten =>
      rintro (reading | read)
      · cases reading
      · cases read
    case wrote =>
      intro other n its_place wrote
      rw [found] at its_place
      cases its_place
      cases wrote
      simp
    case rotated =>
      intro kind n m seen wrote
      cases wrote
      exact careful call turn kind phase place found n seen
  · intro m settled _
    rcases settled with waits | waits | waits <;> cases waits

theorem Sound.fills (phase : call.phase = .read) (kind : call.kind = .get)
    (careful : Careful backends s (.resume index)) :
    Sound backends
      (((s.remember call.ref call.value).issue call.ref call.value call.requester).moved index
        { call with phase := .auditing, handle := some s.handles.length }) := by
  have ok := sound.calls call (List.mem_of_getElem? turn)
  have unwritten := ok.unwritten (.inr phase)
  have unsettled : ∀ m, call.wroteAt ≠ some m := fun m wrote => by simp [unwritten] at wrote
  refine sound.moved turn rfl rfl (grows_refl s) (ok.later ⟨nofun, nofun⟩) ?_
  intro key value expiresAt held
  by_cases same : key = call.ref.text
  · obtain ⟨place, n, found, seen, stored⟩ := ok.read phase
    have filled : call.value = value := by
      simp only [State.moved, State.issue, State.remember, same, if_true,
        Option.some.injEq, Prod.mk.injEq] at held
      exact held.1
    refine .inr ⟨{ call with phase := .auditing, handle := some s.handles.length },
      ?_, same.symm, place, n, found, filled ▸ stored, ?_⟩
    · exact List.mem_set (List.getElem?_eq_some_iff.mp turn).1 _
    · intro writer inside settled its_place m wrote
      rcases mem_moved inside with old | rfl
      · by_contra newer
        exact careful call turn kind phase
          ⟨writer, old, settled, its_place.trans found.symm, n, seen, m, wrote,
            not_le.mp newer⟩
      · exact absurd wrote (unsettled m)
  · refine .inl ⟨?_, fun m _ wrote => absurd wrote (unsettled m)⟩
    simpa [State.moved, State.issue, State.remember, same] using held

theorem Sound.invalidates :
    Sound backends ((s.invalidate call.ref).moved index { call with phase := .auditing }) := by
  have ok := sound.calls call (List.mem_of_getElem? turn)
  refine sound.moved turn rfl rfl (grows_refl s) (ok.later ⟨nofun, nofun⟩)
    (fun _ _ _ held => ?_)
  obtain ⟨before, other⟩ := invalidate_cache held
  exact .inl ⟨before, fun _ _ _ => .inr other⟩

theorem Sound.relabels {phase : Phase}
    (change : phase = .writing ∧ call.phase = .read ∨
      (phase = .auditingRotate ∨ phase = .done) ∧ call.Settled ∨ phase = .failed) :
    Sound backends (s.moved index { call with phase := phase }) := by
  have ok := sound.calls call (List.mem_of_getElem? turn)
  have unread : phase ≠ .reading ∧ phase ≠ .read := by
    rcases change with ⟨rfl, -⟩ | ⟨rfl | rfl, -⟩ | rfl <;> exact ⟨nofun, nofun⟩
  refine sound.moved turn rfl rfl (grows_refl s) (ok.later unread)
    (fun _ _ _ held => .inl ⟨held, ?_⟩)
  intro m settled wrote
  rcases change with ⟨rfl, -⟩ | ⟨-, was_settled⟩ | rfl
  · rcases settled with waits | waits | waits <;> cases waits
  · exact .inl ⟨was_settled, wrote⟩
  · rcases settled with waits | waits | waits <;> cases waits

end

theorem sound_step (sound : Sound backends s) (careful : Careful backends s step)
    (happens : Happens backends s step t) : Sound backends t := by
  cases happens with
  | hit held => exact sound.opened rfl rfl rfl nofun careful (fun _ _ _ same => same)
  | @opened kind ref requester phase value s' popped asked =>
    have unread : phase ≠ .read := by
      rcases asked with rfl | ⟨rfl, -⟩ | rfl <;> exact nofun
    rcases popped with rfl | rfl
    · exact sound.opened rfl rfl rfl unread careful (fun _ _ _ same => same)
    · exact sound.opened rfl rfl rfl unread careful
        (fun _ _ _ held => (invalidate_cache held).1)
  | reads turn found phase last => exact sound.reads turn found phase last
  | writes turn found phase => exact sound.writes turn found phase careful
  | fills turn phase kind => exact sound.fills turn phase kind careful
  | invalidates turn _ => exact sound.invalidates turn
  | relabels _ turn change => exact sound.relabels turn change
  | clock => exact ⟨sound.calls, sound.cache, sound.agree⟩
  | degrade => exact ⟨sound.calls, sound.cache, sound.agree⟩

theorem sound_initial (stored : Place → List Bytes) (now : Int) :
    Sound backends (.initial stored now) where
  calls _ member := absurd member List.not_mem_nil
  cache _ _ _ held := absurd held (by simp [State.initial])
  agree _ member := absurd member List.not_mem_nil

theorem sound_run {steps : List Step} (sound : Sound backends s)
    (careful : CarefulRun backends s steps) (run : s.run backends steps = some t) :
    Sound backends t :=
  run_keeps (fun _ _ _ sound careful stepped => sound_step sound careful (happens_of_step stepped))
    sound run careful

/-- What the call at `index` has read of the place, and the handle it was issued, are not older
than value `n`. -/
structure NotOlder (backends : Backends) (place : Place) (n index : Nat) (s : State) : Prop where
  written : n < (s.stored place).length
  call : ∀ call, s.calls[index]? = some call → placeOf backends call.ref = some place ∧
    (∀ m, call.seen = some m → n ≤ m) ∧
      ∀ id, call.handle = some id → ∃ entry, s.handles[id]? = some entry ∧
        entry.value ∈ (s.stored place).drop n

theorem mem_drop_of_getElem? {values : List Bytes} {n m : Nat} {value : Bytes} (later : n ≤ m)
    (held : values[m]? = some value) : value ∈ values.drop n := by
  have shifted : (values.drop n)[m - n]? = some value := by
    rw [List.getElem?_drop, Nat.add_sub_cancel' later, held]
  exact List.mem_of_getElem? shifted

theorem mem_drop_of_prefix {first last : List Bytes} (grows : first <+: last) {n : Nat}
    {value : Bytes} (held : value ∈ first.drop n) : value ∈ last.drop n := by
  obtain ⟨rest, rfl⟩ := grows
  rw [List.drop_append]
  exact List.mem_append_left _ held

theorem NotOlder.kept {place : Place} {n : Nat} (floor : NotOlder backends place n index s)
    (grows : Grows s t) (handles : s.handles <+: t.handles)
    (calls : ∀ call, t.calls[index]? = some call → s.calls[index]? = some call ∨
      placeOf backends call.ref = some place ∧ (∀ m, call.seen = some m → n ≤ m) ∧
        ∀ id, call.handle = some id → ∃ entry, t.handles[id]? = some entry ∧
          entry.value ∈ (t.stored place).drop n) : NotOlder backends place n index t where
  written := floor.written.trans_le (grows place).length_le
  call call there := by
    rcases calls call there with before | now
    · obtain ⟨found, seen, handle⟩ := floor.call call before
      refine ⟨found, seen, fun id issued => ?_⟩
      obtain ⟨entry, held, value⟩ := handle id issued
      refine ⟨entry, ?_, mem_drop_of_prefix (grows place) value⟩
      obtain ⟨rest, all⟩ := handles
      rw [← all, List.getElem?_append_left (List.getElem?_eq_some_iff.mp held).1, held]
    · exact now

theorem grows_of_happens (happens : Happens backends s step t) : Grows s t := by
  cases happens with
  | opened popped _ => rcases popped with rfl | rfl <;> exact grows_refl _
  | @writes index call place turn found phase =>
    intro other
    by_cases same : other = place
    · subst same
      simp
    · simp [same]
  | _ => exact grows_refl s

theorem notOlder_step {place : Place} {n : Nat} (sound : Sound backends s)
    (floor : NotOlder backends place n index s) (known : index < s.calls.length)
    (happens : Happens backends s step t) : NotOlder backends place n index t := by
  have pushed : ∀ new call, (s.calls ++ [new])[index]? = some call → s.calls[index]? = some call :=
    fun new call there => by rwa [List.getElem?_append_left known] at there
  have grows := grows_of_happens happens
  cases happens with
  | hit held =>
    exact floor.kept grows (List.prefix_append _ _)
      (fun call there => .inl (pushed _ call there))
  | opened popped _ =>
    rcases popped with rfl | rfl <;>
      exact floor.kept grows List.prefix_rfl (fun call there => .inl (pushed _ call there))
  | @reads turned call other value turn found phase last =>
    refine floor.kept grows List.prefix_rfl (fun now there => ?_)
    rcases getElem?_set_cases there with ⟨same, _⟩ | ⟨rfl, rfl⟩
    · exact .inl same
    · obtain ⟨its_place, _, handle⟩ := floor.call call turn
      refine .inr ⟨its_place, fun m seen => ?_, handle⟩
      rw [found] at its_place
      cases its_place
      cases seen
      exact Nat.le_sub_one_of_lt floor.written
  | @writes turned call other turn found phase =>
    refine floor.kept grows List.prefix_rfl (fun now there => ?_)
    rcases getElem?_set_cases there with ⟨same, _⟩ | ⟨rfl, rfl⟩
    · exact .inl same
    · obtain ⟨its_place, seen, handle⟩ := floor.call call turn
      refine .inr ⟨its_place, seen, fun id issued => ?_⟩
      obtain ⟨entry, held, value⟩ := handle id issued
      exact ⟨entry, held, mem_drop_of_prefix (grows place) value⟩
  | @fills turned call turn phase kind =>
    refine floor.kept grows (List.prefix_append _ _) (fun now there => ?_)
    rcases getElem?_set_cases there with ⟨same, _⟩ | ⟨rfl, rfl⟩
    · exact .inl same
    · obtain ⟨its_place, seen, _⟩ := floor.call call turn
      obtain ⟨same_place, m, found, read, stored⟩ :=
        (sound.calls call (List.mem_of_getElem? turn)).read phase
      rw [found] at its_place
      cases its_place
      refine .inr ⟨found, seen, fun id issued => ?_⟩
      cases issued
      refine ⟨⟨call.ref, call.value, call.requester, s.now + 60⟩, ?_,
        mem_drop_of_getElem? (seen m read) stored⟩
      simp [State.moved, State.issue, State.remember]
  | @invalidates turned call turn phase =>
    refine floor.kept grows List.prefix_rfl (fun now there => ?_)
    rcases getElem?_set_cases there with ⟨same, _⟩ | ⟨rfl, rfl⟩
    · exact .inl same
    · exact .inr (floor.call call turn)
  | @relabels step turned call phase own turn change =>
    refine floor.kept grows List.prefix_rfl (fun now there => ?_)
    rcases getElem?_set_cases there with ⟨same, _⟩ | ⟨rfl, rfl⟩
    · exact .inl same
    · exact .inr (floor.call call turn)
  | clock => exact ⟨floor.written, floor.call⟩
  | degrade => exact ⟨floor.written, floor.call⟩

theorem length_of_happens (happens : Happens backends s step t) :
    s.calls.length ≤ t.calls.length := by
  cases happens with
  | opened popped _ => rcases popped with rfl | rfl <;> simp [State.push, State.invalidate]
  | _ => simp [State.push, State.moved, State.issue, State.remember, State.invalidate]

theorem notOlder_run {steps : List Step} {place : Place} {n : Nat} (sound : Sound backends s)
    (careful : CarefulRun backends s steps) (floor : NotOlder backends place n index s)
    (known : index < s.calls.length) (run : s.run backends steps = some t) :
    NotOlder backends place n index t := by
  have keep : ∀ s step t,
      Sound backends s ∧ NotOlder backends place n index s ∧ index < s.calls.length →
      Careful backends s step → s.step backends step = some t →
      Sound backends t ∧ NotOlder backends place n index t ∧ index < t.calls.length := by
    intro s step t ⟨sound, floor, known⟩ careful stepped
    have happens := happens_of_step stepped
    exact ⟨sound_step sound careful happens, notOlder_step sound floor known happens,
      known.trans_le (length_of_happens happens)⟩
  exact (run_keeps keep ⟨sound, floor, known⟩ run careful).2.1

theorem notOlder_start {ref : SecretRef} {requester : Name} {place : Place} {n : Nat}
    (sound : Sound backends s) (careful : Careful backends s (.start .get ref requester))
    (happens : Happens backends s (.start .get ref requester) t)
    (found : placeOf backends ref = some place) {writer : Call} (member : writer ∈ s.calls)
    (settled : writer.Settled) (its_place : placeOf backends writer.ref = some place)
    (wrote : writer.wroteAt = some n) : NotOlder backends place n s.calls.length t := by
  have written := (sound.calls writer member).wrote place n its_place wrote
  cases happens with
  | @hit _ _ value expiresAt held =>
    refine ⟨written, fun call there => ?_⟩
    obtain rfl : _ = call := by simpa [State.push, State.issue] using there
    refine ⟨found, nofun, fun id issued => ?_⟩
    cases issued
    obtain ⟨filler, inside, text, other, m, other_found, stored, newest⟩ :=
      sound.cache _ _ _ held
    obtain rfl := (careful filler inside other other_found place found).mp text
    exact ⟨⟨ref, value, requester, s.now + 60⟩, by simp [State.push, State.issue],
      mem_drop_of_getElem? (newest writer member settled its_place n wrote) stored⟩
  | @opened _ _ _ phase value s' popped asked =>
    have same : s'.stored = s.stored ∧ s'.calls = s.calls := by
      rcases popped with rfl | rfl <;> exact ⟨rfl, rfl⟩
    refine ⟨same.1 ▸ written, fun call there => ?_⟩
    rw [State.push, same.2, List.getElem?_concat_length] at there
    cases there
    exact ⟨found, nofun, nofun⟩
  | relabels own _ _ => rcases own with same | same | same <;> cases same

/-- Runs whose steps are careful: a get that starts after a put has completed is issued that
put's value or a later one, and no rotate writes over a completed put. -/
theorem reads_see_completed_puts (backends : Backends) (stored : Place → List Bytes) (now : Int)
    (steps : List Step) (careful : CarefulRun backends (.initial stored now) steps) :
    GetsSeePuts backends (.initial stored now) steps ∧
      ∀ t, (State.initial stored now).run backends steps = some t →
        RotatesKeepPuts backends t := by
  constructor
  · intro before ref requester after s t split run_before run_all put member completed place n
      its_place found wrote
    subst split
    obtain ⟨careful_before, careful_rest⟩ := meets_append run_before careful
    have sound := sound_run (sound_initial stored now) careful_before run_before
    obtain ⟨next, stepped, rest⟩ := run_cons_eq_some.mp (run_after run_before run_all)
    have happens := happens_of_step stepped
    have floor := notOlder_start sound careful_rest.1 happens found member
      (.inr (.inr completed.1)) its_place wrote
    have opened : s.calls.length < next.calls.length := by
      cases happens with
      | hit held => simp [State.push, State.issue]
      | opened popped _ => rcases popped with rfl | rfl <;> simp [State.push, State.invalidate]
      | relabels own _ _ => rcases own with same | same | same <;> cases same
    have last := notOlder_run (sound_step sound careful_rest.1 happens)
      (careful_rest.2 next stepped) floor opened rest
    exact fun call there => (last.call call there).2.2
  · intro t run rotate member kind put put_member completed same_place seen m n read wrote rewrote
    have sound := sound_run (sound_initial stored now) careful run
    have next := (sound.calls rotate member).rotated kind seen n read rewrote
    omega

def plainBackends : Backends := fun name =>
  if name = ['b'] then some (fun path => ([], path)) else none

def vaultBackends : Backends := fun name => if name = ['v'] then some splitKvPath else none

def plainRef : SecretRef := ⟨['b'], ['p'], none⟩

def oneStored : Place → List Bytes := fun _ => [[0]]

theorem get_after_put_sees_it :
    GetsSeePuts plainBackends (.initial oneStored 0)
      [.start .get plainRef ['u'], .effect 0, .start (.put [1]) plainRef ['w'], .effect 1,
        .resume 0, .resume 1, .resume 1, .start .get plainRef ['u'], .effect 2, .resume 2] :=
  (reads_see_completed_puts plainBackends oneStored 0 _ (by decide)).1

def shortRef : SecretRef := ⟨['v'], ['p'], none⟩

def longRef : SecretRef :=
  ⟨['v'], ['s', 'e', 'c', 'r', 'e', 't', '/', 'd', 'a', 't', 'a', '/', 'p'], none⟩

def overtakenGet : List Step :=
  [.start .get plainRef ['u'], .effect 0, .start (.put [1]) plainRef ['w'], .effect 1, .resume 1,
    .resume 1, .resume 0, .start .get plainRef ['u']]

def overtakenRotate : List Step :=
  [.start .rotate plainRef ['u'], .effect 0, .start (.put [1]) plainRef ['w'], .effect 1,
    .resume 1, .resume 1, .resume 0, .effect 0]

def spelledTwice : List Step :=
  [.start .get longRef ['u'], .effect 0, .resume 0, .start (.put [1]) shortRef ['w'], .effect 1,
    .resume 1, .resume 1, .start .get longRef ['u']]

/-- A stale secret after an overtaken get and under another spelling, and a put that a rotation
undoes. -/
theorem stale_and_undone :
    ¬ GetsSeePuts plainBackends (.initial oneStored 0) overtakenGet ∧
      ¬ GetsSeePuts vaultBackends (.initial oneStored 0) spelledTwice ∧
      ¬ (∀ t ∈ (State.initial oneStored 0).run plainBackends overtakenRotate,
        RotatesKeepPuts plainBackends t) := by
  refine ⟨fun sees => ?_, fun sees => ?_, fun keeps => ?_⟩
  · obtain ⟨entry, held, value⟩ := sees (overtakenGet.take 7) plainRef ['u'] [] _ _ rfl rfl rfl
      ⟨.put [1], plainRef, ['w'], .done, [1], none, some 1, none⟩ (by decide)
      ⟨rfl, [1], rfl⟩ ⟨['b'], [], ['p']⟩ 1 rfl rfl rfl
      ⟨.get, plainRef, ['u'], .auditing, [0], none, none, some 1⟩ rfl 1 rfl
    cases held
    exact absurd value (by decide)
  · obtain ⟨entry, held, value⟩ := sees (spelledTwice.take 7) longRef ['u'] [] _ _ rfl rfl rfl
      ⟨.put [1], shortRef, ['w'], .done, [1], none, some 1, none⟩ (by decide)
      ⟨rfl, [1], rfl⟩ ⟨['v'], ['s', 'e', 'c', 'r', 'e', 't'], ['p']⟩ 1 rfl rfl rfl
      ⟨.get, longRef, ['u'], .auditing, [0], none, none, some 1⟩ rfl 1 rfl
    cases held
    exact absurd value (by decide)
  · exact keeps _ rfl ⟨.rotate, plainRef, ['u'], .wrote, [0], some 0, some 2, none⟩ (by decide) rfl
      ⟨.put [1], plainRef, ['w'], .done, [1], none, some 1, none⟩ (by decide)
      ⟨rfl, [1], rfl⟩ rfl 0 1 2 rfl rfl rfl (by decide)

end HlHelper.Secrets.Broker
