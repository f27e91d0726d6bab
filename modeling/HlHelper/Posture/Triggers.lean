import HlHelper.Posture.Recomputer
import HlHelper.Posture.ShortCircuit

/-! A call that is not dropped is followed by a computation that reads after it, and
the row of a host shows what its last computation read. -/

namespace HlHelper.Posture

open HlHelper.Library Recomputer

variable {F : Type} [Python F]

namespace Phase

def reads : Phase F → List (Read F)
  | .reading _ _ reads => reads
  | .storing _ reads _ _ => reads
  | .closing _ reads _ => reads
  | .ended _ reads _ => reads
  | _ => []

def started : Phase F → Option Turn
  | .reading turn _ _ => some turn
  | .storing turn _ _ _ => some turn
  | .closing turn _ _ => some turn
  | .ended turn _ _ => some turn
  | .failed turn => turn
  | _ => none

def holds : Phase F → Bool
  | .reading _ _ _ | .storing _ _ _ _ | .closing _ _ _ => true
  | _ => false

def returned : Phase F → Bool
  | .dropped _ | .ended _ _ _ | .failed _ => true
  | _ => false

def result : Phase F → Option (Inputs F)
  | .closing _ _ inputs | .ended _ _ inputs => inputs
  | _ => none

/-- What was read belongs to a computation: statements that are still to come, and inputs
that were assembled from the reads. -/
def Whole : Phase F → Prop
  | .reading _ todo reads => reads.map Read.statement ++ todo = statements
  | .storing _ reads inputs _ | .closing _ reads (some inputs) | .ended _ reads (some inputs) =>
    reads.map Read.statement = statements ∧
      ∃ registry now, assemble reads registry now = some inputs
  | _ => True

end Phase

def Turn.early (turn : Turn) : Prop := turn.clock - turn.lastRun < debounceS

/-- A phase that its debounce and its statements allow a call. -/
structure Phase.Allowed (debounced : Bool) (phase : Phase F) : Prop where
  dropped : ∀ turn, phase = .dropped turn → debounced = true ∧ turn.early
  started : ∀ turn, phase.started = some turn → debounced = true → ¬ turn.early
  whole : phase.Whole

structure Call.Ok (steps : Nat) (call : Call F) : Prop where
  made : call.time ≤ steps
  after : ∀ read ∈ call.phase.reads, call.time < read.time
  allowed : call.phase.Allowed call.debounced

section Branches

variable (digest : Payload F → String) (s : Recomputer F) (index : Nat) (host : String)
  (debounced : Bool)

/-- The branches of an act, for a call on the host with or without the debounce. -/
inductive Acts : Phase F → Phase F → Recomputer F → Prop where
  | drops {turn} : debounced = true → turn.early → Acts .waiting (.dropped turn) s
  | begins {turn} : s.holder host = none → ¬ (debounced = true ∧ turn.early) →
      Acts .waiting (.reading turn statements [])
        { s with holder := Function.update s.holder host (some index) }
  | absent {turn todo reads} : Acts (.reading turn todo reads) (.closing turn reads none) s
  | reads {turn statement todo reads} : Acts (.reading turn (statement :: todo) reads)
      (.reading turn todo (reads ++ [⟨s.steps, statement, s.db.inputs host⟩])) s
  | hits {turn reads registry now inputs row} : assemble reads registry now = some inputs →
      s.rows host = some row → row.inputsHash = inputs.hash digest →
      Acts (.reading turn [] reads) (.closing turn reads (some inputs)) s
  | misses {turn reads registry now inputs prev} : assemble reads registry now = some inputs →
      Acts (.reading turn [] reads) (.storing turn reads inputs prev) s
  | commits {turn reads inputs prev} :
      Acts (.storing turn reads inputs prev) (.closing turn reads (some inputs))
        { s with rows := Function.update s.rows host (some (storedRow digest inputs prev)) }
  | releases {turn reads inputs} :
      Acts (.closing turn reads inputs) (.ended turn reads inputs) (s.unlock host)
  | refused : Acts .waiting (.failed none) s
  | fails {phase turn} : phase.holds = true → phase.started = some turn → phase.result = none →
      Acts phase (.failed (some turn)) (s.unlock host)

end Branches

/-- What the act of a call does to its phase and to the state. -/
structure Moved (digest : Payload F → String) (s : Recomputer F) (index : Nat) (call : Call F)
    (next : Phase F) (t : Recomputer F) : Prop where
  steps : t.steps = s.steps
  calls : t.calls = s.calls
  reads : ∀ read ∈ next.reads, read ∈ call.phase.reads ∨ read.time = s.steps
  locked : next.holds = true →
    call.phase.holds = true ∧ t.holder = s.holder ∨
      s.holder call.host = none ∧ next.reads = [] ∧
        t.holder = Function.update s.holder call.host (some index)
  freed : next.holds = false →
    t.holder = s.holder ∨
      call.phase.holds = true ∧ t.holder = Function.update s.holder call.host none
  result :
    next.result = call.phase.result ∧ t.rows = s.rows ∧
        (next.result.isSome → next.reads = call.phase.reads) ∨
      call.phase.holds = true ∧ next.reads = call.phase.reads ∧
        ∃ inputs row, next.result = some inputs ∧ row.inputsHash = inputs.hash digest ∧
          t.rows = Function.update s.rows call.host (some row)

variable {digest : Payload F → String} {s t : Recomputer F} {index : Nat} {call : Call F}
  {act : Act} {next : Phase F}

theorem acts_of_act {phase : Phase F}
    (acted : s.act digest index call act phase = some (next, t)) :
    Acts digest s index call.host call.debounced phase next t := by
  cases act <;> cases phase <;> simp only [Recomputer.act, reduceCtorEq] at acted
  case turn.waiting =>
      split at acted
      case isFalse => cases acted
      case isTrue free =>
        simp only [Recomputer.takeTurn] at acted
        split at acted
        case isTrue early =>
          cases acted
          exact .drops early.1 early.2
        case isFalse late =>
          cases acted
          exact .begins free late
  case read.reading turn todo reads =>
      cases todo with
      | nil => cases acted
      | cons statement todo =>
        simp only [] at acted
        split at acted
        case isTrue =>
          cases acted
          exact .absent
        case isFalse =>
          cases acted
          exact .reads
  case check.reading turn todo reads =>
      cases todo with
      | cons statement todo => cases acted
      | nil =>
        simp only [Option.map_eq_some_iff] at acted
        obtain ⟨inputs, assembled, outcome⟩ := acted
        cases known : s.rows call.host with
        | none =>
          simp only [known] at outcome
          cases outcome
          exact .misses assembled
        | some row =>
          simp only [known] at outcome
          split at outcome
          case isFalse =>
            cases outcome
            exact .misses assembled
          case isTrue hit =>
            cases outcome
            exact .hits assembled known (by simp_all)
  case commit.storing =>
      cases acted
      exact .commits
  case release.closing =>
      cases acted
      exact .releases
  case fail.waiting =>
      cases acted
      exact .refused
  case fail.reading =>
      cases acted
      exact .fails rfl rfl rfl
  case fail.storing =>
      cases acted
      exact .fails rfl rfl rfl

theorem moved_unlock (held : call.phase.holds = true) (free : next.holds = false)
    (reads : ∀ read ∈ next.reads, read ∈ call.phase.reads)
    (result : next.result = call.phase.result)
    (kept : next.result.isSome → next.reads = call.phase.reads) :
    Moved digest s index call next (s.unlock call.host) where
  steps := rfl
  calls := rfl
  reads read member := .inl (reads read member)
  locked holds := absurd holds (by simp [free])
  freed _ := .inr ⟨held, rfl⟩
  result := .inl ⟨result, rfl, kept⟩

theorem moved_keep (same : next.holds = call.phase.holds)
    (reads : ∀ read ∈ next.reads, read ∈ call.phase.reads ∨ read.time = s.steps)
    (result : next.result = call.phase.result) (none : next.result = none) :
    Moved digest s index call next s where
  steps := rfl
  calls := rfl
  reads := reads
  locked holds := .inl ⟨same ▸ holds, rfl⟩
  freed _ := .inl rfl
  result := .inl ⟨result, rfl, fun some => absurd some (by simp [none])⟩

theorem moved_of_act (acted : s.act digest index call act call.phase = some (next, t)) :
    Moved digest s index call next t := by
  obtain ⟨host, debounced, force, time, phase⟩ := call
  cases acts_of_act acted with
  | begins free _ =>
    exact {
      steps := rfl
      calls := rfl
      reads := fun _ member => .inl member
      locked := fun _ => .inr ⟨free, rfl, rfl⟩
      freed := fun released => absurd released (by simp [Phase.holds])
      result := .inl ⟨rfl, rfl, fun _ => rfl⟩ }
  | reads =>
    refine moved_keep rfl (fun read member => ?_) rfl rfl
    rcases List.mem_append.mp member with before | last
    · exact .inl before
    · rw [List.mem_singleton.mp last]
      exact .inr rfl
  | @hits _ _ _ _ _ row _ known same =>
    have unchanged : s.rows = Function.update s.rows host (some row) := by
      rw [← known, Function.update_eq_self]
    exact {
      steps := rfl
      calls := rfl
      reads := fun _ member => .inl member
      locked := fun _ => .inl ⟨rfl, rfl⟩
      freed := fun _ => .inl rfl
      result := .inr ⟨rfl, rfl, _, _, rfl, same, unchanged⟩ }
  | commits =>
    exact {
      steps := rfl
      calls := rfl
      reads := fun _ member => .inl member
      locked := fun _ => .inl ⟨rfl, rfl⟩
      freed := fun _ => .inl rfl
      result := .inr ⟨rfl, rfl, _, _, rfl, rfl, rfl⟩ }
  | releases => exact moved_unlock rfl rfl (fun _ member => member) rfl (fun _ => rfl)
  | fails held _ unfinished =>
    exact moved_unlock held rfl (fun _ member => absurd member List.not_mem_nil) unfinished.symm
      nofun
  | _ => exact moved_keep rfl (fun _ member => .inl member) rfl rfl

omit [Python F] in
theorem allowed_on {phase : Phase F} {debounced : Bool} (allowed : phase.Allowed debounced)
    (turn : next.started = none ∨ next.started = phase.started)
    (kept : ∀ turn, next ≠ .dropped turn) (whole : next.Whole) : next.Allowed debounced where
  dropped turn drop := absurd drop (kept turn)
  started begun began := by
    rcases turn with never | same
    · rw [never] at began
      cases began
    · exact allowed.started begun (same ▸ began)
  whole := whole

theorem allowed_of_act (allowed : call.phase.Allowed call.debounced)
    (acted : s.act digest index call act call.phase = some (next, t)) :
    next.Allowed call.debounced := by
  obtain ⟨host, debounced, force, time, phase⟩ := call
  cases acts_of_act acted with
  | drops debounce early =>
    constructor
    case dropped =>
      rintro turn ⟨⟩
      exact ⟨debounce, early⟩
    case started => exact nofun
    case whole => trivial
  | begins _ late =>
    constructor
    case dropped => exact nofun
    case started =>
      rintro turn ⟨⟩ debounce early
      exact late ⟨debounce, early⟩
    case whole => rfl
  | reads =>
    refine allowed_on allowed (.inr rfl) nofun ?_
    simpa [Phase.Whole] using allowed.whole
  | hits assembled _ _ =>
    have read := allowed.whole
    exact allowed_on allowed (.inr rfl) nofun ⟨by simpa [Phase.Whole] using read, _, _, assembled⟩
  | misses assembled =>
    have read := allowed.whole
    exact allowed_on allowed (.inr rfl) nofun ⟨by simpa [Phase.Whole] using read, _, _, assembled⟩
  | commits => exact allowed_on allowed (.inr rfl) nofun allowed.whole
  | @releases turn reads inputs =>
    have whole : (Phase.ended turn reads inputs).Whole := by
      cases inputs with
      | none => trivial
      | some inputs => exact allowed.whole
    exact allowed_on allowed (.inr rfl) nofun whole
  | fails _ started _ => exact allowed_on allowed (.inr started.symm) nofun trivial
  | absent => exact allowed_on allowed (.inr rfl) nofun trivial
  | refused => exact allowed_on allowed (.inl rfl) nofun trivial

theorem ok_of_act {steps : Nat} (ok : call.Ok steps) (later : steps < s.steps)
    (acted : s.act digest index call act call.phase = some (next, t)) :
    Call.Ok s.steps { call with phase := next } where
  made := Nat.le_of_lt (Nat.lt_of_le_of_lt ok.made later)
  after read member := by
    rcases (moved_of_act acted).reads read member with before | now
    · exact ok.after read before
    · rw [now]
      exact Nat.lt_of_le_of_lt ok.made later
  allowed := by
    have allowed := allowed_of_act ok.allowed acted
    exact allowed

omit [Python F] in
theorem Call.Ok.later {steps more : Nat} (ok : call.Ok steps) (le : steps ≤ more) :
    call.Ok more :=
  ⟨ok.made.trans le, ok.after, ok.allowed⟩

section Rows

/-- What a call has come to: when it was made, and what it computed. -/
structure Done (F : Type) where
  host : String
  time : Nat
  reads : List (Read F)
  result : Option (Inputs F)

def Call.done (call : Call F) : Done F :=
  ⟨call.host, call.time, if call.phase.result.isSome then call.phase.reads else [],
    call.phase.result⟩

/-- The row of each host is that of a computation which read after the call of every
computation of the host. -/
def Current (digest : Payload F → String) (rows : String → Option (HostRisk F))
    (done : List (Done F)) : Prop :=
  ∀ host, (∃ d ∈ done, d.host = host ∧ d.result.isSome) →
    ∃ last ∈ done, last.host = host ∧
      (∃ inputs row, last.result = some inputs ∧ rows host = some row ∧
        row.inputsHash = inputs.hash digest) ∧
      ∀ d ∈ done, d.host = host → d.result.isSome → ∀ read ∈ last.reads, d.time < read.time

variable {rows : String → Option (HostRisk F)} {done : List (Done F)}

theorem Current.concat (current : Current digest rows done) {d : Done F}
    (unfinished : d.result = none) : Current digest rows (done ++ [d]) := by
  have old : ∀ d' ∈ done ++ [d], d'.result.isSome → d' ∈ done := by
    intro d' member finished
    rcases List.mem_append.mp member with before | new
    · exact before
    · rw [List.mem_singleton.mp new, unfinished] at finished
      cases finished
  intro host ⟨d', member, named, finished⟩
  obtain ⟨last, there, here, row, behind⟩ :=
    current host ⟨d', old d' member finished, named, finished⟩
  exact ⟨last, List.mem_append_left _ there, here, row, fun other member named finished =>
    behind other (old other member finished) named finished⟩

theorem Current.settle (current : Current digest rows done) {old new : Done F} {index : Nat}
    {inputs : Inputs F} {row : HostRisk F} (turn : done[index]? = some old)
    (host : new.host = old.host) (result : new.result = some inputs)
    (hash : row.inputsHash = inputs.hash digest)
    (after : ∀ read ∈ new.reads, new.time < read.time)
    (behind : ∀ (j : Nat) d, j ≠ index → done[j]? = some d → d.host = new.host →
      d.result.isSome → ∀ read ∈ new.reads, d.time < read.time) :
    Current digest (Function.update rows new.host (some row)) (done.set index new) := by
  have inside := (List.getElem?_eq_some_iff.mp turn).1
  intro name ⟨d, member, named, finished⟩
  by_cases own : name = new.host
  · subst own
    refine ⟨new, List.mem_of_getElem? (List.getElem?_set_self inside), rfl,
      ⟨inputs, row, result, Function.update_self .., hash⟩, ?_⟩
    intro d member named finished
    obtain ⟨j, there⟩ := List.mem_iff_getElem?.mp member
    rcases getElem?_set_cases there with ⟨before, other⟩ | ⟨_, rfl⟩
    · exact behind j d other before named finished
    · exact after
  · have kept : ∀ d ∈ done.set index new, d.host = name → d ∈ done := by
      intro d member named
      obtain ⟨j, there⟩ := List.mem_iff_getElem?.mp member
      rcases getElem?_set_cases there with ⟨before, _⟩ | ⟨_, rfl⟩
      · exact List.mem_of_getElem? before
      · exact absurd named.symm own
    obtain ⟨last, there, here, ⟨inputs', row', computed, stored, same⟩, ahead⟩ :=
      current name ⟨d, kept d member named, named, finished⟩
    have remains : last ∈ done.set index new := by
      obtain ⟨j, at_j⟩ := List.mem_iff_getElem?.mp there
      have apart : index ≠ j := by
        intro same
        subst same
        obtain rfl := Option.some.inj (turn.symm.trans at_j)
        exact own (here.symm.trans host.symm)
      exact List.mem_of_getElem? ((List.getElem?_set_ne apart).trans at_j)
    refine ⟨last, remains, here, ⟨inputs', row', computed, ?_, same⟩, ?_⟩
    · rwa [Function.update_of_ne own]
    · exact fun d member named => ahead d (kept d member named) named

end Rows

section Runs

theorem set_same {α : Type} {slots : List α} {place : Nat} {slot : α}
    (there : slots[place]? = some slot) : slots.set place slot = slots := by
  obtain ⟨inside, rfl⟩ := List.getElem?_eq_some_iff.mp there
  exact List.set_getElem_self inside

structure Recomputer.Sound (digest : Payload F → String) (s : Recomputer F) : Prop where
  ok : ∀ call ∈ s.calls, call.Ok s.steps
  holder : ∀ (i : Nat) call, s.calls[i]? = some call → call.phase.holds = true →
    s.holder call.host = some i
  behind : ∀ (i : Nat) call, s.calls[i]? = some call → call.phase.holds = true →
    ∀ (j : Nat) other, j ≠ i → s.calls[j]? = some other → other.host = call.host →
      other.phase.result.isSome → ∀ read ∈ call.phase.reads, other.time < read.time
  current : Current digest s.rows (s.calls.map Call.done)

def Recomputer.Fresh (s : Recomputer F) : Prop := s.calls = []

theorem sound_fresh (fresh : s.Fresh) : s.Sound digest where
  ok := by simp [show s.calls = [] from fresh]
  holder := by simp [show s.calls = [] from fresh]
  behind := by simp [show s.calls = [] from fresh]
  current := by simp [show s.calls = [] from fresh, Current]

theorem ok_act (sound : s.Sound digest) {u : Recomputer F} (steps : u.steps = s.steps + 1)
    (turn : s.calls[index]? = some call)
    (acted : u.act digest index call act call.phase = some (next, t)) :
    ∀ other ∈ s.calls.set index { call with phase := next }, other.Ok (s.steps + 1) := by
  intro other member
  rcases List.mem_or_eq_of_mem_set member with before | rfl
  · exact (sound.ok other before).later (Nat.le_succ _)
  · rw [← steps]
    exact ok_of_act (sound.ok call (List.mem_of_getElem? turn)) (by omega) acted

theorem holder_act (sound : s.Sound digest) (moved : Moved digest s index call next t)
    (turn : s.calls[index]? = some call) (i : Nat) (other : Call F)
    (there : (s.calls.set index { call with phase := next })[i]? = some other)
    (holds : other.phase.holds = true) : t.holder other.host = some i := by
  rcases getElem?_set_cases there with ⟨before, apart⟩ | ⟨rfl, rfl⟩
  · have held := sound.holder i other before holds
    have others : call.phase.holds = true → other.host ≠ call.host := by
      intro also same
      rw [same, sound.holder index call turn also] at held
      exact apart (Option.some.inj held).symm
    cases kept : next.holds with
    | true =>
      rcases moved.locked kept with ⟨-, same⟩ | ⟨free, -, taken⟩
      · rw [same, held]
      · have different : other.host ≠ call.host := by
          intro same
          rw [same, free] at held
          cases held
        rw [taken, Function.update_of_ne different, held]
    | false =>
      rcases moved.freed kept with same | ⟨also, released⟩
      · rw [same, held]
      · rw [released, Function.update_of_ne (others also), held]
  · rcases moved.locked holds with ⟨also, same⟩ | ⟨-, -, taken⟩
    · rw [same]
      exact sound.holder i call turn also
    · rw [taken]
      exact Function.update_self ..

theorem behind_act (sound : s.Sound digest) {u : Recomputer F} (steps : u.steps = s.steps + 1)
    (moved : Moved digest u index call next t)
    (turn : s.calls[index]? = some call) (i : Nat) (first : Call F)
    (there : (s.calls.set index { call with phase := next })[i]? = some first)
    (holds : first.phase.holds = true) (j : Nat) (other : Call F) (apart : j ≠ i)
    (also : (s.calls.set index { call with phase := next })[j]? = some other)
    (host : other.host = first.host) (finished : other.phase.result.isSome) :
    ∀ read ∈ first.phase.reads, other.time < read.time := by
  intro read member
  rcases getElem?_set_cases there with ⟨before, different⟩ | ⟨rfl, rfl⟩
  · rcases getElem?_set_cases also with ⟨beforeToo, -⟩ | ⟨rfl, rfl⟩
    · exact sound.behind i first before holds j other apart beforeToo host finished read member
    · rcases moved.result with ⟨same, -, -⟩ | ⟨held, -⟩
      · have known : call.phase.result.isSome := by rwa [← same]
        exact sound.behind i first before holds j call apart turn host known read member
      · have mine := sound.holder j call turn held
        have theirs := sound.holder i first before holds
        rw [show first.host = call.host from host.symm, mine] at theirs
        exact absurd (Option.some.inj theirs) apart
  · rcases getElem?_set_cases also with ⟨before, -⟩ | ⟨same, -⟩
    · rcases moved.reads read member with old | now
      · rcases moved.locked holds with ⟨held, -⟩ | ⟨-, none, -⟩
        · exact sound.behind i call turn held j other apart before host finished read old
        · rw [none] at member
          cases member
      · have made := (sound.ok other (List.mem_of_getElem? before)).made
        omega
    · exact absurd same apart

omit [Python F] in
theorem done_kept (result : next.result = call.phase.result)
    (reads : next.result.isSome → next.reads = call.phase.reads) :
    Call.done { call with phase := next } = call.done := by
  unfold Call.done
  simp only [result] at reads ⊢
  split
  case isTrue finished => rw [reads finished]
  case isFalse => rfl

theorem current_act (sound : s.Sound digest) (moved : Moved digest s index call next t)
    (turn : s.calls[index]? = some call) :
    Current digest t.rows ((s.calls.set index { call with phase := next }).map Call.done) := by
  have place : (s.calls.map Call.done)[index]? = some call.done := by simp [turn]
  rw [List.map_set]
  rcases moved.result with ⟨result, same, reads⟩ | ⟨held, reads, inputs, row, result, hash, stored⟩
  · rw [done_kept result reads, set_same place, same]
    exact sound.current
  · have finished : next.result.isSome := by simp [result]
    rw [stored]
    refine sound.current.settle place rfl result hash ?_ ?_
    · intro read member
      simp only [Call.done, finished, if_true, reads] at member
      exact (sound.ok call (List.mem_of_getElem? turn)).after read member
    · intro j d apart there host known read member
      simp only [Call.done, finished, if_true, reads] at member
      rw [List.getElem?_map, Option.map_eq_some_iff] at there
      obtain ⟨other, there, rfl⟩ := there
      exact sound.behind index call turn held j other apart there host known read member

theorem sound_call (sound : s.Sound digest) (host : String) (debounced force : Bool) :
    Recomputer.Sound digest { s with
      steps := s.steps + 1
      calls := s.calls ++ [⟨host, debounced, force, s.steps + 1, .waiting⟩] } where
  ok call member := by
    rcases List.mem_append.mp member with before | new
    · exact (sound.ok call before).later (Nat.le_succ _)
    · rw [List.mem_singleton.mp new]
      exact {
        made := Nat.le_refl _
        after := fun read member => by cases member
        allowed := {
          dropped := fun turn same => by cases same
          started := fun turn same => by cases same
          whole := trivial } }
  holder i call there holds := by
    by_cases known : i < s.calls.length
    · rw [List.getElem?_append_left known] at there
      exact sound.holder i call there holds
    · obtain ⟨-, rfl⟩ := getElem?_concat_of_le there (Nat.le_of_not_lt known)
      cases holds
  behind i call there holds j other apart also named finished := by
    by_cases known : i < s.calls.length
    · rw [List.getElem?_append_left known] at there
      by_cases knownToo : j < s.calls.length
      · rw [List.getElem?_append_left knownToo] at also
        exact sound.behind i call there holds j other apart also named finished
      · obtain ⟨-, rfl⟩ := getElem?_concat_of_le also (Nat.le_of_not_lt knownToo)
        cases finished
    · obtain ⟨-, rfl⟩ := getElem?_concat_of_le there (Nat.le_of_not_lt known)
      cases holds
  current := by
    rw [List.map_append]
    exact sound.current.concat rfl

theorem sound_ticked (sound : s.Sound digest) :
    Recomputer.Sound digest { s with steps := s.steps + 1 } :=
  { sound with ok := fun call member => (sound.ok call member).later (Nat.le_succ _) }

theorem sound_step {event : Event F} (sound : s.Sound digest)
    (stepped : step digest s event = some t) : t.Sound digest := by
  unfold step at stepped
  cases event with
  | call host debounced force =>
    cases stepped
    exact sound_call sound host debounced force
  | pass duration =>
    simp only [] at stepped
    split at stepped
    case isFalse => cases stepped
    case isTrue =>
      cases stepped
      exact { sound_ticked sound with }
  | update db =>
    cases stepped
    exact { sound_ticked sound with }
  | act index act =>
    simp only [Option.bind_eq_some_iff, Option.map_eq_some_iff] at stepped
    obtain ⟨call, turn, ⟨next, u⟩, acted, rfl⟩ := stepped
    have moved := moved_of_act acted
    have ok := ok_act sound rfl turn acted
    have steps : u.steps = s.steps + 1 := moved.steps
    have calls : u.calls = s.calls := moved.calls
    have holder := holder_act (sound_ticked sound) moved turn
    have behind := behind_act sound rfl moved turn
    have current := current_act (sound_ticked sound) moved turn
    rw [← steps] at ok
    rw [calls]
    exact ⟨ok, holder, behind, current⟩

end Runs

def Recomputer.Idle (s : Recomputer F) : Prop :=
  ∀ call ∈ s.calls, call.phase.returned = true

/-- In every run until no call is pending, a call is dropped at a turn less than the debounce after
the end of the last run of its host, fails, or has read after it was made; and the row of a host
is that of its last computation, which read everything after each call that computed. -/
theorem computed_after_every_call {start s : Recomputer F} {events : List (Event F)}
    (fresh : start.Fresh) (reached : run (step digest) start events = some s) (idle : s.Idle)
    (host : String) :
    (∀ call ∈ s.calls, call.host = host →
      (∃ turn, call.phase = .dropped turn ∧ call.debounced = true ∧ turn.early) ∨
      (∃ turn, call.phase = .failed turn) ∨
      ∃ turn reads inputs, call.phase = .ended turn reads inputs ∧
        (call.debounced = true → ¬ turn.early) ∧
        (∀ read ∈ reads, call.time < read.time) ∧
        (inputs.isSome → reads.map Read.statement = statements)) ∧
    ((∃ call ∈ s.calls, call.host = host ∧ call.phase.result.isSome) →
      ∃ last ∈ s.calls, last.host = host ∧
        ∃ turn reads registry now inputs row, last.phase = .ended turn reads (some inputs) ∧
          reads.map Read.statement = statements ∧ assemble reads registry now = some inputs ∧
          s.rows host = some row ∧ row.inputsHash = inputs.hash digest ∧
          ∀ call ∈ s.calls, call.host = host → call.phase.result.isSome →
            ∀ read ∈ reads, call.time < read.time) := by
  have sound : s.Sound digest :=
    run_preserves (fun _ _ _ => sound_step) (sound_fresh fresh) reached
  constructor
  case left =>
      intro call member _
      obtain ⟨-, after, dropped, started, whole⟩ := sound.ok call member
      have returned := idle call member
      cases phase : call.phase with
      | dropped turn => exact .inl ⟨turn, rfl, dropped turn phase⟩
      | waiting | reading | storing | closing =>
        rw [phase] at returned
        cases returned
      | failed turn => exact .inr (.inl ⟨turn, rfl⟩)
      | ended turn reads inputs =>
        rw [phase] at after started whole
        refine .inr (.inr ⟨turn, reads, inputs, rfl, started turn rfl, after, ?_⟩)
        intro found
        obtain ⟨inputs, rfl⟩ := Option.isSome_iff_exists.mp found
        exact whole.1
  case right =>
      intro ⟨call, member, named, finished⟩
      have done : ∃ d ∈ s.calls.map Call.done, d.host = host ∧ d.result.isSome :=
        ⟨call.done, List.mem_map_of_mem member, named, finished⟩
      obtain ⟨d, listed, here, ⟨inputs, row, result, stored, hash⟩, ahead⟩ :=
        sound.current host done
      obtain ⟨last, present, rfl⟩ := List.mem_map.mp listed
      have whole := (sound.ok last present).allowed.whole
      have computed : last.phase.result = some inputs := result
      simp only [Call.done, computed, Option.isSome_some, if_true] at ahead
      have returned := idle last present
      refine ⟨last, present, here, ?_⟩
      cases phase : last.phase with
      | waiting | dropped | failed | reading | storing =>
        rw [phase] at computed
        cases computed
      | closing =>
        rw [phase] at returned
        cases returned
      | ended turn reads result =>
        rw [phase] at computed whole ahead
        obtain rfl : result = some inputs := computed
        obtain ⟨read, registry, now, assembled⟩ := whole
        refine ⟨turn, reads, registry, now, inputs, row, rfl, read, assembled, stored, hash, ?_⟩
        intro other member named finished
        exact ahead other.done (List.mem_map_of_mem member) named finished

section Runs

def agentOf (payload : Payload ℚ) : String := payload.agentVersion.getD ""

def running (version : String) : Db ℚ where
  enrolled _ := true
  inputs _ := { bare with host := { bareHost with agentVersion := some version } }

def booted : Recomputer ℚ where
  steps := 0
  clock := 100
  db := running "1.0.0"
  rows _ := none
  lastRun _ := none
  holder _ := none
  calls := []

def readAll (index : Nat) : List (Event ℚ) :=
  .act index .turn :: statements.map fun _ => .act index .read

def close (index : Nat) : List (Event ℚ) :=
  [.act index (.check 0), .act index .commit, .act index .release]

theorem computed_after_a_call :
    ∃ s, run (step agentOf) booted (.call "h1" true false :: readAll 0 ++ close 0) = some s ∧
      ∃ reads registry now inputs row, assemble reads registry now = some inputs ∧
        s.rows "h1" = some row ∧ row.inputsHash = inputs.hash agentOf := by
  have finishes : (run (step agentOf) booted
      (.call "h1" true false :: readAll 0 ++ close 0)).any (fun s =>
        s.calls.all (fun call => call.phase.returned) &&
          s.calls.any (fun call => call.host = "h1" && call.phase.result.isSome)) = true := by
    decide +kernel
  obtain ⟨s, reached, holds⟩ := (Option.any_eq_true _ _).mp finishes
  simp only [Bool.and_eq_true, List.all_eq_true, List.any_eq_true, decide_eq_true_eq] at holds
  obtain ⟨idle, computed⟩ := holds
  have fresh : booted.Fresh := rfl
  obtain ⟨_, _, _, _, reads, registry, now, inputs, row, _, _, assembled, stored, hash, _⟩ :=
    (computed_after_every_call fresh reached idle "h1").2 computed
  exact ⟨s, reached, reads, registry, now, inputs, row, assembled, stored, hash⟩

/-- The agent is upgraded and a second request made while the first one computes: it finds the
end of the first run too close, and the row stays that of the old agent. -/
def overtaken : List (Event ℚ) :=
  .call "h1" true false :: readAll 0 ++
    [.update (running "2.0.0"), .call "h1" true false] ++ close 0 ++ [.act 1 .turn]

theorem trigger_dropped :
    ∃ s row request, run (step agentOf) booted overtaken = some s ∧ s.Idle ∧
      s.calls.getLast? = some request ∧ request.host = "h1" ∧
      (∀ call ∈ s.calls, ∀ read ∈ call.phase.reads, read.time < request.time) ∧
      s.rows "h1" = some row ∧ row.inputsHash ≠ (s.db.inputs "h1").hash agentOf := by
  have finishes : (run (step agentOf) booted overtaken).any (fun s =>
      s.calls.all (fun call => call.phase.returned) &&
        s.calls.getLast?.any (fun request => request.host = "h1" &&
          s.calls.all fun call => call.phase.reads.all fun read => read.time < request.time) &&
        (s.rows "h1").any fun row => row.inputsHash ≠ (s.db.inputs "h1").hash agentOf) = true := by
    decide +kernel
  obtain ⟨s, reached, holds⟩ := (Option.any_eq_true _ _).mp finishes
  simp only [Bool.and_eq_true, List.all_eq_true, Option.any_eq_true, decide_eq_true_eq] at holds
  obtain ⟨⟨idle, request, last, host, before⟩, row, stored, stale⟩ := holds
  exact ⟨s, row, request, reached, idle, last, host, before, stored, stale⟩

end Runs

end HlHelper.Posture
