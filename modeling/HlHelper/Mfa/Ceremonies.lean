import HlHelper.Library.Slots
import HlHelper.Mfa.WebAuthn

/-! Challenges are used once and counters do not decrease where finishes keep out of each other's
way, and no regression is ever flagged. -/

namespace HlHelper.Mfa.WebAuthn

open HlHelper.Library

variable {lib : PyWebauthn} {s t : Server} {event : Step} {index : Nat} {call : Call} {held : Held}
  {events : List Step} {rows : List Credential}

/-- A finish that succeeds is the only one under way with its challenge, and no greater counter of
its credential has been stored since it read the row. -/
def Careful (s : Server) : Step → Prop
  | .refresh index => ∀ call ∈ s.calls[index]?, ∀ held ∈ call.phase.held,
      ∀ other ∈ s.calls.eraseIdx index, ∀ also ∈ other.phase.held,
        also.stored.challenge ≠ held.stored.challenge
  | .commit index => ∀ call ∈ s.calls[index]?, ∀ held loaded newSignCount usedAt,
      call.phase = .updating held loaded newSignCount usedAt →
        (∀ other ∈ s.calls.eraseIdx index, ∀ also ∈ other.phase.held,
          also.stored.challenge ≠ held.stored.challenge) ∧
        ∀ row ∈ s.rows, row.id = loaded.id → row.signCount ≤ newSignCount
  | _ => True

/-- An assertion with a valid signature under a credential whose stored counter is greater. -/
def Regresses (lib : PyWebauthn) (s : Server) : Step → Prop
  | .select index _ => ∃ call held, s.calls[index]? = some call ∧ call.phase = .selecting held ∧
      ∃ row ∈ s.rows, lib.signed call.response held.stored.challenge row.publicKey = true ∧
        lib.credentialId call.response = row.credentialId ∧
        lib.counter call.response < row.signCount
  | _ => False

/-- The step goes on to flag a credential and to raise `SignCountRegression`. -/
def Flags (lib : PyWebauthn) (s : Server) : Step → Prop
  | .select index now => ∃ t call loaded newSignCount,
      s.step lib (.select index now) = some t ∧ t.calls[index]? = some call ∧
        call.phase = .flagging loaded newSignCount now
  | _ => False

theorem matching_counter {response challenge : Bytes} {row : Credential} {newSignCount : Nat}
    (found : matching lib response challenge rows = some (row, newSignCount)) :
    row.signCount ≤ newSignCount := by
  obtain ⟨other, _, chosen⟩ := List.exists_of_findSome?_eq_some found
  rw [PyWebauthn.verifyAuthentication] at chosen
  by_cases unsigned : lib.signed response challenge other.publicKey = false
  · rw [if_pos unsigned] at chosen
    cases chosen
  rw [if_neg unsigned] at chosen
  by_cases refused : (0 < lib.counter response ∨ 0 < other.signCount) ∧
      lib.counter response ≤ other.signCount
  · rw [if_pos refused] at chosen
    cases chosen
  rw [if_neg refused] at chosen
  simp only [ne_eq, ite_not] at chosen
  split at chosen
  · cases chosen
    omega
  · cases chosen

theorem answer_not_flagging {response : Bytes} {now flaggedAt : Int} {loaded : Credential}
    {newSignCount : Nat} : answer lib response held now rows ≠
      .flagging loaded newSignCount flaggedAt := by
  rw [answer]
  split
  · exact Phase.noConfusion
  · next row counter found =>
    rw [if_neg (Nat.not_lt.mpr (matching_counter found))]
    exact Phase.noConfusion

theorem not_flags : ¬ Flags lib s event := by
  cases event with
  | select index now =>
    rintro ⟨t, call, loaded, newSignCount, stepped, turn, flagging⟩
    obtain ⟨old, before, selected⟩ := Option.bind_eq_some_iff.mp stepped
    rw [Server.select] at selected
    split at selected
    · next held _ =>
      cases selected
      have here := List.getElem?_set_self (List.getElem?_eq_some_iff.mp before).1
        (a := { old with phase := answer lib old.response held now s.rows })
      obtain rfl := Option.some.inj (here.symm.trans turn)
      exact answer_not_flagging flagging
    · cases selected
  | _ => exact id

def Held.timely (held : Held) : Prop :=
  held.checkedAt - held.stored.createdAt ≤ 5 * 60 * 1000000

structure Moves (s t : Server) : Prop where
  slot : t.slot = s.slot ∨ t.slot = none ∨
    ∃ stored, t.slot = some stored ∧ stored ∈ t.drawn ∧
      stored.challenge ∉ s.drawn.map StoredChallenge.challenge
  drawn : s.drawn ⊆ t.drawn
  calls : ∀ call ∈ t.calls, ∀ held ∈ call.phase.held,
    (∃ old ∈ s.calls, held ∈ old.phase.held) ∨ s.slot = some held.stored ∧ held.timely

theorem Moves.begin {stored : StoredChallenge} (begun : s.begin stored = some t) : Moves s t := by
  rw [Server.begin] at begun
  split at begun
  · cases begun
  · next fresh =>
    cases begun
    refine ⟨.inr (.inr ⟨stored, rfl, ?_, fresh⟩), List.subset_append_left .., ?_⟩
    · exact List.mem_append_right _ (List.mem_singleton.mpr rfl)
    · exact fun call member held holds => .inl ⟨call, member, holds⟩

theorem Moves.finish {response : Bytes} {now : Int} {next : Held → Phase}
    (keeps : ∀ held, ∀ after ∈ (next held).held, after = held) :
    Moves s (s.finish response now next) := by
  have old : ∀ call ∈ s.calls, ∀ held ∈ call.phase.held,
      (∃ old ∈ s.calls, held ∈ old.phase.held) ∨ s.slot = some held.stored ∧ held.timely :=
    fun call member held holds => .inl ⟨call, member, holds⟩
  have failed : ∀ failure, Moves s { s with
      slot := none, calls := s.calls ++ [⟨response, .raised failure⟩] } := by
    intro failure
    refine ⟨.inr (.inl rfl), List.Subset.refl _, fun call member held holds => ?_⟩
    rcases List.mem_append.mp member with before | last
    · exact old call before held holds
    · obtain rfl := List.mem_singleton.mp last
      cases holds
  rw [Server.finish]
  cases there : s.slot with
  | none => exact failed .noChallenge
  | some stored =>
    by_cases expired : 5 * 60 * 1000000 < now - stored.createdAt
    · rw [getChallenge, if_pos expired]
      exact failed .challengeExpired
    · rw [getChallenge, if_neg expired]
      refine ⟨.inl there.symm, List.Subset.refl _, fun call member held holds => ?_⟩
      rcases List.mem_append.mp member with before | last
      · exact old call before held holds
      · obtain rfl := List.mem_singleton.mp last
        obtain rfl := keeps _ held holds
        exact .inr ⟨there, Int.not_lt.mp expired⟩

theorem Moves.moved {phase : Phase} {slot : Option StoredChallenge}
    (turn : s.calls[index]? = some call) (keeps : ∀ held ∈ phase.held, held ∈ call.phase.held)
    (pops : slot = s.slot ∨ slot = none) :
    Moves s { s.moved index call phase with slot := slot, rows := rows } := by
  refine ⟨pops.imp_right .inl, List.Subset.refl _, fun other member held holds => ?_⟩
  rcases List.mem_or_eq_of_mem_set member with old | rfl
  · exact .inl ⟨other, old, holds⟩
  · exact .inl ⟨call, List.mem_of_getElem? turn, keeps held holds⟩

theorem held_answer {response : Bytes} {now : Int} :
    ∀ after ∈ (answer lib response held now rows).held, after = held := by
  intro after holds
  rw [answer] at holds
  split at holds
  · cases holds
  · split at holds
    · cases holds
    · exact (Option.some.inj holds).symm

theorem step_moves (stepped : s.step lib event = some t) : Moves s t := by
  cases event with
  | registrationBegin challenge name now => exact Moves.begin stepped
  | assertionBegin challenge now => exact Moves.begin stepped
  | registrationFinish response now =>
    cases stepped
    refine Moves.finish fun held after holds => ?_
    rw [Server.afterRegistration] at holds
    split at holds
    · cases holds
    · exact (Option.some.inj holds).symm
  | assertionFinish response now =>
    cases stepped
    exact Moves.finish fun held after holds => (Option.some.inj holds).symm
  | insert index id =>
    obtain ⟨call, turn, goes⟩ := Option.bind_eq_some_iff.mp stepped
    rw [Server.insert] at goes
    split at goes
    · next held verified phase =>
      split at goes
      · cases goes
        exact Moves.moved turn (fun held holds => by cases holds) (.inl rfl)
      · cases goes
        exact Moves.moved turn (fun held holds => phase ▸ holds) (.inl rfl)
    · cases goes
  | refresh index =>
    obtain ⟨call, turn, goes⟩ := Option.bind_eq_some_iff.mp stepped
    rw [Server.refresh] at goes
    split at goes
    · cases goes
      exact Moves.moved turn (fun held holds => by cases holds) (.inr rfl)
    · cases goes
  | select index now =>
    obtain ⟨call, turn, goes⟩ := Option.bind_eq_some_iff.mp stepped
    rw [Server.select] at goes
    split at goes
    · next held phase =>
      cases goes
      refine Moves.moved turn (fun after holds => ?_) (.inl rfl)
      rw [held_answer after holds, phase]
      rfl
    · cases goes
  | commit index =>
    obtain ⟨call, turn, goes⟩ := Option.bind_eq_some_iff.mp stepped
    rw [Server.commit] at goes
    split at goes
    · split at goes
      · cases goes
        exact Moves.moved turn (fun held holds => by cases holds) (.inr rfl)
      · cases goes
        exact Moves.moved turn (fun held holds => by cases holds) (.inl rfl)
    · split at goes
      · cases goes
        exact Moves.moved turn (fun held holds => by cases holds) (.inl rfl)
      · cases goes
        exact Moves.moved turn (fun held holds => by cases holds) (.inl rfl)
    · cases goes
  | fail index =>
    obtain ⟨call, turn, goes⟩ := Option.bind_eq_some_iff.mp stepped
    rw [Server.fail] at goes
    split at goes
    · cases goes
    · cases goes
    · cases goes
      exact Moves.moved turn (fun held holds => by cases holds) (.inl rfl)

/-- What is in the slot and what calls hold has been drawn, and was looked up in time. -/
structure Sound (s : Server) : Prop where
  slot : ∀ stored ∈ s.slot, stored ∈ s.drawn
  calls : ∀ call ∈ s.calls, ∀ held ∈ call.phase.held, held.stored ∈ s.drawn ∧ held.timely

structure Spent (challenge : Bytes) (s : Server) : Prop where
  drawn : challenge ∈ s.drawn.map StoredChallenge.challenge
  slot : ∀ stored ∈ s.slot, stored.challenge ≠ challenge
  calls : ∀ call ∈ s.calls, ∀ held ∈ call.phase.held, held.stored.challenge ≠ challenge

theorem sound_initial (rows : List Credential) : Sound (.initial rows) := by
  refine ⟨?_, List.forall_mem_nil _⟩
  rintro _ ⟨⟩

theorem Sound.step (sound : Sound s) (stepped : s.step lib event = some t) : Sound t := by
  have moves := step_moves stepped
  constructor
  case slot =>
    intro stored there
    rcases moves.slot with same | gone | ⟨drawn, here, member, _⟩
    · exact moves.drawn (sound.slot stored (same ▸ there))
    · rw [gone] at there
      cases there
    · exact Option.some.inj (here.symm.trans there) ▸ member
  case calls =>
    intro call member held holds
    rcases moves.calls call member held holds with ⟨old, before, kept⟩ | ⟨there, timely⟩
    · obtain ⟨drawn, timely⟩ := sound.calls old before held kept
      exact ⟨moves.drawn drawn, timely⟩
    · exact ⟨moves.drawn (sound.slot _ there), timely⟩

theorem Spent.step {challenge : Bytes} (spent : Spent challenge s)
    (stepped : s.step lib event = some t) : Spent challenge t := by
  have moves := step_moves stepped
  constructor
  case drawn => exact (List.map_subset _ moves.drawn) spent.drawn
  case slot =>
    intro stored there
    rcases moves.slot with same | gone | ⟨drawn, here, _, fresh⟩
    · exact spent.slot stored (same ▸ there)
    · rw [gone] at there
      cases there
    · obtain rfl := Option.some.inj (here.symm.trans there)
      exact fun same => fresh (same ▸ spent.drawn)
  case calls =>
    intro call member held holds
    rcases moves.calls call member held holds with ⟨old, before, kept⟩ | ⟨there, _⟩
    · exact spent.calls old before held kept
    · exact spent.slot _ there

theorem succeeds_cases (success : succeeds s event = some held)
    (stepped : s.step lib event = some t) : ∃ index call phase, s.calls[index]? = some call ∧
      held ∈ call.phase.held ∧ t.calls = s.calls.set index { call with phase := phase } ∧
      phase.held = none ∧ t.slot = none ∧ t.drawn = s.drawn ∧
      (Careful s event → ∀ other ∈ s.calls.eraseIdx index, ∀ also ∈ other.phase.held,
        also.stored.challenge ≠ held.stored.challenge) := by
  cases event with
  | refresh index =>
    obtain ⟨call, turn, succeeded⟩ := Option.bind_eq_some_iff.mp success
    split at succeeded
    · next kept phase =>
      obtain rfl := Option.some.inj succeeded
      have holds : kept ∈ call.phase.held := phase ▸ rfl
      simp only [Server.step, turn, Option.bind_some, Server.refresh, phase] at stepped
      obtain rfl := Option.some.inj stepped
      exact ⟨index, call, .returned true, turn, holds, rfl, rfl, rfl, rfl,
        fun careful => careful call turn kept holds⟩
    · cases succeeded
  | commit index =>
    obtain ⟨call, turn, succeeded⟩ := Option.bind_eq_some_iff.mp success
    split at succeeded
    · next kept loaded newSignCount usedAt phase =>
      split at succeeded
      · next there =>
        obtain rfl := Option.some.inj succeeded
        simp only [Server.step, turn, Option.bind_some, Server.commit, phase, there, if_true]
          at stepped
        obtain rfl := Option.some.inj stepped
        exact ⟨index, call, .returned true, turn, phase ▸ rfl, rfl, rfl, rfl, rfl,
          fun careful => (careful call turn kept loaded newSignCount usedAt phase).1⟩
      · cases succeeded
    · cases succeeded
  | _ => cases success

theorem spent_of_success (sound : Sound s) (careful : Careful s event)
    (stepped : s.step lib event = some t) (success : succeeds s event = some held) :
    Spent held.stored.challenge t := by
  obtain ⟨index, call, phase, turn, holds, calls, released, slot, drawn, alone⟩ :=
    succeeds_cases success stepped
  constructor
  case drawn =>
    rw [drawn]
    exact List.mem_map_of_mem (sound.calls call (List.mem_of_getElem? turn) held holds).1
  case slot =>
    intro stored there
    rw [slot] at there
    cases there
  case calls =>
    intro other member also holdsToo
    rw [calls] at member
    obtain ⟨place, there⟩ := List.mem_iff_getElem?.mp member
    rcases getElem?_set_cases there with ⟨before, apart⟩ | ⟨_, rfl⟩
    · exact alone careful other
        (List.mem_eraseIdx_iff_getElem?.mpr ⟨place, apart, before⟩) also holdsToo
    · rw [released] at holdsToo
      cases holdsToo

theorem held_of_success (success : succeeds s event = some held) :
    ∃ call ∈ s.calls, held ∈ call.phase.held := by
  cases event with
  | refresh index =>
    obtain ⟨call, turn, succeeded⟩ := Option.bind_eq_some_iff.mp success
    split at succeeded
    · next phase => exact ⟨call, List.mem_of_getElem? turn, by rw [phase]; exact succeeded⟩
    · cases succeeded
  | commit index =>
    obtain ⟨call, turn, succeeded⟩ := Option.bind_eq_some_iff.mp success
    split at succeeded
    · next phase =>
      split at succeeded
      · exact ⟨call, List.mem_of_getElem? turn, by rw [phase]; exact succeeded⟩
      · cases succeeded
    · cases succeeded
  | _ => cases success

theorem Spent.apart {challenge : Bytes} (spent : Spent challenge s)
    (success : succeeds s event = some held) : challenge ≠ held.stored.challenge := by
  obtain ⟨call, member, holds⟩ := held_of_success success
  exact (spent.calls call member held holds).symm

theorem le_flush {loaded new stored : Nat} (fits : stored ≤ new) :
    stored ≤ flush loaded new stored := by
  rw [flush]
  split
  · exact Nat.le_refl _
  · exact fits

def Grown (before after : List Credential) : Prop :=
  ∀ row ∈ before, ∃ now ∈ after, now.id = row.id ∧ row.signCount ≤ now.signCount

theorem Grown.refl (rows : List Credential) : Grown rows rows :=
  fun row member => ⟨row, member, rfl, Nat.le_refl _⟩

theorem Grown.trans {first second third : List Credential} (before : Grown first second)
    (after : Grown second third) : Grown first third := by
  intro row member
  obtain ⟨middle, here, same, less⟩ := before row member
  obtain ⟨last, there, again, more⟩ := after middle here
  exact ⟨last, there, again.trans same, Nat.le_trans less more⟩

theorem Grown.map {update : Credential → Credential}
    (grows : ∀ row ∈ rows, (update row).id = row.id ∧ row.signCount ≤ (update row).signCount) :
    Grown rows (rows.map update) :=
  fun row member => ⟨update row, List.mem_map_of_mem member, grows row member⟩

theorem step_grown (careful : Careful s event) (stepped : s.step lib event = some t) :
    Grown s.rows t.rows := by
  cases event with
  | registrationBegin challenge name now =>
    rw [Server.step, Server.begin] at stepped
    split at stepped
    · cases stepped
    · exact Option.some.inj stepped ▸ Grown.refl _
  | assertionBegin challenge now =>
    rw [Server.step, Server.begin] at stepped
    split at stepped
    · cases stepped
    · exact Option.some.inj stepped ▸ Grown.refl _
  | registrationFinish response now =>
    cases stepped
    rw [Server.finish]
    split <;> exact Grown.refl _
  | assertionFinish response now =>
    cases stepped
    rw [Server.finish]
    split <;> exact Grown.refl _
  | insert index id =>
    obtain ⟨call, turn, goes⟩ := Option.bind_eq_some_iff.mp stepped
    rw [Server.insert] at goes
    split at goes
    · split at goes
      · exact Option.some.inj goes ▸ Grown.refl _
      · cases goes
        exact fun row member => ⟨row, List.mem_append_left _ member, rfl, Nat.le_refl _⟩
    · cases goes
  | refresh index =>
    obtain ⟨call, turn, goes⟩ := Option.bind_eq_some_iff.mp stepped
    rw [Server.refresh] at goes
    split at goes
    · exact Option.some.inj goes ▸ Grown.refl _
    · cases goes
  | select index now =>
    obtain ⟨call, turn, goes⟩ := Option.bind_eq_some_iff.mp stepped
    rw [Server.select] at goes
    split at goes
    · exact Option.some.inj goes ▸ Grown.refl _
    · cases goes
  | commit index =>
    obtain ⟨call, turn, goes⟩ := Option.bind_eq_some_iff.mp stepped
    rw [Server.commit] at goes
    split at goes
    · next held loaded newSignCount usedAt phase =>
      have fits := (careful call turn held loaded newSignCount usedAt phase).2
      split at goes
      · cases goes
        refine Grown.map fun row member => ?_
        by_cases own : row.id = loaded.id
        · simp only [own, if_true, true_and]
          exact le_flush (fits row member own)
        · simp only [own, if_false, true_and]
          exact Nat.le_refl _
      · exact Option.some.inj goes ▸ Grown.refl _
    · split at goes
      · cases goes
        refine Grown.map fun row member => ?_
        split
        · exact ⟨rfl, Nat.le_refl _⟩
        · exact ⟨rfl, Nat.le_refl _⟩
      · exact Option.some.inj goes ▸ Grown.refl _
    · cases goes
  | fail index =>
    obtain ⟨call, turn, goes⟩ := Option.bind_eq_some_iff.mp stepped
    rw [Server.fail] at goes
    split at goes
    · cases goes
    · cases goes
    · exact Option.some.inj goes ▸ Grown.refl _

/-- After careful steps of a user's ceremonies no challenge has led to two successes, each was
looked up in its lifetime, and no counter has decreased. Regressions are flagged exactly in the
runs that have none. -/
theorem ceremonies_when_careful {more : List Step}
    (reached : run (Server.step lib) (.initial rows) events = some s)
    (later : run (Server.step lib) s more = some t)
    (careful : Meets (Server.step lib) Careful (.initial rows) (events ++ more)) :
    ((outputs (Server.step lib) succeeds (.initial rows) (events ++ more)).map
        fun held => held.stored.challenge).Nodup ∧
      (∀ held ∈ outputs (Server.step lib) succeeds (.initial rows) (events ++ more),
        held.stored ∈ t.drawn ∧ held.timely) ∧
      Grown s.rows t.rows ∧
      (Meets (Server.step lib) (fun s event => Regresses lib s event → Flags lib s event)
          (.initial rows) (events ++ more) ↔
        Meets (Server.step lib) (fun s event => ¬ Regresses lib s event) (.initial rows)
          (events ++ more)) := by
  have whole : run (Server.step lib) (.initial rows) (events ++ more) = some t := by
    rw [run_append, reached]
    exact later
  have keep : ∀ s event t, Sound s → Careful s event → s.step lib event = some t → Sound t :=
    fun _ _ _ sound _ stepped => sound.step stepped
  refine ⟨?_, ?_, ?_, ?_⟩
  · rw [List.nodup_iff_pairwise_ne, List.pairwise_map]
    exact @outputs_pairwise _ _ (Server.step lib) Careful _ succeeds
      (fun first second => first.stored.challenge ≠ second.stored.challenge) Sound
      (fun held => Spent held.stored.challenge) keep
      (fun _ _ _ _ sound careful stepped => spent_of_success sound careful stepped)
      (fun _ _ _ _ spent _ _ stepped => spent.step stepped)
      (fun _ _ _ _ spent success => spent.apart success) _ _ (sound_initial rows) careful
  · refine @forall_outputs _ _ (Server.step lib) Careful _ succeeds Sound
      (fun held t => held.stored ∈ t.drawn ∧ held.timely) keep ?_ ?_ _ _ _ (sound_initial rows)
      whole careful
    · intro s event t held sound _ stepped success
      obtain ⟨call, member, holds⟩ := held_of_success success
      obtain ⟨drawn, timely⟩ := sound.calls call member held holds
      exact ⟨(step_moves stepped).drawn drawn, timely⟩
    · intro held s event t known _ _ stepped
      exact ⟨(step_moves stepped).drawn known.1, known.2⟩
  · exact @run_keeps _ _ (Server.step lib) Careful (fun u => Grown s.rows u.rows)
      (fun u event v grown allowed stepped => grown.trans (step_grown allowed stepped)) _ _ _
      (Grown.refl s.rows) later (meets_append reached careful).2
  · have same : (fun s event => Regresses lib s event → Flags lib s event) =
        fun s event => ¬ Regresses lib s event := by
      funext s event
      exact propext ⟨fun flags regresses => not_flags (flags regresses),
        fun never regresses => (never regresses).elim⟩
    rw [same]

/-- A library for which a response is its challenge, the name of its key and a counter. -/
def plainLibrary : PyWebauthn where
  verifyRegistration := fun response challenge =>
    if response.take 1 = challenge then some ⟨(response.drop 1).take 1, (response.drop 1).take 1, 0⟩
    else none
  signed := fun response challenge publicKey =>
    response.take 1 = challenge ∧ (response.drop 1).take 1 = publicKey
  credentialId := fun response => (response.drop 1).take 1
  counter := fun response => ((response.drop 2).headD 0).toNat

theorem ceremonies_in_turn : ∃ s t,
    run (Server.step plainLibrary) (.initial [])
      [.registrationBegin [1] "key" 0, .registrationFinish [1, 9] 5, .insert 0 "a", .refresh 0]
        = some s ∧
    run (Server.step plainLibrary) s
      [.assertionBegin [2] 10, .assertionFinish [2, 9, 4] 20, .select 1 21, .commit 1] = some t ∧
    t.rows = [⟨"a", [9], [9], 4, "key", some 21, none⟩] ∧ Grown s.rows t.rows := by
  have sound := @ceremonies_when_careful plainLibrary _ _
    [.registrationBegin [1] "key" 0, .registrationFinish [1, 9] 5, .insert 0 "a", .refresh 0] []
    [.assertionBegin [2] 10, .assertionFinish [2, 9, 4] 20, .select 1 21, .commit 1] rfl rfl ?alone
  case alone =>
    refine ⟨trivial, fun _ first => ⟨trivial, fun _ second => ⟨trivial, fun _ third => ?_⟩⟩⟩
    cases first
    cases second
    cases third
    refine ⟨fun call _ held _ other member => (List.not_mem_nil member).elim, fun _ fourth => ?_⟩
    cases fourth
    refine ⟨trivial, fun _ fifth => ⟨trivial, fun _ sixth => ⟨trivial, fun _ seventh => ?_⟩⟩⟩
    cases fifth
    cases sixth
    cases seventh
    refine ⟨fun call turn held loaded counter usedAt phase => ⟨?_, ?_⟩, fun _ _ => trivial⟩
    · intro other member also holds
      obtain rfl := List.mem_singleton.mp member
      cases holds
    · intro row member _
      obtain rfl := List.mem_singleton.mp member
      exact Nat.zero_le _
  exact ⟨_, _, rfl, rfl, rfl, sound.2.2.1⟩

/-- Of two finishes that overlap both succeed with one challenge, and the later one may put a
smaller counter in the place of a greater one; a counter behind the stored one is not flagged. -/
theorem ceremonies_overlap :
    (∃ s, run (Server.step plainLibrary) (.initial [⟨"a", [9], [9], 5, "key", none, none⟩])
        [.assertionBegin [1] 0, .assertionFinish [1, 9, 8] 1, .assertionFinish [1, 9, 7] 1,
          .select 0 2, .select 1 2, .commit 0] = some s ∧
      s.rows.map Credential.signCount = [8] ∧ ∃ t, s.step plainLibrary (.commit 1) = some t ∧
        t.rows.map Credential.signCount = [7] ∧
        t.calls.map Call.phase = [.returned true, .returned true]) ∧
    ∃ s, run (Server.step plainLibrary) (.initial [⟨"a", [9], [9], 5, "key", none, none⟩])
        [.assertionBegin [1] 0, .assertionFinish [1, 9, 3] 1] = some s ∧
      Regresses plainLibrary s (.select 0 2) ∧
      ∃ t, s.step plainLibrary (.select 0 2) = some t ∧
        t.calls.map Call.phase = [.returned false] ∧ t.rows.map Credential.flaggedAt = [none] := by
  refine ⟨⟨_, rfl, rfl, _, rfl, rfl, rfl⟩, _, rfl, ?_, _, rfl, rfl, rfl⟩
  exact ⟨_, _, rfl, rfl, _, List.mem_singleton.mpr rfl, by decide, rfl, by decide⟩

end HlHelper.Mfa.WebAuthn
