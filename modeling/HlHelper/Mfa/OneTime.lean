import HlHelper.Mfa.Totp

/-! Codes are accepted once where each is of the step that is stored for it, or of an earlier
step behind the last one stored, and no two calls overlap between selection and commit. -/

namespace HlHelper.Mfa

open HlHelper.Library

variable {totp : Totp} {s t : Server} {call new : Call} {index : Nat}

/-- What a call is about to commit is no earlier than the step of its code, which is later than
the last step in the row it has loaded. -/
def Call.Ok (totp : Totp) (call : Call) : Prop :=
  ∀ loaded confirmedAt stored, call.phase = .committing loaded confirmedAt stored →
    ∃ step, call.code = totp.codeAt step ∧
      (∀ last, loaded.lastUsedStep = some last → last < step) ∧ step ≤ stored

def Sound (totp : Totp) (s : Server) : Prop := ∀ call ∈ s.calls, call.Ok totp

def Server.last (s : Server) : Option Int := s.row.bind TotpSecret.lastUsedStep

def Above (totp : Totp) (s : Server) (code : String) : Prop :=
  ∀ step, code = totp.codeAt step → ∀ last, s.last = some last → last < step

theorem Sound.moved (sound : Sound totp s) (ok : new.Ok totp) :
    Sound totp (s.moved index new) := by
  intro other member
  rcases List.mem_or_eq_of_mem_set member with old | rfl
  · exact sound other old
  · exact ok

theorem Sound.concat {calls : List Call} (sound : ∀ call ∈ calls, call.Ok totp)
    (ok : new.Ok totp) : ∀ call ∈ calls ++ [new], call.Ok totp := by
  intro call member
  rcases List.mem_append.mp member with old | last
  · exact sound call old
  · exact List.mem_singleton.mp last ▸ ok

theorem answer_committing {row : Option TotpSecret} {loaded : TotpSecret} {kind : Kind}
    {code : String} {now checked stored : Int} {confirmedAt : Option Int}
    (answers : answer totp kind code now checked row = .committing loaded confirmedAt stored) :
    row = some loaded ∧ totp.verify code checked = true ∧ stored = totp.timecode now := by
  cases row with
  | none => cases answers
  | some row =>
    simp only [answer] at answers
    split at answers
    · cases answers
    · split at answers
      · next verified =>
        cases kind with
        | enrollFinish =>
          obtain ⟨rfl, _, rfl⟩ := Phase.committing.inj answers
          exact ⟨rfl, verified, rfl⟩
        | verify =>
          simp only at answers
          split at answers
          · cases answers
          · obtain ⟨rfl, _, rfl⟩ := Phase.committing.inj answers
            exact ⟨rfl, verified, rfl⟩
      · cases answers

/-- A step keeps the row, but for a commit of a call that has selected that row. -/
inductive Happens (totp : Totp) (s t : Server) : Option String → Prop where
  | keeps (row : t.row = s.row) (calls : Sound totp t) : Happens totp s t none
  | commits (call : Call) (loaded : TotpSecret) (confirmedAt : Option Int) (stored : Int)
      (phase : call.phase = .committing loaded confirmedAt stored) (ok : call.Ok totp)
      (before : s.row = some loaded) (after : t.last = some stored) (calls : Sound totp t) :
      Happens totp s t (some call.code)

theorem happens_resume {now checked tracked : Int} (sound : Sound totp s)
    (turn : s.calls[index]? = some call)
    (careful : Careful totp s (.resume index now checked tracked))
    (stepped : s.resume totp index now checked tracked call = some t) :
    Happens totp s t none := by
  obtain ⟨service, kind, code, phase⟩ := call
  rw [Server.resume] at stepped
  split at stepped
  · next row selected =>
    obtain rfl : phase = .selected row := selected
    have ok : (⟨service, kind, code, answer totp kind code now checked row⟩ : Call).Ok totp := by
      intro loaded confirmedAt stored answers
      obtain ⟨rfl, verified, rfl⟩ := answer_committing answers
      obtain ⟨step, inside, own⟩ := List.mem_map.mp (of_decide_eq_true verified)
      simp only [Careful, turn, show answer totp kind code now checked (some loaded) = _ from
        answers] at careful
      exact ⟨step, own.symm, careful step inside own.symm⟩
    cases stepped
    have moved : Sound totp (s.moved index _) := sound.moved ok
    split
    · exact .keeps rfl moved
    · exact .keeps rfl moved
  · cases stepped

theorem happens_commit (sound : Sound totp s) (turn : s.calls[index]? = some call)
    (careful : Careful totp s (.commit index)) (stepped : s.commit index call = some t) :
    Happens totp s t (accepted s (.commit index)) := by
  rw [accepted, turn, Option.bind_some]
  rw [Server.commit] at stepped
  split at stepped
  · next loaded confirmedAt stored row phase present =>
    cases stepped
    have before : s.row = some loaded := by
      obtain ⟨_, _, _, _⟩ := call
      obtain rfl := phase
      simpa only [Careful, turn] using careful
    obtain rfl := Option.some.inj (present.symm.trans before)
    simp only [phase, present]
    refine .commits call row confirmedAt stored phase
      (sound call (List.mem_of_getElem? turn)) before ?_
      (sound.moved fun _ _ _ same => by cases same)
    simp only [Server.last, Option.bind_some, flush]
    split
    · next same => exact same.symm
    · rfl
  · next phase absent =>
    cases stepped
    simp only [phase, absent]
    exact .keeps rfl (sound.moved fun _ _ _ same => by cases same)
  · cases stepped

theorem happens_of_step {event : Step} (sound : Sound totp s) (careful : Careful totp s event)
    (stepped : s.step totp event = some t) : Happens totp s t (accepted s event) := by
  cases event with
  | start service kind code now =>
    simp only [Server.step] at stepped
    split at stepped
    · cases kind with
      | enrollFinish =>
        cases stepped
        exact .keeps rfl (Sound.concat sound nofun)
      | verify =>
        cases checked : cooldownCheck (s.trackers service) now with
        | none =>
          simp only [checked] at stepped
          cases stepped
          exact .keeps rfl (Sound.concat sound nofun)
        | some tracker =>
          simp only [checked] at stepped
          cases stepped
          exact .keeps rfl (Sound.concat sound nofun)
    · cases stepped
  | select index =>
    obtain ⟨call, _, selects⟩ := Option.bind_eq_some_iff.mp stepped
    split at selects
    · cases selects
      exact .keeps rfl (sound.moved nofun)
    · cases selects
  | resume index now checked tracked =>
    simp only [Server.step] at stepped
    split at stepped
    · obtain ⟨call, turn, resumes⟩ := Option.bind_eq_some_iff.mp stepped
      exact happens_resume sound turn careful resumes
    · cases stepped
  | commit index =>
    obtain ⟨call, turn, commits⟩ := Option.bind_eq_some_iff.mp stepped
    exact happens_commit sound turn careful commits
  | fail index =>
    obtain ⟨call, _, fails⟩ := Option.bind_eq_some_iff.mp stepped
    rw [Server.fail] at fails
    split at fails
    iterate 3 cases fails
    cases fails
    exact .keeps rfl (sound.moved nofun)

namespace Happens

variable {output : Option String}

theorem sound (happens : Happens totp s t output) : Sound totp t := by
  cases happens with
  | keeps _ calls => exact calls
  | commits _ _ _ _ _ _ _ _ calls => exact calls

theorem above (happens : Happens totp s t output) {code : String} (later : Above totp t code) :
    Above totp s code := by
  cases happens with
  | keeps row =>
    intro step own last stored
    exact later step own last (by rwa [Server.last, row])
  | commits call loaded confirmedAt stored phase ok before after =>
    intro step own last known
    obtain ⟨used, _, behind, small⟩ := ok loaded confirmedAt stored phase
    rw [Server.last, before, Option.bind_some] at known
    calc last < used := behind last known
      _ ≤ stored := small
      _ < step := later step own stored after

theorem orders {code : String} (happens : Happens totp s t (some code)) :
    Above totp s code ∧ ∀ second, Above totp t second →
      ∀ earlier later, code = totp.codeAt earlier → second = totp.codeAt later →
        earlier < later := by
  cases happens with
  | commits call loaded confirmedAt stored phase ok before after =>
    obtain ⟨used, own, behind, small⟩ := ok loaded confirmedAt stored phase
    refine ⟨fun step same last known => ?_, fun second above earlier later same other => ?_⟩
    · rw [Server.last, before, Option.bind_some] at known
      obtain rfl := totp.distinct (own.symm.trans same)
      exact behind last known
    · obtain rfl := totp.distinct (own.symm.trans same)
      exact Int.lt_of_le_of_lt small (above later other stored after)

end Happens

theorem accepted_of_stuck {event : Step} (stuck : s.step totp event = none) :
    accepted s event = none := by
  cases event with
  | commit index =>
    cases turn : s.calls[index]? with
    | none => simp only [accepted, turn, Option.bind_none]
    | some call =>
      simp only [Server.step, turn, Option.bind_some] at stuck
      simp only [accepted, turn, Option.bind_some]
      cases phase : call.phase <;> cases present : s.row <;>
        simp [Server.commit, phase, present] at stuck ⊢
  | _ => rfl

theorem run_orders {steps : List Step} (sound : Sound totp s)
    (met : Meets (Server.step totp) (Careful totp) s steps) :
    OneTime totp s steps ∧
      ∀ code ∈ outputs (Server.step totp) accepted s steps, Above totp s code := by
  induction steps generalizing s with
  | nil => exact ⟨List.Pairwise.nil, fun _ member => absurd member List.not_mem_nil⟩
  | cons event steps ih =>
    cases stepped : s.step totp event with
    | none =>
      rw [OneTime, outputs, accepted_of_stuck stepped, stepped]
      exact ⟨List.Pairwise.nil, fun _ member => absurd member List.not_mem_nil⟩
    | some t =>
      have happens := happens_of_step sound met.1 stepped
      obtain ⟨pairs, aboves⟩ := ih happens.sound (met.2 t stepped)
      rw [OneTime, outputs_cons stepped]
      cases output : accepted s event with
      | none => exact ⟨pairs, fun code member => happens.above (aboves code member)⟩
      | some code =>
        rw [output] at happens
        obtain ⟨first, rest⟩ := happens.orders
        refine ⟨List.pairwise_cons.mpr ⟨fun second member => rest second
          (aboves second member), pairs⟩, fun other member => ?_⟩
        rcases List.mem_cons.mp member with rfl | member
        · exact first
        · exact happens.above (aboves other member)

/-- Codes are accepted once, whatever the row, the failures and the clock at the start. -/
theorem steps_once_when_careful (totp : Totp) (s : Server) (idle : s.calls = [])
    (steps : List Step) (met : Meets (Server.step totp) (Careful totp) s steps) :
    OneTime totp s steps :=
  (run_orders (fun _ member => absurd (idle ▸ member) List.not_mem_nil) met).1

def tally (step : Int) : String :=
  String.ofList (List.replicate step.toNat '+' ++ List.replicate (-step).toNat '-')

theorem tally_injective : Function.Injective tally := by
  intro first second same
  have count : ∀ step : Int, ((tally step).toList.count '+' : Int) - (tally step).toList.count '-' =
      step := by
    intro step
    rw [tally, String.toList_ofList, List.count_append, List.count_append,
      List.count_replicate_self, List.count_replicate_self, List.count_replicate,
      List.count_replicate]
    simp only [Char.reduceBEq, Bool.false_eq_true, if_false]
    omega
  rw [← count first, same, count second]

def tallied : Totp := ⟨30, tally, tally_injective⟩

def enrolled : Server := ⟨some ⟨some 0, none⟩, fun _ => none, 0, []⟩

def alone (index : Nat) (kind : Kind) (code : String) (now : Int) : List Step :=
  [.start 0 kind code now, .select index, .resume index now now now, .commit index]

theorem two_codes_once :
    OneTime tallied enrolled
      (alone 0 .verify (tally 10) 300000000 ++ alone 1 .verify (tally 11) 330000000) :=
  steps_once_when_careful tallied enrolled rfl _ (by decide +kernel)

/-- A code that is accepted again: in the window of the next step, by a second call that has
selected the row before the first one commits, and by `enroll_finish`. -/
theorem code_accepted_twice :
    ¬ OneTime tallied enrolled
        (alone 0 .verify (tally 10) 300000000 ++ alone 1 .verify (tally 10) 330000000) ∧
      ¬ OneTime tallied enrolled
        [.start 0 .verify (tally 10) 300000000, .start 1 .verify (tally 10) 300000000,
          .select 0, .select 1, .resume 0 300000000 300000000 300000000,
          .resume 1 300000000 300000000 300000000, .commit 0, .commit 1] ∧
      ¬ OneTime tallied enrolled
        (alone 0 .verify (tally 10) 300000000 ++ alone 1 .enrollFinish (tally 10) 300000000) := by
  have twice : ∀ steps, outputs (Server.step tallied) accepted enrolled steps =
      [tally 10, tally 10] → ¬ OneTime tallied enrolled steps := by
    intro steps codes once
    rw [OneTime, codes] at once
    exact absurd (List.rel_of_pairwise_cons once List.mem_cons_self 10 10 rfl rfl) (by decide)
  exact ⟨twice _ (by decide +kernel), twice _ (by decide +kernel), twice _ (by decide +kernel)⟩

end HlHelper.Mfa
