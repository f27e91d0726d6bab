import HlHelper.Auth.Lockout
import HlHelper.Library.Slots

/-! No failure is lost where what a call writes over is still the row that it has read. -/

namespace HlHelper.Auth.Lockout

open HlHelper.Library

variable {s t : Server} {index : Nat} {call : Call} {phase : Phase}
  {row : Option LockoutRecord} {correct : Bool} {nowUtc nowTs clock : Int} {result : Outcome}
  {recorded : List Int} {expires : Int}

theorem flush_self {α : Type} [DecidableEq α] (loaded new : α) : flush loaded new loaded = new := by
  rw [flush]
  split
  · next same => exact same.symm
  · rfl

theorem LockoutRecord.flush_self (loaded new : LockoutRecord) : loaded.flush new loaded = new := by
  simp only [LockoutRecord.flush, Lockout.flush_self]

def Phase.Current (row : Option LockoutRecord) : Phase → Prop
  | .writing _ loaded _ => row = loaded
  | .expiring loaded => row = some loaded
  | .deleting loaded => row = some loaded
  | _ => True

/-- What a call has read and computed, at a time of the clock. -/
def Phase.Ok (clock : Int) (correct : Bool) : Phase → Prop
  | .looking began => began ≤ clock
  | .expiring loaded => ∃ expires, loaded.lockoutExpiresAt = some expires ∧ expires ≤ clock
  | .recording began beganTs => began ≤ beganTs ∧ began ≤ clock
  | .writing began loaded new =>
    ∃ beganTs, recordFailure (loaded.getD .fresh) began beganTs = some new ∧
      began ≤ beganTs ∧ began ≤ clock
  | .clearing | .deleting _ | .passed => correct = true
  | .raised failure => failure ≠ .integrity
  | _ => True

theorem Phase.Ok.later (ok : phase.Ok clock correct) {later : Int} (passes : clock ≤ later) :
    phase.Ok later correct := by
  cases phase with
  | looking began => exact Int.le_trans ok passes
  | expiring loaded =>
    obtain ⟨expires, own, before⟩ := ok
    exact ⟨expires, own, Int.le_trans before passes⟩
  | recording began beganTs => exact ⟨ok.1, Int.le_trans ok.2 passes⟩
  | writing began loaded new =>
    obtain ⟨beganTs, records, order, before⟩ := ok
    exact ⟨beganTs, records, order, Int.le_trans before passes⟩
  | _ => exact ok

theorem checkPassword_ok (order : nowUtc ≤ nowTs) :
    (checkPassword correct nowUtc nowTs).Ok nowTs correct := by
  cases correct with
  | true => rfl
  | false => exact ⟨order, order⟩

/-- What a current statement does to the row: nothing, a deletion of what has expired or of a
correct login, or a failure that is recorded. -/
inductive Effect (row : Option LockoutRecord) (correct : Bool) (clock : Int) :
    Option LockoutRecord → List Int → Phase → Prop where
  | reads {phase : Phase} (plain : phase ≠ .rejected) : Effect row correct clock row [] phase
  | expires {record : LockoutRecord} {expires : Int} {phase : Phase} (loaded : row = some record)
      (own : record.lockoutExpiresAt = some expires) (past : expires ≤ clock)
      (plain : phase ≠ .rejected) : Effect row correct clock none [] phase
  | clears (passes : correct = true) : Effect row correct clock none [] .passed
  | finds {began beganTs : Int} (locked : recordFailure (row.getD .fresh) began beganTs = none)
      (order : began ≤ beganTs) (before : began ≤ clock) :
      Effect row correct clock row [began] .rejected
  | records {began beganTs : Int} {new : LockoutRecord}
      (counts : recordFailure (row.getD .fresh) began beganTs = some new)
      (order : began ≤ beganTs) (before : began ≤ clock) :
      Effect row correct clock (some new) [began] .rejected

theorem checkPassword_ne : checkPassword correct nowUtc nowTs ≠ .rejected := by
  cases correct <;> exact nofun

theorem outcome_ok (ok : phase.Ok clock correct) (current : phase.Current row)
    (passes : clock ≤ nowUtc) (order : nowUtc ≤ nowTs)
    (next : outcome row correct nowUtc nowTs phase = some result) :
    result.phase.Ok nowTs correct ∧
      Effect row correct clock result.row result.recorded result.phase := by
  have late : clock ≤ nowTs := Int.le_trans passes order
  cases phase with
  | looking began =>
    cases row with
    | none =>
      cases next
      exact ⟨checkPassword_ok order, .reads checkPassword_ne⟩
    | some record =>
      cases own : record.lockoutExpiresAt with
      | none =>
        simp only [outcome, own] at next
        cases next
        exact ⟨checkPassword_ok order, .reads checkPassword_ne⟩
      | some expires =>
        simp only [outcome, own] at next
        split at next
        · next expired =>
          cases next
          exact ⟨⟨expires, own, Int.le_trans expired (Int.le_trans ok late)⟩,
            .reads nofun⟩
        · cases next
          exact ⟨trivial, .reads nofun⟩
  | expiring loaded =>
    cases next
    obtain ⟨expires, own, past⟩ := ok
    exact ⟨checkPassword_ok order, .expires current own past checkPassword_ne⟩
  | recording began beganTs =>
    cases counts : recordFailure (row.getD .fresh) began beganTs with
    | none =>
      simp only [outcome, counts] at next
      cases next
      exact ⟨trivial, .finds counts ok.1 ok.2⟩
    | some new =>
      simp only [outcome, counts] at next
      cases next
      exact ⟨⟨beganTs, counts, ok.1, Int.le_trans ok.2 late⟩, .reads nofun⟩
  | writing began loaded new =>
    obtain ⟨beganTs, counts, ordered, before⟩ := ok
    obtain rfl : row = loaded := current
    cases row with
    | none =>
      cases next
      exact ⟨trivial, .records counts ordered before⟩
    | some old =>
      cases next
      refine ⟨trivial, ?_⟩
      dsimp only
      rw [old.flush_self]
      exact .records counts ordered before
  | clearing =>
    cases row with
    | none =>
      cases next
      exact ⟨ok, .reads nofun⟩
    | some record =>
      cases next
      exact ⟨ok, .reads nofun⟩
  | deleting loaded =>
    cases next
    exact ⟨ok, .clears ok⟩
  | refused => cases next
  | rejected => cases next
  | passed => cases next
  | raised failure => cases next

inductive Goes (s t : Server) : Step → Prop where
  | starts (correct : Bool) (now : Int) (clock : t.clock = now)
      (calls : t.calls = s.calls ++ [⟨correct, .looking now⟩])
      (row : t.row = s.row) (recorded : t.recorded = s.recorded) : Goes s t (.start correct now)
  | fails (index : Nat) (call : Call) (turn : s.calls[index]? = some call)
      (under : call.phase ≠ .rejected)
      (calls : t.calls = s.calls.set index { call with phase := .raised .other })
      (row : t.row = s.row) (recorded : t.recorded = s.recorded) : Goes s t (.fail index)
  | advances (index : Nat) (nowUtc nowTs : Int) (call : Call) (result : Outcome)
      (turn : s.calls[index]? = some call) (before : call.phase.Ok s.clock call.correct)
      (current : call.phase.Current s.row) (under : call.phase ≠ .rejected)
      (next : outcome s.row call.correct nowUtc nowTs call.phase = some result)
      (ok : result.phase.Ok t.clock call.correct) (row : t.row = result.row)
      (effect : Effect s.row call.correct s.clock t.row result.recorded result.phase)
      (calls : t.calls = s.calls.set index { call with phase := result.phase })
      (recorded : t.recorded = s.recorded ++ result.recorded) :
      Goes s t (.advance index nowUtc nowTs)

structure Sound (s : Server) : Prop where
  calls : ∀ call ∈ s.calls, call.phase.Ok s.clock call.correct
  complete : s.recorded.length = s.calls.countP (fun call => call.phase = .rejected)

theorem goes_of_step {event : Step} (sound : Sound s) (careful : Careful s event)
    (stepped : s.step event = some t) : s.clock ≤ t.clock ∧ Goes s t event := by
  cases event with
  | start correct now =>
    simp only [Server.step] at stepped
    split at stepped
    · next passes =>
      cases stepped
      exact ⟨passes, .starts correct now rfl rfl rfl rfl⟩
    · cases stepped
  | advance index nowUtc nowTs =>
    simp only [Server.step] at stepped
    split at stepped
    · next times =>
      obtain ⟨call, turn, advances⟩ := Option.bind_eq_some_iff.mp stepped
      obtain ⟨result, next, rfl⟩ := Option.map_eq_some_iff.mp advances
      have ok := sound.calls call (List.mem_of_getElem? turn)
      have current : call.phase.Current s.row := by
        obtain ⟨correct, phase⟩ := call
        simp only [Careful, turn] at careful
        cases phase <;> exact careful
      have under : call.phase ≠ .rejected := by
        intro ended
        rw [ended] at next
        cases next
      obtain ⟨after, effect⟩ := outcome_ok ok current times.1 times.2 next
      exact ⟨Int.le_trans times.1 times.2,
        .advances index nowUtc nowTs call result turn ok current under next after rfl effect rfl
          rfl⟩
    · cases stepped
  | fail index =>
    obtain ⟨call, turn, fails⟩ := Option.bind_eq_some_iff.mp stepped
    have under : call.phase ≠ .rejected := by
      intro ended
      rw [Server.fail, ended] at fails
      cases fails
    rw [Server.fail] at fails
    split at fails
    iterate 4 cases fails
    cases fails
    exact ⟨Int.le_refl _, .fails index call turn under rfl rfl rfl⟩

theorem countP_rejected (turn : s.calls[index]? = some call) (under : call.phase ≠ .rejected)
    (phase : Phase) :
    (s.calls.set index { call with phase := phase }).countP (fun call => call.phase = .rejected) =
      s.calls.countP (fun call => call.phase = .rejected) + if phase = .rejected then 1 else 0 := by
  obtain ⟨inside, here⟩ := List.getElem?_eq_some_iff.mp turn
  rw [List.countP_set inside, here]
  simp [under]

theorem Effect.length_recorded {after : Option LockoutRecord} {added : List Int}
    (effect : Effect row correct clock after added phase) :
    added.length = if phase = .rejected then 1 else 0 := by
  cases effect with
  | reads plain => rw [if_neg plain, List.length_nil]
  | expires _ _ _ plain => rw [if_neg plain, List.length_nil]
  | clears => rfl
  | finds => rfl
  | records => rfl

theorem Sound.goes {event : Step} (sound : Sound s) (passes : s.clock ≤ t.clock)
    (goes : Goes s t event) : Sound t := by
  have kept : ∀ {index : Nat} {new : Call}, new.phase.Ok t.clock new.correct →
      ∀ call ∈ s.calls.set index new, call.phase.Ok t.clock call.correct := by
    intro index new ok call member
    rcases List.mem_or_eq_of_mem_set member with old | rfl
    · exact (sound.calls call old).later passes
    · exact ok
  cases goes with
  | starts correct now clock calls _ recorded =>
    refine ⟨fun call member => ?_, ?_⟩
    · rw [calls] at member
      rcases List.mem_append.mp member with old | new
      · exact (sound.calls call old).later passes
      · obtain rfl := List.mem_singleton.mp new
        exact Int.le_of_eq clock.symm
    · rw [recorded, calls, List.countP_append, sound.complete]
      rfl
  | fails index call turn under calls _ recorded =>
    refine ⟨calls ▸ kept nofun, ?_⟩
    rw [recorded, calls, countP_rejected turn under, sound.complete]
    rfl
  | advances index nowUtc nowTs call result turn _ _ under next ok _ effect calls recorded =>
    refine ⟨calls ▸ kept ok, ?_⟩
    rw [recorded, calls, countP_rejected turn under, List.length_append, sound.complete,
      effect.length_recorded]

section Counting

/-- Up to four failures within five minutes: the row counts them, and is not locked. -/
def Tally (row : Option LockoutRecord) (recorded : List Int) : Prop :=
  Within recorded → recorded.length < 5 →
    match recorded.getLast? with
    | none => row = none
    | some last => ∃ record, row = some record ∧ record.failureCount = recorded.length ∧
        record.lockoutExpiresAt = none ∧ record.lastFailureAt = some last

theorem recordFailure_open {record : LockoutRecord} (unlocked : record.lockoutExpiresAt = none)
    (recent : ∀ last, record.lastFailureAt = some last → nowUtc - last ≤ 300 * second) :
    recordFailure record nowUtc nowTs =
      some (if 5 ≤ record.failureCount + 1 then
        ⟨record.failureCount + 1, some nowUtc, some (nowTs + 60 * second), 1⟩
      else ⟨record.failureCount + 1, some nowUtc, none, record.level⟩) := by
  have fresh : ¬ ∃ last, record.lastFailureAt = some last ∧ 300 * second < nowUtc - last := by
    rintro ⟨last, own, late⟩
    exact absurd (recent last own) (Int.not_le.mpr late)
  simp only [recordFailure, unlocked, fresh, Option.mem_def, reduceCtorEq, false_and, exists_false,
    if_false, Option.isSome_none, Bool.false_eq_true, or_false, cooldownForLevel, if_true]
  split <;> rfl

theorem Within.prefix_ {first last : List Int} (within : Within (first ++ last)) : Within first :=
  fun a left b right => within a (List.mem_append_left _ left) b (List.mem_append_left _ right)

theorem Tally.next (tally : Tally row recorded) {began beganTs : Int}
    (within : Within (recorded ++ [began])) (few : recorded.length < 5) :
    ∃ record : LockoutRecord,
      recordFailure (row.getD .fresh) began beganTs = some record ∧
        record.failureCount = recorded.length + 1 ∧ record.lastFailureAt = some began ∧
        record.lockoutExpiresAt =
          if 5 ≤ recorded.length + 1 then some (beganTs + 60 * second) else none := by
  have state := tally within.prefix_ few
  cases last : recorded.getLast? with
  | none =>
    simp only [last] at state
    have none_ := List.getLast?_eq_none_iff.mp last
    subst none_
    refine ⟨_, by rw [state, Option.getD_none]; exact recordFailure_open rfl nofun, rfl, rfl, rfl⟩
  | some time =>
    simp only [last] at state
    obtain ⟨record, rfl, count, unlocked, own⟩ := state
    have recent : ∀ before, record.lastFailureAt = some before →
        began - before ≤ 300 * second := by
      intro before same
      obtain rfl := Option.some.inj (own.symm.trans same)
      exact within time (List.mem_append_left _ (List.mem_of_getLast? last)) began
        (List.mem_append_right _ List.mem_cons_self)
    refine ⟨_, by rw [Option.getD_some]; exact recordFailure_open unlocked recent, ?_, ?_, ?_⟩
    · rw [← count]
      split <;> rfl
    · split <;> rfl
    · rw [count]
      split <;> rfl

theorem Effect.tally {after : Option LockoutRecord} {added : List Int}
    (effect : Effect row false clock after added phase) (tally : Tally row recorded) :
    Tally after (recorded ++ added) := by
  cases effect with
  | reads => rwa [List.append_nil]
  | expires loaded own =>
    rw [List.append_nil]
    intro within few
    have state := tally within few
    cases last : recorded.getLast? with
    | none =>
      simp only [last] at state
      exact absurd (loaded.symm.trans state) nofun
    | some time =>
      simp only [last] at state
      obtain ⟨record, same, _, unlocked, _⟩ := state
      obtain rfl := Option.some.inj (loaded.symm.trans same)
      exact absurd (own.symm.trans unlocked) nofun
  | clears passes => cases passes
  | finds locked =>
    intro within few
    rw [List.length_append, List.length_singleton] at few
    obtain ⟨record, counts, _⟩ := tally.next within (by omega)
    exact absurd (locked.symm.trans counts) nofun
  | records counts =>
    intro within few
    rw [List.length_append, List.length_singleton] at few
    obtain ⟨record, counted, count, own, unlocked⟩ := tally.next within (by omega)
    obtain rfl := Option.some.inj (counts.symm.trans counted)
    rw [if_neg (by omega)] at unlocked
    simp only [List.getLast?_concat, List.length_append, List.length_singleton]
    exact ⟨_, rfl, count, unlocked, own⟩

end Counting

structure Wrong (s : Server) : Prop where
  calls : ∀ call ∈ s.calls, call.correct = false
  tally : Tally s.row s.recorded

theorem Wrong.goes {event : Step} (wrong : Wrong s) (only : event.wrong = true)
    (goes : Goes s t event) : Wrong t := by
  cases goes with
  | starts correct now clock calls row recorded =>
    refine ⟨fun call member => ?_, row ▸ recorded ▸ wrong.tally⟩
    rw [calls] at member
    rcases List.mem_append.mp member with old | new
    · exact wrong.calls call old
    · obtain rfl := List.mem_singleton.mp new
      exact Bool.not_eq_true' _ |>.mp only
  | fails index call turn under calls row recorded =>
    refine ⟨fun other member => ?_, row ▸ recorded ▸ wrong.tally⟩
    rw [calls] at member
    rcases List.mem_or_eq_of_mem_set member with old | rfl
    · exact wrong.calls other old
    · exact wrong.calls call (List.mem_of_getElem? turn)
  | advances index nowUtc nowTs call result turn before current under next ok row effect calls
      recorded =>
    have incorrect := wrong.calls call (List.mem_of_getElem? turn)
    refine ⟨fun other member => ?_, ?_⟩
    · rw [calls] at member
      rcases List.mem_or_eq_of_mem_set member with old | rfl
      · exact wrong.calls other old
      · exact incorrect
    · rw [incorrect] at effect
      rw [recorded]
      exact effect.tally wrong.tally

theorem locks_of_goes {event : Step} (wrong : Wrong s) (goes : Goes s t event)
    (within : Within t.recorded) (four : s.recorded.length = 4) (five : t.recorded.length = 5) :
    ∃ expires, t.LockedUntil expires ∧
      ∀ last ∈ t.recorded.getLast?, last + 60 * second ≤ expires := by
  cases goes with
  | starts _ _ _ _ _ recorded =>
    rw [recorded] at five
    omega
  | fails _ _ _ _ _ _ recorded =>
    rw [recorded] at five
    omega
  | advances index nowUtc nowTs call result turn before current under next ok row effect calls
      recorded =>
    rw [recorded, List.length_append] at five
    rw [recorded] at within ⊢
    have incorrect := wrong.calls call (List.mem_of_getElem? turn)
    generalize result.recorded = added at effect five within
    generalize result.phase = phase at effect
    generalize there : t.row = after at effect
    cases effect with
    | reads => rw [List.length_nil] at five; omega
    | expires => rw [List.length_nil] at five; omega
    | clears => rw [List.length_nil] at five; omega
    | finds locked =>
      obtain ⟨record, counts, _⟩ := wrong.tally.next within (by omega)
      exact absurd (locked.symm.trans counts) nofun
    | @records began beganTs new counts order =>
      obtain ⟨record, counted, _, _, locked⟩ := wrong.tally.next within (by omega)
      obtain rfl := Option.some.inj (counts.symm.trans counted)
      rw [if_pos (by omega)] at locked
      refine ⟨_, ⟨new, there, locked⟩, fun last same => ?_⟩
      rw [List.getLast?_concat] at same
      cases same
      omega

section Refusing

/-- While a lock lasts: it stands, the calls from before it have a wrong password, and the calls
behind them have not come to the check. -/
structure Holding (known : Nat) (expires : Int) (s : Server) : Prop where
  locked : s.LockedUntil expires
  old : ∀ (i : Nat) (call : Call), i < known → s.calls[i]? = some call → call.correct = false
  new : ∀ (i : Nat) (call : Call), known ≤ i → s.calls[i]? = some call → call.phase.past = false

theorem recordFailure_locked {record : LockoutRecord} (nowTs : Int)
    (own : record.lockoutExpiresAt = some expires) (early : nowUtc < expires) :
    recordFailure record nowUtc nowTs = none := by
  rw [recordFailure, if_pos ⟨expires, own, early⟩]

theorem Effect.locked {after : Option LockoutRecord} {added : List Int}
    (effect : Effect row false clock after added phase) {record : LockoutRecord}
    (there : row = some record) (own : record.lockoutExpiresAt = some expires)
    (early : clock < expires) : after = row := by
  cases effect with
  | reads => rfl
  | expires loaded other past =>
    obtain rfl := Option.some.inj (there.symm.trans loaded)
    obtain rfl := Option.some.inj (own.symm.trans other)
    exact absurd early (Int.not_lt.mpr past)
  | clears passes => cases passes
  | finds => rfl
  | @records _ beganTs _ counts _ before =>
    rw [there, Option.getD_some] at counts
    have none_ := recordFailure_locked beganTs own (Int.lt_of_le_of_lt before early)
    exact absurd (none_.symm.trans counts) nofun

theorem outcome_refused {record : LockoutRecord} (ok : phase.Ok clock correct)
    (current : phase.Current row) (there : row = some record)
    (own : record.lockoutExpiresAt = some expires) (early : clock < expires)
    (ahead : phase.past = false) (next : outcome row correct nowUtc nowTs phase = some result) :
    result.row = row ∧ result.phase.past = false := by
  cases phase with
  | looking began =>
    subst there
    simp only [outcome, own] at next
    rw [if_neg (Int.not_le.mpr (Int.lt_of_le_of_lt ok early))] at next
    cases next
    exact ⟨rfl, rfl⟩
  | expiring loaded =>
    obtain ⟨other, expired, past⟩ := ok
    obtain rfl := Option.some.inj (there.symm.trans current)
    obtain rfl := Option.some.inj (own.symm.trans expired)
    exact absurd early (Int.not_lt.mpr past)
  | refused => cases next
  | raised => cases next
  | _ => cases ahead

theorem Holding.replaced {known index : Nat} {call result : Call}
    (holding : Holding known expires s) (locked : t.LockedUntil expires)
    (calls : t.calls = s.calls.set index result) (turn : s.calls[index]? = some call)
    (same : result.correct = call.correct)
    (refused : known ≤ index → result.phase.past = false) : Holding known expires t where
  locked := locked
  old i other small at_ := by
    rcases getElem?_set_cases (calls ▸ at_) with ⟨old, _⟩ | ⟨rfl, rfl⟩
    · exact holding.old i other small old
    · exact same.trans (holding.old i call small turn)
  new i other large at_ := by
    rcases getElem?_set_cases (calls ▸ at_) with ⟨old, _⟩ | ⟨rfl, rfl⟩
    · exact holding.new i other large old
    · exact refused large

theorem Holding.goes {known : Nat} {event : Step} (holding : Holding known expires s)
    (inside : known ≤ s.calls.length) (early : s.clock < expires) (goes : Goes s t event) :
    Holding known expires t := by
  obtain ⟨record, there, own⟩ := holding.locked
  cases goes with
  | starts correct now clock calls row recorded =>
    refine ⟨⟨record, row.trans there, own⟩, fun i call small at_ => ?_,
      fun i call large at_ => ?_⟩
    · rw [calls, List.getElem?_append_left (by omega)] at at_
      exact holding.old i call small at_
    · by_cases beyond : s.calls.length ≤ i
      · rw [calls] at at_
        obtain ⟨_, rfl⟩ := getElem?_concat_of_le at_ beyond
        rfl
      · rw [calls, List.getElem?_append_left (by omega)] at at_
        exact holding.new i call large at_
  | fails index call turn under calls row recorded =>
    exact holding.replaced ⟨record, row.trans there, own⟩ calls turn rfl fun _ => rfl
  | advances index nowUtc nowTs call result turn before current under next ok row effect calls
      recorded =>
    have stays : t.row = s.row ∧ (known ≤ index → result.phase.past = false) := by
      by_cases small : index < known
      · rw [holding.old index call small turn] at effect
        exact ⟨effect.locked there own early, fun large => absurd small (Nat.not_lt.mpr large)⟩
      · have ahead := holding.new index call (Nat.not_lt.mp small) turn
        obtain ⟨same, refused⟩ := outcome_refused before current there own early ahead next
        exact ⟨row.trans same, fun _ => refused⟩
    exact holding.replaced ⟨record, stays.1.trans there, own⟩ calls turn rfl stays.2

theorem Goes.length {event : Step} (goes : Goes s t event) : s.calls.length ≤ t.calls.length := by
  cases goes with
  | starts _ _ _ calls => rw [calls, List.length_append]; omega
  | fails _ _ _ _ calls => exact Nat.le_of_eq (by rw [calls, List.length_set])
  | advances _ _ _ _ _ _ _ _ _ _ _ _ _ calls => exact Nat.le_of_eq (by rw [calls, List.length_set])

theorem clock_run {steps : List Step} (sound : Sound s) (reached : run Server.step s steps = some t)
    (met : Meets Server.step Careful s steps) : s.clock ≤ t.clock ∧ Sound t := by
  have keep : ∀ u event v, s.clock ≤ u.clock ∧ Sound u → Careful u event →
      u.step event = some v → s.clock ≤ v.clock ∧ Sound v := by
    intro u event v held careful stepped
    obtain ⟨passes, goes⟩ := goes_of_step held.2 careful stepped
    exact ⟨Int.le_trans held.1 passes, held.2.goes passes goes⟩
  exact run_keeps keep ⟨Int.le_refl _, sound⟩ reached met

theorem holding_run {known : Nat} {steps : List Step} (sound : Sound s)
    (holding : Holding known expires s) (inside : known ≤ s.calls.length)
    (reached : run Server.step s steps = some t) (met : Meets Server.step Careful s steps)
    (early : t.clock < expires) : Holding known expires t := by
  induction steps generalizing s with
  | nil =>
    obtain rfl : s = t := Option.some.inj reached
    exact holding
  | cons event steps ih =>
    obtain ⟨u, stepped, rest⟩ := run_cons_eq_some.mp reached
    obtain ⟨passes, goes⟩ := goes_of_step sound met.1 stepped
    have next := sound.goes passes goes
    have later := (clock_run next rest (met.2 u stepped)).1
    exact ih next (holding.goes inside (by omega) goes) (Nat.le_trans inside goes.length) rest
      (met.2 u stepped)

end Refusing

theorem sound_initial : Sound .initial :=
  ⟨fun _ member => absurd member List.not_mem_nil, rfl⟩

theorem wrong_run {steps : List Step} (reached : run Server.step .initial steps = some s)
    (met : Meets Server.step Careful .initial steps) (only : ∀ event ∈ steps, event.wrong = true) :
    Wrong s := by
  have start : Wrong .initial :=
    ⟨fun _ member => absurd member List.not_mem_nil, fun _ _ => rfl⟩
  have both : Meets Server.step (fun s event => Careful s event ∧ event.wrong = true) .initial
      steps := by
    refine meets_of_splits fun before event after u split reaches => ?_
    subst split
    exact ⟨(meets_append reaches met).2.1, only event (by simp)⟩
  have keep : ∀ u event v, Sound u ∧ Wrong u → Careful u event ∧ event.wrong = true →
      u.step event = some v → Sound v ∧ Wrong v := by
    intro u event v held careful stepped
    obtain ⟨passes, goes⟩ := goes_of_step held.1 careful.1 stepped
    exact ⟨held.1.goes passes goes, held.2.goes careful.2 goes⟩
  exact (run_keeps keep ⟨sound_initial, start⟩ reached both).2

theorem lockout_when_careful (steps : List Step)
    (met : Meets Server.step Careful .initial steps) : Laws steps where
  complete before after s split reached := by
    subst split
    exact (clock_run sound_initial reached (meets_append reached met).1).2.complete
  counted before after s split reached only within few := by
    subst split
    have tally := (wrong_run reached (meets_append reached met).1 only).tally within few
    cases last : s.recorded.getLast? with
    | none =>
      simp only [last] at tally
      rw [Server.count, tally, List.getLast?_eq_none_iff.mp last]
      rfl
    | some time =>
      simp only [last] at tally
      obtain ⟨record, there, count, _⟩ := tally
      rw [Server.count, there, Option.map_some, Option.getD_some, count]
  locks before after event s t split reached stepped only within four five := by
    subst split
    obtain ⟨first, rest⟩ := meets_append reached met
    have sound := (clock_run sound_initial reached first).2
    obtain ⟨_, goes⟩ := goes_of_step sound rest.1 stepped
    exact locks_of_goes (wrong_run reached first only) goes within four five
  unique before after s split reached call member raised := by
    subst split
    have ok := (clock_run sound_initial reached (meets_append reached met).1).2.calls call member
    rw [raised] at ok
    exact ok rfl
  refuses before between after s t expires split reached only locked later early index call
      beyond at_ := by
    subst split
    rw [List.append_assoc] at met
    obtain ⟨first, rest⟩ := meets_append reached met
    have sound := (clock_run sound_initial reached first).2
    have holding : Holding s.calls.length expires s :=
      ⟨locked, fun i call _ at_ =>
        (wrong_run reached first only).calls call (List.mem_of_getElem? at_),
        fun i call large at_ =>
          absurd (List.getElem?_eq_some_iff.mp at_).1 (Nat.not_lt.mpr large)⟩
    exact (holding_run sound holding (Nat.le_refl _) later (meets_append later rest).1 early).new
      index call beyond at_

def alone (index : Nat) (now : Int) : List Step :=
  .start false now :: List.replicate 3 (.advance index now now)

theorem sixth_login_is_refused :
    Laws (alone 0 1 ++ alone 1 2 ++ alone 2 3 ++ alone 3 4 ++ alone 4 5 ++
      [.start true 6, .advance 5 6 6]) :=
  lockout_when_careful _ (by decide +kernel)

/-- Logins that go on in turns, each statement of all before the next. -/
def together (first logins : Nat) (now : Int) : List Step :=
  List.replicate logins (.start false now) ++
    (List.replicate 3 ((List.range logins).map fun i => .advance (first + i) now now)).flatten

/-- Two first failures that overlap meet a uniqueness error; later ones that overlap count for
one, so that five do not lock. -/
theorem overlapping_failures_are_lost :
    ¬ Laws (together 0 2 1) ∧ ¬ Laws (alone 0 1 ++ together 1 2 2) ∧
      ¬ Laws (alone 0 1 ++ together 1 4 2) := by
  refine ⟨fun laws => ?_, fun laws => ?_, fun laws => ?_⟩
  · have fails : (run Server.step .initial (together 0 2 1)).any (fun s =>
        s.calls.any (fun call => call.phase = .raised .integrity)) := by decide +kernel
    obtain ⟨s, reached, found⟩ := (Option.any_eq_true _ _).mp fails
    obtain ⟨call, member, raised⟩ := List.any_eq_true.mp found
    exact laws.unique _ [] s (List.append_nil _).symm reached call member (of_decide_eq_true raised)
  · have lost : (run Server.step .initial (alone 0 1 ++ together 1 2 2)).any (fun s =>
        decide (s.recorded = [1, 2, 2]) && decide (s.count = 2)) := by decide +kernel
    obtain ⟨s, reached, found⟩ := (Option.any_eq_true _ _).mp lost
    obtain ⟨recorded, count⟩ := Bool.and_eq_true_iff.mp found
    have recorded := of_decide_eq_true recorded
    have counted := laws.counted _ [] s (List.append_nil _).symm reached (by decide)
      (recorded ▸ by unfold Within second; decide) (recorded ▸ by decide)
    rw [of_decide_eq_true count, recorded] at counted
    exact absurd counted (by decide)
  · have split : alone 0 1 ++ together 1 4 2 =
        (alone 0 1 ++ together 1 4 2).dropLast ++ .advance 4 2 2 :: [] := by decide
    have lost : (run Server.step .initial (alone 0 1 ++ together 1 4 2).dropLast).any (fun s =>
        (s.step (.advance 4 2 2)).any (fun t => decide (s.recorded.length = 4) &&
          decide (t.recorded = [1, 2, 2, 2, 2]) &&
          decide (t.row = some ⟨2, some 2, none, 0⟩))) := by decide +kernel
    obtain ⟨s, reached, found⟩ := (Option.any_eq_true _ _).mp lost
    obtain ⟨t, stepped, found⟩ := (Option.any_eq_true _ _).mp found
    obtain ⟨both, row⟩ := Bool.and_eq_true_iff.mp found
    obtain ⟨four, recorded⟩ := Bool.and_eq_true_iff.mp both
    have recorded := of_decide_eq_true recorded
    obtain ⟨expires, ⟨record, there, own⟩, _⟩ := laws.locks _ [] _ s t split reached stepped
      (by decide) (recorded ▸ by unfold Within second; decide) (of_decide_eq_true four)
      (recorded ▸ rfl)
    rw [of_decide_eq_true row] at there
    cases there
    cases own

end HlHelper.Auth.Lockout
