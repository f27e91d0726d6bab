import HlHelper.Oidc.FirstSignIn

/-! Concurrent first sign-ins come to an end, with one user for all of them. -/

namespace HlHelper.Oidc

open HlHelper.Library

def SignIn.left (a : SignIn) : Phase → Nat
  | .selectLink => 3 * a.groups.length + 6
  | .selectLinkUser _ => 2
  | .touch _ _ => 1
  | .selectUser => 3 * a.groups.length + 5
  | .flushUser _ => 3 * a.groups.length + 4
  | .selectRole tx _ rest => 3 * rest.length + 5 + tx.unflushed.toList.length
  | .selectBinding _ _ rest => 3 * rest.length + 4
  | .commit tx => 2 + tx.unflushed.toList.length
  | .selectAgain => 2
  | .selectAgainUser _ => 1
  | .refresh _ => 1
  | .returned _ _ | .raised _ => 0

/-- One user has the email, one link the subject, and it leads to that user with its bindings. -/
structure OneOwner (a : SignIn) (db : Db) (user : User) : Prop where
  email : db.users.filter (fun other => other.email = a.email) = [user]
  linked : ∃ link, db.links.filter (fun other => other.key = a.key) = [link] ∧
    link.userId = user.id
  bound : ∀ group ∈ a.groups, ∀ role ∈ db.roles, role.name = group →
    ⟨user.id, role.id⟩ ∈ db.bindings

/-- No call raised, those that returned agree, and where none can go on all have returned. -/
structure Agreed (a : SignIn) (s : Provisions) : Prop where
  quiet : ∀ phase ∈ s.calls, ∀ error, phase ≠ .raised error
  owner : ∀ phase ∈ s.calls, ∀ user basis, phase = .returned user basis → OneOwner a s.db user
  same : ∀ first ∈ s.calls, ∀ second ∈ s.calls, ∀ user basis other otherBasis,
    first = .returned user basis → second = .returned other otherBasis → user = other
  finished : (∀ index draw, s.step a (.advance index draw) = none) →
    ∀ phase ∈ s.calls, ∃ user basis, phase = .returned user basis

instance (db : Db) : DecidablePred (Unmet db)
  | .flushUser user => inferInstanceAs
      (Decidable (∀ other ∈ db.users, other.id ≠ user.id ∧ other.email ≠ user.email))
  | .selectRole tx _ _ => inferInstanceAs
      (Decidable (tx.unflushed = some .link → ∀ link ∈ db.links, link.key ≠ tx.link.key))
  | .selectLink | .selectLinkUser _ | .touch _ _ | .selectUser | .selectBinding _ _ _ | .commit _
  | .selectAgain | .selectAgainUser _ | .refresh _ | .returned _ _ | .raised _ => isTrue trivial

instance (s : Provisions) : DecidablePred (Clear s)
  | .start => isTrue trivial
  | .advance index _ => inferInstanceAs (Decidable (∀ phase ∈ s.calls[index]?, Unmet s.db phase))

variable {a : SignIn} {db after : Db} {user : User} {tx : Tx} {phase next : Phase}
  {s t : Provisions} {index : Nat} {todo : List String} {others : List Uncommitted} {draw : Draw}
  {events : List ProvisionStep}

theorem left_next (tx : Tx) (todo : List String) :
    a.left (tx.next todo) ≤ 3 * todo.length + 2 + tx.unflushed.toList.length := by
  cases todo with
  | nil => exact Nat.le_refl _
  | cons group rest =>
    rw [List.length_cons]
    exact Nat.le_of_eq (by rw [Tx.next, SignIn.left]; omega)

theorem left_begin (user : User) (created : Bool) (now : Int) :
    a.left ((a.begin user created now).next a.groups) ≤ 3 * a.groups.length + 3 := by
  have bound := @left_next a (a.begin user created now) a.groups
  simpa only [SignIn.begin, Option.toList_some, List.length_singleton] using bound

theorem left_advance (stepped : a.advance db others draw phase = some (after, next)) :
    a.left next < a.left phase := by
  cases advances stepped with
  | linkFound | linkMissing | userFound | userMissing | roleRefused | againFound | againMissing =>
    simp only [SignIn.left]
    omega
  | touched | againUserFound | againUserMissing | refreshed => exact Nat.zero_lt_one
  | unverified | userTaken => exact Nat.succ_pos _
  | ownerMissing => exact Nat.lt_succ_self _
  | ownerFound user =>
    simp only [SignIn.left]
    exact Nat.lt_of_le_of_lt (left_begin user false draw.now) (by omega)
  | userFlushed user =>
    simp only [SignIn.left]
    exact Nat.lt_of_le_of_lt (left_begin user true draw.now) (by omega)
  | roleFlushed _ _ _ _ _ waits flushed | commitFlushed _ _ _ waits flushed =>
    simp only [SignIn.left, waits, (flush_done flushed).2.2, Option.toList_some,
      List.length_singleton, Option.toList_none, List.length_nil]
    omega
  | roleFound =>
    simp only [SignIn.left]
    omega
  | roleMissing tx group rest flushed =>
    have bound := @left_next a tx rest
    simp only [flushed, Option.toList_none, List.length_nil] at bound
    apply Nat.lt_of_le_of_lt bound
    rw [SignIn.left]
    omega
  | bound tx role rest | unbound tx role rest =>
    apply Nat.lt_of_le_of_lt (left_next _ rest)
    rw [SignIn.left]
    have few : ∀ held : Option Pending, held.toList.length ≤ 1 := by
      intro held
      cases held <;> simp
    exact Nat.lt_succ_of_le (Nat.add_le_add_left (few _) _)
  | commitRefused tx pending waits =>
    simp only [SignIn.left, waits, Option.toList_some, List.length_singleton]
    omega
  | committed =>
    simp only [SignIn.left]
    omega

/-- What a call of which no statement takes effect waits for. -/
inductive Waits (a : SignIn) (db : Db) (others : List Uncommitted) (phase : Phase) : Prop
  | user (alone : phase.uncommitted = .none) (other : Uncommitted) (holds : other ∈ others)
      (busy : other.users ≠ [])
  | link (tx : Tx) (todo : List String) (here : phase.uncommitted = tx.uncommitted)
      (ok : TxOk a db tx todo) (waits : tx.unflushed = some .link) (other : Uncommitted)
      (holds : other ∈ others) (busy : other.links ≠ [])
  | binding (other : Uncommitted) (holds : other ∈ others) (busy : other.bindings ≠ [])

theorem waits_of_blocked {pending : Pending} (here : phase.uncommitted = tx.uncommitted)
    (ok : TxOk a db tx todo) (waits : tx.unflushed = some pending)
    (blocked : tx.flush db others pending = .blocked) : Waits a db others phase := by
  have shape := flushes db others tx pending
  rw [blocked] at shape
  cases shape with
  | linkHeld same other holds busy => exact .link tx todo here ok (same ▸ waits) other holds busy
  | bindingHeld b same other holds busy => exact .binding other holds busy

theorem waits_of_stuck (ok : Ok a db phase) (stuck : a.advance db others draw phase = none) :
    (∃ user basis, phase = .returned user basis) ∨ Waits a db others phase := by
  cases phase with
  | selectLink =>
    simp only [SignIn.advance] at stuck
    split at stuck <;> cases stuck
  | selectLinkUser link =>
    simp only [SignIn.advance] at stuck
    split at stuck <;> cases stuck
  | touch link user => cases stuck
  | selectUser =>
    simp only [SignIn.advance] at stuck
    split at stuck
    · split at stuck <;> cases stuck
    · cases stuck
  | flushUser user =>
    have blocked := Option.map_eq_none_iff.mp stuck
    rw [SignIn.flushUser] at blocked
    split at blocked
    · cases blocked
    · split at blocked
      · next held =>
        obtain ⟨other, holds, there⟩ := List.any_eq_true.mp held
        obtain ⟨user, member, _⟩ := List.any_eq_true.mp there
        exact .inr (.user rfl other holds (List.ne_nil_of_mem member))
      · cases blocked
  | selectRole tx group rest =>
    simp only [SignIn.advance] at stuck
    split at stuck
    · next pending waits =>
      split at stuck
      · cases stuck
      · cases stuck
      · next blocked => exact .inr (waits_of_blocked rfl ok waits blocked)
    · split at stuck <;> cases stuck
  | selectBinding tx role rest => cases stuck
  | commit tx =>
    simp only [SignIn.advance] at stuck
    split at stuck
    · next pending waits =>
      split at stuck
      · cases stuck
      · cases stuck
      · next blocked => exact .inr (waits_of_blocked rfl ok waits blocked)
    · cases stuck
  | selectAgain =>
    simp only [SignIn.advance] at stuck
    split at stuck <;> cases stuck
  | selectAgainUser link =>
    simp only [SignIn.advance] at stuck
    split at stuck <;> cases stuck
  | refresh tx => cases stuck
  | returned user basis => exact .inl ⟨user, basis, rfl⟩
  | raised error => exact ok.elim

theorem links_of_bindings (ok : Ok a db phase) (busy : phase.uncommitted.bindings ≠ []) :
    phase.uncommitted.links ≠ [] := by
  rcases holds_of_ok ok with nothing | ⟨tx, todo, same, ok⟩
  · exact absurd (congrArg Uncommitted.bindings nothing) busy
  · have held : tx.linkIn = true := by
      apply ok.behind
      rw [same] at busy
      exact busy
    rw [same, Tx.uncommitted, if_pos held]
    exact List.cons_ne_nil _ _

theorem other_of_mem {other : Uncommitted} (holds : other ∈ s.others index) :
    ∃ (j : Nat) (phase : Phase), j ≠ index ∧ s.calls[j]? = some phase ∧
      phase.uncommitted = other := by
  obtain ⟨phase, member, rfl⟩ := List.mem_map.mp holds
  obtain ⟨j, apart, there⟩ := List.mem_eraseIdx_iff_getElem?.mp member
  exact ⟨j, phase, apart, there, rfl⟩

theorem Sound.finished (sound : Sound a s)
    (stuck : ∀ index draw, s.step a (.advance index draw) = none) :
    ∀ phase ∈ s.calls, ∃ user basis, phase = .returned user basis := by
  have turns : ∀ (i : Nat) phase, s.calls[i]? = some phase →
      (∃ user basis, phase = .returned user basis) ∨ Waits a s.db (s.others i) phase := by
    intro i phase turn
    refine @waits_of_stuck _ _ _ _ ⟨"", 0⟩ (sound.calls _ (List.mem_of_getElem? turn)) ?_
    have none := stuck i ⟨"", 0⟩
    simp only [Provisions.step, turn, Option.bind_some] at none
    exact Option.map_eq_none_iff.mp none
  have noLink : ∀ (i : Nat) phase, s.calls[i]? = some phase → phase.uncommitted.links = [] := by
    intro i phase turn
    rcases turns i phase turn with ⟨user, basis, rfl⟩ | waits
    · rfl
    · cases waits with
      | user alone => rw [alone]; rfl
      | link tx todo here ok waits =>
        rw [here, Tx.uncommitted]
        refine if_neg fun held => ?_
        exact (ok.inside held).1 waits
      | binding other holds busy =>
        obtain ⟨j, phase, apart, there, rfl⟩ := other_of_mem holds
        have held := links_of_bindings (sound.calls _ (List.mem_of_getElem? there)) busy
        exact (sound.oneLink i j _ _ (Ne.symm apart) turn there).resolve_right held
  have noBinding : ∀ (i : Nat) phase, s.calls[i]? = some phase →
      phase.uncommitted.bindings = [] := by
    intro i phase turn
    by_contra busy
    exact links_of_bindings (sound.calls _ (List.mem_of_getElem? turn)) busy (noLink i phase turn)
  have noUser : ∀ (i : Nat) phase, s.calls[i]? = some phase → phase.uncommitted.users = [] := by
    intro i phase turn
    rcases turns i phase turn with ⟨user, basis, rfl⟩ | waits
    · rfl
    · cases waits with
      | user alone => rw [alone]; rfl
      | link tx todo here ok waits other holds busy =>
        obtain ⟨j, phase, _, there, rfl⟩ := other_of_mem holds
        exact absurd (noLink j phase there) busy
      | binding other holds busy =>
        obtain ⟨j, phase, _, there, rfl⟩ := other_of_mem holds
        exact absurd (noBinding j phase there) busy
  intro phase member
  obtain ⟨i, turn⟩ := List.mem_iff_getElem?.mp member
  rcases turns i phase turn with returned | waits
  · exact returned
  · cases waits with
    | user alone other holds busy =>
      obtain ⟨j, phase, _, there, rfl⟩ := other_of_mem holds
      exact absurd (noUser j phase there) busy
    | link tx todo here ok waits other holds busy =>
      obtain ⟨j, phase, _, there, rfl⟩ := other_of_mem holds
      exact absurd (noLink j phase there) busy
    | binding other holds busy =>
      obtain ⟨j, phase, _, there, rfl⟩ := other_of_mem holds
      exact absurd (noBinding j phase there) busy

theorem Settled.oneOwner (settled : Settled a db user) (unique : db.Consistent) :
    OneOwner a db user where
  email := by
    have only := filter_key_eq_singleton unique.emails settled.member
    rwa [settled.email] at only
  linked := by
    obtain ⟨link, member, key, owner⟩ := settled.linked
    have only := filter_key_eq_singleton unique.links member
    rw [key] at only
    exact ⟨link, only, owner⟩
  bound := settled.bound

theorem Sound.agreed (sound : Sound a s) : Agreed a s where
  quiet phase member error raised := by
    subst raised
    exact sound.calls _ member
  owner phase member user basis returned := by
    subst returned
    exact (sound.calls _ member : Settled a s.db user).oneOwner sound.unique
  same first one second two user basis other otherBasis returned also := by
    subst returned also
    have left := ((sound.calls _ one : Settled a s.db user).oneOwner sound.unique).email
    have right := ((sound.calls _ two : Settled a s.db other).oneOwner sound.unique).email
    exact (List.cons.inj (left.symm.trans right)).1
  finished := sound.finished

theorem Sound.started (sound : Sound a s) :
    Sound a { s with calls := s.calls ++ [.selectLink] } where
  __ := sound
  calls phase member := by
    rcases List.mem_append.mp member with old | new
    · exact sound.calls phase old
    · obtain rfl := List.mem_singleton.mp new
      trivial
  oneUser := sound.oneUser.concat rfl
  oneLink := sound.oneLink.concat rfl

theorem Sound.step (verified : a.emailVerified = true) (sound : Sound a s) {event : ProvisionStep}
    (clear : Clear s event) (stepped : s.step a event = some t) : Sound a t := by
  cases event with
  | start =>
    cases stepped
    exact sound.started
  | advance index draw =>
    obtain ⟨phase, turn, goes⟩ := Option.bind_eq_some_iff.mp stepped
    obtain ⟨⟨db, next⟩, advanced, rfl⟩ := Option.map_eq_some_iff.mp goes
    exact sound.advance verified turn clear advanced

/-- The steps that all calls together have before them. -/
def Provisions.left (a : SignIn) (s : Provisions) : Nat := (s.calls.map a.left).sum

theorem left_step {event : ProvisionStep} (stepped : s.step a event = some t) :
    t.left a + 1 + (3 * a.groups.length + 7) * s.calls.length ≤
      s.left a + (3 * a.groups.length + 7) * t.calls.length := by
  cases event with
  | start =>
    cases stepped
    simp only [Provisions.left, List.map_append, List.map_singleton, List.sum_append,
      List.sum_singleton, SignIn.left, List.length_append, List.length_singleton, Nat.mul_add]
    omega
  | advance index draw =>
    obtain ⟨phase, turn, goes⟩ := Option.bind_eq_some_iff.mp stepped
    obtain ⟨⟨db, next⟩, advanced, rfl⟩ := Option.map_eq_some_iff.mp goes
    have fewer := sum_set_lt turn (left_advance advanced)
    simp only [Provisions.left, List.length_set]
    exact Nat.add_le_add_right fewer _

theorem run_bounded (reached : run (Provisions.step a) s events = some t) :
    t.left a + events.length + (3 * a.groups.length + 7) * s.calls.length ≤
      s.left a + (3 * a.groups.length + 7) * t.calls.length := by
  induction events generalizing s with
  | nil =>
    obtain rfl : s = t := by simpa [run] using reached
    exact Nat.le_refl _
  | cons event events ih =>
    obtain ⟨u, stepped, rest⟩ := run_cons_eq_some.mp reached
    have first := left_step stepped
    have others := ih rest
    rw [List.length_cons]
    omega

/-- First sign-ins at once agree, and all of them return in the end, if no insertion ahead of the
commit meets a row that is there already. -/
theorem agreed_when_clear (verified : a.emailVerified = true) (consistent : db.Consistent)
    (unlinked : ∀ link ∈ db.links, link.key ≠ a.key)
    (reached : run (Provisions.step a) ⟨db, []⟩ events = some s)
    (clear : Meets (Provisions.step a) Clear ⟨db, []⟩ events) :
    Agreed a s ∧ events.length ≤ (3 * a.groups.length + 7) * s.calls.length := by
  have start : Sound a ⟨db, []⟩ := {
    unique := consistent
    linked := fun link member key => absurd key (unlinked link member)
    calls := List.forall_mem_nil _
    oneUser := fun i _ _ _ _ there => by cases there
    oneLink := fun i _ _ _ _ there => by cases there }
  have sound : Sound a s := run_keeps
    (fun _ _ _ sound clear stepped => sound.step verified clear stepped) start reached clear
  refine ⟨sound.agreed, ?_⟩
  have bounded := run_bounded reached
  simp only [Provisions.left, List.map_nil, List.sum_nil, List.length_nil, Nat.mul_zero,
    Nat.add_zero, Nat.zero_add] at bounded
  omega

theorem agreed_on_an_account : ∃ s,
    run (Provisions.step ⟨"idp", "iss", "sub", "a@b", true, none, []⟩)
      ⟨⟨[⟨"u", "a@b", none, .local, none, none⟩], [], [], []⟩, []⟩
      [.start, .start, .advance 0 ⟨"", 1⟩, .advance 1 ⟨"", 1⟩, .advance 0 ⟨"", 1⟩,
        .advance 1 ⟨"", 1⟩, .advance 0 ⟨"", 2⟩, .advance 0 ⟨"", 2⟩, .advance 1 ⟨"", 2⟩,
        .advance 0 ⟨"", 3⟩, .advance 1 ⟨"", 3⟩, .advance 1 ⟨"", 3⟩] = some s ∧
    s.calls = [.returned ⟨"u", "a@b", none, .local, none, none⟩ .owner,
      .returned ⟨"u", "a@b", none, .local, none, none⟩ .linked] ∧
    Agreed ⟨"idp", "iss", "sub", "a@b", true, none, []⟩ s := by
  refine ⟨_, rfl, rfl, (@agreed_when_clear _
    ⟨[⟨"u", "a@b", none, .local, none, none⟩], [], [], []⟩ _
    [.start, .start, .advance 0 ⟨"", 1⟩, .advance 1 ⟨"", 1⟩, .advance 0 ⟨"", 1⟩,
      .advance 1 ⟨"", 1⟩, .advance 0 ⟨"", 2⟩, .advance 0 ⟨"", 2⟩, .advance 1 ⟨"", 2⟩,
      .advance 0 ⟨"", 3⟩, .advance 1 ⟨"", 3⟩, .advance 1 ⟨"", 3⟩]
    rfl ⟨?_, ?_, ?_, ?_⟩ (List.forall_mem_nil _) rfl ?_).1⟩
  all_goals decide

/-- Without an account the sign-in that loses raises; so it does with one and with a group. -/
theorem first_sign_in_raises :
    (∃ s, run (Provisions.step ⟨"idp", "iss", "sub", "a@b", true, none, []⟩)
        ⟨⟨[], [], [], []⟩, []⟩
        [.start, .start, .advance 0 ⟨"u", 1⟩, .advance 1 ⟨"v", 1⟩, .advance 0 ⟨"u", 1⟩,
          .advance 1 ⟨"v", 1⟩, .advance 0 ⟨"", 2⟩, .advance 0 ⟨"", 2⟩, .advance 0 ⟨"", 2⟩,
          .advance 1 ⟨"", 2⟩] = some s ∧ .raised .integrity ∈ s.calls) ∧
    ∃ s, run (Provisions.step ⟨"idp", "iss", "sub", "a@b", true, none, ["ops"]⟩)
        ⟨⟨[⟨"u", "a@b", none, .local, none, none⟩], [], [], []⟩, []⟩
        [.start, .start, .advance 0 ⟨"", 1⟩, .advance 1 ⟨"", 1⟩, .advance 0 ⟨"", 1⟩,
          .advance 1 ⟨"", 1⟩, .advance 0 ⟨"", 2⟩, .advance 0 ⟨"", 2⟩, .advance 0 ⟨"", 2⟩,
          .advance 1 ⟨"", 2⟩] = some s ∧ .raised .integrity ∈ s.calls :=
  ⟨⟨_, rfl, by decide⟩, _, rfl, by decide⟩

end HlHelper.Oidc
