import HlHelper.Library.Slots
import HlHelper.Oidc.Provision

/-! Concurrent first sign-ins of one subject agree where no insertion ahead of the commit meets a
row that is there already. -/

namespace HlHelper.Oidc

open HlHelper.Library

structure Provisions where
  db : Db
  calls : List Phase
  deriving DecidableEq, Repr

inductive ProvisionStep where
  | start
  | advance (index : Nat) (draw : Draw)
  deriving DecidableEq, Repr

namespace Provisions

def others (s : Provisions) (index : Nat) : List Uncommitted :=
  (s.calls.eraseIdx index).map Phase.uncommitted

def step (a : SignIn) (s : Provisions) : ProvisionStep → Option Provisions
  | .start => some { s with calls := s.calls ++ [.selectLink] }
  | .advance index draw =>
    (s.calls[index]?).bind fun phase =>
      (a.advance s.db (s.others index) draw phase).map fun (db, next) =>
        ⟨db, s.calls.set index next⟩

end Provisions

structure Db.Consistent (db : Db) : Prop where
  ids : (db.users.map User.id).Nodup
  emails : (db.users.map User.email).Nodup
  links : (db.links.map AccountLink.key).Nodup
  roles : (db.roles.map Role.name).Nodup

/-- What the statement would insert ahead of the commit is not there. -/
def Unmet (db : Db) : Phase → Prop
  | .flushUser user => ∀ other ∈ db.users, other.id ≠ user.id ∧ other.email ≠ user.email
  | .selectRole tx _ _ => tx.unflushed = some .link → ∀ link ∈ db.links, link.key ≠ tx.link.key
  | _ => True

def Clear (s : Provisions) : ProvisionStep → Prop
  | .start => True
  | .advance index _ => ∀ phase ∈ s.calls[index]?, Unmet s.db phase

/-- The user has the email, the link of the subject and the bindings of the known groups. -/
structure Settled (a : SignIn) (db : Db) (user : User) : Prop where
  member : user ∈ db.users
  email : user.email = a.email
  linked : ∃ link ∈ db.links, link.key = a.key ∧ link.userId = user.id
  bound : ∀ group ∈ a.groups, ∀ role ∈ db.roles, role.name = group →
    ⟨user.id, role.id⟩ ∈ db.bindings

/-- Rows stay, and links keep what they lead from and to. -/
structure Later (before after : Db) : Prop where
  users : before.users ⊆ after.users
  links : ∀ link ∈ before.links, ∃ now ∈ after.links, now.key = link.key ∧ now.userId = link.userId
  bindings : before.bindings ⊆ after.bindings
  roles : after.roles = before.roles

variable {a : SignIn} {db after : Db} {user : User} {tx : Tx} {phase next : Phase}
  {s t : Provisions} {index : Nat} {todo : List String}

/-- The groups that are not to come any more have their bindings. -/
structure TxOk (a : SignIn) (db : Db) (tx : Tx) (todo : List String) : Prop where
  email : tx.user.email = a.email
  fresh : tx.created = true → ∀ other ∈ db.users, other.id ≠ tx.user.id ∧ other.email ≠ a.email
  known : tx.created = false → tx.user ∈ db.users
  key : tx.link.key = a.key
  owner : tx.link.userId = tx.user.id
  outside : tx.linkIn = false → tx.unflushed = some .link
  inside : tx.linkIn = true → tx.unflushed ≠ some .link ∧ ∀ link ∈ db.links, link.key ≠ a.key
  unbound : ∀ b, tx.unflushed = some (.binding b) → b ∉ db.bindings
  behind : tx.bindings ≠ [] → tx.linkIn = true
  bound : ∀ group ∈ a.groups, group ∈ todo ∨ ∀ role ∈ db.roles, role.name = group →
    ⟨tx.user.id, role.id⟩ ∈ db.bindings ∨ ⟨tx.user.id, role.id⟩ ∈ tx.bindings ∨
      tx.unflushed = some (.binding ⟨tx.user.id, role.id⟩)

def Ok (a : SignIn) (db : Db) : Phase → Prop
  | .selectLink | .selectUser => True
  | .selectLinkUser link | .selectAgainUser link =>
    ∃ user, Settled a db user ∧ user.id = link.userId
  | .touch _ user | .returned user _ => Settled a db user
  | .flushUser user => user.email = a.email
  | .selectRole tx group rest => TxOk a db tx (group :: rest)
  | .selectBinding tx role rest =>
    TxOk a db tx (role.name :: rest) ∧ role ∈ db.roles ∧ tx.unflushed = none
  | .commit tx => TxOk a db tx []
  | .selectAgain => ∃ link ∈ db.links, link.key = a.key
  | .refresh tx => Settled a db tx.user
  | .raised _ => False

structure Sound (a : SignIn) (s : Provisions) : Prop where
  unique : s.db.Consistent
  linked : ∀ link ∈ s.db.links, link.key = a.key →
    ∃ user, Settled a s.db user ∧ user.id = link.userId
  calls : ∀ phase ∈ s.calls, Ok a s.db phase
  oneUser : Exclusive (fun phase : Phase => phase.uncommitted.users = []) s.calls
  oneLink : Exclusive (fun phase : Phase => phase.uncommitted.links = []) s.calls

theorem Later.refl (db : Db) : Later db db :=
  ⟨List.Subset.refl _, fun link member => ⟨link, member, rfl, rfl⟩, List.Subset.refl _, rfl⟩

theorem Settled.later (settled : Settled a db user) (later : Later db after) :
    Settled a after user where
  member := later.users settled.member
  email := settled.email
  linked := by
    obtain ⟨link, member, key, owner⟩ := settled.linked
    obtain ⟨now, there, same, kept⟩ := later.links link member
    exact ⟨now, there, same.trans key, kept.trans owner⟩
  bound group member role known name :=
    later.bindings (settled.bound group member role (later.roles ▸ known) name)

theorem TxOk.later (ok : TxOk a db tx todo) (later : Later db after)
    (fresh : tx.created = true → ∀ other ∈ after.users,
      other.id ≠ tx.user.id ∧ other.email ≠ a.email)
    (inside : tx.linkIn = true → ∀ link ∈ after.links, link.key ≠ a.key)
    (unbound : ∀ b, tx.unflushed = some (.binding b) → b ∉ after.bindings) :
    TxOk a after tx todo where
  __ := ok
  fresh := fresh
  known created := later.users (ok.known created)
  inside held := ⟨(ok.inside held).1, inside held⟩
  unbound := unbound
  bound group member := by
    refine (ok.bound group member).imp_right fun done role known name => ?_
    exact (done role (later.roles ▸ known) name).imp_left fun there => later.bindings there

theorem TxOk.settled (ok : TxOk a db tx []) (flushed : tx.unflushed = none) :
    Settled a (db.committed tx.uncommitted) tx.user := by
  have held : tx.linkIn = true := by
    cases shape : tx.linkIn with
    | true => rfl
    | false => exact absurd (flushed.symm.trans (ok.outside shape)) (Option.some_ne_none _).symm
  constructor
  case member =>
    cases shape : tx.created with
    | true => exact List.mem_append_right _ (by simp [Tx.uncommitted, shape])
    | false => exact List.mem_append_left _ (ok.known shape)
  case email => exact ok.email
  case linked =>
    exact ⟨tx.link, List.mem_append_right _ (by simp [Tx.uncommitted, held]), ok.key, ok.owner⟩
  case bound =>
    intro group member role known name
    rcases (ok.bound group member).resolve_left List.not_mem_nil role known name with
      old | new | pending
    · exact List.mem_append_left _ old
    · exact List.mem_append_right _ new
    · exact absurd (flushed.symm.trans pending) (Option.some_ne_none _).symm

theorem Tx.next_ok (ok : TxOk a db tx todo) : Ok a db (tx.next todo) := by
  cases todo with
  | nil => exact ok
  | cons group rest => exact ok

theorem holds_of_ok (ok : Ok a db phase) : phase.uncommitted = .none ∨
    ∃ tx todo, phase.uncommitted = tx.uncommitted ∧ TxOk a db tx todo := by
  cases phase with
  | selectRole tx group rest => exact .inr ⟨tx, _, rfl, ok⟩
  | selectBinding tx role rest => exact .inr ⟨tx, _, rfl, ok.1⟩
  | commit tx => exact .inr ⟨tx, _, rfl, ok⟩
  | _ => exact .inl rfl

theorem users_of_ok (ok : Ok a db phase) {held : User} (member : held ∈ phase.uncommitted.users) :
    held.email = a.email := by
  rcases holds_of_ok ok with nothing | ⟨tx, todo, same, ok⟩
  · rw [nothing] at member
    cases member
  · rw [same, Tx.uncommitted] at member
    simp only at member
    split at member
    · exact List.mem_singleton.mp member ▸ ok.email
    · cases member

theorem links_of_ok (ok : Ok a db phase) {held : AccountLink}
    (member : held ∈ phase.uncommitted.links) : held.key = a.key := by
  rcases holds_of_ok ok with nothing | ⟨tx, todo, same, ok⟩
  · rw [nothing] at member
    cases member
  · rw [same, Tx.uncommitted] at member
    simp only at member
    split at member
    · exact List.mem_singleton.mp member ▸ ok.key
    · cases member

theorem ok_later (ok : Ok a db phase) (later : Later db after)
    (users : phase.uncommitted.users ≠ [] → after.users = db.users)
    (links : phase.uncommitted.links ≠ [] → ∀ link ∈ after.links, ∃ old ∈ db.links,
      old.key = link.key)
    (bindings : phase.uncommitted.links ≠ [] → after.bindings = db.bindings) :
    Ok a after phase := by
  have carry : ∀ {tx : Tx} {todo : List String}, phase.uncommitted = tx.uncommitted →
      TxOk a db tx todo → TxOk a after tx todo := by
    intro tx todo same ok
    rw [same] at users links bindings
    refine ok.later later (fun created => ?_) (fun held => ?_) (fun b pending => ?_)
    · rw [users (by simp [Tx.uncommitted, created])]
      exact ok.fresh created
    · intro link member
      obtain ⟨old, there, key⟩ := links (by simp [Tx.uncommitted, held]) link member
      exact key ▸ (ok.inside held).2 old there
    · cases shape : tx.linkIn with
      | true =>
        rw [bindings (by simp [Tx.uncommitted, shape])]
        exact ok.unbound b pending
      | false =>
        have link := (ok.outside shape).symm.trans pending
        cases link
  cases phase with
  | selectLink => exact ok
  | selectUser => exact ok
  | selectLinkUser link =>
    obtain ⟨user, settled, owner⟩ := ok
    exact ⟨user, settled.later later, owner⟩
  | selectAgainUser link =>
    obtain ⟨user, settled, owner⟩ := ok
    exact ⟨user, settled.later later, owner⟩
  | touch link user => exact Settled.later ok later
  | returned user basis => exact Settled.later ok later
  | flushUser user => exact ok
  | selectRole tx group rest => exact carry rfl ok
  | selectBinding tx role rest => exact ⟨carry rfl ok.1, later.roles ▸ ok.2.1, ok.2.2⟩
  | commit tx => exact carry rfl ok
  | selectAgain =>
    obtain ⟨link, member, key⟩ := ok
    obtain ⟨now, there, same, _⟩ := later.links link member
    exact ⟨now, there, same.trans key⟩
  | refresh tx => exact Settled.later ok later
  | raised error => exact ok

theorem Sound.moved (sound : Sound a s) (turn : s.calls[index]? = some phase)
    (ok : Ok a s.db next)
    (users : next.uncommitted.users = [] ∨
      (phase.uncommitted.users = [] → next.uncommitted.users = []) ∨
      ∀ (j : Nat) other, j ≠ index → s.calls[j]? = some other → other.uncommitted.users = [])
    (links : next.uncommitted.links = [] ∨
      (phase.uncommitted.links = [] → next.uncommitted.links = []) ∨
      ∀ (j : Nat) other, j ≠ index → s.calls[j]? = some other → other.uncommitted.links = []) :
    Sound a ⟨s.db, s.calls.set index next⟩ where
  __ := sound
  calls other member := by
    rcases List.mem_or_eq_of_mem_set member with old | rfl
    · exact sound.calls other old
    · exact ok
  oneUser := sound.oneUser.set turn users
  oneLink := sound.oneLink.set turn links

theorem Sound.idle (sound : Sound a s) (turn : s.calls[index]? = some phase)
    (ok : Ok a s.db next) (holds : next.uncommitted = .none) :
    Sound a ⟨s.db, s.calls.set index next⟩ :=
  sound.moved turn ok (.inl (by rw [holds]; rfl)) (.inl (by rw [holds]; rfl))

theorem Sound.holding (sound : Sound a s) (turn : s.calls[index]? = some phase)
    (ok : Ok a s.db next) (users : next.uncommitted.users = phase.uncommitted.users)
    (links : next.uncommitted.links = phase.uncommitted.links) :
    Sound a ⟨s.db, s.calls.set index next⟩ :=
  sound.moved turn ok (.inr (.inl fun nothing => users.trans nothing))
    (.inr (.inl fun nothing => links.trans nothing))

theorem mem_others {other : Phase} {j : Nat} (apart : j ≠ index)
    (there : s.calls[j]? = some other) : other.uncommitted ∈ s.others index :=
  List.mem_map_of_mem (List.mem_eraseIdx_iff_getElem?.mpr ⟨j, apart, there⟩)

theorem Sound.settled_of_find (sound : Sound a s) {link : AccountLink}
    (found : findKey AccountLink.key s.db.links a.key = some link) :
    ∃ user, Settled a s.db user ∧ user.id = link.userId := by
  obtain ⟨member, key⟩ := findKey_some found
  exact sound.linked link member key

theorem Sound.find_user (sound : Sound a s) {link : AccountLink}
    (known : ∃ user, Settled a s.db user ∧ user.id = link.userId) :
    ∃ user, findKey User.id s.db.users link.userId = some user ∧ Settled a s.db user := by
  obtain ⟨user, settled, owner⟩ := known
  exact ⟨user, (findKey_eq_some_iff sound.unique.ids).mpr ⟨settled.member, owner⟩, settled⟩

theorem begin_ok {created : Bool} {now : Int} (email : user.email = a.email)
    (fresh : created = true → ∀ other ∈ db.users, other.id ≠ user.id ∧ other.email ≠ a.email)
    (known : created = false → user ∈ db.users) :
    TxOk a db (a.begin user created now) a.groups where
  email := email
  fresh := fresh
  known := known
  key := rfl
  owner := rfl
  outside _ := rfl
  inside held := by cases held
  unbound b pending := by cases pending
  behind held := absurd rfl held
  bound group member := .inl member

theorem next_uncommitted (tx : Tx) (todo : List String) :
    (tx.next todo).uncommitted = tx.uncommitted := by
  cases todo <;> rfl

/-- What a flush that succeeds or fails says of the rows that are there. -/
inductive Flushes (db : Db) (others : List Uncommitted) (tx : Tx) (pending : Pending) :
    Inserted → Prop
  | link (same : pending = .link) (free : ∀ link ∈ db.links, link.key ≠ tx.link.key)
      (alone : ∀ other ∈ others, ∀ link ∈ other.links, link.key ≠ tx.link.key) :
      Flushes db others tx pending (.done { tx with unflushed := none, linkIn := true })
  | binding (b : Binding) (same : pending = .binding b) :
      Flushes db others tx pending
        (.done { tx with unflushed := none, bindings := tx.bindings ++ [b] })
  | linkThere (same : pending = .link) (link : AccountLink) (member : link ∈ db.links)
      (key : link.key = tx.link.key) : Flushes db others tx pending .conflict
  | bindingThere (b : Binding) (same : pending = .binding b) (member : b ∈ db.bindings) :
      Flushes db others tx pending .conflict
  | linkHeld (same : pending = .link) (other : Uncommitted) (holds : other ∈ others)
      (busy : other.links ≠ []) : Flushes db others tx pending .blocked
  | bindingHeld (b : Binding) (same : pending = .binding b) (other : Uncommitted)
      (holds : other ∈ others) (busy : other.bindings ≠ []) : Flushes db others tx pending .blocked

theorem flushes (db : Db) (others : List Uncommitted) (tx : Tx) (pending : Pending) :
    Flushes db others tx pending (tx.flush db others pending) := by
  cases pending with
  | link =>
    rw [Tx.flush]
    split
    · next there =>
      obtain ⟨link, member, key⟩ := List.any_eq_true.mp there
      exact .linkThere rfl link member (of_decide_eq_true key)
    · next free =>
      split
      · next held =>
        obtain ⟨other, holds, there⟩ := List.any_eq_true.mp held
        obtain ⟨link, member, _⟩ := List.any_eq_true.mp there
        exact .linkHeld rfl other holds (List.ne_nil_of_mem member)
      · next alone =>
        refine .link rfl (fun link member key => free ?_) fun other held link member key => ?_
        · exact List.any_eq_true.mpr ⟨link, member, decide_eq_true key⟩
        · exact alone (List.any_eq_true.mpr ⟨other, held,
            List.any_eq_true.mpr ⟨link, member, decide_eq_true key⟩⟩)
  | binding b =>
    rw [Tx.flush]
    split
    · next there =>
      obtain ⟨other, member, same⟩ := List.any_eq_true.mp there
      exact .bindingThere b rfl (of_decide_eq_true same ▸ member)
    · split
      · next held =>
        obtain ⟨other, holds, there⟩ := List.any_eq_true.mp held
        obtain ⟨same, member, _⟩ := List.any_eq_true.mp there
        exact .bindingHeld b rfl other holds (List.ne_nil_of_mem member)
      · exact .binding b rfl

theorem flush_done {others : List Uncommitted} {pending : Pending} {done : Tx}
    (flushed : tx.flush db others pending = .done done) :
    done.user = tx.user ∧ done.created = tx.created ∧ done.unflushed = none := by
  have shape := flushes db others tx pending
  rw [flushed] at shape
  cases shape with
  | link => exact ⟨rfl, rfl, rfl⟩
  | binding => exact ⟨rfl, rfl, rfl⟩

theorem TxOk.flushed_link (ok : TxOk a db tx todo)
    (free : ∀ link ∈ db.links, link.key ≠ tx.link.key) (pending : tx.unflushed = some .link) :
    TxOk a db { tx with unflushed := none, linkIn := true } todo where
  __ := ok
  outside held := by cases held
  inside _ := ⟨nofun, fun link member => ok.key ▸ free link member⟩
  unbound b pending := by cases pending
  behind _ := rfl
  bound group member := by
    refine (ok.bound group member).imp_right fun done role known name => ?_
    rcases done role known name with old | new | later
    · exact .inl old
    · exact .inr (.inl new)
    · cases pending.symm.trans later

theorem TxOk.flushed_binding (ok : TxOk a db tx todo) {b : Binding}
    (pending : tx.unflushed = some (.binding b)) :
    TxOk a db { tx with unflushed := none, bindings := tx.bindings ++ [b] } todo where
  __ := ok
  outside held := by cases pending.symm.trans (ok.outside held)
  inside held := ⟨nofun, (ok.inside held).2⟩
  unbound b pending := by cases pending
  behind _ := by
    cases shape : tx.linkIn with
    | true => rfl
    | false => cases pending.symm.trans (ok.outside shape)
  bound group member := by
    refine (ok.bound group member).imp_right fun done role known name => ?_
    rcases done role known name with old | new | later
    · exact .inl old
    · exact .inr (.inl (List.mem_append_left _ new))
    · have same : b = ⟨tx.user.id, role.id⟩ := by
        cases pending.symm.trans later
        rfl
      exact .inr (.inl (List.mem_append_right _ (List.mem_singleton.mpr same.symm)))

theorem Sound.flushed (sound : Sound a s) (turn : s.calls[index]? = some phase) {pending : Pending}
    {stay : Tx → Phase} (holds : ∀ tx, (stay tx).uncommitted = tx.uncommitted)
    (oks : ∀ tx, TxOk a s.db tx todo → Ok a s.db (stay tx)) (here : phase = stay tx)
    (ok : TxOk a s.db tx todo) (waits : tx.unflushed = some pending) {after : Tx}
    (done : tx.flush s.db (s.others index) pending = .done after) :
    Sound a ⟨s.db, s.calls.set index (stay after)⟩ := by
  have shape := flushes s.db (s.others index) tx pending
  rw [done] at shape
  cases shape with
  | link same free alone =>
    subst same
    refine sound.moved turn (oks _ (ok.flushed_link free waits)) ?_ ?_
    · refine .inr (.inl fun nothing => ?_)
      rw [here, holds] at nothing
      rw [holds]
      exact nothing
    · refine .inr (.inr fun j other apart there => ?_)
      refine List.eq_nil_iff_forall_not_mem.mpr fun link member => ?_
      have key := links_of_ok (sound.calls other (List.mem_of_getElem? there)) member
      exact alone _ (mem_others apart there) link member (key.trans ok.key.symm)
  | binding b same =>
    subst same
    refine sound.holding turn (oks _ (ok.flushed_binding waits)) ?_ ?_
    · rw [here, holds, holds]
      rfl
    · rw [here, holds, holds]
      rfl

theorem TxOk.linkIn (ok : TxOk a db tx todo) (flushed : tx.unflushed = none) :
    tx.linkIn = true := by
  cases held : tx.linkIn with
  | true => rfl
  | false => exact absurd (flushed.symm.trans (ok.outside held)) (Option.some_ne_none _).symm

theorem TxOk.unknown {group : String} (ok : TxOk a db tx (group :: todo))
    (missing : findKey Role.name db.roles group = none) : TxOk a db tx todo where
  __ := ok
  bound other member := by
    rcases ok.bound other member with waits | done
    · rcases List.mem_cons.mp waits with rfl | later
      · refine .inr fun role known name => ?_
        exact absurd (List.mem_map.mpr ⟨role, known, name⟩) (findKey_none.mp missing)
      · exact .inl later
    · exact .inr done

theorem TxOk.bind_ (unique : (db.roles.map Role.name).Nodup) {role : Role} {unflushed}
    (ok : TxOk a db tx (role.name :: todo)) (member : role ∈ db.roles)
    (flushed : tx.unflushed = none)
    (there : ⟨tx.user.id, role.id⟩ ∈ db.bindings ∨ ⟨tx.user.id, role.id⟩ ∈ tx.bindings ∨
      unflushed = some (.binding ⟨tx.user.id, role.id⟩))
    (shape : unflushed = none ∨
      unflushed = some (.binding ⟨tx.user.id, role.id⟩) ∧ ⟨tx.user.id, role.id⟩ ∉ db.bindings) :
    TxOk a db { tx with unflushed := unflushed } todo where
  __ := ok
  outside held := by
    rw [ok.linkIn flushed] at held
    cases held
  inside held := by
    refine ⟨fun pending => ?_, (ok.inside held).2⟩
    rcases shape with nothing | ⟨binding, _⟩
    · cases nothing.symm.trans pending
    · cases binding.symm.trans pending
  unbound b pending := by
    rcases shape with nothing | ⟨binding, missing⟩
    · cases nothing.symm.trans pending
    · cases binding.symm.trans pending
      exact missing
  bound group known := by
    rcases ok.bound group known with waits | done
    · rcases List.mem_cons.mp waits with rfl | later
      · refine .inr fun other present name => ?_
        obtain rfl := key_injective unique present member name
        exact there
      · exact .inl later
    · refine .inr fun other present name => ?_
      rcases done other present name with old | new | pending
      · exact .inl old
      · exact .inr (.inl new)
      · cases flushed.symm.trans pending

theorem nodup_concat {α β : Type} {key : α → β} {rows : List α} {row : α}
    (unique : (rows.map key).Nodup) (fresh : ∀ old ∈ rows, key old ≠ key row) :
    ((rows ++ [row]).map key).Nodup := by
  refine @unique_append _ _ key rows (some row) unique fun new member there => ?_
  cases member
  obtain ⟨old, inside, same⟩ := List.mem_map.mp there
  exact fresh old inside same

theorem later_committed (db : Db) (rows : Uncommitted) : Later db (db.committed rows) where
  users := List.subset_append_left ..
  links link member := ⟨link, List.mem_append_left _ member, rfl, rfl⟩
  bindings := List.subset_append_left ..
  roles := rfl

theorem TxOk.consistent (ok : TxOk a db tx todo) (unique : db.Consistent) :
    (db.committed tx.uncommitted).Consistent where
  ids := by
    cases created : tx.created with
    | true =>
      simp only [Db.committed, Tx.uncommitted, created, if_true]
      exact nodup_concat unique.ids fun old member => (ok.fresh created old member).1
    | false =>
      simp only [Db.committed, Tx.uncommitted, created, Bool.false_eq_true, if_false,
        List.append_nil]
      exact unique.ids
  emails := by
    cases created : tx.created with
    | true =>
      simp only [Db.committed, Tx.uncommitted, created, if_true]
      exact nodup_concat unique.emails fun old member =>
        ok.email ▸ (ok.fresh created old member).2
    | false =>
      simp only [Db.committed, Tx.uncommitted, created, Bool.false_eq_true, if_false,
        List.append_nil]
      exact unique.emails
  links := by
    cases held : tx.linkIn with
    | true =>
      simp only [Db.committed, Tx.uncommitted, held, if_true]
      exact nodup_concat unique.links fun old member => ok.key ▸ (ok.inside held).2 old member
    | false =>
      simp only [Db.committed, Tx.uncommitted, held, Bool.false_eq_true, if_false,
        List.append_nil]
      exact unique.links
  roles := unique.roles

theorem Sound.committed (sound : Sound a s) (turn : s.calls[index]? = some (.commit tx))
    (flushed : tx.unflushed = none) :
    Sound a ⟨s.db.committed tx.uncommitted, s.calls.set index (.refresh tx)⟩ := by
  have ok : TxOk a s.db tx [] := sound.calls _ (List.mem_of_getElem? turn)
  have held := ok.linkIn flushed
  have settled := ok.settled flushed
  have links : tx.uncommitted.links = [tx.link] := by simp [Tx.uncommitted, held]
  constructor
  case unique => exact ok.consistent sound.unique
  case linked =>
    intro link member key
    rcases List.mem_append.mp member with old | new
    · exact absurd key ((ok.inside held).2 link old)
    · rw [links] at new
      obtain rfl := List.mem_singleton.mp new
      exact ⟨tx.user, settled, ok.owner.symm⟩
  case calls =>
    intro other member
    obtain ⟨j, there⟩ := List.mem_iff_getElem?.mp member
    rcases getElem?_set_cases there with ⟨before, apart⟩ | ⟨_, rfl⟩
    · have free : other.uncommitted.links = [] := by
        rcases sound.oneLink j index _ _ apart before turn with nothing | nothing
        · exact nothing
        · exact absurd (links.symm.trans nothing) (List.cons_ne_nil _ _)
      refine ok_later (sound.calls other (List.mem_of_getElem? before)) (later_committed _ _)
        (fun busy => ?_) (fun busy => absurd free busy) (fun busy => absurd free busy)
      have nothing := (sound.oneUser j index _ _ apart before turn).resolve_left busy
      have same : tx.uncommitted.users = [] := nothing
      rw [Db.committed, same, List.append_nil]
    · exact settled
  case oneUser => exact sound.oneUser.set turn (.inl rfl)
  case oneLink => exact sound.oneLink.set turn (.inl rfl)

theorem Sound.touched (sound : Sound a s) {link : AccountLink} {now : Int}
    (turn : s.calls[index]? = some (.touch link user)) :
    Sound a ⟨{ s.db with
      links := s.db.links.map fun row =>
        if row.key = link.key then { row with email := some a.email, lastLoginAt := now }
        else row },
      s.calls.set index (.returned user .linked)⟩ := by
  have kept : ∀ row : AccountLink,
      (if row.key = link.key then { row with email := some a.email, lastLoginAt := now }
        else row).key = row.key ∧
      (if row.key = link.key then { row with email := some a.email, lastLoginAt := now }
        else row).userId = row.userId := by
    intro row
    split <;> exact ⟨rfl, rfl⟩
  have later : Later s.db { s.db with
      links := s.db.links.map fun row =>
        if row.key = link.key then { row with email := some a.email, lastLoginAt := now }
        else row } :=
    ⟨List.Subset.refl _, fun row member => ⟨_, List.mem_map_of_mem member, kept row⟩,
      List.Subset.refl _, rfl⟩
  have settled : Settled a s.db user := sound.calls _ (List.mem_of_getElem? turn)
  constructor
  case unique =>
    exact ⟨sound.unique.ids, sound.unique.emails,
      unique_map sound.unique.links fun row => (kept row).1, sound.unique.roles⟩
  case linked =>
    intro row member key
    obtain ⟨old, there, rfl⟩ := List.mem_map.mp member
    obtain ⟨owner, known, same⟩ := sound.linked old there ((kept old).1 ▸ key)
    exact ⟨owner, known.later later, same.trans (kept old).2.symm⟩
  case calls =>
    intro other member
    rcases List.mem_or_eq_of_mem_set member with old | rfl
    · refine ok_later (sound.calls other old) later (fun _ => rfl) (fun _ row there => ?_)
        fun _ => rfl
      obtain ⟨before, inside, rfl⟩ := List.mem_map.mp there
      exact ⟨before, inside, (kept before).1.symm⟩
    · exact settled.later later
  case oneUser => exact sound.oneUser.set turn (.inl rfl)
  case oneLink => exact sound.oneLink.set turn (.inl rfl)

theorem Sound.onward (sound : Sound a s) (turn : s.calls[index]? = some phase) {tx : Tx}
    {todo : List String} (ok : TxOk a s.db tx todo)
    (holds : tx.uncommitted = phase.uncommitted) :
    Sound a ⟨s.db, s.calls.set index (tx.next todo)⟩ := by
  have kept : (tx.next todo).uncommitted = phase.uncommitted :=
    (next_uncommitted tx todo).trans holds
  exact sound.holding turn (Tx.next_ok ok) (congrArg _ kept) (congrArg _ kept)

section

variable (a : SignIn) (db : Db) (others : List Uncommitted) (draw : Draw)

/-- What a statement of a call finds, what it leaves in the tables and where the call goes on. -/
inductive Advances : Phase → Db → Phase → Prop
  | linkFound (link : AccountLink) (found : findKey AccountLink.key db.links a.key = some link) :
    Advances .selectLink db (.selectLinkUser link)
  | linkMissing : Advances .selectLink db .selectUser
  | userFound (link : AccountLink) (user : User)
      (found : findKey User.id db.users link.userId = some user) :
    Advances (.selectLinkUser link) db (.touch link user)
  | userMissing (link : AccountLink) (missing : findKey User.id db.users link.userId = none) :
    Advances (.selectLinkUser link) db (.raised .linkUserMissing)
  | touched (link : AccountLink) (user : User) :
    Advances (.touch link user)
      { db with
        links := db.links.map fun row =>
          if row.key = link.key then { row with email := some a.email, lastLoginAt := draw.now }
          else row }
      (.returned user .linked)
  | ownerFound (user : User) (found : findKey User.email db.users a.email = some user)
      (verified : a.emailVerified = true) :
    Advances .selectUser db ((a.begin user false draw.now).next a.groups)
  | unverified (failed : a.emailVerified ≠ true) :
    Advances .selectUser db (.raised .emailNotVerified)
  | ownerMissing : Advances .selectUser db (.flushUser (a.newUser draw))
  | userTaken (user other : User) (member : other ∈ db.users)
      (same : other.id = user.id ∨ other.email = user.email) :
    Advances (.flushUser user) db (.raised .integrity)
  | userFlushed (user : User)
      (alone : ∀ rows ∈ others, ∀ other ∈ rows.users, other.email ≠ user.email) :
    Advances (.flushUser user) db ((a.begin user true draw.now).next a.groups)
  | roleFlushed (tx done : Tx) (pending : Pending) (group : String) (rest : List String)
      (waits : tx.unflushed = some pending) (flushed : tx.flush db others pending = .done done) :
    Advances (.selectRole tx group rest) db (.selectRole done group rest)
  | roleRefused (tx : Tx) (pending : Pending) (group : String) (rest : List String)
      (waits : tx.unflushed = some pending) (failed : tx.flush db others pending = .conflict) :
    Advances (.selectRole tx group rest) db (.raised .integrity)
  | roleFound (tx : Tx) (role : Role) (group : String) (rest : List String)
      (flushed : tx.unflushed = none) (found : findKey Role.name db.roles group = some role) :
    Advances (.selectRole tx group rest) db (.selectBinding tx role rest)
  | roleMissing (tx : Tx) (group : String) (rest : List String) (flushed : tx.unflushed = none)
      (missing : findKey Role.name db.roles group = none) :
    Advances (.selectRole tx group rest) db (tx.next rest)
  | bound (tx : Tx) (role : Role) (rest : List String)
      (there : ⟨tx.user.id, role.id⟩ ∈ db.bindings ++ tx.bindings) :
    Advances (.selectBinding tx role rest) db (tx.next rest)
  | unbound (tx : Tx) (role : Role) (rest : List String)
      (missing : ⟨tx.user.id, role.id⟩ ∉ db.bindings ++ tx.bindings) :
    Advances (.selectBinding tx role rest) db
      (Tx.next { tx with unflushed := some (.binding ⟨tx.user.id, role.id⟩) } rest)
  | commitFlushed (tx done : Tx) (pending : Pending) (waits : tx.unflushed = some pending)
      (flushed : tx.flush db others pending = .done done) :
    Advances (.commit tx) db (.commit done)
  | commitRefused (tx : Tx) (pending : Pending) (waits : tx.unflushed = some pending)
      (failed : tx.flush db others pending = .conflict) : Advances (.commit tx) db .selectAgain
  | committed (tx : Tx) (flushed : tx.unflushed = none) :
    Advances (.commit tx) (db.committed tx.uncommitted) (.refresh tx)
  | againFound (link : AccountLink) (found : findKey AccountLink.key db.links a.key = some link) :
    Advances .selectAgain db (.selectAgainUser link)
  | againMissing (missing : findKey AccountLink.key db.links a.key = none) :
    Advances .selectAgain db (.raised .integrity)
  | againUserFound (link : AccountLink) (user : User)
      (found : findKey User.id db.users link.userId = some user) :
    Advances (.selectAgainUser link) db (.returned user .linked)
  | againUserMissing (link : AccountLink)
      (missing : findKey User.id db.users link.userId = none) :
    Advances (.selectAgainUser link) db (.raised .linkUserMissing)
  | refreshed (tx : Tx) :
    Advances (.refresh tx) db (.returned tx.user (if tx.created then .created else .owner))

variable {a db others draw}

theorem flushes_user (flushed : a.flushUser db others draw user = some next) :
    Advances a db others draw (.flushUser user) db next := by
  rw [SignIn.flushUser] at flushed
  split at flushed
  · next there =>
    cases flushed
    obtain ⟨other, member, same⟩ := List.any_eq_true.mp there
    exact .userTaken user other member
      ((Bool.or_eq_true_iff.mp same).imp of_decide_eq_true of_decide_eq_true)
  · split at flushed
    · cases flushed
    · next free =>
      cases flushed
      refine .userFlushed user fun rows held other member same => free ?_
      refine List.any_eq_true.mpr ⟨rows, held, List.any_eq_true.mpr ⟨other, member, ?_⟩⟩
      exact Bool.or_eq_true_iff.mpr (.inr (decide_eq_true same))

theorem binds {role : Role} {rest : List String}
    (stepped : a.advance db others draw (.selectBinding tx role rest) = some (after, next)) :
    Advances a db others draw (.selectBinding tx role rest) after next := by
  cases stepped
  split
  · next there =>
    obtain ⟨b, member, same⟩ := List.any_eq_true.mp there
    exact .bound tx role rest (of_decide_eq_true same ▸ member)
  · next free =>
    exact .unbound tx role rest fun member =>
      free (List.any_eq_true.mpr ⟨_, member, decide_eq_true rfl⟩)

theorem advances (stepped : a.advance db others draw phase = some (after, next)) :
    Advances a db others draw phase after next := by
  cases phase with
  | selectLink | selectLinkUser _ | selectAgain | selectAgainUser _ =>
    simp only [SignIn.advance] at stepped
    split at stepped
    all_goals
      cases stepped
      constructor
      try assumption
  | touch link user =>
    cases stepped
    exact .touched link user
  | selectUser =>
    simp only [SignIn.advance] at stepped
    split at stepped
    · next user found =>
      split at stepped
      · next verified =>
        cases stepped
        exact .ownerFound user found verified
      · next failed =>
        cases stepped
        exact .unverified failed
    · cases stepped
      exact .ownerMissing
  | flushUser user =>
    obtain ⟨next, flushed, goes⟩ := Option.map_eq_some_iff.mp stepped
    cases goes
    exact flushes_user flushed
  | selectRole tx group rest =>
    simp only [SignIn.advance] at stepped
    split at stepped
    · next pending waits =>
      split at stepped
      · next done flushed =>
        cases stepped
        exact .roleFlushed tx done pending group rest waits flushed
      · next failed =>
        cases stepped
        exact .roleRefused tx pending group rest waits failed
      · cases stepped
    · next flushed =>
      split at stepped
      · next role found =>
        cases stepped
        exact .roleFound tx role group rest flushed found
      · next missing =>
        cases stepped
        exact .roleMissing tx group rest flushed missing
  | selectBinding tx role rest => exact binds stepped
  | commit tx =>
    simp only [SignIn.advance] at stepped
    split at stepped
    · next pending waits =>
      split at stepped
      · next done flushed =>
        cases stepped
        exact .commitFlushed tx done pending waits flushed
      · next failed =>
        cases stepped
        exact .commitRefused tx pending waits failed
      · cases stepped
    · next flushed =>
      cases stepped
      exact .committed tx flushed
  | refresh tx =>
    cases stepped
    exact .refreshed tx
  | returned user basis => cases stepped
  | raised error => cases stepped

end

theorem Sound.inserts (sound : Sound a s) {user : User} {now : Int} (email : user.email = a.email)
    (turn : s.calls[index]? = some (.flushUser user))
    (allowed : ∀ other ∈ s.db.users, other.id ≠ user.id ∧ other.email ≠ user.email)
    (alone : ∀ rows ∈ s.others index, ∀ other ∈ rows.users, other.email ≠ user.email) :
    Sound a ⟨s.db, s.calls.set index ((a.begin user true now).next a.groups)⟩ := by
  refine sound.moved turn (Tx.next_ok (begin_ok email (fun _ other member => ?_) nofun))
    (.inr (.inr fun j other apart there => ?_)) (.inl ?_)
  · exact email ▸ allowed other member
  · refine List.eq_nil_iff_forall_not_mem.mpr fun held member => ?_
    have same := users_of_ok (sound.calls other (List.mem_of_getElem? there)) member
    exact alone _ (mem_others apart there) held member (same.trans email.symm)
  · rw [next_uncommitted]
    rfl

theorem Sound.advance (verified : a.emailVerified = true) (sound : Sound a s) {draw : Draw}
    (turn : s.calls[index]? = some phase) (clear : Clear s (.advance index draw))
    (stepped : a.advance s.db (s.others index) draw phase = some (db, next)) :
    Sound a ⟨db, s.calls.set index next⟩ := by
  have ok := sound.calls phase (List.mem_of_getElem? turn)
  have allowed := clear phase turn
  cases advances stepped with
  | linkFound link found | againFound link found =>
    exact sound.idle turn (sound.settled_of_find found) rfl
  | linkMissing => exact sound.idle turn trivial rfl
  | userFound link user found | againUserFound link user found =>
    obtain ⟨owner, there, settled⟩ := sound.find_user ok
    cases found.symm.trans there
    exact sound.idle turn settled rfl
  | userMissing link missing | againUserMissing link missing =>
    obtain ⟨owner, there, _⟩ := sound.find_user ok
    cases missing.symm.trans there
  | touched link user => exact sound.touched turn
  | ownerFound user found _ =>
    obtain ⟨member, email⟩ := findKey_some found
    refine sound.idle turn (Tx.next_ok (begin_ok email nofun fun _ => member)) ?_
    rw [next_uncommitted]
    rfl
  | unverified failed => exact absurd verified failed
  | ownerMissing => exact sound.idle turn (rfl : (a.newUser draw).email = a.email) rfl
  | userTaken user other member same =>
    exact absurd same (not_or_intro (allowed other member).1 (allowed other member).2)
  | userFlushed user alone => exact sound.inserts ok turn allowed alone
  | roleFlushed tx done pending group rest waits flushed =>
    exact @Sound.flushed _ _ _ _ _ _ sound turn _ (fun tx => .selectRole tx group rest)
      (fun _ => rfl) (fun _ ok => ok) rfl ok waits _ flushed
  | roleRefused tx pending group rest waits failed =>
    have shape := flushes s.db (s.others index) tx pending
    rw [failed] at shape
    cases shape with
    | linkThere same link member key => exact absurd key (allowed (same ▸ waits) link member)
    | bindingThere b same member => exact absurd member (TxOk.unbound ok b (same ▸ waits))
  | roleFound tx role group rest flushed found =>
    obtain ⟨member, rfl⟩ := findKey_some found
    exact sound.holding turn ⟨ok, member, flushed⟩ rfl rfl
  | roleMissing tx group rest _ missing =>
    exact sound.onward turn (TxOk.unknown ok missing) rfl
  | bound tx role rest there =>
    obtain ⟨txOk, member, flushed⟩ := ok
    exact sound.onward turn (txOk.bind_ sound.unique.roles member flushed
      ((List.mem_append.mp there).imp_right .inl) (.inl flushed)) rfl
  | unbound tx role rest missing =>
    obtain ⟨txOk, member, flushed⟩ := ok
    exact sound.onward turn (txOk.bind_ sound.unique.roles member flushed (.inr (.inr rfl))
      (.inr ⟨rfl, fun inside => missing (List.mem_append_left _ inside)⟩)) rfl
  | commitFlushed tx done pending waits flushed =>
    exact @Sound.flushed _ _ _ _ _ _ sound turn _ .commit (fun _ => rfl) (fun _ ok => ok) rfl ok
      waits _ flushed
  | commitRefused tx pending waits failed =>
    have shape := flushes s.db (s.others index) tx pending
    rw [failed] at shape
    cases shape with
    | linkThere same link member key =>
      exact sound.idle turn ⟨link, member, key.trans (TxOk.key ok)⟩ rfl
    | bindingThere b same member => exact absurd member (TxOk.unbound ok b (same ▸ waits))
  | committed tx flushed => exact sound.committed turn flushed
  | againMissing missing =>
    obtain ⟨link, member, key⟩ := ok
    cases missing.symm.trans ((findKey_eq_some_iff sound.unique.links).mpr ⟨member, key⟩)
  | refreshed tx => exact sound.idle turn ok rfl

end HlHelper.Oidc
