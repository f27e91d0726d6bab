import HlHelper.Bootstrap.Owner

/-! A token creates one owner at most, and requests that fail leave nothing. -/

namespace HlHelper.Bootstrap

open HlHelper.Library
open Rbac (Binding)

/-- The user of a request, with a global binding to a role named owner. -/
structure Creation.Ok (db : Db) (call : Call) (c : Creation) : Prop where
  tokenHash : c.tokenHash = call.tokenHash
  now : c.now = call.now
  email : c.user.email = call.email
  owner : c.role.name = "owner"
  known : c.newRole = false → c.role ∈ db.roles
  principal : c.binding.principalType = .user ∧ c.binding.principalId = c.user.id
  role : c.binding.roleId = c.role.id
  scope : c.binding.scope = .global

def PhaseOk (db : Db) (call : Call) : Phase → Prop
  | .selectRole user | .flushRole user => user.email = call.email
  | .flushBinding user role newRole =>
    user.email = call.email ∧ role.name = "owner" ∧ (newRole = false → role ∈ db.roles)
  | .commit c => c.Ok db call
  | _ => True

/-- A request that holds the row of its token could still consume it. -/
structure Call.Ok (db : Db) (call : Call) : Prop where
  phase : PhaseOk db call call.phase
  token : call.held.token ≠ none → ∃ token ∈ db.tokens, call.updates token = true

structure Server.Sound (s : Server) : Prop where
  calls : ∀ call ∈ s.calls, call.Ok s.db
  alone : ∀ hash, Exclusive (fun call : Call => call.held.token ≠ some hash) s.calls

variable {service : Service} {s t : Server} {db after : Db} {call : Call} {others : List Held}
  {id : String} {phase : Phase} {c : Creation} {index : Nat} {event : Step} {events : List Step}

theorem held_token (call : Call) :
    call.held.token = none ∨ call.held.token = some call.tokenHash := by
  unfold Call.held
  split
  all_goals first
    | exact .inl rfl
    | exact .inr rfl

theorem insert_cases {α : Type} {clashes : α → Bool} {rows : List α} {held : List (List α)}
    {done : Phase} (inserted : insert clashes rows held done = some phase) :
    phase = .failed .raised ∨ phase = done := by
  rw [insert] at inserted
  split at inserted
  · exact .inl (Option.some.inj inserted).symm
  · split at inserted
    · cases inserted
    · exact .inr (Option.some.inj inserted).symm

def Phase.creation : Phase → Option Creation
  | .commit c => some c
  | _ => none

/-- What a statement does to its request and the database. -/
inductive Advances (db : Db) (others : List Held) (call : Call) : Db → Phase → Prop
  | goes (phase : Phase) (waits : call.phase.creation = none) (ok : PhaseOk db call phase)
      (token : ({ call with phase := phase } : Call).held.token = none ∨
        ({ call with phase := phase } : Call).held.token = call.held.token) :
      Advances db others call db phase
  | holds (waits : call.phase.creation = none)
      (row : ∃ token ∈ db.tokens, call.updates token = true)
      (free : ∀ held ∈ others, held.token ≠ some call.tokenHash) :
      Advances db others call db .flushUser
  | commits (c : Creation) (turn : call.phase = .commit c) :
      Advances db others call (db.created c) (.returned c.user)

theorem advances (ok : PhaseOk db call call.phase)
    (stepped : advance db others call id = some (after, phase)) :
    Advances db others call after phase := by
  unfold advance at stepped
  split at stepped
  · next turn =>
    have waits : call.phase.creation = none := by rw [turn]; rfl
    split at stepped
    · next there =>
      split at stepped
      · cases stepped
      · next alone =>
        cases stepped
        refine .holds waits (List.any_eq_true.mp there) fun held member same => alone ?_
        exact List.any_eq_true.mpr ⟨held, member, decide_eq_true same⟩
    · cases stepped
      exact .goes _ waits trivial (.inl rfl)
  · next turn =>
    cases stepped
    exact .goes _ (by rw [turn]; rfl) trivial (.inl rfl)
  · next turn =>
    have waits : call.phase.creation = none := by rw [turn]; rfl
    obtain ⟨next, inserted, same⟩ := Option.map_eq_some_iff.mp stepped
    cases same
    rcases insert_cases inserted with rfl | rfl
    · exact .goes _ waits trivial (.inl rfl)
    · exact .goes _ waits rfl (.inr (by simp [Call.held, turn]))
  · next user turn =>
    have waits : call.phase.creation = none := by rw [turn]; rfl
    rw [turn] at ok
    split at stepped
    · next role found =>
      cases stepped
      obtain ⟨member, name⟩ := findKey_some found
      exact .goes _ waits ⟨ok, name, fun _ => member⟩ (.inr (by simp [Call.held, turn]))
    · cases stepped
      exact .goes _ waits ok (.inr (by simp [Call.held, turn]))
  · next user turn =>
    have waits : call.phase.creation = none := by rw [turn]; rfl
    rw [turn] at ok
    obtain ⟨next, inserted, same⟩ := Option.map_eq_some_iff.mp stepped
    cases same
    rcases insert_cases inserted with rfl | rfl
    · exact .goes _ waits trivial (.inl rfl)
    · refine .goes _ waits ⟨ok, rfl, fun fresh => by cases fresh⟩ (.inr ?_)
      simp [Call.held, turn]
  · next user role newRole turn =>
    have waits : call.phase.creation = none := by rw [turn]; rfl
    rw [turn] at ok
    obtain ⟨next, inserted, same⟩ := Option.map_eq_some_iff.mp stepped
    cases same
    rcases insert_cases inserted with rfl | rfl
    · exact .goes _ waits trivial (.inl rfl)
    · refine .goes _ waits ⟨rfl, rfl, ok.1, ok.2.1, ok.2.2, ⟨rfl, rfl⟩, rfl, rfl⟩ (.inr ?_)
      simp [Call.held, turn]
  · next c turn =>
    cases stepped
    exact .commits c turn
  · cases stepped
  · cases stepped

theorem PhaseOk.created (ok : PhaseOk db call phase) (c : Creation) :
    PhaseOk (db.created c) call phase := by
  cases phase with
  | flushBinding user role newRole =>
    exact ⟨ok.1, ok.2.1, fun old => List.mem_append_left _ (ok.2.2 old)⟩
  | commit other =>
    have ok : other.Ok db call := ok
    exact ⟨ok.tokenHash, ok.now, ok.email, ok.owner,
      fun old => List.mem_append_left _ (ok.known old), ok.principal, ok.role, ok.scope⟩
  | _ => exact ok

theorem PhaseOk.moved {turn : Phase} (ok : PhaseOk db call phase) :
    PhaseOk db { call with phase := turn } phase := by
  cases phase with
  | commit c =>
    have ok : c.Ok db call := ok
    exact ⟨ok.tokenHash, ok.now, ok.email, ok.owner, ok.known, ok.principal, ok.role, ok.scope⟩
  | _ => exact ok

theorem Call.Ok.created (ok : call.Ok db) (apart : call.held.token ≠ some c.tokenHash) :
    call.Ok (db.created c) where
  phase := ok.phase.created c
  token holds := by
    obtain ⟨token, member, unspent⟩ := ok.token holds
    refine ⟨token, List.mem_map.mpr ⟨token, member, if_neg fun same => apart ?_⟩, unspent⟩
    have hash : token.tokenHash = call.tokenHash := (of_decide_eq_true unspent).1
    rw [(held_token call).resolve_left holds, ← same, hash]

theorem token_of_mem_others {j : Nat} {other : Call} (apart : j ≠ index)
    (there : s.calls[j]? = some other) : other.held ∈ s.others index :=
  List.mem_map_of_mem (List.mem_eraseIdx_iff_getElem?.mpr ⟨j, apart, there⟩)

theorem begin_phase (body : BootstrapOwnerRequest) (now : Int) (salt : String) :
    (Server.begin service body now salt).phase = .consume ∨
      ∃ error, (Server.begin service body now salt).phase = .failed error := by
  unfold Server.begin
  dsimp only
  split
  · exact .inl rfl
  · exact .inr ⟨_, rfl⟩

theorem begin_ok (body : BootstrapOwnerRequest) (now : Int) (salt : String) :
    (Server.begin service body now salt).held.token = none ∧
      (Server.begin service body now salt).Ok db := by
  have none : (Server.begin service body now salt).held.token = none := by
    rcases @begin_phase service body now salt with waits | ⟨error, refused⟩
    · simp [Call.held, waits]
    · simp [Call.held, refused]
  refine ⟨none, ?_, fun holds => absurd none holds⟩
  rcases @begin_phase service body now salt with waits | ⟨error, refused⟩
  · rw [waits]
    trivial
  · rw [refused]
    trivial

theorem Server.Sound.step (sound : s.Sound) (stepped : s.step service event = some t) :
    t.Sound := by
  cases event with
  | start body now salt =>
    cases stepped
    refine ⟨fun call member => ?_, fun hash => (sound.alone hash).concat ?_⟩
    · rcases List.mem_append.mp member with old | new
      · exact sound.calls call old
      · obtain rfl := List.mem_singleton.mp new
        exact (begin_ok body now salt).2
    · rw [(@begin_ok service s.db body now salt).1]
      exact (Option.some_ne_none hash).symm
  | advance index id =>
    obtain ⟨call, turn, goes⟩ := Option.bind_eq_some_iff.mp stepped
    obtain ⟨⟨db, phase⟩, advanced, rfl⟩ := Option.map_eq_some_iff.mp goes
    have ok := sound.calls call (List.mem_of_getElem? turn)
    cases advances ok.phase advanced with
    | goes _ _ next token =>
      refine ⟨fun other member => ?_, fun hash => (sound.alone hash).set turn ?_⟩
      · rcases List.mem_or_eq_of_mem_set member with old | rfl
        · exact sound.calls other old
        · refine ⟨PhaseOk.moved next, fun holds => ?_⟩
          rcases token with none | same
          · exact absurd none holds
          · exact ok.token (same ▸ holds)
      · rcases token with none | same
        · exact .inl (by rw [none]; exact (Option.some_ne_none hash).symm)
        · exact .inr (.inl fun free => same ▸ free)
    | holds _ row free =>
      refine ⟨fun other member => ?_, fun hash => (sound.alone hash).set turn ?_⟩
      · rcases List.mem_or_eq_of_mem_set member with old | rfl
        · exact sound.calls other old
        · exact ⟨trivial, fun _ => row⟩
      · by_cases same : call.tokenHash = hash
        · subst same
          exact .inr (.inr fun j other apart there =>
            free _ (token_of_mem_others apart there))
        · exact .inl fun held => same (Option.some.inj held)
    | commits c commit =>
      have exact_ : PhaseOk s.db call (.commit c) := commit ▸ ok.phase
      have made : c.Ok s.db call := exact_
      have holds : call.held.token = some c.tokenHash := by
        simp [Call.held, commit, made.tokenHash]
      refine ⟨fun other member => ?_, fun hash => (sound.alone hash).set turn (.inl ?_)⟩
      · obtain ⟨j, there⟩ := List.mem_iff_getElem?.mp member
        rcases getElem?_set_cases there with ⟨before, apart⟩ | ⟨_, rfl⟩
        · refine (sound.calls other (List.mem_of_getElem? before)).created ?_
          exact (sound.alone c.tokenHash j index other call apart before turn).resolve_right
            fun free => free holds
        · exact ⟨trivial, fun held => absurd rfl held⟩
      · exact (Option.some_ne_none hash).symm
  | fail index =>
    obtain ⟨call, turn, goes⟩ := Option.bind_eq_some_iff.mp stepped
    split at goes
    · cases goes
    · cases goes
      refine ⟨fun other member => ?_, fun hash => (sound.alone hash).set turn (.inl ?_)⟩
      · rcases List.mem_or_eq_of_mem_set member with old | rfl
        · exact sound.calls other old
        · exact ⟨trivial, fun held => absurd rfl held⟩
      · exact (Option.some_ne_none hash).symm

namespace Server

theorem creates_eq_some {made : Nat × Creation} (creates : s.creates event = some made) :
    ∃ id call, event = .advance made.1 id ∧ s.calls[made.1]? = some call ∧
      call.phase = .commit made.2 := by
  cases event with
  | advance index id =>
    obtain ⟨call, turn, found⟩ := Option.bind_eq_some_iff.mp creates
    split at found
    · next c commit =>
      cases found
      exact ⟨id, call, rfl, turn, commit⟩
    · cases found
  | start => cases creates
  | fail => cases creates

theorem db_step (sound : s.Sound) (stepped : s.step service event = some t) :
    t.db = (s.creates event).elim s.db fun made => s.db.created made.2 := by
  cases event with
  | start body now salt =>
    cases stepped
    rfl
  | advance index id =>
    obtain ⟨call, turn, goes⟩ := Option.bind_eq_some_iff.mp stepped
    obtain ⟨⟨db, phase⟩, advanced, rfl⟩ := Option.map_eq_some_iff.mp goes
    have ok := sound.calls call (List.mem_of_getElem? turn)
    have none : call.phase.creation = none → s.creates (.advance index id) = none := by
      intro waits
      cases made : s.creates (.advance index id) with
      | none => rfl
      | some other =>
        obtain ⟨_, same, place, there, commit⟩ := creates_eq_some made
        cases place
        obtain rfl := Option.some.inj (turn.symm.trans there)
        rw [commit] at waits
        cases waits
    cases advances ok.phase advanced with
    | goes _ waits => rw [none waits]; rfl
    | holds waits => rw [none waits]; rfl
    | commits c commit => simp only [creates, turn, Option.bind_some, commit, Option.elim_some]
  | fail index =>
    obtain ⟨call, turn, goes⟩ := Option.bind_eq_some_iff.mp stepped
    split at goes
    · cases goes
    · cases goes
      rfl

/-- What a request needs to find when it runs on its own: a token that it can redeem, and no rows
that its own would clash with. -/
structure Retriable (service : Service) (s : Server) (body : BootstrapOwnerRequest) (now : Int)
    (userId roleId bindingId : String) : Prop where
  strong : service.validatePassword body.password body.email = []
  token : ∃ token ∈ s.db.tokens, token.tokenHash = service.sha.sum (Wire.utf8 body.token) ∧
    token.consumedAt = none ∧ now < token.expiresAt
  alone : ∀ call ∈ s.calls, call.held.token ≠ some (service.sha.sum (Wire.utf8 body.token))
  user : ∀ rows ∈ s.db.users :: s.calls.map (fun call => call.held.users), ∀ user ∈ rows,
    user.id ≠ userId ∧ user.email ≠ body.email
  role : ∀ rows ∈ s.db.roles :: s.calls.map (fun call => call.held.roles), ∀ role ∈ rows,
    role.id ≠ roleId ∧ (role.name = "owner" → role ∈ s.db.roles)
  binding : ∀ rows ∈ s.db.bindings :: s.calls.map (fun call => call.held.bindings), ∀ b ∈ rows,
    b.id ≠ bindingId ∧ b.principalId ≠ userId

theorem insert_free {α : Type} {clashes : α → Bool} {rows : List α} {held : List (List α)}
    {done : Phase} (free : ∀ some_ ∈ rows :: held, ∀ row ∈ some_, clashes row = false) :
    insert clashes rows held done = some done := by
  have here : ¬ rows.any clashes = true := by
    intro there
    obtain ⟨row, member, same⟩ := List.any_eq_true.mp there
    exact Bool.false_ne_true ((free rows List.mem_cons_self row member).symm.trans same)
  have elsewhere : ¬ (held.any fun rows => rows.any clashes) = true := by
    intro there
    obtain ⟨others, member, also⟩ := List.any_eq_true.mp there
    obtain ⟨row, inside, same⟩ := List.any_eq_true.mp also
    exact Bool.false_ne_true
      ((free others (List.mem_cons_of_mem _ member) row inside).symm.trans same)
  rw [insert, if_neg here, if_neg elsewhere]

theorem step_last (db : Db) (calls : List Call) (call : Call) (id : String) :
    step service ⟨db, calls ++ [call]⟩ (.advance calls.length id) =
      (advance db (calls.map Call.held) call id).map fun (db, phase) =>
        ⟨db, calls ++ [{ call with phase := phase }]⟩ := by
  have others : Server.others ⟨db, calls ++ [call]⟩ calls.length = calls.map Call.held := by
    simp [Server.others, List.eraseIdx_append_of_length_le]
  simp only [step, List.getElem?_concat_length, Option.bind_some, others]
  congr 1
  funext pair
  simp

theorem run_last {calls : List Call} {more : List Step}
    (goes : advance db (calls.map Call.held) call id = some (after, phase)) :
    run (step service) ⟨db, calls ++ [call]⟩ (.advance calls.length id :: more) =
      run (step service) ⟨after, calls ++ [{ call with phase := phase }]⟩ more := by
  rw [run, step_last, goes]
  rfl

theorem retry_returns {body : BootstrapOwnerRequest} {now : Int}
    {salt userId roleId bindingId : String}
    (free : Retriable service s body now userId roleId bindingId) :
    ∃ events t call user, run (step service) s (.start body now salt :: events) = some t ∧
      t.calls = s.calls ++ [call] ∧ call.phase = .returned user ∧ user.email = body.email := by
  obtain ⟨db, calls⟩ := s
  have started : begin service body now salt =
      ⟨body.email, service.hash body.password salt, service.sha.sum (Wire.utf8 body.token), now,
        .consume⟩ := by
    rw [begin, if_pos free.strong]
  let call : Phase → Call := fun phase =>
    ⟨body.email, service.hash body.password salt, service.sha.sum (Wire.utf8 body.token), now,
      phase⟩
  let user : User := ⟨userId, body.email, .local, some (service.hash body.password salt)⟩
  have first : advance db (calls.map Call.held) (call .consume) "" = some (db, .flushUser) := by
    have there : db.tokens.any (call .consume).updates = true := by
      obtain ⟨token, member, hash, unspent, alive⟩ := free.token
      exact List.any_eq_true.mpr ⟨token, member, decide_eq_true ⟨hash, unspent, alive⟩⟩
    have alone : ¬ (calls.map Call.held).any (fun held =>
        held.token = some (call .consume).tokenHash) = true := by
      intro also
      obtain ⟨held, member, same⟩ := List.any_eq_true.mp also
      obtain ⟨other, inside, rfl⟩ := List.mem_map.mp member
      exact free.alone other inside (of_decide_eq_true same)
    simp only [advance, call]
    rw [if_pos there, if_neg alone]
  have second : advance db (calls.map Call.held) (call .flushUser) userId =
      some (db, .selectRole user) := by
    simp only [advance, call, List.map_map]
    rw [insert_free, Option.map_some]
    intro rows member other inside
    obtain ⟨id, email⟩ := free.user rows member other inside
    simp [id, email]
  have finish : ∀ role newRole, ∃ t,
      run (step service) ⟨db, calls ++ [call (.flushBinding user role newRole)]⟩
        [.advance calls.length bindingId, .advance calls.length ""] = some t ∧
      t.calls = calls ++ [call (.returned user)] := by
    intro role newRole
    have bound : advance db (calls.map Call.held) (call (.flushBinding user role newRole))
        bindingId = some (db, .commit ⟨service.sha.sum (Wire.utf8 body.token), now, user, role,
          newRole, ⟨bindingId, .user, user.id, role.id, .global⟩⟩) := by
      simp only [advance, call, List.map_map]
      rw [insert_free, Option.map_some]
      intro rows member other inside
      obtain ⟨id, principal⟩ := free.binding rows member other inside
      simp [id, bindingKey, user, principal]
    rw [run_last bound, run_last rfl]
    exact ⟨_, rfl, rfl⟩
  have begins : ∀ more, run (step service) ⟨db, calls⟩ (.start body now salt ::
      .advance calls.length "" :: .advance calls.length userId :: more) =
      run (step service) ⟨db, calls ++ [call (.selectRole user)]⟩ more := by
    intro more
    rw [run, step, started, Option.bind_some, run_last first, run_last second]
  cases found : findKey Role.name db.roles "owner" with
  | some role =>
    have third : advance db (calls.map Call.held) (call (.selectRole user)) "" =
        some (db, .flushBinding user role false) := by
      simp only [advance, call, found]
    obtain ⟨t, reached, last⟩ := finish role false
    refine ⟨[.advance calls.length "", .advance calls.length userId, .advance calls.length "",
      .advance calls.length bindingId, .advance calls.length ""], t, call (.returned user), user,
      ?_, last, rfl, rfl⟩
    rw [begins, run_last third]
    exact reached
  | none =>
    have third : advance db (calls.map Call.held) (call (.selectRole user)) "" =
        some (db, .flushRole user) := by
      simp only [advance, call, found]
    have fourth : advance db (calls.map Call.held) (call (.flushRole user)) roleId =
        some (db, .flushBinding user
          ⟨roleId, "owner", some "Owner role (bootstrap fallback)", true, ["*"]⟩ true) := by
      simp only [advance, call, List.map_map]
      rw [insert_free, Option.map_some]
      intro rows member other inside
      obtain ⟨id, known⟩ := free.role rows member other inside
      have unnamed : other.name ≠ "owner" := fun name =>
        findKey_none.mp found (List.mem_map.mpr ⟨other, known name, name⟩)
      simp [id, unnamed]
    obtain ⟨t, reached, last⟩ := finish _ true
    refine ⟨[.advance calls.length "", .advance calls.length userId, .advance calls.length "",
      .advance calls.length roleId, .advance calls.length bindingId, .advance calls.length ""],
      t, call (.returned user), user, ?_, last, rfl, rfl⟩
    rw [begins, run_last third, run_last fourth]
    exact reached

def Spent (hash : Bytes) (db : Db) : Prop :=
  ∀ token ∈ db.tokens, token.tokenHash = hash → token.consumedAt ≠ none

theorem mem_tokens_created {token : BootstrapToken} (member : token ∈ (db.created c).tokens) :
    (token ∈ db.tokens ∧ token.tokenHash ≠ c.tokenHash) ∨
      token.tokenHash = c.tokenHash ∧ token.consumedAt = some c.now := by
  obtain ⟨old, there, same⟩ := List.mem_map.mp member
  by_cases hash : old.tokenHash = c.tokenHash
  · rw [if_pos hash] at same
    subst same
    exact .inr ⟨hash, rfl⟩
  · rw [if_neg hash] at same
    subst same
    exact .inl ⟨there, hash⟩

theorem Spent.created {hash : Bytes} (spent : Spent hash db) (c : Creation) :
    Spent hash (db.created c) := by
  intro token member same
  rcases mem_tokens_created member with ⟨old, _⟩ | ⟨_, consumed⟩
  · exact spent token old same
  · rw [consumed]
    exact Option.some_ne_none _

structure Stored (db : Db) (c : Creation) : Prop where
  user : c.user ∈ db.users
  role : c.role ∈ db.roles ∧ c.role.name = "owner"
  binding : c.binding ∈ db.bindings
  bound : c.binding.principalType = .user ∧ c.binding.principalId = c.user.id ∧
    c.binding.roleId = c.role.id ∧ c.binding.scope = .global

theorem Stored.created (stored : Stored db c) (other : Creation) : Stored (db.created other) c where
  user := List.mem_append_left _ stored.user
  role := ⟨List.mem_append_left _ stored.role.1, stored.role.2⟩
  binding := List.mem_append_left _ stored.binding
  bound := stored.bound

/-- A step that creates has a token that it could consume, and leaves everything it stands for. -/
theorem created_of_creates {made : Nat × Creation} (sound : s.Sound)
    (creates : s.creates event = some made) (stepped : s.step service event = some t) :
    t.db = s.db.created made.2 ∧ Stored t.db made.2 ∧ Spent made.2.tokenHash t.db ∧
      (∃ token ∈ s.db.tokens, token.tokenHash = made.2.tokenHash ∧ token.consumedAt = none ∧
        made.2.now < token.expiresAt) ∧
      ∃ call, t.calls[made.1]? = some call ∧ call.phase = .returned made.2.user := by
  have db : t.db = s.db.created made.2 := by
    have changed := db_step sound stepped
    rwa [creates] at changed
  obtain ⟨id, call, rfl, turn, commit⟩ := creates_eq_some creates
  have ok := sound.calls call (List.mem_of_getElem? turn)
  have phase : PhaseOk s.db call (.commit made.2) := commit ▸ ok.phase
  have c : made.2.Ok s.db call := phase
  obtain ⟨token, member, updates⟩ := ok.token (by simp [Call.held, commit])
  obtain ⟨hash, unspent, alive⟩ := of_decide_eq_true updates
  refine ⟨db, ?_, ?_, ⟨token, member, hash.trans c.tokenHash.symm, unspent, c.now ▸ alive⟩, ?_⟩
  · rw [db]
    refine ⟨by simp [Db.created], ⟨?_, c.owner⟩, by simp [Db.created],
      c.principal.1, c.principal.2, c.role, c.scope⟩
    cases fresh : made.2.newRole with
    | true => exact List.mem_append_right _ (by simp [fresh])
    | false => exact List.mem_append_left _ (c.known fresh)
  · rw [db]
    intro token inside same
    rcases mem_tokens_created inside with ⟨_, different⟩ | ⟨_, consumed⟩
    · exact absurd same different
    · rw [consumed]
      exact Option.some_ne_none _
  · have inside := (List.getElem?_eq_some_iff.mp turn).1
    have moved : t = ⟨s.db.created made.2,
        s.calls.set made.1 { call with phase := .returned made.2.user }⟩ := by
      simp only [step, turn, Option.bind_some, advance, commit, Option.map_some,
        Option.some.injEq] at stepped
      exact stepped.symm
    rw [moved]
    exact ⟨_, List.getElem?_set_self inside, rfl⟩

theorem returned_step {place : Nat} {user : User}
    (returned : ∃ call, s.calls[place]? = some call ∧ call.phase = .returned user)
    (stepped : s.step service event = some t) :
    ∃ call, t.calls[place]? = some call ∧ call.phase = .returned user := by
  obtain ⟨call, turn, ended⟩ := returned
  have apart : ∀ {index : Nat} {other : Call}, s.calls[index]? = some other →
      other.phase ≠ .returned user → index ≠ place := by
    rintro index other there different rfl
    obtain rfl := Option.some.inj (turn.symm.trans there)
    exact different ended
  cases event with
  | start body now salt =>
    cases stepped
    have inside := (List.getElem?_eq_some_iff.mp turn).1
    exact ⟨call, by rwa [List.getElem?_append_left inside], ended⟩
  | advance index id =>
    obtain ⟨other, there, goes⟩ := Option.bind_eq_some_iff.mp stepped
    obtain ⟨⟨db, phase⟩, advanced, rfl⟩ := Option.map_eq_some_iff.mp goes
    have moves : other.phase ≠ .returned user := by
      intro still
      simp only [advance, still] at advanced
      cases advanced
    exact ⟨call, by rwa [List.getElem?_set_ne (apart there moves)], ended⟩
  | fail index =>
    obtain ⟨other, there, goes⟩ := Option.bind_eq_some_iff.mp stepped
    split at goes
    · cases goes
    · next open_ =>
      cases goes
      have moves : other.phase ≠ .returned user := by
        intro still
        rw [still] at open_
        exact open_ rfl
      exact ⟨call, by rwa [List.getElem?_set_ne (apart there moves)], ended⟩

/-- What a run from a database has created, each with the index of its request. -/
structure OneShot (service : Service) (db : Db) (s : Server) (made : List (Nat × Creation)) :
    Prop where
  /-- The database is changed by the requests that succeeded only. -/
  database : s.db = made.foldl (fun db made => db.created made.2) db
  once : (made.map fun made => made.2.tokenHash).Nodup
  redeemed : ∀ pair ∈ made, ∃ token ∈ db.tokens, token.tokenHash = pair.2.tokenHash ∧
    token.consumedAt = none ∧ pair.2.now < token.expiresAt
  stored : ∀ pair ∈ made, Stored s.db pair.2
  returned : ∀ pair ∈ made, ∃ call, s.calls[pair.1]? = some call ∧
    call.phase = .returned pair.2.user
  kept : ∀ token ∈ db.tokens, (∀ pair ∈ made, pair.2.tokenHash ≠ token.tokenHash) →
    token ∈ s.db.tokens
  retry : ∀ body now salt userId roleId bindingId,
    Retriable service s body now userId roleId bindingId →
      ∃ events t call user, run (step service) s (.start body now salt :: events) = some t ∧
        t.calls = s.calls ++ [call] ∧ call.phase = .returned user ∧ user.email = body.email

theorem kept_of_foldl {token : BootstrapToken} {made : List (Nat × Creation)}
    (member : token ∈ db.tokens) (apart : ∀ pair ∈ made, pair.2.tokenHash ≠ token.tokenHash) :
    token ∈ (made.foldl (fun db made => db.created made.2) db).tokens := by
  induction made generalizing db with
  | nil => exact member
  | cons pair rest ih =>
    have first := apart pair List.mem_cons_self
    refine ih (List.mem_map.mpr ⟨token, member, if_neg (Ne.symm first)⟩) fun other inside => ?_
    exact apart other (List.mem_cons_of_mem _ inside)

theorem unspent_step (sound : s.Sound) (stepped : s.step service event = some t)
    {token : BootstrapToken} (member : token ∈ t.db.tokens) (unspent : token.consumedAt = none) :
    token ∈ s.db.tokens := by
  rw [db_step sound stepped] at member
  cases created : s.creates event with
  | none =>
    rw [created] at member
    exact member
  | some made =>
    rw [created] at member
    rcases mem_tokens_created member with ⟨old, _⟩ | ⟨_, consumed⟩
    · exact old
    · cases unspent.symm.trans consumed

theorem one_shot (reached : run (step service) ⟨db, []⟩ events = some s) :
    OneShot service db s (outputs (step service) creates ⟨db, []⟩ events) := by
  have start : Sound ⟨db, []⟩ :=
    ⟨List.forall_mem_nil _, fun _ i _ _ _ _ there => by cases there⟩
  have free : ∀ s events, Meets (step service) (fun _ _ => True) s events :=
    fun s events => meets_of_forall (fun _ _ => trivial) s
  have keep : ∀ s event t, Sound s → True → step service s event = some t → Sound t :=
    fun _ _ _ sound _ stepped => sound.step stepped
  have folds : ∀ {s events}, run (step service) ⟨db, []⟩ events = some s →
      s.db = (outputs (step service) creates ⟨db, []⟩ events).foldl
        (fun db made => db.created made.2) db := fun reached =>
    @run_folds _ _ (step service) _ _ creates Sound Server.db
      (fun db made => db.created made.2) (fun _ _ _ sound stepped => sound.step stepped)
      (fun _ _ _ sound stepped => db_step sound stepped) _ _ _ start reached
  constructor
  case database => exact folds reached
  case once =>
    rw [List.nodup_iff_pairwise_ne, List.pairwise_map]
    refine @outputs_pairwise _ _ (step service) (fun _ _ => True) _ creates
      (fun first second => first.2.tokenHash ≠ second.2.tokenHash) Sound
      (fun made t => Spent made.2.tokenHash t.db ∧ Sound t) keep ?_ ?_ ?_ _ _ start (free _ _)
    · intro s event t made sound _ stepped created
      exact ⟨(created_of_creates sound created stepped).2.2.1, sound.step stepped⟩
    · intro made s event t spent sound _ stepped
      refine ⟨?_, sound.step stepped⟩
      rw [db_step sound stepped]
      cases s.creates event with
      | none => exact spent.1
      | some other => exact spent.1.created other.2
    · intro made s event other spent created same
      obtain ⟨id, call, rfl, turn, commit⟩ := creates_eq_some created
      have ok := spent.2.calls call (List.mem_of_getElem? turn)
      have c : PhaseOk s.db call (.commit other.2) := commit ▸ ok.phase
      obtain ⟨token, member, updates⟩ := ok.token (by simp [Call.held, commit])
      obtain ⟨hash, unspent, _⟩ := of_decide_eq_true updates
      have named : other.2.tokenHash = call.tokenHash := Creation.Ok.tokenHash c
      exact spent.1 token member (hash.trans (named.symm.trans same.symm)) unspent
  case redeemed =>
    refine @forall_outputs _ _ (step service) (fun _ _ => True) _ creates
      (fun s => Sound s ∧ ∀ token ∈ s.db.tokens, token.consumedAt = none → token ∈ db.tokens)
      (fun made _ => ∃ token ∈ db.tokens, token.tokenHash = made.2.tokenHash ∧
        token.consumedAt = none ∧ made.2.now < token.expiresAt) ?_ ?_ ?_ _ _ _
      ⟨start, fun _ member _ => member⟩ reached (free _ _)
    · intro s event t holds _ stepped
      exact ⟨holds.1.step stepped, fun token member unspent =>
        holds.2 token (unspent_step holds.1 stepped member unspent) unspent⟩
    · intro s event t made holds _ stepped created
      obtain ⟨token, member, same, unspent, alive⟩ :=
        (created_of_creates holds.1 created stepped).2.2.2.1
      exact ⟨token, holds.2 token member unspent, same, unspent, alive⟩
    · exact fun _ _ _ _ known _ _ _ => known
  case stored =>
    refine @forall_outputs _ _ (step service) (fun _ _ => True) _ creates Sound
      (fun made t => Stored t.db made.2) keep ?_ ?_ _ _ _ start reached (free _ _)
    · exact fun s event t made sound _ stepped created =>
        (created_of_creates sound created stepped).2.1
    · intro made s event t stored sound _ stepped
      rw [db_step sound stepped]
      cases s.creates event with
      | none => exact stored
      | some other => exact stored.created other.2
  case returned =>
    refine @forall_outputs _ _ (step service) (fun _ _ => True) _ creates Sound
      (fun made t => ∃ call, t.calls[made.1]? = some call ∧ call.phase = .returned made.2.user)
      keep ?_ ?_ _ _ _ start reached (free _ _)
    · exact fun s event t made sound _ stepped created =>
        (created_of_creates sound created stepped).2.2.2.2
    · exact fun made s event t returned _ _ stepped => returned_step returned stepped
  case kept =>
    intro token member apart
    rw [folds reached]
    exact kept_of_foldl member apart
  case retry => exact fun _ _ _ _ _ _ ready => retry_returns ready

def plain : Service := ⟨.head, fun _ _ => [], fun password _ => password⟩

def oneToken : Db := ⟨[⟨"t", Sha256.head.sum (Wire.utf8 "secret"), 100, none⟩], [], [], []⟩

def twoRequests : List Step :=
  [.start ⟨"secret", "a@b", "pw"⟩ 5 "", .start ⟨"secret", "c@d", "pw"⟩ 6 "", .advance 0 "",
      .fail 0] ++
    (["", "u", "", "r", "b", ""].map fun id => .advance 1 id)

theorem one_shot_of_two_requests : ∃ s, run (step plain) ⟨oneToken, []⟩ twoRequests = some s ∧
    OneShot plain oneToken s
      [(1, ⟨Sha256.head.sum (Wire.utf8 "secret"), 6, ⟨"u", "c@d", .local, some "pw"⟩,
        ⟨"r", "owner", some "Owner role (bootstrap fallback)", true, ["*"]⟩, true,
        ⟨"b", .user, "u", "r", .global⟩⟩)] := by
  have finishes : (run (step plain) ⟨oneToken, []⟩ twoRequests).isSome := by decide
  obtain ⟨s, reached⟩ := Option.isSome_iff_exists.mp finishes
  have made := one_shot reached
  exact ⟨s, reached, made⟩

end Server

end HlHelper.Bootstrap
