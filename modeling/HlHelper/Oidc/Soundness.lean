import HlHelper.Oidc.Callback
import HlHelper.Oidc.FirstSignIn

/-! A session is issued for a user that its claims stand for, and a state serves one callback. -/

namespace HlHelper.Oidc

open HlHelper.Library

/-- Where the claims of a callback come from is the provider. -/
def Vouched (p : Primitives) (s : Server) (record : StateRecord) (provider : Provider)
    (claims : Json) : ClaimSource → Prop
  | .idToken token jwk checkedAt =>
    claims = token.payload ∧ Signed p jwk token ∧
      Accepts provider record.nonce checkedAt token.payload ∧
      ∃ jwks, (provider.id, jwks) ∈ s.served ∧ jwk ∈ keysOf jwks
  | .userinfo answer =>
    provider.oauth2Only = true ∧ (provider.id, answer) ∈ s.userinfos ∧
      Server.userinfoClaims p answer = .ok claims

structure Genuine (p : Primitives) (providers : List Provider) (s : Server) (record : StateRecord)
    (identity : Identity) : Prop where
  provider : identity.provider ∈ providers
  asked : identity.provider.id = record.providerId
  vouched : Vouched p s record identity.provider identity.claims identity.source
  mapped : identity.mapped =
    applyClaimMappings p.toPython identity.claims identity.provider.claimMappings

/-- The subject and the email of a sign-in are those of its claims. -/
structure Claimed (p : Primitives) (identity : Identity) (args : SignIn) : Prop where
  providerId : args.providerId = identity.provider.id
  sub : p.bind (identity.claims.field "sub") = some args.sub
  email : identity.mapped.email = some args.email
  verified : args.emailVerified = true → identity.claims.field "email_verified" = .bool true

/-- The user is linked to the subject, or owns a verified email, or the call has inserted it. -/
def Entitled (db : Db) (created : List (Nat × User)) (index : Nat) (args : SignIn) (user : User) :
    Basis → Prop
  | .linked => ∃ link ∈ db.links, link.key = args.key ∧ link.userId = user.id
  | .owner => user ∈ db.users ∧ user.email = args.email ∧ args.emailVerified = true
  | .created => (index, user) ∈ created ∧ user ∈ db.users ∧ user.email = args.email

/-- What a statement of `jit_provision` has to go on. -/
def Backed (db : Db) (created : List (Nat × User)) (index : Nat) (args : SignIn) : Phase → Prop
  | .selectLink | .selectUser | .selectAgain | .raised _ => True
  | .selectLinkUser link | .selectAgainUser link =>
    ∃ now ∈ db.links, now.key = args.key ∧ now.userId = link.userId
  | .touch _ user => Entitled db created index args user .linked
  | .flushUser user => user.email = args.email
  | .selectRole tx _ _ | .selectBinding tx _ _ | .commit tx =>
    tx.user.email = args.email ∧
      (tx.created = false → Entitled db created index args tx.user .owner)
  | .refresh tx =>
    Entitled db created index args tx.user (if tx.created then .created else .owner)
  | .returned user basis => Entitled db created index args user basis

def StageOk (p : Primitives) (providers : List Provider) (s : Server) (index : Nat)
    (record : StateRecord) : Stage → Prop
  | .exchange provider | .fetchKeys provider _ _ =>
    provider ∈ providers ∧ provider.id = record.providerId
  | .fetchUserinfo provider =>
    provider ∈ providers ∧ provider.id = record.providerId ∧ provider.oauth2Only = true
  | .provision identity args phase =>
    Genuine p providers s record identity ∧ Claimed p identity args ∧
      Backed s.db s.created index args phase
  | .issue identity args user basis =>
    Genuine p providers s record identity ∧ Claimed p identity args ∧
      Entitled s.db s.created index args user basis
  | .selectProvider | .selectUser _ _ | .selectLink _ _ | .insertLink _ | .commitLink _
  | .answered _ => True

structure Server.Sound (p : Primitives) (providers : List Provider) (s : Server) : Prop where
  stored : ∀ entry ∈ s.states.records.entries, entry ∈ s.drawn
  fetched : ∀ entry ∈ s.jwksCache, (entry.1, entry.2.value) ∈ s.served
  calls : ∀ (index : Nat) call, s.calls[index]? = some call →
    (call.state, call.record) ∈ s.drawn ∧ StageOk p providers s index call.record call.stage

structure Server.Grows (s t : Server) : Prop where
  db : Later s.db t.db
  drawn : s.drawn ⊆ t.drawn
  served : s.served ⊆ t.served
  userinfos : s.userinfos ⊆ t.userinfos
  created : s.created ⊆ t.created

variable {p : Primitives} {providers : List Provider} {s t : Server} {index : Nat}
  {record : StateRecord} {provider : Provider} {identity : Identity} {args : SignIn} {user : User}
  {db after : Db} {created more : List (Nat × User)} {phase next : Phase} {stage : Stage}
  {claims : Json} {source : ClaimSource} {others : List Uncommitted} {draw : Draw}

theorem Server.Grows.refl (s : Server) : s.Grows s :=
  ⟨.refl _, List.Subset.refl _, List.Subset.refl _, List.Subset.refl _, List.Subset.refl _⟩

theorem Entitled.later {basis : Basis} (entitled : Entitled db created index args user basis)
    (later : Later db after) (kept : created ⊆ more) :
    Entitled after more index args user basis := by
  cases basis with
  | linked =>
    obtain ⟨link, member, key, owner⟩ := entitled
    obtain ⟨now, there, same, still⟩ := later.links link member
    exact ⟨now, there, same.trans key, still.trans owner⟩
  | owner => exact ⟨later.users entitled.1, entitled.2⟩
  | created => exact ⟨kept entitled.1, later.users entitled.2.1, entitled.2.2⟩

theorem Backed.later (backed : Backed db created index args phase) (later : Later db after)
    (kept : created ⊆ more) : Backed after more index args phase := by
  have links : ∀ {userId : String},
      (∃ now ∈ db.links, now.key = args.key ∧ now.userId = userId) →
      ∃ now ∈ after.links, now.key = args.key ∧ now.userId = userId := by
    rintro userId ⟨link, member, key, owner⟩
    obtain ⟨now, there, same, still⟩ := later.links link member
    exact ⟨now, there, same.trans key, still.trans owner⟩
  cases phase with
  | selectLink => exact backed
  | selectUser => exact backed
  | selectAgain => exact backed
  | raised error => exact backed
  | flushUser user => exact backed
  | selectLinkUser link => exact links backed
  | selectAgainUser link => exact links backed
  | touch link user => exact links backed
  | selectRole tx group rest =>
    exact ⟨backed.1, fun there => (backed.2 there).later later kept⟩
  | selectBinding tx role rest =>
    exact ⟨backed.1, fun there => (backed.2 there).later later kept⟩
  | commit tx => exact ⟨backed.1, fun there => (backed.2 there).later later kept⟩
  | refresh tx => exact Entitled.later backed later kept
  | returned user basis => exact Entitled.later backed later kept

theorem Genuine.later (genuine : Genuine p providers s record identity) (grows : s.Grows t) :
    Genuine p providers t record identity where
  __ := genuine
  vouched := by
    have vouched := genuine.vouched
    cases source : identity.source with
    | idToken token jwk checkedAt =>
      rw [source] at vouched
      obtain ⟨claims, signed, accepts, jwks, served, member⟩ := vouched
      exact ⟨claims, signed, accepts, jwks, grows.served served, member⟩
    | userinfo answer =>
      rw [source] at vouched
      exact ⟨vouched.1, grows.userinfos vouched.2.1, vouched.2.2⟩

theorem StageOk.later (ok : StageOk p providers s index record stage) (grows : s.Grows t) :
    StageOk p providers t index record stage := by
  cases stage with
  | provision identity args phase =>
    exact ⟨ok.1.later grows, ok.2.1, ok.2.2.later grows.db grows.created⟩
  | issue identity args user basis =>
    exact ⟨ok.1.later grows, ok.2.1, ok.2.2.later grows.db grows.created⟩
  | _ => exact ok

theorem touched_later (link : AccountLink) (email : String) (now : Int) :
    Later db { db with
      links := db.links.map fun row =>
        if row.key = link.key then { row with email := some email, lastLoginAt := now }
        else row } where
  users := List.Subset.refl _
  links row member := by
    refine ⟨_, List.mem_map_of_mem member, ?_⟩
    split <;> exact ⟨rfl, rfl⟩
  bindings := List.Subset.refl _
  roles := rfl

theorem linked_of_find {key : String × String} {link : AccountLink}
    (found : findKey AccountLink.key db.links key = some link) :
    ∃ now ∈ db.links, now.key = key ∧ now.userId = link.userId :=
  ⟨link, (findKey_some found).1, (findKey_some found).2, rfl⟩

theorem linked_of_user {link : AccountLink}
    (known : ∃ now ∈ db.links, now.key = args.key ∧ now.userId = link.userId)
    (found : findKey User.id db.users link.userId = some user) :
    Entitled db created index args user .linked := by
  obtain ⟨now, member, key, owner⟩ := known
  exact ⟨now, member, key, owner.trans (findKey_some found).2.symm⟩

theorem next_backed {tx : Tx} (email : tx.user.email = args.email)
    (owner : tx.created = false → Entitled db created index args tx.user .owner)
    (todo : List String) : Backed db created index args (tx.next todo) := by
  cases todo with
  | nil => exact ⟨email, owner⟩
  | cons group rest => exact ⟨email, owner⟩

theorem advance_backed (backed : Backed db created index args phase)
    (stepped : args.advance db others draw phase = some (after, next)) :
    Later db after ∧ Backed after (Server.commits index phase ++ created) index args next := by
  cases advances stepped with
  | linkFound link found | againFound link found => exact ⟨.refl _, linked_of_find found⟩
  | userFound link user found | againUserFound link user found =>
    exact ⟨.refl _, @linked_of_user index args user db created link backed found⟩
  | linkMissing | userMissing | unverified | userTaken | roleRefused | commitRefused | againMissing
  | againUserMissing => exact ⟨.refl _, trivial⟩
  | touched link user =>
    have later := @touched_later db link args.email draw.now
    have entitled : Entitled db created index args user .linked := backed
    exact ⟨later, entitled.later later (List.Subset.refl _)⟩
  | ownerFound user found verified =>
    obtain ⟨member, email⟩ := findKey_some found
    exact ⟨.refl _, next_backed email (fun _ => ⟨member, email, verified⟩) _⟩
  | ownerMissing => exact ⟨.refl _, rfl⟩
  | userFlushed user alone =>
    have email : user.email = args.email := backed
    refine ⟨.refl _, next_backed ?_ ?_ _⟩
    · exact email
    · exact fun there => by cases there
  | roleFlushed tx done pending group rest waits flushed =>
    obtain ⟨user, created, _⟩ := flush_done flushed
    refine ⟨.refl _, ?_⟩
    rw [Backed, user, created]
    exact backed
  | roleFound => exact ⟨.refl _, backed⟩
  | roleMissing | bound | unbound =>
    refine ⟨.refl _, next_backed ?_ ?_ _⟩
    · exact backed.1
    · exact backed.2
  | commitFlushed tx done pending waits flushed =>
    obtain ⟨user, created, _⟩ := flush_done flushed
    refine ⟨.refl _, Backed.later ?_ (.refl _) (List.subset_append_right _ _)⟩
    rw [Backed, user, created]
    exact backed
  | committed tx flushed =>
    have later := later_committed db tx.uncommitted
    refine ⟨later, ?_⟩
    cases made : tx.created with
    | true =>
      simp only [Backed, made, if_true]
      refine ⟨?_, List.mem_append_right _ ?_, backed.1⟩
      · simp [Server.commits, flushed, made]
      · simp [Tx.uncommitted, made]
    | false =>
      simp only [Backed, made, Bool.false_eq_true, if_false]
      exact (backed.2 made).later later (List.subset_append_right _ _)
  | refreshed => exact ⟨.refl _, backed⟩

theorem maybeGc_subset (store : StateStore) (now : ℚ) :
    (store.maybeGc now).records.entries ⊆ store.records.entries := by
  rw [StateStore.maybeGc]
  split
  · exact List.filter_subset_self _
  · exact List.Subset.refl _

theorem mem_put {store : StateStore} {state : String} {now : ℚ} {entry : String × StateRecord}
    (member : entry ∈ (store.put state record now).records.entries) :
    entry ∈ store.records.entries ∨ entry = (state, record) :=
  (OrderedMap.mem_entries_insert (maybeGc_subset _ now member)).imp_left And.left

theorem mem_consume {store : StateStore} {state : String} {now : ℚ} {entry : String × StateRecord}
    (member : entry ∈ (store.consume state now).records.entries) :
    entry ∈ store.records.entries ∧ entry.1 ≠ state := by
  have kept := List.mem_filter.mp (maybeGc_subset _ now member)
  exact ⟨kept.1, of_decide_eq_true kept.2⟩

theorem consumed_ok {store : StateStore} {state : String} {now : ℚ}
    (used : store.consumed state now = .ok record) :
    (state, record) ∈ store.records.entries ∧ now - record.createdAt ≤ StateStore.ttl := by
  rw [StateStore.consumed] at used
  split at used
  · cases used
  · next found =>
    split at used
    · cases used
    · next alive =>
      cases used
      exact ⟨OrderedMap.get?_eq_some_iff.mp found, not_lt.mp alive⟩

theorem provision_ok (genuine : Genuine p providers s record identity) :
    StageOk p providers s index record (Server.provision p identity) := by
  rw [Server.provision]
  split
  · trivial
  · trivial
  · next email _ mail =>
    split
    · trivial
    · next sub bound =>
      refine ⟨genuine, ⟨rfl, bound, mail, ?_⟩, trivial⟩
      intro verified
      simp only at verified
      split at verified
      · next asserted => exact asserted
      · cases verified

theorem withClaims_ok (member : provider ∈ providers) (asked : provider.id = record.providerId)
    (vouched : Vouched p s record provider claims source) :
    StageOk p providers s index record (Server.withClaims p record provider source claims) := by
  have genuine : Genuine p providers s record
      ⟨provider, source, claims, applyClaimMappings p.toPython claims provider.claimMappings⟩ :=
    ⟨member, asked, vouched, rfl⟩
  rw [Server.withClaims]
  split
  · trivial
  · split
    · split
      · exact provision_ok genuine
      · trivial
    · exact provision_ok genuine

theorem verify_ok {token : Token} {force : Bool} {jwks : Json} {now : ℚ}
    (member : provider ∈ providers) (asked : provider.id = record.providerId)
    (served : (provider.id, jwks) ∈ s.served) :
    StageOk p providers s index record
      (Server.verify p record provider token force jwks now) := by
  rw [Server.verify]
  split
  · split
    · trivial
    · exact ⟨member, asked⟩
  · trivial
  · next jwk selected =>
    split
    · trivial
    · next passed =>
      obtain ⟨signed, accepts⟩ := verifyWith_ok passed
      exact withClaims_ok member asked
        ⟨rfl, signed, accepts, jwks, served, selectJwk_mem selected⟩

theorem Server.Sound.cached (sound : s.Sound p providers) {now : ℚ} {jwks : Json}
    (cached : s.cachedJwks provider now = some jwks) : (provider.id, jwks) ∈ s.served := by
  obtain ⟨entry, found, fresh⟩ := Option.bind_eq_some_iff.mp cached
  obtain ⟨member, key⟩ := findKey_some found
  split at fresh
  · cases fresh
    exact key ▸ sound.fetched entry member
  · cases fresh

theorem exchanged_ok (sound : s.Sound p providers) {now : ℚ} {idToken accessToken : Option String}
    (member : provider ∈ providers) (asked : provider.id = record.providerId) :
    StageOk p providers s index record
      (Server.exchanged p s record provider now idToken accessToken) := by
  unfold Server.exchanged
  split
  · split
    · trivial
    · split
      · next jwks cached => exact verify_ok member asked (sound.cached cached)
      · exact ⟨member, asked⟩
  · split
    · trivial
    · next only =>
      split
      · trivial
      · trivial
      · exact ⟨member, asked, (Bool.not_eq_false _).mp only⟩

theorem provisioned_ok (genuine : Genuine p providers s record identity)
    (claimed : Claimed p identity args) (backed : Backed s.db s.created index args phase) :
    StageOk p providers s index record (Server.provisioned identity args phase) := by
  cases phase with
  | returned user basis => exact ⟨genuine, claimed, backed⟩
  | raised error => trivial
  | _ => exact ⟨genuine, claimed, backed⟩

structure Resumed (s t : Server) : Prop where
  grows : s.Grows t
  states : t.states = s.states
  drawn : t.drawn = s.drawn
  calls : t.calls = s.calls
  cache : ∀ entry ∈ t.jwksCache, entry ∈ s.jwksCache ∨ (entry.1, entry.2.value) ∈ t.served

theorem Resumed.refl (s : Server) : Resumed s s :=
  ⟨.refl s, rfl, rfl, rfl, fun _ member => .inl member⟩

theorem resumed_db (later : Later s.db db) (kept : s.created ⊆ created) :
    Resumed s { s with db := db, created := created } :=
  ⟨⟨later, List.Subset.refl _, List.Subset.refl _, List.Subset.refl _, kept⟩, rfl, rfl, rfl,
    fun _ member => .inl member⟩

theorem resume_ok {call : Call} {reply : Reply} {now : ℚ} {next : Stage}
    (sound : s.Sound p providers) (ok : StageOk p providers s index call.record stage)
    (stepped : s.resume p providers index call now stage reply = some (t, next)) :
    Resumed s t ∧ StageOk p providers t index call.record next := by
  unfold Server.resume at stepped
  split at stepped
  · cases stepped
  · cases stepped
    exact ⟨.refl _, trivial⟩
  · split at stepped
    · cases stepped
      exact ⟨.refl _, trivial⟩
    · next found =>
      cases stepped
      exact ⟨.refl _, findKey_some found⟩
  · cases stepped
    exact ⟨.refl _, exchanged_ok sound ok.1 ok.2⟩
  · next provider token force jwks =>
    cases stepped
    refine ⟨⟨⟨.refl _, List.Subset.refl _, List.subset_cons_self .., List.Subset.refl _,
      List.Subset.refl _⟩, rfl, rfl, rfl, fun entry member => ?_⟩,
      verify_ok ok.1 ok.2 List.mem_cons_self⟩
    rcases List.mem_cons.mp member with rfl | old
    · exact .inr List.mem_cons_self
    · exact .inl old
  · next provider answer =>
    cases stepped
    refine ⟨⟨⟨.refl _, List.Subset.refl _, List.Subset.refl _, List.subset_cons_self ..,
      List.Subset.refl _⟩, rfl, rfl, rfl, fun _ member => .inl member⟩, ?_⟩
    split
    · trivial
    · next claims read =>
      exact withClaims_ok ok.1 ok.2.1 ⟨ok.2.2, List.mem_cons_self, read⟩
  · split at stepped
    all_goals
      cases stepped
      exact ⟨.refl _, trivial⟩
  · simp only at stepped
    split at stepped
    all_goals
      cases stepped
      exact ⟨.refl _, trivial⟩
  · split at stepped
    · cases stepped
      exact ⟨.refl _, trivial⟩
    · split at stepped
      · cases stepped
      · cases stepped
        exact ⟨.refl _, trivial⟩
  · cases stepped
    exact ⟨resumed_db (later_committed _ _) (List.Subset.refl _), trivial⟩
  · next identity args phase draw =>
    obtain ⟨⟨db, next⟩, advanced, same⟩ := Option.map_eq_some_iff.mp stepped
    cases same
    obtain ⟨later, backed⟩ := advance_backed ok.2.2 advanced
    have resumed := resumed_db later
      (List.subset_append_right (Server.commits index phase) s.created)
    exact ⟨resumed, provisioned_ok (ok.1.later resumed.grows) ok.2.1 backed⟩
  · cases stepped
    exact ⟨.refl _, trivial⟩
  · cases stepped

theorem begin_sound {state : String} {gcAt : ℚ} (sound : s.Sound p providers)
    (begun : s.begin providers state record gcAt = some t) : t.Sound p providers ∧ s.Grows t := by
  rw [Server.begin] at begun
  split at begun
  · cases begun
    have grows : s.Grows { s with
        states := s.states.put state record gcAt, drawn := (state, record) :: s.drawn } :=
      ⟨.refl _, List.subset_cons_self .., List.Subset.refl _, List.Subset.refl _,
        List.Subset.refl _⟩
    refine ⟨⟨fun entry member => ?_, sound.fetched, fun index call turn => ?_⟩, grows⟩
    · rcases mem_put member with old | rfl
      · exact List.mem_cons_of_mem _ (sound.stored entry old)
      · exact List.mem_cons_self
    · obtain ⟨drawn, ok⟩ := sound.calls index call turn
      exact ⟨grows.drawn drawn, ok.later grows⟩
  · cases begun

theorem Server.Sound.step {event : FlowStep} (sound : s.Sound p providers)
    (stepped : s.step p providers event = some t) : t.Sound p providers ∧ s.Grows t := by
  cases event with
  | start => exact begin_sound sound stepped
  | link => exact begin_sound sound stepped
  | callback providerId state gcAt now =>
    have popped : ∀ entry ∈ (s.states.consume state gcAt).records.entries, entry ∈ s.drawn :=
      fun entry member => sound.stored entry (mem_consume member).1
    have grows : ∀ calls, s.Grows { s with
        states := s.states.consume state gcAt, calls := calls } := fun _ =>
      ⟨.refl _, List.Subset.refl _, List.Subset.refl _, List.Subset.refl _, List.Subset.refl _⟩
    simp only [Server.step] at stepped
    split at stepped
    · cases stepped
      refine ⟨⟨popped, sound.fetched, fun index call turn => ?_⟩, grows _⟩
      obtain ⟨drawn, ok⟩ := sound.calls index call turn
      exact ⟨drawn, ok.later (grows _)⟩
    · next record used =>
      split at stepped
      · cases stepped
        refine ⟨⟨popped, sound.fetched, fun index call turn => ?_⟩, grows _⟩
        by_cases known : index < s.calls.length
        · rw [List.getElem?_append_left known] at turn
          obtain ⟨drawn, ok⟩ := sound.calls index call turn
          exact ⟨drawn, ok.later (grows _)⟩
        · obtain ⟨_, rfl⟩ := getElem?_concat_of_le turn (Nat.le_of_not_lt known)
          exact ⟨sound.stored _ (consumed_ok used).1, trivial⟩
      · cases stepped
        refine ⟨⟨popped, sound.fetched, fun index call turn => ?_⟩, grows _⟩
        obtain ⟨drawn, ok⟩ := sound.calls index call turn
        exact ⟨drawn, ok.later (grows _)⟩
  | advance index reply now =>
    obtain ⟨call, turn, goes⟩ := Option.bind_eq_some_iff.mp stepped
    obtain ⟨⟨u, stage⟩, resumed, rfl⟩ := Option.map_eq_some_iff.mp goes
    obtain ⟨drawn, ok⟩ := sound.calls index call turn
    obtain ⟨moved, next⟩ := resume_ok sound ok resumed
    have grows : s.Grows { u with calls := s.calls.set index { call with stage := stage } } :=
      ⟨moved.grows.db, moved.grows.drawn, moved.grows.served, moved.grows.userinfos,
        moved.grows.created⟩
    refine ⟨⟨fun entry member => ?_, fun entry member => ?_, fun place other there => ?_⟩, grows⟩
    · rw [moved.states] at member
      exact moved.drawn ▸ sound.stored entry member
    · rcases moved.cache entry member with old | new
      · exact moved.grows.served (sound.fetched entry old)
      · exact new
    · rcases getElem?_set_cases there with ⟨before, _⟩ | ⟨rfl, rfl⟩
      · obtain ⟨known, held⟩ := sound.calls place other before
        exact ⟨grows.drawn known, held.later grows⟩
      · exact ⟨grows.drawn drawn, next.later
          ⟨.refl _, List.Subset.refl _, List.Subset.refl _, List.Subset.refl _,
            List.Subset.refl _⟩⟩

def Gone (state : String) (s : Server) : Prop :=
  state ∈ s.drawn.map Prod.fst ∧ state ∉ s.states.records.keys

theorem Gone.step {state : String} {event : FlowStep} (sound : s.Sound p providers)
    (gone : Gone state s) (stepped : s.step p providers event = some t) : Gone state t := by
  have begun : ∀ {other record gcAt}, s.begin providers other record gcAt = some t →
      Gone state t := by
    intro other record gcAt begun
    rw [Server.begin] at begun
    split at begun
    · next allowed =>
      cases begun
      refine ⟨List.mem_cons_of_mem _ gone.1, fun member => ?_⟩
      obtain ⟨entry, inside, key⟩ := List.mem_map.mp member
      rcases mem_put inside with old | rfl
      · exact gone.2 (List.mem_map.mpr ⟨entry, old, key⟩)
      · have same : other = state := key
        exact allowed.2 (same ▸ gone.1)
    · cases begun
  cases event with
  | start => exact begun stepped
  | link => exact begun stepped
  | callback providerId other gcAt now =>
    have still : state ∉ (s.states.consume other gcAt).records.keys := by
      intro member
      obtain ⟨entry, inside, key⟩ := List.mem_map.mp member
      exact gone.2 (List.mem_map.mpr ⟨entry, (mem_consume inside).1, key⟩)
    simp only [Server.step] at stepped
    split at stepped
    · cases stepped
      exact ⟨gone.1, still⟩
    · split at stepped
      all_goals
        cases stepped
        exact ⟨gone.1, still⟩
  | advance index reply now =>
    obtain ⟨call, turn, goes⟩ := Option.bind_eq_some_iff.mp stepped
    obtain ⟨⟨u, stage⟩, resumed, rfl⟩ := Option.map_eq_some_iff.mp goes
    obtain ⟨moved, _⟩ := resume_ok sound (sound.calls index call turn).2 resumed
    constructor
    · simp only [moved.drawn]
      exact gone.1
    · simp only [moved.states]
      exact gone.2

namespace Server

theorem uses_ok {event : FlowStep} {use : Use} (used : s.uses event = some use) :
    ((use.state, use.record) ∈ s.states.records.entries ∧
        use.now - use.record.createdAt ≤ StateStore.ttl ∧
          use.record.providerId = use.providerId) ∧
      ∀ t, s.step p providers event = some t →
        t.drawn = s.drawn ∧ use.state ∉ t.states.records.keys := by
  cases event with
  | callback providerId state gcAt now =>
    simp only [uses] at used
    split at used
    · cases used
    · next record consumed =>
      split at used
      · next same =>
        cases used
        obtain ⟨stored, alive⟩ := consumed_ok consumed
        refine ⟨⟨stored, alive, same⟩, fun t stepped => ?_⟩
        simp only [step, consumed, if_pos same] at stepped
        cases stepped
        refine ⟨rfl, fun member => ?_⟩
        obtain ⟨entry, inside, key⟩ := List.mem_map.mp member
        exact (mem_consume inside).2 key
      · cases used
  | start => cases used
  | link => cases used
  | advance index reply now => cases used

/-- What stands behind a session, in a state behind its issue. -/
structure Justified (p : Primitives) (providers : List Provider) (s : Server) (issued : Issued) :
    Prop where
  drawn : (issued.state, issued.record) ∈ s.drawn
  genuine : Genuine p providers s issued.record issued.identity
  claimed : Claimed p issued.identity issued.args
  entitled : Entitled s.db s.created issued.index issued.args issued.user issued.basis

theorem Justified.grows {issued : Issued} (justified : Justified p providers s issued)
    (grows : s.Grows t) : Justified p providers t issued where
  drawn := grows.drawn justified.drawn
  genuine := justified.genuine.later grows
  claimed := justified.claimed
  entitled := justified.entitled.later grows.db grows.created

theorem issues_ok {event : FlowStep} {issued : Issued} (sound : s.Sound p providers)
    (issues : s.issues event = some issued) : Justified p providers s issued := by
  cases event with
  | advance index reply now =>
    cases reply with
    | row draw =>
      obtain ⟨call, turn, found⟩ := Option.bind_eq_some_iff.mp issues
      obtain ⟨drawn, ok⟩ := sound.calls index call turn
      split at found
      · next stage =>
        cases found
        rw [stage] at ok
        exact ⟨drawn, ok.1, ok.2.1, ok.2.2⟩
      · cases found
    | failed failure => cases issues
    | tokens idToken accessToken => cases issues
    | document body => cases issues
  | start => cases issues
  | link => cases issues
  | callback => cases issues

theorem sound_initial (db : Db) : (initial db).Sound p providers where
  stored := List.forall_mem_nil _
  fetched := List.forall_mem_nil _
  calls index call turn := by cases turn

variable {events : List FlowStep}

/-- Every state is used once, in its lifetime and for its provider, and every session is issued for
a user that is entitled to the claims of a token of the provider, with the nonce of that state. -/
theorem sign_in_sound (reached : run (step p providers) (initial db) events = some s) :
    ((outputs (step p providers) uses (initial db) events).map Use.state).Nodup ∧
      (∀ use ∈ outputs (step p providers) uses (initial db) events,
        (use.state, use.record) ∈ s.drawn ∧ use.now - use.record.createdAt ≤ StateStore.ttl ∧
          use.record.providerId = use.providerId) ∧
      ∀ issued ∈ outputs (step p providers) issues (initial db) events,
        Justified p providers s issued := by
  have free : Meets (step p providers) (fun _ _ => True) (initial db) events :=
    meets_of_forall (fun _ _ => trivial) _
  have keep : ∀ s event t, s.Sound p providers → True → step p providers s event = some t →
      t.Sound p providers := fun _ _ _ sound _ stepped => (sound.step stepped).1
  refine ⟨?_, ?_, ?_⟩
  · rw [List.nodup_iff_pairwise_ne, List.pairwise_map]
    refine @outputs_pairwise _ _ (step p providers) (fun _ _ => True) _ uses
      (fun first second => first.state ≠ second.state) (Sound p providers)
      (fun use t => Gone use.state t) keep ?_ ?_ ?_ _ _ (sound_initial db) free
    · intro s event t use sound _ stepped used
      obtain ⟨⟨stored, _⟩, after⟩ := uses_ok used
      obtain ⟨drawn, gone⟩ := after t stepped
      exact ⟨drawn ▸ List.mem_map_of_mem (sound.stored _ stored), gone⟩
    · intro use s event t gone sound _ stepped
      exact gone.step sound stepped
    · intro use s event later gone used same
      obtain ⟨⟨stored, _⟩, _⟩ := @uses_ok p providers _ _ _ used
      exact gone.2 (same ▸ List.mem_map_of_mem stored)
  · refine @forall_outputs _ _ (step p providers) (fun _ _ => True) _ uses (Sound p providers)
      (fun use t => (use.state, use.record) ∈ t.drawn ∧
        use.now - use.record.createdAt ≤ StateStore.ttl ∧ use.record.providerId = use.providerId)
      keep ?_ ?_ _ _ _ (sound_initial db) reached free
    · intro s event t use sound _ stepped used
      obtain ⟨⟨stored, alive, same⟩, _⟩ := @uses_ok p providers _ _ _ used
      exact ⟨(sound.step stepped).2.drawn (sound.stored _ stored), alive, same⟩
    · intro use s event t known sound _ stepped
      exact ⟨(sound.step stepped).2.drawn known.1, known.2⟩
  · refine @forall_outputs _ _ (step p providers) (fun _ _ => True) _ issues (Sound p providers)
      (fun issued t => Justified p providers t issued) keep ?_ ?_ _ _ _ (sound_initial db) reached
      free
    · intro s event t issued sound _ stepped issues
      exact (issues_ok sound issues).grows (sound.step stepped).2
    · intro issued s event t justified sound _ stepped
      exact justified.grows (sound.step stepped).2

/-- The time from the expiry of the token of a session to its check. -/
def Issued.expiredFor (issued : Issued) : Option ℚ :=
  match issued.identity.source with
  | .idToken token _ checkedAt =>
    match token.payload.field "exp" with
    | .int exp => some (checkedAt - exp)
    | _ => none
  | .userinfo _ => none

def ascii (text : String) : Bytes := text.toList.map fun c => UInt8.ofNat c.toNat

def headPart : String := "eyJhbGciOiJSUzI1NiJ9"

def bodyPart : String :=
  "eyJpc3MiOiJpIiwiYXVkIjoiYyIsImV4cCI6NzAsIm5vbmNlIjoibiIsInN1YiI6InMiLCJlbWFpbCI6ImUifQ"

def headText : Bytes := ascii "\x7b\"alg\":\"RS256\"\x7d"

def bodyText : Bytes :=
  ascii ("\x7b\"iss\":\"i\",\"aud\":\"c\",\"exp\":70,\"nonce\":\"n\",\"sub\":\"s\"," ++
    "\"email\":\"e\"\x7d")

def oneToken : Primitives where
  str _ := "None"
  b64Decode part :=
    if part = headPart then .ok headText
    else if part = bodyPart then .ok bodyText
    else if part = "c2ln" then .ok (ascii "sig")
    else if part = "Cw" then .ok [11]
    else if part = "Aw" then .ok [3]
    else .error "Incorrect padding"
  loads text :=
    if text = headText then .ok (.obj [("alg", .str "RS256")])
    else if text = bodyText then
      .ok (.obj [("iss", .str "i"), ("aud", .str "c"), ("exp", .int 70), ("nonce", .str "n"),
        ("sub", .str "s"), ("email", .str "e")])
    else .error "Expecting value"
  verify _ _ _ signature :=
    if signature = ascii "sig" then .ok () else .error (.oidc "invalid_signature")
  bind
    | .str s => some s
    | _ => none

def firstSignIn (now : ℚ) : List FlowStep :=
  [.start "idp" "state" "verifier" "n" "uri" 0 0, .callback "idp" "state" 10 10,
    .advance 0 (.row ⟨"", 0⟩) 10,
    .advance 0 (.tokens (some (headPart ++ "." ++ bodyPart ++ ".c2ln")) none) 20,
    .advance 0 (.document (.obj [("keys", .arr
      [.obj [("kty", .str "RSA"), ("n", .str "Cw"), ("e", .str "Aw")]])])) now] ++
    List.replicate 7 (.advance 0 (.row ⟨"u", 0⟩) now)

theorem sign_in_of_one_token : ∃ s,
    run (step oneToken [⟨"idp", "i", "c", .obj [], true, false⟩]) (initial ⟨[], [], [], []⟩)
      (firstSignIn 60) = some s ∧
    ∀ issued ∈ outputs (step oneToken [⟨"idp", "i", "c", .obj [], true, false⟩]) issues
      (initial ⟨[], [], [], []⟩) (firstSignIn 60),
      Justified oneToken [⟨"idp", "i", "c", .obj [], true, false⟩] s issued := by
  have finishes : (run (step oneToken [⟨"idp", "i", "c", .obj [], true, false⟩])
      (initial ⟨[], [], [], []⟩) (firstSignIn 60)).isSome := by decide +kernel
  obtain ⟨s, reached⟩ := Option.isSome_iff_exists.mp finishes
  exact ⟨s, reached, (sign_in_sound reached).2.2⟩

theorem expired_token_signs_in :
    (outputs (step oneToken [⟨"idp", "i", "c", .obj [], true, false⟩]) issues
      (initial ⟨[], [], [], []⟩) (firstSignIn 100)).map
        (fun issued => (issued.user.id, issued.basis, issued.expiredFor)) =
      [("u", .created, some 30)] := by
  decide +kernel

end Server

end HlHelper.Oidc
