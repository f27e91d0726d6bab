import HlHelper.Auth.Principal

/-! Whom `current_principal` names: what a request may rely on, whatever came before it. -/

namespace HlHelper.Auth

open HlHelper.Library

variable {app : App}

namespace World

/-- The move does not let a lookup fill the cache with a session purged since. -/
def Careful (w : World) : Move → Prop
  | .service step => Auth.Careful w.sessions step
  | _ => True

instance (w : World) : ∀ move, Decidable (w.Careful move)
  | .service step => inferInstanceAs (Decidable (Auth.Careful w.sessions step))
  | .login _ _ _ _ _ => .isTrue trivial
  | .addUser _ => .isTrue trivial
  | .updateUser _ _ => .isTrue trivial
  | .deleteUser _ => .isTrue trivial
  | .request _ => .isTrue trivial
  | .proceed _ => .isTrue trivial

def CarefulRun (app : App) (w : World) (moves : List Move) : Prop :=
  Meets (World.step app) World.Careful w moves

instance (app : App) (w : World) (moves : List Move) : Decidable (CarefulRun app w moves) :=
  inferInstanceAs (Decidable (Meets (World.step app) World.Careful w moves))

variable {w v : World} {step : Step} {s : Sessions} {index : Nat}

theorem careful_checked (careful : Auth.Careful w.sessions step) :
    Auth.Careful w.sessions (w.checked app step) := by
  cases step with
  | effect index =>
    simp only [checked]
    split
    · trivial
    · trivial
  | _ => exact careful

theorem later_start (service : Service) (s : Sessions) (kind : Kind) :
    Later service s (s.start service kind) :=
  later_step (show Auth.Careful s (.start kind) from trivial) (happens_start s kind)

/-- How `current_principal` goes on: it ends, or looks the token up again. -/
inductive Proceeds (app : App) (w : World) (index : Nat) (attempt : Attempt) : World → Prop where
  | ends {stage} : stage = .answered none ∨ stage = .raised →
      Proceeds app w index attempt (w.moved index attempt stage)
  | names {token lookup call session} :
      attempt.stage = .bound token lookup ∨ attempt.stage = .unbound token lookup →
      w.sessions.calls[lookup]? = some call → call.result = some session →
      Proceeds app w index attempt
        (w.moved index attempt (.answered (some session.userId)))
  | retries {token lookup} : attempt.stage = .bound token lookup →
      Proceeds app w index attempt
        ((w.moved index attempt (.unbound token w.sessions.calls.length)).lookup app token none)

theorem back_of_outcome {lookup : Nat} {session : Option Session}
    (back : s.outcome lookup = .back session) :
    ∃ call, s.calls[lookup]? = some call ∧ call.result = session := by
  unfold Sessions.outcome at back
  split at back
  · cases back
  · next call there =>
    split at back
    · exact ⟨call, there, Outcome.back.inj back⟩
    · cases back
    · cases back

theorem proceeds_of_proceed {attempt : Attempt} (proceeded : w.proceed app index attempt = some v) :
    Proceeds app w index attempt v := by
  unfold proceed at proceeded
  split at proceeded
  · next token lookup stage =>
    split at proceeded
    · next session back =>
      cases proceeded
      obtain ⟨call, there, result⟩ := back_of_outcome back
      exact .names (.inl stage) there result
    · cases proceeded
      exact .retries stage
    · cases proceeded
      exact .ends (.inr rfl)
    · cases proceeded
  · next token lookup stage =>
    split at proceeded
    · next session back =>
      cases proceeded
      obtain ⟨call, there, result⟩ := back_of_outcome back
      cases session with
      | none => exact .ends (.inl rfl)
      | some session => exact .names (.inr stage) there result
    · cases proceeded
      exact .ends (.inr rfl)
    · cases proceeded
  · cases proceeded

theorem begin_cases (app : App) (w : World) (request : Request) :
    (∃ stage, (stage = .answered none ∨ stage = .forbidden) ∧
      w.begin app request = w.push request stage) ∨
    ∃ token source, request.extractToken = some (token, source) ∧
      w.begin app request =
        (w.push request (.bound token w.sessions.calls.length)).lookup app token
          (some request.requestMeta) := by
  unfold begin
  split
  · exact .inl ⟨_, .inl rfl, rfl⟩
  · next token source extracted =>
    split
    · exact .inl ⟨_, .inl rfl, rfl⟩
    · split
      · exact .inl ⟨_, .inr rfl, rfl⟩
      · exact .inr ⟨token, source, extracted, rfl⟩

theorem service_step (stepped : w.step app (.service step) = some v) :
    (∃ t, w.sessions.step app.service (w.checked app step) = some t ∧
      v = { w with sessions := t }) ∧ ∀ userId mfaLevel request token sessionId,
        step ≠ .start (.issue userId mfaLevel request token sessionId) := by
  have moved : ∀ {result : Option Sessions}, result.map ({ w with sessions := · }) = some v →
      ∃ t, result = some t ∧ v = { w with sessions := t } := fun mapped => by
    obtain ⟨t, held, rfl⟩ := Option.map_eq_some_iff.mp mapped
    exact ⟨t, held, rfl⟩
  cases step with
  | start kind =>
    cases kind with
    | issue userId mfaLevel request token sessionId => cases stepped
    | _ => exact ⟨moved stepped, fun _ _ _ _ _ => nofun⟩
  | _ => exact ⟨moved stepped, fun _ _ _ _ _ => nofun⟩

theorem later_of_step {move : Move} (careful : w.Careful move)
    (stepped : w.step app move = some v) : Later app.service w.sessions v.sessions := by
  cases move with
  | login userId mfaLevel request token sessionId =>
    simp only [step] at stepped
    split at stepped
    · cases stepped
      exact later_start app.service w.sessions (.issue _ _ _ _ _)
    · cases stepped
  | service step =>
    obtain ⟨⟨t, moved, rfl⟩, _⟩ := service_step stepped
    exact later_step (careful_checked careful) (happens_of_step moved)
  | addUser user =>
    simp only [step] at stepped
    split at stepped
    · cases stepped
    · exact Option.some.inj stepped ▸ Later.refl _
  | updateUser userId disabled => exact Option.some.inj stepped ▸ Later.refl _
  | deleteUser userId =>
    simp only [step] at stepped
    split at stepped
    · exact Option.some.inj stepped ▸ Later.refl _
    · exact Option.some.inj stepped ▸ Later.refl _
  | request request =>
    cases stepped
    rcases begin_cases app w request with ⟨_, _, same⟩ | ⟨_, _, _, same⟩
    · exact same ▸ Later.refl _
    · exact same ▸ later_start app.service w.sessions (.lookup _ _)
  | proceed index =>
    obtain ⟨attempt, there, proceeded⟩ := Option.bind_eq_some_iff.mp stepped
    cases proceeds_of_proceed proceeded with
    | ends _ => exact Later.refl _
    | names _ _ _ => exact Later.refl _
    | retries _ => exact later_start app.service w.sessions (.lookup _ _)

theorem later_run {moves : List Move} (careful : CarefulRun app w moves)
    (run : w.run app moves = some v) : Later app.service w.sessions v.sessions := by
  have keep : ∀ (u : World) move (v : World), Later app.service w.sessions u.sessions →
      u.Careful move → u.step app move = some v → Later app.service w.sessions v.sessions :=
    fun _ _ _ later careful stepped => later.trans (later_of_step careful stepped)
  exact run_keeps keep (Later.refl _) run careful

/-- The call at `index` looks the token up, and was started after `s`. -/
structure Looks (s t : Sessions) (token : String) (index : Nat) (call : Call) : Prop where
  after : s.calls.length ≤ index
  since : s.now ≤ call.now
  there : t.calls[index]? = some call
  kind : ∃ request, call.kind = .lookup token request

/-- What an attempt for the request has done since `s`. -/
def Serving (s t : Sessions) (request : Request) : Stage → Prop
  | .bound token index => (∃ source, request.extractToken = some (token, source)) ∧
      ∃ call, Looks s t token index call
  | .unbound token index => (∃ source, request.extractToken = some (token, source)) ∧
      ∃ call, Looks s t token index call
  | .answered principal => ∀ userId ∈ principal, ∃ token source index call session,
      request.extractToken = some (token, source) ∧ Looks s t token index call ∧
      call.result = some session ∧ session.userId = userId
  | _ => True

variable {t : Sessions} {token : String} {call : Call} {request : Request}

theorem Looks.goes {u : Sessions} {later : Call} (looks : Looks s t token index call)
    (there : u.calls[index]? = some later) (goes : Goes call later) :
    Looks s u token index later where
  after := looks.after
  since := goes.now ▸ looks.since
  there := there
  kind := goes.kind ▸ looks.kind

theorem Serving.later {u : Sessions} {stage : Stage} (timed : Timed app.service t)
    (later : Later app.service t u) (serving : Serving s t request stage) :
    Serving s u request stage := by
  cases stage with
  | bound token index =>
    obtain ⟨extracted, call, looks⟩ := serving
    obtain ⟨new, there, goes⟩ := later.calls index call looks.there
    exact ⟨extracted, new, looks.goes there goes⟩
  | unbound token index =>
    obtain ⟨extracted, call, looks⟩ := serving
    obtain ⟨new, there, goes⟩ := later.calls index call looks.there
    exact ⟨extracted, new, looks.goes there goes⟩
  | answered principal =>
    intro userId named
    obtain ⟨token, source, index, call, session, extracted, looks, result, same⟩ :=
      serving userId named
    obtain ⟨new, there, goes⟩ := later.calls index call looks.there
    have timed_call := timed.calls call (List.mem_of_getElem? looks.there)
    obtain rfl := goes.returned (timed_call.result session result).1
    exact ⟨token, source, index, new, session, extracted, looks.goes there goes, result, same⟩
  | forbidden => trivial
  | raised => trivial

theorem looks_started {request : Option RequestMeta} (after : s.calls.length ≤ t.calls.length)
    (since : s.now ≤ t.now) :
    ∃ call, Looks s (t.start app.service (.lookup token request)) token t.calls.length call := by
  obtain ⟨call, calls, kind, now⟩ := started (happens_start t (.lookup token request))
  exact ⟨call, after, now ▸ since, by rw [calls, List.getElem?_concat_length], request, kind⟩

/-- The attempt for the request, which began in `w`. -/
structure Served (w v : World) (request : Request) : Prop where
  attempt : ∃ attempt, v.attempts[w.attempts.length]? = some attempt ∧
    attempt.request = request ∧ Serving w.sessions v.sessions request attempt.stage
  length : w.sessions.calls.length ≤ v.sessions.calls.length
  clock : w.sessions.now ≤ v.sessions.now

theorem served_begin (app : App) (w : World) (request : Request) :
    Served w (w.begin app request) request := by
  have placed : ∀ stage, (w.attempts ++ [⟨request, stage⟩])[w.attempts.length]? =
      some (⟨request, stage⟩ : Attempt) := fun _ => List.getElem?_concat_length
  rcases begin_cases app w request with ⟨stage, ended, same⟩ | ⟨token, source, extracted, same⟩
  · rw [same]
    refine ⟨⟨_, placed stage, rfl, ?_⟩, Nat.le_refl _, Int.le_refl _⟩
    rcases ended with rfl | rfl
    · exact fun _ named => absurd named nofun
    · trivial
  · have later := later_start app.service w.sessions (.lookup token (some request.requestMeta))
    rw [same]
    exact ⟨⟨_, placed _, rfl, ⟨source, extracted⟩,
      looks_started (Nat.le_refl _) (Int.le_refl _)⟩, later.length, later.clock⟩

theorem serving_proceeds {attempt : Attempt} (after : s.calls.length ≤ w.sessions.calls.length)
    (since : s.now ≤ w.sessions.now) (serving : Serving s w.sessions request attempt.stage)
    (there : w.attempts[index]? = some attempt) (proceeds : Proceeds app w index attempt v) :
    ∃ stage, v.attempts[index]? = some { attempt with stage := stage } ∧
      Serving s v.sessions request stage := by
  have inside := (List.getElem?_eq_some_iff.mp there).1
  cases proceeds with
  | @ends stage ended =>
    refine ⟨stage, List.getElem?_set_self inside, ?_⟩
    rcases ended with rfl | rfl
    · exact fun _ named => absurd named nofun
    · trivial
  | @names token lookup call session stage found result =>
    refine ⟨_, List.getElem?_set_self inside, fun userId named => ?_⟩
    cases named
    have looked : (∃ source, request.extractToken = some (token, source)) ∧
        ∃ call, Looks s w.sessions token lookup call := by
      rcases stage with bound | unbound
      · exact (bound ▸ serving : Serving s w.sessions request (.bound token lookup))
      · exact (unbound ▸ serving : Serving s w.sessions request (.unbound token lookup))
    obtain ⟨⟨source, extracted⟩, other, looks⟩ := looked
    obtain rfl := Option.some.inj (looks.there.symm.trans found)
    exact ⟨token, source, lookup, other, session, extracted, looks, result, rfl⟩
  | @retries token lookup stage =>
    refine ⟨_, List.getElem?_set_self inside, ?_, looks_started after since⟩
    exact ((stage ▸ serving : Serving s w.sessions request (.bound token lookup))).1

theorem served_step {u : World} {move : Move} (timed : Timed app.service v.sessions)
    (careful : v.Careful move) (served : Served w v request) (stepped : v.step app move = some u) :
    Served w u request := by
  have later := later_of_step careful stepped
  obtain ⟨attempt, there, own, serving⟩ := served.attempt
  have length := Nat.le_trans served.length later.length
  have clock := Int.le_trans served.clock later.clock
  have kept : u.attempts[w.attempts.length]? = v.attempts[w.attempts.length]? →
      Served w u request := fun same =>
    ⟨⟨attempt, same.trans there, own, serving.later timed later⟩, length, clock⟩
  have known := (List.getElem?_eq_some_iff.mp there).1
  cases move with
  | proceed index =>
    obtain ⟨other, turn, proceeded⟩ := Option.bind_eq_some_iff.mp stepped
    have proceeds := proceeds_of_proceed proceeded
    by_cases same : index = w.attempts.length
    · subst same
      obtain rfl := Option.some.inj (there.symm.trans turn)
      obtain ⟨stage, placed, on⟩ :=
        serving_proceeds served.length served.clock serving there proceeds
      exact ⟨⟨_, placed, own, on⟩, length, clock⟩
    · refine kept ?_
      cases proceeds with
      | _ => exact List.getElem?_set_ne same
  | request other =>
    refine kept ?_
    cases stepped
    rcases begin_cases app v other with ⟨_, _, same⟩ | ⟨_, _, _, same⟩
    · rw [same]
      exact List.getElem?_append_left known
    · rw [same]
      exact List.getElem?_append_left known
  | login userId mfaLevel request token sessionId =>
    simp only [step] at stepped
    split at stepped
    · exact kept (Option.some.inj stepped ▸ rfl)
    · cases stepped
  | service step =>
    obtain ⟨⟨t, _, rfl⟩, _⟩ := service_step stepped
    exact kept rfl
  | addUser user =>
    simp only [step] at stepped
    split at stepped
    · cases stepped
    · exact kept (Option.some.inj stepped ▸ rfl)
  | updateUser userId disabled => exact kept (Option.some.inj stepped ▸ rfl)
  | deleteUser userId =>
    simp only [step] at stepped
    split at stepped
    · exact kept (Option.some.inj stepped ▸ rfl)
    · exact kept (Option.some.inj stepped ▸ rfl)

theorem served_run {moves : List Move} {u : World} (sound : Sound app.service v.sessions)
    (timed : Timed app.service v.sessions) (careful : CarefulRun app v moves)
    (served : Served w v request) (run : v.run app moves = some u) : Served w u request := by
  have keep : ∀ (v : World) move (u : World),
      Sound app.service v.sessions ∧ Timed app.service v.sessions ∧ Served w v request →
      v.Careful move → v.step app move = some u →
      Sound app.service u.sessions ∧ Timed app.service u.sessions ∧ Served w u request := by
    intro v move u ⟨sound, timed, served⟩ careful stepped
    have later := later_of_step careful stepped
    exact ⟨later.sound sound, later.timed sound timed, served_step timed careful served stepped⟩
  exact (run_keeps keep ⟨sound, timed, served⟩ run careful).2.2

def Owned (w : World) : Prop :=
  ∀ row ∈ w.sessions.rows, ∃ user ∈ w.users, user.id = row.userId

theorem owner_of_happens {service : Service} (happens : Happens service s step t) {row : Session}
    (member : row ∈ t.rows) :
    (∃ old ∈ s.rows, old.userId = row.userId) ∨ ∃ index call, step = .effect index ∧
      s.calls[index]? = some call ∧ call.inserting = some row.userId := by
  cases happens with
  | @inserts index call userId mfaLevel request token sessionId turn kind phase fresh =>
    rcases List.mem_append.mp member with old | single
    · exact .inl ⟨row, old, rfl⟩
    · obtain rfl := List.mem_singleton.mp single
      refine .inr ⟨index, call, rfl, turn, ?_⟩
      simp only [Call.inserting, kind, phase, Service.issued]
  | touches turn kind phase =>
    obtain ⟨old, inside, rfl⟩ := List.mem_map.mp member
    refine .inl ⟨old, inside, ?_⟩
    split
    · rfl
    · rfl
  | revokes turn phase kind =>
    obtain ⟨old, inside, rfl⟩ := List.mem_map.mp member
    refine .inl ⟨old, inside, ?_⟩
    split
    · rfl
    · rfl
  | _ => exact .inl ⟨row, member, rfl⟩

theorem owned_start {service : Service} (owned : w.Owned) (kind : Kind) :
    World.Owned { w with sessions := w.sessions.start service kind } := by
  intro row member
  rcases owner_of_happens (happens_start w.sessions kind) member with ⟨old, inside, same⟩ | new
  · exact same ▸ owned old inside
  · obtain ⟨_, _, started, _⟩ := new
    cases started

theorem owned_step (enforced : app.foreignKeys = true) {move : Move} (owned : w.Owned)
    (stepped : w.step app move = some v) : v.Owned := by
  cases move with
  | login userId mfaLevel request token sessionId =>
    simp only [step] at stepped
    split at stepped
    · cases stepped
      exact owned_start owned _
    · cases stepped
  | service step =>
    obtain ⟨⟨t, moved, rfl⟩, _⟩ := service_step stepped
    intro row member
    rcases owner_of_happens (happens_of_step moved) member with ⟨old, inside, same⟩ | new
    · exact same ▸ owned old inside
    · obtain ⟨index, call, effect, turn, inserting⟩ := new
      cases step with
      | effect place =>
        simp only [checked] at effect
        split at effect
        · cases effect
        · next present =>
          obtain rfl := Step.effect.inj effect
          by_contra missing
          refine present ⟨enforced, call, turn, row.userId, inserting, ?_⟩
          exact fun user inside same => missing ⟨user, inside, same⟩
      | _ => cases effect
  | addUser user =>
    simp only [step] at stepped
    split at stepped
    · cases stepped
    · cases stepped
      intro row member
      obtain ⟨old, inside, same⟩ := owned row member
      exact ⟨old, List.mem_append_left _ inside, same⟩
  | updateUser userId disabled =>
    cases stepped
    intro row member
    obtain ⟨old, inside, same⟩ := owned row member
    refine ⟨_, List.mem_map_of_mem inside, ?_⟩
    split
    · exact same
    · exact same
  | deleteUser userId =>
    simp only [step] at stepped
    split at stepped
    · exact Option.some.inj stepped ▸ owned
    · next free =>
      cases stepped
      intro row member
      obtain ⟨old, inside, same⟩ := owned row member
      refine ⟨old, List.mem_filter.mpr ⟨inside, ?_⟩, same⟩
      rw [enforced, Bool.true_and, List.any_eq_true] at free
      refine decide_eq_true (fun gone => free ⟨row, member, decide_eq_true ?_⟩)
      exact same.symm.trans gone
  | request request =>
    cases stepped
    rcases begin_cases app w request with ⟨_, _, same⟩ | ⟨_, _, _, same⟩
    · exact same ▸ owned
    · exact same ▸ owned_start owned _
  | proceed index =>
    obtain ⟨attempt, there, proceeded⟩ := Option.bind_eq_some_iff.mp stepped
    cases proceeds_of_proceed proceeded with
    | ends _ => exact owned
    | names _ _ _ => exact owned
    | retries _ => exact owned_start owned _

theorem owned_run (enforced : app.foreignKeys = true) {moves : List Move} (owned : w.Owned)
    (run : w.run app moves = some v) : v.Owned :=
  run_preserves (fun _ _ _ owned stepped => owned_step enforced owned stepped) owned run

theorem unrevoked_of_result {service : Service} {session row : Session} (sound : Sound service s)
    (later : Later service s t) (looks : Looks s t token index call)
    (result : call.result = some session) (member : row ∈ t.rows)
    (hash : row.tokenHash = service.hashToken token) : Unrevoked s row := by
  intro revocation inside returned stored was_stored same revokes
  obtain ⟨new, here, follows⟩ := later.rows stored (List.mem_of_mem_take was_stored)
  have sound_later := later.sound sound
  obtain rfl := List.inj_on_of_nodup_map sound_later.ids here member
    (follows.1.id_eq.trans same)
  have cut : Cut service token s := ⟨revocation, inside, returned, stored, was_stored, revokes,
    follows.1.tokenHash_eq.symm.trans hash⟩
  have closed := later.closed token _ sound (closed_of_cut cut)
  obtain ⟨request, kind⟩ := looks.kind
  exact absurd (result.symm.trans (closed.no_result looks.after looks.there kind)) nofun

theorem found_of_result {service : Service} {session : Session} (sound : Sound service t)
    (timed : Timed service t) (looks : Looks s t token index call)
    (result : call.result = some session) :
    ∃ row ∈ t.rows, row.tokenHash = service.hashToken token ∧ row.userId = session.userId ∧
      FoundAlive service t.calls row s.now t.now := by
  have member := List.mem_of_getElem? looks.there
  have timed_call := timed.calls call member
  obtain ⟨_, touched, used, held, same⟩ := timed_call.result session result
  obtain ⟨⟨row, inside, copy⟩, key⟩ := (sound.calls call member).copy used held
  obtain ⟨request, kind⟩ := looks.kind
  obtain ⟨alive, idle⟩ := timed_call.admitted (.inr touched) used held
  have back : Same used row := by rw [Same, copy]
  have expires : used.expiresAt = row.expiresAt := by rw [copy]
  refine ⟨row, inside, back.tokenHash_eq.trans (key token request kind), ?_, call, member,
    ⟨session, result, ?_⟩, looks.since, timed.past call member, expires ▸ alive, used.lastUse,
    (timed_call.row used held).same back, idle⟩
  · rw [same]
    exact back.userId_eq
  · rw [same]
    exact copy.id_eq

end World

/-- In every run in which no lookup fills the cache after a purge of its session. -/
theorem principals_alive (app : App) (now : Int) (moves : List Move)
    (careful : World.CarefulRun app (.initial now) moves) :
    PrincipalsAlive app (.initial now) moves := by
  intro before request after w v userId split run_before run_all named
  subst split
  obtain ⟨careful_before, careful_rest⟩ := meets_append run_before careful
  have until_then := World.later_run careful_before run_before
  have sound := until_then.sound (sound_initial now)
  have timed := until_then.timed (sound_initial now) (timed_initial now)
  have owned : app.foreignKeys = true → v.Owned := fun enforced =>
    World.owned_run enforced (fun row member => absurd member List.not_mem_nil) run_all
  replace run_all := run_after run_before run_all
  have later := World.later_run careful_rest run_all
  have begun : w.step app (.request request) = some (w.begin app request) := rfl
  have first := World.later_of_step careful_rest.1 begun
  have served := World.served_run (first.sound sound) (first.timed sound timed)
    (careful_rest.2 _ begun) (World.served_begin app w request) run_all
  obtain ⟨attempt, there, _, serving⟩ := served.attempt
  have stage : attempt.stage = .answered (some userId) := by
    simp only [World.principal, there, Option.map_some] at named
    split at named
    · next principal same => rw [Option.some.inj same, named]
    · cases named
  rw [stage] at serving
  obtain ⟨token, source, index, call, session, extracted, looks, result, rfl⟩ :=
    serving userId rfl
  obtain ⟨row, member, hash, user, found⟩ :=
    World.found_of_result (later.sound sound) (later.timed sound timed) looks result
  refine ⟨⟨token, source, row, extracted, member, hash, user,
    World.unrevoked_of_result sound later looks result member hash, found⟩, fun enforced => ?_⟩
  exact user ▸ owned enforced row member

def fleet : App := ⟨defaults, true, false⟩

def laptopRequest : Request :=
  ⟨"GET", some "Bearer hls_t", none, none, none, some "10.0.0.7", some "curl"⟩

def otherRequest : Request :=
  ⟨"GET", some "Bearer hls_t", none, none, none, some "10.0.1.7", some "wget"⟩

def signIn : List Move :=
  [.addUser ⟨"u", false⟩, .login "u" "none" laptop "hls_t" "s", .service (.effect 0),
    .service (.resume 0)]

def lookedUp (index : Nat) : List Move :=
  [.service (.effect index), .service (.resume index), .service (.effect index),
    .service (.resume index)]

def answered : List Move := lookedUp 1 ++ [.proceed 0]

theorem principal_of_laptop :
    ((World.initial 0).run fleet (signIn ++ .request laptopRequest :: answered)).map
      (·.principal 0) = some (some "u") ∧
    PrincipalsAlive fleet (.initial 0) (signIn ++ .request laptopRequest :: answered) :=
  ⟨by decide, principals_alive fleet 0 _ (by decide)⟩

instance (app : App) (w : World) (token : String) (request : RequestMeta) (userId : String) :
    Decidable (Entitled app w token request userId) := inferInstanceAs (Decidable (_ ∧ _))

/-- After the moves the request is given a principal that it is not entitled to. -/
def Misnames (app : App) (first : World) (before : List Move) (request : Request)
    (after : List Move) : Prop :=
  ∃ w ∈ first.run app before, ∃ v ∈ first.run app (before ++ .request request :: after),
    ∃ userId ∈ v.principal w.attempts.length, ∀ extracted ∈ request.extractToken,
      ¬ Entitled app w extracted.1 request.requestMeta userId ∧
        ¬ Entitled app v extracted.1 request.requestMeta userId

instance (app : App) (first : World) (before : List Move) (request : Request)
    (after : List Move) : Decidable (Misnames app first before request after) :=
  inferInstanceAs (Decidable (∃ w ∈ first.run app before, _))

theorem unsound_of_misnames {first : World} {before after : List Move} {request : Request}
    (misnames : Misnames app first before request after) :
    ¬ AuthenticationSound app first (before ++ .request request :: after) := by
  intro sound
  obtain ⟨w, run_before, v, run_all, userId, named, unentitled⟩ := misnames
  obtain ⟨token, source, extracted, entitled⟩ :=
    sound before request after w v userId rfl run_before run_all named
  obtain ⟨not_before, not_after⟩ := unentitled (token, source) extracted
  exact entitled.elim not_before not_after

/-- A request from another network and user agent, a disabled user, a deleted user, and a
session that is being revoked. -/
theorem principal_without_entitlement :
    ¬ AuthenticationSound fleet (.initial 0)
      (signIn ++ .request otherRequest ::
        (([.service (.effect 1), .service (.resume 1), .proceed 0] : List Move) ++ lookedUp 2 ++
          [.proceed 0])) ∧
    ¬ AuthenticationSound fleet (.initial 0)
      ((signIn ++ [.updateUser "u" (some true)]) ++ .request laptopRequest :: answered) ∧
    ¬ AuthenticationSound fleet (.initial 0)
      ((signIn ++ [.deleteUser "u"]) ++ .request laptopRequest :: answered) ∧
    ¬ AuthenticationSound fleet (.initial 0)
      ((signIn ++ .request laptopRequest :: answered ++
          ([.service (.start (.revoke "s")), .service (.effect 2), .service (.resume 2),
            .service (.effect 2)] : List Move)) ++
        .request laptopRequest ::
          ([.service (.effect 3), .service (.resume 3), .proceed 1] : List Move)) :=
  ⟨unsound_of_misnames (by decide), unsound_of_misnames (by decide),
    unsound_of_misnames (by decide), unsound_of_misnames (by decide)⟩

end HlHelper.Auth
