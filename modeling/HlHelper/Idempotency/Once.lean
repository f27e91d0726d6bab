import HlHelper.Idempotency.Middleware
import HlHelper.Library.Slots

/-! One handler run for the requests of one key: when at most one of them is inside the
handler, and when each after a success gets its response. -/

namespace HlHelper.Idempotency

open HlHelper.Library

def Phase.holds : Phase → Bool
  | .running | .releasing _ => true
  | _ => false

/-- The request with the given number has the key tuple and stands in such a phase. -/
def StandsIn (p : Phase → Prop) (key : KeyTuple) (system : System) (index : Nat) : Prop :=
  ∃ call, system.calls[index]? = some call ∧ call.tuple = some key ∧ p call.phase

def Inside (key : KeyTuple) (system : System) (index : Nat) : Prop :=
  StandsIn (· = .running) key system index

def Holding (key : KeyTuple) (system : System) (index : Nat) : Prop :=
  StandsIn (fun phase => phase.holds) key system index

/-- A handler run of the key has returned the response at the time, less than a TTL ago. -/
def Fresh (key : KeyTuple) (system : System) (time : Int) (response : Response) : Prop :=
  ∃ call ∈ system.calls, call.tuple = some key ∧ call.succeeded = some (time, response) ∧
    system.clock < time + system.store.ttl

/-- A step that decides whether a request runs the handler. -/
def Step.decides : Step → Bool
  | .check _ | .lookup _ | .acquire _ | .wake _ => true
  | _ => false

def Cached (key : KeyTuple) (system : System) : Prop :=
  ∃ entry ∈ system.store.items.get? key, system.clock < entry.expiresAt

def TurnOf (key : KeyTuple) (system : System) (index : Nat) : Prop :=
  ∃ call ∈ system.calls[index]?, call.tuple = some key

/-- A waiter of the key goes on only when the response is cached, a request of the key
takes the slot only when none is, no cached response of the key is evicted or could not be
stored, and while one is cached there is none for another body. -/
def Orderly (key : KeyTuple) (system : System) : Step → Prop
  | .check index => TurnOf key system index → Cached key system →
      system.store.checkConflict key = none
  | .acquire index => TurnOf key system index → ¬ Cached key system
  | .wake index => TurnOf key system index → Cached key system
  | .respond index (some response) => response.statusCode < 400 →
      system.store.Spares key system.clock ∧
        (TurnOf key system index → system.store.makeRoom.isSome)
  | _ => True

instance (key : KeyTuple) (system : System) : Decidable (Cached key system) :=
  inferInstanceAs (Decidable (∃ entry ∈ system.store.items.get? key, _))

instance (key : KeyTuple) (system : System) (index : Nat) :
    Decidable (TurnOf key system index) :=
  inferInstanceAs (Decidable (∃ call ∈ system.calls[index]?, _))

instance (key : KeyTuple) (system : System) : DecidablePred (Orderly key system)
  | .tick _ => isTrue trivial
  | .arrive _ => isTrue trivial
  | .check _ => inferInstanceAs (Decidable (_ → _))
  | .lookup _ => isTrue trivial
  | .acquire _ => inferInstanceAs (Decidable (_ → _))
  | .wake _ => inferInstanceAs (Decidable (_ → _))
  | .respond _ none => isTrue trivial
  | .respond _ (some _) => inferInstanceAs (Decidable (_ → _))
  | .release _ => isTrue trivial
  | .purge => isTrue trivial

/-- What the runs keep: the slot of the key is taken by its one holder, and a fresh success
is cached, with nobody inside. -/
structure Served (key : KeyTuple) (system : System) : Prop where
  slot : ∀ i, Holding key system i → key ∈ system.store.inflight.keys
  single : ∀ i j, Holding key system i → Holding key system j → i = j
  cached : ∀ time response, Fresh key system time response →
    system.store.items.get? key = some (entryOf response (time + system.store.ttl))
  idle : ∀ time response, Fresh key system time response → ∀ i, ¬ Inside key system i

/-- A step that lets nobody of the key inside, keeps its slot and its cached response and
adds no success. -/
structure Eases (key : KeyTuple) (system later : System) : Prop where
  clock : system.clock ≤ later.clock
  ttl : later.store.ttl = system.store.ttl
  holding : ∀ i, Holding key later i → Holding key system i
  inside : ∀ i, Inside key later i → Inside key system i
  slot : key ∈ system.store.inflight.keys → key ∈ later.store.inflight.keys
  fresh : ∀ time response, Fresh key later time response → Fresh key system time response
  cached : ∀ entry, system.store.items.get? key = some entry → later.clock < entry.expiresAt →
    later.store.items.get? key = some entry

variable {sha : Sha256} {key tuple : KeyTuple} {system later : System} {index : Nat}
  {call changed : Call} {phase : Phase} {store : Store}

theorem Inside.holding {i : Nat} (inside : Inside key system i) : Holding key system i := by
  obtain ⟨call, found, tuple, running⟩ := inside
  exact ⟨call, found, tuple, by simp [running, Phase.holds]⟩

theorem Served.eased (served : Served key system) (eases : Eases key system later) :
    Served key later where
  slot i holding := eases.slot (served.slot i (eases.holding i holding))
  single i j first second := served.single i j (eases.holding i first) (eases.holding j second)
  cached time response fresh := by
    have before := served.cached time response (eases.fresh time response fresh)
    obtain ⟨_, _, _, _, unexpired⟩ := fresh
    rw [eases.ttl] at unexpired ⊢
    exact eases.cached _ before unexpired
  idle time response fresh i inside :=
    served.idle time response (eases.fresh time response fresh) i (eases.inside i inside)

theorem standsIn_moved {p : Phase → Prop} {i : Nat}
    (stands : StandsIn p key (system.moved index changed phase store) i) :
    (i = index ∧ changed.tuple = some key ∧ p phase) ∨ (i ≠ index ∧ StandsIn p key system i) := by
  obtain ⟨found, there, tuple, holds⟩ := stands
  change (system.calls.set index { changed with phase := phase })[i]? = some found at there
  rcases getElem?_set_cases there with ⟨before, apart⟩ | ⟨here, rfl⟩
  · exact .inr ⟨apart, found, before, tuple, holds⟩
  · exact .inl ⟨here, tuple, holds⟩

theorem fresh_moved (turn : system.calls[index]? = some call)
    (same : changed.tuple = some key → changed = call) (ttl : store.ttl = system.store.ttl)
    {time : Int} {response : Response}
    (fresh : Fresh key (system.moved index changed phase store) time response) :
    Fresh key system time response := by
  obtain ⟨found, member, tuple, succeeded, unexpired⟩ := fresh
  change system.clock < time + store.ttl at unexpired
  rw [ttl] at unexpired
  rcases List.mem_or_eq_of_mem_set member with old | rfl
  · exact ⟨found, old, tuple, succeeded, unexpired⟩
  · obtain rfl := same tuple
    exact ⟨changed, List.mem_of_getElem? turn, tuple, succeeded, unexpired⟩

theorem eases_moved (turn : system.calls[index]? = some call)
    (same : changed.tuple = some key → changed = call)
    (outside : changed.tuple = some key → phase.holds → phase ≠ .running ∧ changed.phase.holds)
    (ttl : store.ttl = system.store.ttl)
    (slot : key ∈ system.store.inflight.keys → key ∈ store.inflight.keys)
    (cached : ∀ entry, system.store.items.get? key = some entry →
      system.clock < entry.expiresAt → store.items.get? key = some entry) :
    Eases key system (system.moved index changed phase store) where
  clock := le_refl _
  ttl := ttl
  holding i holding := by
    rcases standsIn_moved holding with ⟨rfl, tuple, holds⟩ | ⟨-, old⟩
    · have kept := (outside tuple holds).2
      obtain rfl := same tuple
      exact ⟨changed, turn, tuple, kept⟩
    · exact old
  inside i inside := by
    rcases standsIn_moved inside with ⟨rfl, tuple, running⟩ | ⟨-, old⟩
    · have holds : phase.holds = true := by rw [running]; rfl
      exact absurd running (outside tuple holds).1
    · exact old
  slot := slot
  fresh _ _ := fresh_moved turn same ttl
  cached := cached

theorem turnOf (turn : system.calls[index]? = some call) (own : call.tuple = some key) :
    TurnOf key system index := ⟨call, turn, own⟩

theorem arrival_idle (sha : Sha256) (maxBodyBytes : Nat) (request : Request) :
    (arrival sha maxBodyBytes request).phase.holds = false ∧
      (arrival sha maxBodyBytes request).succeeded = none := by
  simp only [arrival]
  split
  · exact ⟨rfl, rfl⟩
  · split
    · exact ⟨rfl, rfl⟩
    · split_ifs <;> exact ⟨rfl, rfl⟩

theorem standsIn_arrived {p : Phase → Prop} {request : Request} {i : Nat}
    (stands : StandsIn p key
      { system with calls := system.calls ++ [arrival sha system.maxBodyBytes request] } i) :
    StandsIn p key system i ∨ p (arrival sha system.maxBodyBytes request).phase := by
  obtain ⟨found, there, tuple, holds⟩ := stands
  by_cases old : i < system.calls.length
  · rw [List.getElem?_append_left old] at there
    exact .inl ⟨found, there, tuple, holds⟩
  · rw [List.getElem?_append_right (by omega)] at there
    have new : found = arrival sha system.maxBodyBytes request := by
      simpa using List.mem_of_getElem? there
    exact .inr (new ▸ holds)

theorem eases_arrive (request : Request) :
    Eases key system
      { system with calls := system.calls ++ [arrival sha system.maxBodyBytes request] } where
  clock := le_refl _
  ttl := rfl
  holding i holding := by
    rcases standsIn_arrived holding with old | new
    · exact old
    · rw [(arrival_idle sha _ request).1] at new
      exact absurd new Bool.false_ne_true
  inside i inside := by
    rcases standsIn_arrived inside with old | new
    · exact old
    · have idle := (arrival_idle sha system.maxBodyBytes request).1
      rw [new] at idle
      exact absurd idle.symm Bool.false_ne_true
  slot := id
  fresh time response fresh := by
    obtain ⟨found, member, tuple, succeeded, unexpired⟩ := fresh
    rcases List.mem_append.mp member with old | new
    · exact ⟨found, old, tuple, succeeded, unexpired⟩
    · rw [List.mem_singleton.mp new, (arrival_idle sha _ request).2] at succeeded
      cases succeeded
  cached _ found _ := found

theorem eases_tick (elapsed : Nat) :
    Eases key system { system with clock := system.clock + elapsed } where
  clock := Int.le_add_of_nonneg_right (Int.natCast_nonneg elapsed)
  ttl := rfl
  holding _ := id
  inside _ := id
  slot := id
  fresh := by
    rintro time response ⟨call, member, tuple, succeeded, unexpired⟩
    refine ⟨call, member, tuple, succeeded, lt_of_le_of_lt ?_ unexpired⟩
    exact Int.le_add_of_nonneg_right (Int.natCast_nonneg elapsed)
  cached _ found _ := found

theorem eases_purge :
    Eases key system { system with store := system.store.purgeExpired system.clock } where
  clock := le_refl _
  ttl := rfl
  holding _ := id
  inside _ := id
  slot := id
  fresh _ _ := id
  cached _ found unexpired := Store.purgeExpired_keeps found unexpired

theorem eases_get (turn : system.calls[index]? = some call)
    (outside : call.tuple = some key → phase.holds = false) (tuple : KeyTuple) :
    Eases key system
      (system.moved index call phase (system.store.get tuple system.clock).2) := by
  refine eases_moved turn (fun _ => rfl) ?_ ?_ ?_ ?_
  · intro own holds
    rw [outside own] at holds
    exact absurd holds Bool.false_ne_true
  · rw [Store.get_frame]
  · rw [Store.get_frame]
    exact id
  · exact fun entry found unexpired => Store.get_keeps tuple found unexpired

theorem eases_other (turn : system.calls[index]? = some call) (other : changed.tuple ≠ some key)
    (ttl : store.ttl = system.store.ttl)
    (slot : key ∈ system.store.inflight.keys → key ∈ store.inflight.keys)
    (cached : ∀ entry, system.store.items.get? key = some entry →
      system.clock < entry.expiresAt → store.items.get? key = some entry) :
    Eases key system (system.moved index changed phase store) :=
  eases_moved turn (fun own => absurd own other) (fun own => absurd own other) ttl slot cached

theorem cached_of_fresh (served : Served key system) {time : Int} {response : Response}
    (fresh : Fresh key system time response) : Cached key system := by
  have found := served.cached time response fresh
  obtain ⟨_, _, _, _, unexpired⟩ := fresh
  exact ⟨_, found, unexpired⟩

theorem served_acquire (served : Served key system) (turn : system.calls[index]? = some call)
    (free : key ∉ system.store.inflight.keys)
    (uncached : ¬ Cached key system) :
    Served key (system.moved index call .running (system.store.acquireOrWait key).2) := by
  obtain ⟨items, ttl⟩ := Store.acquireOrWait_items system.store key
  have stale : ∀ time response, ¬ Fresh key
      (system.moved index call .running (system.store.acquireOrWait key).2) time response :=
    fun time response fresh => uncached (cached_of_fresh served
      (fresh_moved turn (fun _ => rfl) ttl fresh))
  have alone : ∀ i, Holding key
      (system.moved index call .running (system.store.acquireOrWait key).2) i → i = index := by
    intro i holding
    rcases standsIn_moved holding with ⟨same, -, -⟩ | ⟨-, old⟩
    · exact same
    · exact absurd (served.slot i old) free
  exact
    { slot := fun _ _ => (Store.acquireOrWait_slots system.store key).1
      single := fun i j first second => (alone i first).trans (alone j second).symm
      cached := fun time response fresh => absurd fresh (stale time response)
      idle := fun time response fresh => absurd fresh (stale time response) }

theorem served_release (served : Served key system) (turn : system.calls[index]? = some call)
    (own : call.tuple = some key) (holds : call.phase.holds) (outcome : Outcome) :
    Served key (system.moved index call (.answered outcome) (system.store.release key)) := by
  obtain ⟨items, ttl⟩ := Store.release_items system.store key
  have nobody : ∀ i, ¬ Holding key
      (system.moved index call (.answered outcome) (system.store.release key)) i := by
    intro i holding
    rcases standsIn_moved holding with ⟨-, -, wrong⟩ | ⟨different, old⟩
    · exact absurd wrong Bool.false_ne_true
    · exact different (served.single i index old ⟨call, turn, own, holds⟩)
  exact
    { slot := fun i holding => absurd holding (nobody i)
      single := fun i _ holding => absurd holding (nobody i)
      cached := by
        intro time response fresh
        have found := served.cached time response
          (fresh_moved turn (fun _ => rfl) ttl fresh)
        change (system.store.release key).items.get? key = some (entryOf response
          (time + (system.store.release key).ttl))
        rwa [items, ttl]
      idle := fun _ _ _ i inside => nobody i inside.holding }

theorem served_success (served : Served key system) (turn : system.calls[index]? = some call)
    (own : call.tuple = some key) (running : call.phase = .running) {response : Response}
    (put : system.store.put key response system.clock = some store) (outcome : Outcome) :
    Served key (system.moved index
      { call with succeeded := some (system.clock, response) } (.releasing outcome) store) := by
  have inside : Inside key system index := ⟨call, turn, own, running⟩
  have frame := Store.put_frame put
  have ttl : store.ttl = system.store.ttl := by rw [frame]
  have inflight : store.inflight = system.store.inflight := by rw [frame]
  have alone : ∀ i, Holding key (system.moved index
      { call with succeeded := some (system.clock, response) } (.releasing outcome) store) i →
      i = index := by
    intro i holding
    rcases standsIn_moved holding with ⟨same, -, -⟩ | ⟨-, old⟩
    · exact same
    · exact served.single i index old inside.holding
  exact
    { slot := fun _ _ => inflight ▸ served.slot index inside.holding
      single := fun i j first second => (alone i first).trans (alone j second).symm
      cached := by
        rintro time old ⟨found, member, tuple, succeeded, unexpired⟩
        rcases List.mem_or_eq_of_mem_set member with before | rfl
        · change system.clock < time + store.ttl at unexpired
          rw [ttl] at unexpired
          have fresh : Fresh key system time old :=
            ⟨found, before, tuple, succeeded, unexpired⟩
          exact absurd inside (served.idle time old fresh index)
        · cases succeeded
          change store.items.get? key = some (entryOf response (system.clock + store.ttl))
          rw [ttl]
          exact Store.put_self put
      idle := by
        intro _ _ _ i later
        rcases standsIn_moved later with ⟨-, -, wrong⟩ | ⟨different, old⟩
        · cases wrong
        · exact different (served.single i index (Inside.holding old) inside.holding) }

theorem eases_check (turn : system.calls[index]? = some call) {n : Nat}
    (moved : system.callStep index call tuple (.check n) = some later) :
    Eases key system later := by
  simp only [System.callStep] at moved
  split at moved
  · split at moved <;>
      exact Option.some.inj moved ▸ eases_moved turn (fun _ => rfl)
        (fun _ holds => absurd holds Bool.false_ne_true) rfl id (fun _ found _ => found)
  · cases moved

theorem eases_lookup (turn : system.calls[index]? = some call) {n : Nat}
    (moved : system.callStep index call tuple (.lookup n) = some later) :
    Eases key system later := by
  cases lookup_consults moved with
  | replays got => exact eases_get turn (fun _ => rfl) tuple
  | misses got => exact eases_get turn (fun _ => rfl) tuple

theorem served_acquired (served : Served key system) (turn : system.calls[index]? = some call)
    (own : call.tuple = some tuple) {n : Nat}
    (orderly : call.tuple = some key → ¬ Cached key system)
    (moved : system.callStep index call tuple (.acquire n) = some later) : Served key later := by
  obtain ⟨items, ttl⟩ := Store.acquireOrWait_items system.store tuple
  obtain ⟨-, slots⟩ := Store.acquireOrWait_slots system.store tuple
  simp only [System.callStep] at moved
  split at moved
  · split at moved
    · next event store found =>
      rw [found] at items ttl slots
      refine served.eased (Option.some.inj moved ▸ eases_moved turn (fun _ => rfl)
        (fun _ holds => absurd holds Bool.false_ne_true) ttl (slots key) ?_)
      exact fun _ there _ => items ▸ there
    · next store found =>
      cases moved
      by_cases same : call.tuple = some key
      · obtain rfl : tuple = key := Option.some.inj (own.symm.trans same)
        have free := (Store.acquireOrWait_owner system.store tuple).mp (by rw [found])
        have taken := served_acquire served turn free (orderly same)
        rwa [found] at taken
      · rw [found] at items ttl slots
        refine served.eased (eases_other turn same ttl (slots key) ?_)
        exact fun _ there _ => items ▸ there
  · cases moved

theorem eases_wake (turn : system.calls[index]? = some call) (own : call.tuple = some tuple)
    {n : Nat} (orderly : call.tuple = some key → Cached key system)
    (moved : system.callStep index call tuple (.wake n) = some later) :
    Eases key system later := by
  cases wake_consults moved with
  | replays got => exact eases_get turn (fun _ => rfl) tuple
  | misses got =>
    have other : call.tuple ≠ some key := by
      intro same
      obtain rfl : tuple = key := Option.some.inj (own.symm.trans same)
      obtain ⟨entry, there, unexpired⟩ := orderly same
      have hit := Store.get_fst.mpr ⟨there, unexpired⟩
      rw [got] at hit
      cases hit
    exact eases_get turn (fun same => absurd same other) tuple

section

variable (served : Served key system)
include served

theorem served_respond (turn : system.calls[index]? = some call) (own : call.tuple = some tuple)
    {n : Nat} {result : Option Response} (orderly : ∀ response ∈ result, response.statusCode < 400 →
      system.store.Spares key system.clock ∧
        (call.tuple = some key → system.store.makeRoom.isSome))
    (moved : system.callStep index call tuple (.respond n result) = some later) :
    Served key later := by
  simp only [System.callStep] at moved
  split at moved
  · next running =>
    cases moved
    have failed : ∀ outcome, Served key
        (system.moved index call (.releasing outcome) system.store) := by
      intro outcome
      refine served.eased (eases_moved turn (fun _ => rfl) (fun _ _ => ⟨?_, ?_⟩) rfl id
        (fun _ found _ => found))
      · exact Phase.noConfusion
      · rw [running]
        rfl
    cases result with
    | none => exact failed .raised
    | some response =>
      by_cases success : response.statusCode < 400
      · obtain ⟨spared, room⟩ := orderly response rfl success
        simp only [System.respond, success, if_true]
        by_cases same : call.tuple = some key
        · obtain rfl : tuple = key := Option.some.inj (own.symm.trans same)
          cases put : system.store.put tuple response system.clock with
          | some store => exact served_success served turn same running put _
          | none =>
            have made := room same
            simp only [Store.put, Option.map_eq_none_iff] at put
            rw [put] at made
            cases made
        · have different : key ≠ tuple := fun equal => same (equal ▸ own)
          cases put : system.store.put tuple response system.clock with
          | none =>
            exact served.eased (eases_other turn same rfl id (fun _ found _ => found))
          | some store =>
            have frame := Store.put_frame put
            refine served.eased (eases_other turn same ?_ ?_ ?_)
            · rw [frame]
            · rw [frame]
              exact id
            · exact fun _ found unexpired =>
                Store.put_keeps put different spared found unexpired
      · simp only [System.respond, success, if_false]
        exact failed _
  · cases moved

theorem served_released (turn : system.calls[index]? = some call) (own : call.tuple = some tuple)
    {n : Nat} (moved : system.callStep index call tuple (.release n) = some later) :
    Served key later := by
  simp only [System.callStep] at moved
  split at moved
  · next outcome releasing =>
    cases moved
    by_cases same : call.tuple = some key
    · obtain rfl : tuple = key := Option.some.inj (own.symm.trans same)
      refine served_release served turn same ?_ outcome
      rw [releasing]
      rfl
    · have different : key ≠ tuple := fun equal => same (equal ▸ own)
      obtain ⟨items, ttl⟩ := Store.release_items system.store tuple
      refine served.eased (eases_other turn same ttl (Store.release_slots _ different) ?_)
      exact fun _ found _ => items ▸ found
  · cases moved

theorem served_step {step : Step} (orderly : Orderly key system step)
    (stepped : system.step sha step = some later) : Served key later := by
  cases step with
  | tick elapsed => exact served.eased (Option.some.inj stepped ▸ eases_tick elapsed)
  | arrive request => exact served.eased (Option.some.inj stepped ▸ eases_arrive request)
  | purge => exact served.eased (Option.some.inj stepped ▸ eases_purge)
  | check index =>
    obtain ⟨call, tuple, turn, own, moved⟩ := step_call stepped rfl
    exact served.eased (eases_check turn moved)
  | lookup index =>
    obtain ⟨call, tuple, turn, own, moved⟩ := step_call stepped rfl
    exact served.eased (eases_lookup turn moved)
  | acquire index =>
    obtain ⟨call, tuple, turn, own, moved⟩ := step_call stepped rfl
    exact served_acquired served turn own (fun same => orderly (turnOf turn same)) moved
  | wake index =>
    obtain ⟨call, tuple, turn, own, moved⟩ := step_call stepped rfl
    exact served.eased (eases_wake turn own (fun same => orderly (turnOf turn same)) moved)
  | respond index result =>
    obtain ⟨call, tuple, turn, own, moved⟩ := step_call stepped rfl
    refine served_respond served turn own ?_ moved
    rintro response rfl success
    obtain ⟨spared, room⟩ := orderly success
    exact ⟨spared, fun same => room (turnOf turn same)⟩
  | release index =>
    obtain ⟨call, tuple, turn, own, moved⟩ := step_call stepped rfl
    exact served_released served turn own moved

end

def created : Response := ⟨201, [2], [("content-type", "application/json")]⟩

end HlHelper.Idempotency
