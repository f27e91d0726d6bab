import HlHelper.Audit.Chain
import HlHelper.Library.OrderedMap
import HlHelper.Library.Runs

/-! `IdempotencyStore`: the cached responses and the slots of the requests in flight.
`IdempotencyMiddleware.dispatch`, cut at its awaits, for any number of requests. -/

namespace HlHelper.Idempotency

open HlHelper.Library

/-- A response as its handler gives it; header names are in lower case. -/
structure Response where
  statusCode : Nat
  body : Bytes
  headers : List (String × String)
  deriving DecidableEq, Repr, Inhabited

structure KeyTuple where
  principalId : String
  route : String
  key : String
  bodyHash : String
  deriving DecidableEq, Repr, Inhabited

structure Entry where
  statusCode : Nat
  body : Bytes
  headers : List (String × String)
  contentType : String
  expiresAt : Int
  deriving DecidableEq, Repr, Inhabited

/-- `response.headers.get(name)`. -/
def Response.header (response : Response) (name : String) : Option String :=
  (response.headers.find? (fun header => header.1 = name)).map Prod.snd

/-- A dict made of pairs: of two with one key, the last one's value counts. -/
def dictOf (pairs : List (String × String)) : OrderedMap String String :=
  pairs.foldl (fun dict pair => dict.insert pair.1 pair.2) OrderedMap.empty

def entryOf (response : Response) (expiresAt : Int) : Entry where
  statusCode := response.statusCode
  body := response.body
  headers := (dictOf (response.headers.filter (fun header => header.1 ≠ "content-length"))).entries
  contentType := (response.header "content-type").getD "application/json"
  expiresAt := expiresAt

/-- What `dispatch` returns after a handler run: `dict(response.headers)` asks for each
name, so that the first value counts. -/
def Response.copied (response : Response) : Response :=
  { response with
    headers := (dictOf response.headers).keys.map (fun name =>
      (name, (response.header name).getD "")) }

/-- Times are in microseconds. `inflight` names the event of each slot by its number, and
`events` tells which of the events made so far are set. -/
structure Store where
  ttl : Int
  maxEntries : Int
  items : OrderedMap KeyTuple Entry
  inflight : OrderedMap KeyTuple Nat
  events : List Bool
  deriving DecidableEq

namespace Store

def new (ttl maxEntries : Int) : Store := ⟨ttl, maxEntries, OrderedMap.empty, OrderedMap.empty, []⟩

def get (store : Store) (key : KeyTuple) (now : Int) : Option Entry × Store :=
  match store.items.get? key with
  | none => (none, store)
  | some entry =>
    if entry.expiresAt ≤ now then (none, { store with items := store.items.erase key })
    else (some entry, { store with items := store.items.moveToEnd key })

/-- The eviction of `put`; `popitem` on an empty dict raises. -/
def makeRoom (store : Store) : Option Store :=
  if store.maxEntries ≤ store.items.entries.length then
    if store.items.entries.isEmpty then none
    else some { store with items := store.items.popFirst }
  else some store

def put (store : Store) (key : KeyTuple) (response : Response) (now : Int) : Option Store :=
  store.makeRoom.map (fun store =>
    { store with items := store.items.insert key (entryOf response (now + store.ttl)) })

def purgeExpired (store : Store) (now : Int) : Store :=
  { store with
    items := ⟨store.items.entries.filter (fun entry => now < entry.2.expiresAt),
      store.items.unique.sublist (List.filter_sublist.map Prod.fst)⟩ }

/-- `acquire_or_wait` up to its return or to the wait for the given event. -/
def acquireOrWait (store : Store) (key : KeyTuple) : Option Nat × Store :=
  match store.inflight.get? key with
  | some event => (some event, store)
  | none =>
    (none,
      { store with
        inflight := store.inflight.insert key store.events.length
        events := store.events ++ [false] })

def release (store : Store) (key : KeyTuple) : Store :=
  match store.inflight.get? key with
  | none => store
  | some event =>
    { store with
      inflight := store.inflight.erase key
      events := store.events.set event true }

def checkConflict (store : Store) (key : KeyTuple) : Option String :=
  (store.items.keys.find? (fun other =>
    other.principalId = key.principalId ∧ other.route = key.route ∧ other.key = key.key ∧
      other.bodyHash ≠ key.bodyHash)).map KeyTuple.bodyHash

variable {store later : Store} {key other : KeyTuple} {now : Int} {entry : Entry}

theorem get_fst : (store.get key now).1 = some entry ↔
    store.items.get? key = some entry ∧ now < entry.expiresAt := by
  unfold get
  cases found : store.items.get? key with
  | none => simp
  | some held =>
    by_cases expired : held.expiresAt ≤ now
    · simp only [expired, if_true, reduceCtorEq, Option.some.injEq, false_iff, not_and, not_lt]
      rintro rfl
      exact expired
    · simp only [expired, if_false, Option.some.injEq]
      constructor
      · rintro rfl
        exact ⟨rfl, not_le.mp expired⟩
      · exact And.left

theorem get_frame (store : Store) (key : KeyTuple) (now : Int) :
    (store.get key now).2 = { store with items := (store.get key now).2.items } := by
  unfold get
  cases store.items.get? key with
  | none => rfl
  | some held => by_cases expired : held.expiresAt ≤ now <;> simp [expired]

theorem get_keeps (key : KeyTuple) (found : store.items.get? other = some entry)
    (unexpired : now < entry.expiresAt) :
    (store.get key now).2.items.get? other = some entry := by
  unfold get
  cases held : store.items.get? key with
  | none => exact found
  | some old =>
    by_cases expired : old.expiresAt ≤ now
    · have different : other ≠ key := by
        rintro rfl
        rw [held, Option.some.injEq] at found
        rw [found] at expired
        exact absurd expired (not_le.mpr unexpired)
      simp [expired, OrderedMap.get?_erase_other _ different, found]
    · simp [expired, OrderedMap.get?_moveToEnd, found]

theorem get_shrinks {held : KeyTuple × Entry}
    (member : held ∈ (store.get key now).2.items.entries) : held ∈ store.items.entries := by
  unfold get at member
  cases found : store.items.get? key with
  | none => rwa [found] at member
  | some old =>
    by_cases expired : old.expiresAt ≤ now
    · simp only [found, expired, if_true] at member
      exact (List.mem_filter.mp member).1
    · simp only [found, expired, if_false] at member
      exact OrderedMap.mem_entries_moveToEnd member

theorem purgeExpired_keeps (found : store.items.get? other = some entry)
    (unexpired : now < entry.expiresAt) :
    (store.purgeExpired now).items.get? other = some entry := by
  rw [OrderedMap.get?_eq_some_iff] at found ⊢
  exact List.mem_filter.mpr ⟨found, decide_eq_true unexpired⟩

/-- No entry of the key that has not expired is the oldest of a full store. -/
def Spares (store : Store) (key : KeyTuple) (now : Int) : Prop :=
  store.maxEntries ≤ store.items.entries.length →
    ∀ oldest ∈ store.items.entries.head?, oldest.1 = key → oldest.2.expiresAt ≤ now

instance (store : Store) (key : KeyTuple) (now : Int) : Decidable (store.Spares key now) :=
  inferInstanceAs (Decidable (_ → _))

def SparesAll (store : Store) (now : Int) : Prop :=
  store.maxEntries ≤ store.items.entries.length →
    ∀ oldest ∈ store.items.entries.head?, oldest.2.expiresAt ≤ now

instance (store : Store) (now : Int) : Decidable (store.SparesAll now) :=
  inferInstanceAs (Decidable (_ → _))

theorem SparesAll.spares (spared : store.SparesAll now) (key : KeyTuple) : store.Spares key now :=
  fun full oldest first _ => spared full oldest first

theorem makeRoom_frame (made : store.makeRoom = some later) :
    later = { store with items := later.items } := by
  unfold makeRoom at made
  split at made
  · split at made
    · cases made
    · cases made
      rfl
  · cases made
    rfl

theorem makeRoom_keeps (made : store.makeRoom = some later) (spared : store.Spares other now)
    (found : store.items.get? other = some entry) (unexpired : now < entry.expiresAt) :
    later.items.get? other = some entry := by
  unfold makeRoom at made
  split at made
  · next full =>
    split at made
    · cases made
    · cases made
      rw [OrderedMap.get?_popFirst ?_]
      · exact found
      · intro oldest first same
        have expired := spared full oldest first same
        have inside : (other, oldest.2) ∈ store.items.entries := by
          rw [← same]
          exact List.mem_of_mem_head? first
        rw [OrderedMap.get?_eq_some_iff.mpr inside, Option.some.injEq] at found
        rw [found] at expired
        exact absurd expired (not_le.mpr unexpired)
  · cases made
    exact found

section

variable {response : Response} (put : store.put key response now = some later)
include put

theorem put_frame : later = { store with items := later.items } := by
  obtain ⟨made, room, rfl⟩ := Option.map_eq_some_iff.mp put
  rw [makeRoom_frame room]

theorem put_self : later.items.get? key = some (entryOf response (now + store.ttl)) := by
  obtain ⟨made, room, rfl⟩ := Option.map_eq_some_iff.mp put
  rw [OrderedMap.get?_insert_self, makeRoom_frame room]

theorem put_keeps (different : other ≠ key) (spared : store.Spares other now)
    (found : store.items.get? other = some entry) (unexpired : now < entry.expiresAt) :
    later.items.get? other = some entry := by
  obtain ⟨made, room, rfl⟩ := Option.map_eq_some_iff.mp put
  rw [OrderedMap.get?_insert_other _ different]
  exact makeRoom_keeps room spared found unexpired

theorem put_entries {held : KeyTuple × Entry} (member : held ∈ later.items.entries) :
    (held ∈ store.items.entries ∧ held.1 ≠ key) ∨
      held = (key, entryOf response (now + store.ttl)) := by
  obtain ⟨made, room, rfl⟩ := Option.map_eq_some_iff.mp put
  have ttl : made.ttl = store.ttl := by rw [makeRoom_frame room]
  rcases OrderedMap.mem_entries_insert member with ⟨old, other⟩ | new
  · refine .inl ⟨?_, other⟩
    unfold makeRoom at room
    split at room
    · split at room
      · cases room
      · cases room
        exact List.mem_of_mem_tail old
    · cases room
      exact old
  · exact .inr (ttl ▸ new)

end

theorem checkConflict_isSome : (store.checkConflict key).isSome ↔
    ∃ held ∈ store.items.entries, held.1.principalId = key.principalId ∧
      held.1.route = key.route ∧ held.1.key = key.key ∧ held.1.bodyHash ≠ key.bodyHash := by
  simp only [checkConflict, Option.isSome_map, List.find?_isSome, decide_eq_true_eq,
    OrderedMap.keys, List.mem_map, exists_exists_and_eq_and]

theorem acquireOrWait_owner (store : Store) (key : KeyTuple) :
    (store.acquireOrWait key).1 = none ↔ key ∉ store.inflight.keys := by
  unfold acquireOrWait
  rw [← OrderedMap.get?_eq_none_iff]
  cases store.inflight.get? key <;> simp

theorem acquireOrWait_items (store : Store) (key : KeyTuple) :
    (store.acquireOrWait key).2.items = store.items ∧
      (store.acquireOrWait key).2.ttl = store.ttl := by
  unfold acquireOrWait
  cases store.inflight.get? key <;> exact ⟨rfl, rfl⟩

theorem acquireOrWait_slots (store : Store) (key : KeyTuple) :
    key ∈ (store.acquireOrWait key).2.inflight.keys ∧
      ∀ other ∈ store.inflight.keys, other ∈ (store.acquireOrWait key).2.inflight.keys := by
  unfold acquireOrWait
  cases found : store.inflight.get? key with
  | some event => exact ⟨OrderedMap.mem_keys_of_get? found, fun _ => id⟩
  | none =>
    refine ⟨OrderedMap.mem_keys_of_get? (OrderedMap.get?_insert_self _ _ _), ?_⟩
    intro other inside
    have absent := OrderedMap.get?_eq_none_iff.mp found
    rw [OrderedMap.keys, OrderedMap.entries_insert_of_not_mem absent, List.map_append]
    exact List.mem_append_left _ inside

theorem release_items (store : Store) (key : KeyTuple) :
    (store.release key).items = store.items ∧ (store.release key).ttl = store.ttl := by
  unfold release
  cases store.inflight.get? key <;> exact ⟨rfl, rfl⟩

theorem release_slots (store : Store) {key other : KeyTuple} (different : other ≠ key)
    (inside : other ∈ store.inflight.keys) : other ∈ (store.release key).inflight.keys := by
  unfold release
  cases store.inflight.get? key with
  | none => exact inside
  | some event => exact OrderedMap.mem_keys_erase.mpr ⟨inside, different⟩

end Store

def defaultTtl : Int := 24 * 60 * 60 * 1000000

def writeMethods : List String := ["POST", "PATCH", "DELETE"]

def anonymous : String := "anonymous"

/-- `request.state.principal_id`: a text, or an object with its `user_id`. -/
inductive StatePrincipal where
  | text (value : String)
  | object (userId : Option String)
  deriving DecidableEq, Repr

/-- The two headers that name a principal are stripped, and empty when they are absent. -/
structure Request where
  method : String
  path : String
  query : String
  idempotencyKey : Option String
  statePrincipal : Option StatePrincipal
  xActingPrincipal : String
  authorization : String
  body : Bytes
  deriving DecidableEq, Repr

section Sha

variable (sha : Sha256)

def headerPrincipal (request : Request) : String :=
  if request.xActingPrincipal ≠ "" then "acting:" ++ request.xActingPrincipal
  else if "Bearer ".toList <+: request.authorization.toList then
    let token := String.ofList (request.authorization.toList.drop 7)
    "admin:" ++ String.ofList ((Audit.hex (sha.sum token.toUTF8.toList)).toList.take 16)
  else anonymous

def principalId (request : Request) : String :=
  match request.statePrincipal with
  | some (.text value) => value
  | some (.object (some userId)) => if userId ≠ "" then userId else headerPrincipal sha request
  | some (.object none) => headerPrincipal sha request
  | none => headerPrincipal sha request

def keyTuple (request : Request) (key : String) : KeyTuple :=
  ⟨principalId sha request, request.path, key, Audit.hex (sha.sum request.body)⟩

end Sha

/-- What a request is answered with, or the exception that leaves `dispatch`. -/
inductive Outcome where
  | bypassed
  | payloadTooLarge
  | keyConflict
  | replayed (entry : Entry)
  | handled (response : Response)
  | raised
  deriving DecidableEq, Repr

/-- Where `dispatch` stands: before `check_conflict`, before `get`, before
`acquire_or_wait`, waiting for an event, inside the handler, before `release`, and at its
end. -/
inductive Phase where
  | arrived
  | checked
  | missed
  | waiting (event : Nat)
  | running
  | releasing (outcome : Outcome)
  | answered (outcome : Outcome)
  deriving DecidableEq, Repr

/-- A request with its key tuple; `succeeded` records when its handler run has returned a
2xx or 3xx response. -/
structure Call where
  request : Request
  tuple : Option KeyTuple
  phase : Phase
  succeeded : Option (Int × Response)
  deriving DecidableEq, Repr

structure System where
  store : Store
  maxBodyBytes : Nat
  clock : Int
  calls : List Call
  deriving DecidableEq

/-- `respond` ends a handler run with a response, or with an exception. -/
inductive Step where
  | tick (elapsed : Nat)
  | arrive (request : Request)
  | check (call : Nat)
  | lookup (call : Nat)
  | acquire (call : Nat)
  | wake (call : Nat)
  | respond (call : Nat) (result : Option Response)
  | release (call : Nat)
  | purge
  deriving DecidableEq, Repr

def arrival (sha : Sha256) (maxBodyBytes : Nat) (request : Request) : Call :=
  let bypassed := ⟨request, none, .answered .bypassed, none⟩
  if request.method ∉ writeMethods then bypassed
  else
    match request.idempotencyKey with
    | none => bypassed
    | some key =>
      if key = "" then bypassed
      else if principalId sha request = anonymous then bypassed
      else if maxBodyBytes < request.body.length then
        ⟨request, none, .answered .payloadTooLarge, none⟩
      else ⟨request, some (keyTuple sha request key), .arrived, none⟩

namespace System

def new (ttl maxEntries : Int) (maxBodyBytes : Nat) : System :=
  ⟨Store.new ttl maxEntries, maxBodyBytes, 0, []⟩

def moved (system : System) (index : Nat) (call : Call) (phase : Phase) (store : Store) : System :=
  { system with store := store, calls := system.calls.set index { call with phase := phase } }

def isSet (store : Store) (event : Nat) : Bool := store.events[event]?.getD false

/-- The end of a handler run: a 2xx or 3xx response is cached. -/
def respond (system : System) (index : Nat) (call : Call) (tuple : KeyTuple)
    (result : Option Response) : System :=
  match result with
  | none => system.moved index call (.releasing .raised) system.store
  | some response =>
    if response.statusCode < 400 then
      let call := { call with succeeded := some (system.clock, response) }
      match system.store.put tuple response system.clock with
      | none => system.moved index call (.releasing .raised) system.store
      | some store => system.moved index call (.releasing (.handled response.copied)) store
    else system.moved index call (.releasing (.handled response.copied)) system.store

def callStep (system : System) (index : Nat) (call : Call) (tuple : KeyTuple) :
    Step → Option System
  | .check _ =>
    if call.phase = .arrived then
      match system.store.checkConflict tuple with
      | some _ => some (system.moved index call (.answered .keyConflict) system.store)
      | none => some (system.moved index call .checked system.store)
    else none
  | .lookup _ =>
    if call.phase = .checked then
      match system.store.get tuple system.clock with
      | (some entry, store) => some (system.moved index call (.answered (.replayed entry)) store)
      | (none, store) => some (system.moved index call .missed store)
    else none
  | .acquire _ =>
    if call.phase = .missed then
      match system.store.acquireOrWait tuple with
      | (some event, store) => some (system.moved index call (.waiting event) store)
      | (none, store) => some (system.moved index call .running store)
    else none
  | .wake _ =>
    match call.phase with
    | .waiting event =>
      if isSet system.store event then
        match system.store.get tuple system.clock with
        | (some entry, store) =>
          some (system.moved index call (.answered (.replayed entry)) store)
        | (none, store) => some (system.moved index call .running store)
      else none
    | _ => none
  | .respond _ result =>
    if call.phase = .running then some (system.respond index call tuple result) else none
  | .release _ =>
    match call.phase with
    | .releasing outcome =>
      some (system.moved index call (.answered outcome) (system.store.release tuple))
    | _ => none
  | _ => none

end System

def Step.call? : Step → Option Nat
  | .check call => some call
  | .lookup call => some call
  | .acquire call => some call
  | .wake call => some call
  | .respond call _ => some call
  | .release call => some call
  | _ => none

/-- One step between two awaits, none when it is not the turn of its request. -/
def System.step (sha : Sha256) (system : System) (step : Step) : Option System :=
  match step with
  | .tick elapsed => some { system with clock := system.clock + elapsed }
  | .arrive request =>
    some { system with
      calls := system.calls ++ [arrival sha system.maxBodyBytes request] }
  | .purge => some { system with store := system.store.purgeExpired system.clock }
  | step => do
      let index ← step.call?
      let call ← system.calls[index]?
      let tuple ← call.tuple
      system.callStep index call tuple step

def samplePost (body : Bytes) : Request where
  method := "POST"
  path := "/v1/tasks"
  query := ""
  idempotencyKey := some "k"
  statePrincipal := some (.text "u1")
  xActingPrincipal := ""
  authorization := ""
  body := body

def started : System := System.new defaultTtl 10000 1048576

variable {sha : Sha256} {system later : System} {index : Nat} {call : Call} {phase : Phase}
  {store : Store}

theorem step_call {step : Step} (stepped : system.step sha step = some later)
    (turn : step.call? = some index) :
    ∃ call tuple, system.calls[index]? = some call ∧ call.tuple = some tuple ∧
      system.callStep index call tuple step = some later := by
  cases step <;> simp only [Step.call?, Option.some.injEq, reduceCtorEq] at turn
  all_goals
    subst turn
    simp only [System.step, Step.call?, Option.bind_eq_bind, Option.bind_eq_some_iff,
      Option.some.injEq, exists_eq_left'] at stepped
    obtain ⟨call, there, tuple, own, moved⟩ := stepped
    exact ⟨call, tuple, there, own, moved⟩

theorem moved_call (turn : system.calls[index]? = some call) {found : Call}
    (there : (system.moved index call phase store).calls[index]? = some found) :
    found = { call with phase := phase } := by
  change (system.calls.set index { call with phase := phase })[index]? = some found at there
  rw [List.getElem?_set_self (List.getElem?_eq_some_iff.mp turn).1, Option.some.injEq] at there
  exact there.symm

/-- A request that asks the cache is answered by what is there, or goes on. -/
inductive Consults (system : System) (index : Nat) (call : Call) (tuple : KeyTuple)
    (next : Phase) : System → Prop where
  | replays {entry : Entry} (got : (system.store.get tuple system.clock).1 = some entry) :
      Consults system index call tuple next
        (system.moved index call (.answered (.replayed entry))
          (system.store.get tuple system.clock).2)
  | misses (got : (system.store.get tuple system.clock).1 = none) :
      Consults system index call tuple next
        (system.moved index call next (system.store.get tuple system.clock).2)

theorem lookup_consults {tuple : KeyTuple} {n : Nat}
    (moved : system.callStep index call tuple (.lookup n) = some later) :
    Consults system index call tuple .missed later := by
  simp only [System.callStep] at moved
  split at moved
  · split at moved
    · next entry store found =>
      cases moved
      obtain rfl : _ = store := congrArg Prod.snd found
      exact .replays (congrArg Prod.fst found)
    · next store found =>
      cases moved
      obtain rfl : _ = store := congrArg Prod.snd found
      exact .misses (congrArg Prod.fst found)
  · cases moved

theorem wake_consults {tuple : KeyTuple} {n : Nat}
    (moved : system.callStep index call tuple (.wake n) = some later) :
    Consults system index call tuple .running later := by
  simp only [System.callStep] at moved
  split at moved
  · split at moved
    · split at moved
      · next entry store found =>
        cases moved
        obtain rfl : _ = store := congrArg Prod.snd found
        exact .replays (congrArg Prod.fst found)
      · next store found =>
        cases moved
        obtain rfl : _ = store := congrArg Prod.snd found
        exact .misses (congrArg Prod.fst found)
    · cases moved
  · cases moved

theorem Consults.got {tuple : KeyTuple} {entry : Entry} {found : Call}
    (consults : Consults system index call tuple phase later)
    (turn : system.calls[index]? = some call) (there : later.calls[index]? = some found)
    (answered : found.phase = .answered (.replayed entry))
    (on : phase ≠ .answered (.replayed entry)) :
    (system.store.get tuple system.clock).1 = some entry := by
  cases consults with
  | replays got =>
    obtain rfl := moved_call turn there
    obtain rfl := Outcome.replayed.inj (Phase.answered.inj answered)
    exact got
  | misses got =>
    obtain rfl := moved_call turn there
    exact absurd answered on

end HlHelper.Idempotency
