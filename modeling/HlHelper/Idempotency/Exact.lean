import HlHelper.Audit.Text
import HlHelper.Idempotency.Middleware

/-! To whom a cached response is replayed, and when a key is in conflict, against the
history of the requests. -/

namespace HlHelper.Idempotency

open HlHelper.Library

/-- What stays of a request whatever `dispatch` does next. -/
structure Record where
  request : Request
  tuple : Option KeyTuple
  succeeded : Option (Int × Response)
  deriving DecidableEq, Repr

def Call.record (call : Call) : Record := ⟨call.request, call.tuple, call.succeeded⟩

def System.records (system : System) : List Record := system.calls.map Call.record

def Phase.inFlight : Phase → Bool
  | .checked | .missed | .waiting _ | .running | .releasing _ => true
  | _ => false

/-- The handler run of the request succeeded less than a TTL ago. -/
def Unexpired (system : System) (record : Record) : Prop :=
  ∃ success ∈ record.succeeded, system.clock < success.1 + system.store.ttl

/-- The response of the request is what the entry holds. -/
def Produced (system : System) (record : Record) (entry : Entry) : Prop :=
  ∃ success ∈ record.succeeded, entry = entryOf success.2 (success.1 + system.store.ttl)

section Sha

variable (sha : Sha256)

def SameRequest (first second : Request) : Prop :=
  principalId sha first = principalId sha second ∧ first.method = second.method ∧
    first.path = second.path ∧ first.query = second.query ∧ first.body = second.body

def OtherBody (first second : Request) : Prop :=
  principalId sha first = principalId sha second ∧ first.path = second.path ∧
    first.idempotencyKey = second.idempotencyKey ∧ first.body ≠ second.body

/-- A request with another body for the same principal, target and key is in flight or has
not expired. -/
def Contended (system : System) (request : Request) : Prop :=
  ∃ call ∈ system.calls, call.tuple.isSome ∧ OtherBody sha call.request request ∧
    call.request.query = request.query ∧ (call.phase.inFlight ∨ Unexpired system call.record)

/-- A replayed response has been produced, and every request that may have produced it was
the same and has not expired. -/
def ReplayedRightly (system : System) (call : Call) (entry : Entry) : Prop :=
  (∃ record ∈ system.records, record.tuple = call.tuple ∧ Produced system record entry) ∧
    ∀ record ∈ system.records, record.tuple = call.tuple → Produced system record entry →
      SameRequest sha record.request call.request ∧ Unexpired system record

def Answers (system : System) (step : Step) (index : Nat) (outcome : Outcome) : Prop :=
  ∃ later found, system.step sha step = some later ∧ later.calls[index]? = some found ∧
    found.phase = .answered outcome

/-- A conflict is found exactly when the history has one, and a response is replayed to the
request that it was produced for. -/
def AnswersExactly (system : System) : Step → Prop
  | .check index => ∀ call ∈ system.calls[index]?, (system.step sha (.check index)).isSome →
      (Answers sha system (.check index) index .keyConflict ↔ Contended sha system call.request)
  | .lookup index => ∀ call ∈ system.calls[index]?, ∀ entry,
      Answers sha system (.lookup index) index (.replayed entry) →
        ReplayedRightly sha system call entry
  | .wake index => ∀ call ∈ system.calls[index]?, ∀ entry,
      Answers sha system (.wake index) index (.replayed entry) →
        ReplayedRightly sha system call entry
  | _ => True

/-- No unexpired response under the key tuple is of another method, query or body. -/
def Unmixed (system : System) (call : Call) : Prop :=
  ∀ record ∈ system.records, record.tuple = call.tuple → Unexpired system record →
    record.request.method = call.request.method ∧ record.request.query = call.request.query ∧
      record.request.body = call.request.body

/-- The conflict scan meets no expired entry, no request of another body is in flight, and
the unexpired ones are of the same query and have another hash. -/
def Scanned (system : System) (call : Call) : Prop :=
  (∀ entry ∈ system.store.items.entries, ∀ key ∈ call.tuple,
    entry.1.principalId = key.principalId → entry.1.route = key.route → entry.1.key = key.key →
      entry.1.bodyHash ≠ key.bodyHash → system.clock < entry.2.expiresAt) ∧
  ∀ other ∈ system.calls, other.tuple.isSome → OtherBody sha other.request call.request →
    other.phase.inFlight = false ∧
      (Unexpired system other.record → other.request.query = call.request.query ∧
        sha.sum other.request.body ≠ sha.sum call.request.body)

def Sound (system : System) : Step → Prop
  | .check index => ∀ call ∈ system.calls[index]?, Scanned sha system call
  | .lookup index => ∀ call ∈ system.calls[index]?, Unmixed system call
  | .wake index => ∀ call ∈ system.calls[index]?, Unmixed system call
  | .respond _ (some response) => response.statusCode < 400 →
      system.store.makeRoom.isSome ∧ system.store.SparesAll system.clock
  | _ => True

instance (system : System) (record : Record) : Decidable (Unexpired system record) :=
  inferInstanceAs (Decidable (∃ success ∈ record.succeeded, _))

instance (first second : Request) : Decidable (OtherBody sha first second) :=
  inferInstanceAs (Decidable (_ ∧ _))

instance (system : System) (call : Call) : Decidable (Unmixed system call) :=
  inferInstanceAs (Decidable (∀ record ∈ system.records, _ → _ → _))

instance (system : System) (call : Call) : Decidable (Scanned sha system call) :=
  inferInstanceAs (Decidable (_ ∧ _))

instance (system : System) : DecidablePred (Sound sha system)
  | .check index => inferInstanceAs (Decidable (∀ call ∈ system.calls[index]?, _))
  | .lookup index => inferInstanceAs (Decidable (∀ call ∈ system.calls[index]?, _))
  | .wake index => inferInstanceAs (Decidable (∀ call ∈ system.calls[index]?, _))
  | .respond _ (some _) => inferInstanceAs (Decidable (_ → _))
  | .respond _ none => isTrue trivial
  | .tick _ => isTrue trivial
  | .arrive _ => isTrue trivial
  | .acquire _ => isTrue trivial
  | .release _ => isTrue trivial
  | .purge => isTrue trivial

end Sha

/-- The cache holds what has been produced, and every response that has not expired. -/
structure Recorded (sha : Sha256) (system : System) : Prop where
  produced : ∀ entry ∈ system.store.items.entries, ∃ record ∈ system.records,
    record.tuple = some entry.1 ∧ Produced system record entry.2
  kept : ∀ record ∈ system.records, ∀ key ∈ record.tuple, ∀ success ∈ record.succeeded,
    system.clock < success.1 + system.store.ttl →
      ∃ entry ∈ system.store.items.get? key, success.1 + system.store.ttl ≤ entry.expiresAt
  past : ∀ record ∈ system.records, ∀ success ∈ record.succeeded, success.1 ≤ system.clock
  keyed : ∀ record ∈ system.records, ∀ tuple ∈ record.tuple, ∃ key,
    record.request.idempotencyKey = some key ∧ tuple = keyTuple sha record.request key

variable {sha : Sha256} {system later : System} {index : Nat} {call : Call} {phase : Phase}
  {store : Store} {tuple : KeyTuple}

/-- A step that keeps the records, and of the cache all that has not expired. -/
structure Retains (system later : System) : Prop where
  records : later.records = system.records
  clock : system.clock ≤ later.clock
  ttl : later.store.ttl = system.store.ttl
  shrinks : ∀ entry ∈ later.store.items.entries, entry ∈ system.store.items.entries
  keeps : ∀ key entry, system.store.items.get? key = some entry → later.clock < entry.expiresAt →
    later.store.items.get? key = some entry

theorem Recorded.retained (recorded : Recorded sha system) (retains : Retains system later) :
    Recorded sha later where
  produced entry member := by
    obtain ⟨record, inside, own, success, succeeded, same⟩ :=
      recorded.produced entry (retains.shrinks entry member)
    refine ⟨record, retains.records ▸ inside, own, success, succeeded, ?_⟩
    rw [retains.ttl]
    exact same
  kept record inside key own success succeeded unexpired := by
    rw [retains.records] at inside
    rw [retains.ttl] at unexpired ⊢
    obtain ⟨entry, found, long⟩ := recorded.kept record inside key own success succeeded
      (lt_of_le_of_lt retains.clock unexpired)
    exact ⟨entry, retains.keeps key entry found (lt_of_lt_of_le unexpired long), long⟩
  past record inside success succeeded := by
    rw [retains.records] at inside
    exact (recorded.past record inside success succeeded).trans retains.clock
  keyed := by
    rw [retains.records]
    exact recorded.keyed

section

variable (turn : system.calls[index]? = some call)
include turn

theorem records_moved : (system.moved index call phase store).records = system.records := by
  obtain ⟨inside, same⟩ := List.getElem?_eq_some_iff.mp turn
  calc (system.moved index call phase store).records
      = (system.calls.map Call.record).set index call.record := List.map_set
    _ = (system.calls.set index call).map Call.record := List.map_set.symm
    _ = system.records := by
      rw [← same, List.set_getElem_self]
      rfl

theorem retains_moved (ttl : store.ttl = system.store.ttl)
    (shrinks : ∀ entry ∈ store.items.entries, entry ∈ system.store.items.entries)
    (keeps : ∀ key entry, system.store.items.get? key = some entry →
      system.clock < entry.expiresAt → store.items.get? key = some entry) :
    Retains system (system.moved index call phase store) where
  records := records_moved turn
  clock := le_refl _
  ttl := ttl
  shrinks := shrinks
  keeps := keeps

theorem retains_same (ttl : store.ttl = system.store.ttl)
    (items : store.items = system.store.items) :
    Retains system (system.moved index call phase store) :=
  retains_moved turn ttl (fun _ member => items ▸ member) (fun _ _ found _ => items ▸ found)

theorem retains_get (tuple : KeyTuple) :
    Retains system (system.moved index call phase (system.store.get tuple system.clock).2) := by
  refine retains_moved turn ?_ ?_ ?_
  · rw [Store.get_frame]
  · exact fun entry => Store.get_shrinks
  · exact fun _ _ found unexpired => Store.get_keeps tuple found unexpired

end

theorem retains_tick (elapsed : Nat) :
    Retains system { system with clock := system.clock + elapsed } where
  records := rfl
  clock := Int.le_add_of_nonneg_right (Int.natCast_nonneg elapsed)
  ttl := rfl
  shrinks _ member := member
  keeps _ _ found _ := found

theorem retains_purge :
    Retains system { system with store := system.store.purgeExpired system.clock } where
  records := rfl
  clock := le_refl _
  ttl := rfl
  shrinks _ member := (List.mem_filter.mp member).1
  keeps _ _ found unexpired := Store.purgeExpired_keeps found unexpired

theorem arrival_record (sha : Sha256) (maxBodyBytes : Nat) (request : Request) :
    (arrival sha maxBodyBytes request).succeeded = none ∧
      ∀ tuple ∈ (arrival sha maxBodyBytes request).tuple, ∃ key,
        (arrival sha maxBodyBytes request).request.idempotencyKey = some key ∧
          tuple = keyTuple sha (arrival sha maxBodyBytes request).request key := by
  simp only [arrival]
  split
  · exact ⟨rfl, by simp⟩
  · split
    · exact ⟨rfl, by simp⟩
    · next key present =>
      split_ifs
      · exact ⟨rfl, by simp⟩
      · exact ⟨rfl, by simp⟩
      · exact ⟨rfl, by simp⟩
      · refine ⟨rfl, ?_⟩
        intro tuple own
        exact ⟨key, present, (Option.some.inj own).symm⟩

theorem recorded_arrive (recorded : Recorded sha system) (request : Request) :
    Recorded sha
      { system with calls := system.calls ++ [arrival sha system.maxBodyBytes request] } := by
  obtain ⟨unsuccessful, keyed⟩ := arrival_record sha system.maxBodyBytes request
  have split : ∀ {record}, record ∈ System.records
      { system with calls := system.calls ++ [arrival sha system.maxBodyBytes request] } →
      record ∈ system.records ∨ record = (arrival sha system.maxBodyBytes request).record := by
    intro record member
    obtain ⟨call, inside, rfl⟩ := List.mem_map.mp member
    rcases List.mem_append.mp inside with old | new
    · exact .inl (List.mem_map_of_mem old)
    · exact .inr (congrArg Call.record (List.mem_singleton.mp new))
  exact
    { produced := by
        intro entry member
        obtain ⟨record, inside, own, made⟩ := recorded.produced entry member
        refine ⟨record, ?_, own, made⟩
        change record ∈ (system.calls ++ _).map Call.record
        rw [List.map_append]
        exact List.mem_append_left _ inside
      kept := by
        intro record member key own success succeeded unexpired
        rcases split member with old | rfl
        · exact recorded.kept record old key own success succeeded unexpired
        · rw [Call.record, unsuccessful] at succeeded
          cases succeeded
      past := by
        intro record member success succeeded
        rcases split member with old | rfl
        · exact recorded.past record old success succeeded
        · rw [Call.record, unsuccessful] at succeeded
          cases succeeded
      keyed := by
        intro record member
        rcases split member with old | rfl
        · exact recorded.keyed record old
        · exact keyed }

theorem mem_records_moved {changed : Call} {record : Record}
    (member : record ∈ (system.moved index changed phase store).records) :
    record ∈ system.records ∨ record = changed.record := by
  obtain ⟨found, inside, rfl⟩ := List.mem_map.mp member
  rcases List.mem_or_eq_of_mem_set inside with old | rfl
  · exact .inl (List.mem_map_of_mem old)
  · exact .inr rfl

theorem records_moved_other {changed : Call} {record : Record}
    (turn : system.calls[index]? = some call) (member : record ∈ system.records)
    (other : record.tuple ≠ call.tuple) :
    record ∈ (system.moved index changed phase store).records := by
  obtain ⟨found, inside, rfl⟩ := List.mem_map.mp member
  obtain ⟨place, there⟩ := List.getElem?_of_mem inside
  have different : index ≠ place := by
    rintro rfl
    rw [turn, Option.some.injEq] at there
    exact other (there ▸ rfl)
  refine List.mem_map_of_mem (List.mem_of_getElem? (i := place) ?_)
  change (system.calls.set index { changed with phase := phase })[place]? = some found
  rw [List.getElem?_set_ne different]
  exact there

theorem recorded_success (recorded : Recorded sha system)
    (turn : system.calls[index]? = some call) (own : call.tuple = some tuple)
    {response : Response} (put : system.store.put tuple response system.clock = some store)
    (spared : system.store.SparesAll system.clock) (outcome : Outcome) :
    Recorded sha (system.moved index
      { call with succeeded := some (system.clock, response) } (.releasing outcome) store) := by
  have ttl : store.ttl = system.store.ttl := by rw [Store.put_frame put]
  have callRecord : call.record ∈ system.records :=
    List.mem_map_of_mem (List.mem_of_getElem? turn)
  exact
    { produced := by
        intro entry member
        rcases Store.put_entries put member with ⟨old, other⟩ | rfl
        · obtain ⟨record, inside, theirs, success, succeeded, made⟩ := recorded.produced entry old
          refine ⟨record, records_moved_other turn inside ?_, theirs, success, succeeded, ?_⟩
          · rw [theirs, own]
            exact fun same => other (Option.some.inj same)
          · change entry.2 = entryOf success.2 (success.1 + store.ttl)
            rw [ttl]
            exact made
        · have inside := (List.getElem?_eq_some_iff.mp turn).1
          refine ⟨⟨call.request, call.tuple, some (system.clock, response)⟩, ?_, own,
            (system.clock, response), rfl, ?_⟩
          · exact List.mem_map.mpr ⟨_, List.mem_set inside _, rfl⟩
          · change entryOf response (system.clock + system.store.ttl) =
              entryOf response (system.clock + store.ttl)
            rw [ttl]
      kept := by
        intro record member key theirs success succeeded unexpired
        change system.clock < success.1 + store.ttl at unexpired
        change ∃ entry ∈ store.items.get? key, success.1 + store.ttl ≤ entry.expiresAt
        rw [ttl] at unexpired ⊢
        have stored := Store.put_self put
        rcases mem_records_moved member with old | rfl
        · by_cases same : key = tuple
          · subst same
            refine ⟨_, stored, ?_⟩
            have before := recorded.past record old success succeeded
            change success.1 + system.store.ttl ≤ system.clock + system.store.ttl
            omega
          · obtain ⟨entry, found, long⟩ := recorded.kept record old key theirs success succeeded
              unexpired
            exact ⟨entry, Store.put_keeps put same (spared.spares key) found
              (lt_of_lt_of_le unexpired long), long⟩
        · obtain rfl : (system.clock, response) = success := Option.some.inj succeeded
          obtain rfl : tuple = key := Option.some.inj (own.symm.trans theirs)
          exact ⟨_, stored, le_refl _⟩
      past := by
        intro record member success succeeded
        rcases mem_records_moved member with old | rfl
        · exact recorded.past record old success succeeded
        · obtain rfl : (system.clock, response) = success := Option.some.inj succeeded
          exact le_refl _
      keyed := by
        intro record member
        rcases mem_records_moved member with old | rfl
        · exact recorded.keyed record old
        · exact recorded.keyed call.record callRecord }

theorem recorded_respond (recorded : Recorded sha system)
    (turn : system.calls[index]? = some call) (own : call.tuple = some tuple) {n : Nat}
    {result : Option Response}
    (sound : ∀ response ∈ result, response.statusCode < 400 →
      system.store.makeRoom.isSome ∧ system.store.SparesAll system.clock)
    (moved : system.callStep index call tuple (.respond n result) = some later) :
    Recorded sha later := by
  simp only [System.callStep] at moved
  split at moved
  · cases moved
    cases result with
    | none => exact recorded.retained (retains_same turn rfl rfl)
    | some response =>
      by_cases success : response.statusCode < 400
      · obtain ⟨room, spared⟩ := sound response rfl success
        simp only [System.respond, success, if_true]
        cases put : system.store.put tuple response system.clock with
        | some store => exact recorded_success recorded turn own put spared _
        | none =>
          simp only [Store.put, Option.map_eq_none_iff] at put
          rw [put] at room
          cases room
      · simp only [System.respond, success, if_false]
        exact recorded.retained (retains_same turn rfl rfl)
  · cases moved

theorem retains_callStep (turn : system.calls[index]? = some call) {step : Step}
    (quiet : ∀ n result, step ≠ .respond n result)
    (moved : system.callStep index call tuple step = some later) : Retains system later := by
  have got : ∀ phase, Retains system
      (system.moved index call phase (system.store.get tuple system.clock).2) :=
    fun _ => retains_get turn tuple
  obtain ⟨acquired, acquiredTtl⟩ := Store.acquireOrWait_items system.store tuple
  cases step <;> simp only [System.callStep, reduceCtorEq] at moved
  case check n =>
    split at moved
    · split at moved <;> exact Option.some.inj moved ▸ retains_same turn rfl rfl
    · cases moved
  case lookup n =>
    split at moved
    · split at moved <;>
      · next found =>
        have retains := got
        rw [found] at retains
        exact Option.some.inj moved ▸ retains _
    · cases moved
  case acquire n =>
    split at moved
    · split at moved <;>
      · next found =>
        rw [found] at acquired acquiredTtl
        exact Option.some.inj moved ▸ retains_same turn acquiredTtl acquired
    · cases moved
  case wake n =>
    split at moved
    · split at moved
      · split at moved <;>
        · next found =>
          have retains := got
          rw [found] at retains
          exact Option.some.inj moved ▸ retains _
      · cases moved
    · cases moved
  case respond n result => exact absurd rfl (quiet n result)
  case release n =>
    obtain ⟨items, ttl⟩ := Store.release_items system.store tuple
    split at moved
    · exact Option.some.inj moved ▸ retains_same turn ttl items
    · cases moved

theorem recorded_step (recorded : Recorded sha system) {step : Step}
    (sound : Sound sha system step) (stepped : system.step sha step = some later) :
    Recorded sha later := by
  have quiet : ∀ index, step.call? = some index → (∀ n result, step ≠ .respond n result) →
      Recorded sha later := by
    intro index turnIs quiet
    obtain ⟨call, tuple, turn, own, moved⟩ := step_call stepped turnIs
    exact recorded.retained (retains_callStep turn quiet moved)
  cases step with
  | tick elapsed => exact recorded.retained (Option.some.inj stepped ▸ retains_tick elapsed)
  | arrive request => exact Option.some.inj stepped ▸ recorded_arrive recorded request
  | purge => exact recorded.retained (Option.some.inj stepped ▸ retains_purge)
  | respond index result =>
    obtain ⟨call, tuple, turn, own, moved⟩ := step_call stepped rfl
    refine recorded_respond recorded turn own ?_ moved
    rintro response rfl success
    exact sound success
  | _ => exact quiet _ rfl (by simp)

theorem Produced.unexpired {record : Record} {entry : Entry}
    (produced : Produced system record entry) (valid : system.clock < entry.expiresAt) :
    Unexpired system record := by
  obtain ⟨success, succeeded, rfl⟩ := produced
  exact ⟨success, succeeded, valid⟩

theorem replayedRightly (recorded : Recorded sha system)
    (turn : system.calls[index]? = some call) (own : call.tuple = some tuple)
    (unmixed : Unmixed system call) {entry : Entry}
    (hit : (system.store.get tuple system.clock).1 = some entry) :
    ReplayedRightly sha system call entry := by
  obtain ⟨found, valid⟩ := Store.get_fst.mp hit
  obtain ⟨key, -, callTuple⟩ := recorded.keyed call.record
    (List.mem_map_of_mem (List.mem_of_getElem? turn)) tuple own
  constructor
  · obtain ⟨record, inside, theirs, produced⟩ :=
      recorded.produced _ (OrderedMap.get?_eq_some_iff.mp found)
    exact ⟨record, inside, theirs.trans own.symm, produced⟩
  · intro record inside theirs produced
    have unexpired := produced.unexpired valid
    obtain ⟨method, query, body⟩ := unmixed record inside theirs unexpired
    obtain ⟨other, -, recordTuple⟩ := recorded.keyed record inside tuple (theirs.trans own)
    have same : keyTuple sha record.request other = keyTuple sha call.request key :=
      recordTuple.symm.trans callTuple
    exact ⟨⟨congrArg KeyTuple.principalId same, method, congrArg KeyTuple.route same, query, body⟩,
      unexpired⟩

theorem contended_of_conflict (recorded : Recorded sha system)
    (turn : system.calls[index]? = some call) (own : call.tuple = some tuple)
    (scanned : Scanned sha system call) (conflict : (system.store.checkConflict tuple).isSome) :
    Contended sha system call.request := by
  obtain ⟨entry, member, principal, route, keys, hash⟩ := Store.checkConflict_isSome.mp conflict
  have valid := scanned.1 entry member tuple own principal route keys hash
  obtain ⟨record, inside, theirs, produced⟩ := recorded.produced entry member
  obtain ⟨other, present, otherTuple⟩ := recorded.keyed record inside entry.1 theirs
  obtain ⟨key, callKey, rfl⟩ := recorded.keyed call.record
    (List.mem_map_of_mem (List.mem_of_getElem? turn)) tuple own
  obtain ⟨rival, place, rfl⟩ := List.mem_map.mp inside
  rw [otherTuple] at principal route keys hash
  have sameKey : rival.request.idempotencyKey = call.request.idempotencyKey := by
    have equal : other = key := keys
    rw [equal] at present
    exact present.trans callKey.symm
  have otherBody : OtherBody sha rival.request call.request :=
    ⟨principal, route, sameKey,
      fun same => hash (congrArg (fun body => Audit.hex (sha.sum body)) same)⟩
  have unexpired := produced.unexpired valid
  have keyed : rival.tuple.isSome := Option.isSome_iff_exists.mpr ⟨_, theirs⟩
  obtain ⟨-, query⟩ := scanned.2 rival place keyed otherBody
  exact ⟨rival, place, keyed, otherBody, (query unexpired).1, .inr unexpired⟩

theorem conflict_of_contended (recorded : Recorded sha system)
    (turn : system.calls[index]? = some call) (own : call.tuple = some tuple)
    (scanned : Scanned sha system call) (contended : Contended sha system call.request) :
    (system.store.checkConflict tuple).isSome := by
  obtain ⟨rival, place, keyed, otherBody, -, standing⟩ := contended
  obtain ⟨idle, hashes⟩ := scanned.2 rival place keyed otherBody
  have unexpired : Unexpired system rival.record := by
    rcases standing with flying | unexpired
    · rw [idle] at flying
      exact absurd flying Bool.false_ne_true
    · exact unexpired
  obtain ⟨success, succeeded, valid⟩ := unexpired
  obtain ⟨theirs, theirTuple⟩ := Option.isSome_iff_exists.mp keyed
  have inside : rival.record ∈ system.records := List.mem_map_of_mem place
  obtain ⟨entry, found, -⟩ := recorded.kept _ inside theirs theirTuple success succeeded valid
  obtain ⟨other, present, rfl⟩ := recorded.keyed _ inside theirs theirTuple
  obtain ⟨key, callKey, rfl⟩ := recorded.keyed call.record
    (List.mem_map_of_mem (List.mem_of_getElem? turn)) tuple own
  obtain ⟨principal, route, keys, -⟩ := otherBody
  have sameKey : other = key := by
    have equal := present.symm.trans (keys.trans callKey)
    exact Option.some.inj equal
  refine Store.checkConflict_isSome.mpr ⟨_, OrderedMap.get?_eq_some_iff.mp found, principal, route,
    sameKey, ?_⟩
  intro same
  exact (hashes ⟨success, succeeded, valid⟩).2 (Audit.hex_injective same)

theorem answers_call {step : Step} {outcome : Outcome}
    (turn : system.calls[index]? = some call) (turnIs : step.call? = some index)
    (answers : Answers sha system step index outcome) :
    ∃ tuple later found, call.tuple = some tuple ∧
      system.callStep index call tuple step = some later ∧
        later.calls[index]? = some found ∧ found.phase = .answered outcome := by
  obtain ⟨later, found, stepped, there, answered⟩ := answers
  obtain ⟨same, tuple, place, own, moved⟩ := step_call stepped turnIs
  obtain rfl : call = same := Option.some.inj (turn.symm.trans place)
  exact ⟨tuple, later, found, own, moved, there, answered⟩

theorem answers_check (turn : system.calls[index]? = some call)
    (enabled : (system.step sha (.check index)).isSome) :
    ∃ tuple, call.tuple = some tuple ∧
      (Answers sha system (.check index) index .keyConflict ↔
        (system.store.checkConflict tuple).isSome) := by
  obtain ⟨later, stepped⟩ := Option.isSome_iff_exists.mp enabled
  obtain ⟨same, tuple, place, own, moved⟩ := step_call stepped rfl
  obtain rfl : call = same := Option.some.inj (turn.symm.trans place)
  have inside := (List.getElem?_eq_some_iff.mp turn).1
  refine ⟨tuple, own, ?_⟩
  simp only [System.callStep] at moved
  split at moved
  · split at moved
    · next hash conflict =>
      cases moved
      refine iff_of_true ⟨_, _, stepped, List.getElem?_set_self inside, rfl⟩ ?_
      rw [conflict]
      rfl
    · next conflict =>
      cases moved
      refine iff_of_false ?_ ?_
      · rintro ⟨other, found, again, there, answered⟩
        obtain rfl := Option.some.inj (stepped.symm.trans again)
        obtain rfl := moved_call turn there
        cases answered
      · rw [conflict]
        exact Bool.false_ne_true
  · cases moved

theorem answersExactly_step (recorded : Recorded sha system) {step : Step}
    (sound : Sound sha system step) : AnswersExactly sha system step := by
  cases step with
  | check index =>
    intro call turn enabled
    have scanned := sound call turn
    obtain ⟨tuple, own, answers⟩ := answers_check turn enabled
    rw [answers]
    exact ⟨contended_of_conflict recorded turn own scanned,
      conflict_of_contended recorded turn own scanned⟩
  | lookup index =>
    intro call turn entry answers
    obtain ⟨tuple, later, found, own, moved, there, answered⟩ := answers_call turn rfl answers
    exact replayedRightly recorded turn own (sound call turn)
      ((lookup_consults moved).got turn there answered nofun)
  | wake index =>
    intro call turn entry answers
    obtain ⟨tuple, later, found, own, moved, there, answered⟩ := answers_call turn rfl answers
    exact replayedRightly recorded turn own (sound call turn)
      ((wake_consults moved).got turn there answered nofun)
  | _ => trivial

theorem recorded_new (sha : Sha256) (ttl maxEntries : Int) (maxBodyBytes : Nat) :
    Recorded sha (System.new ttl maxEntries maxBodyBytes) where
  produced := by simp [System.new, Store.new, OrderedMap.empty]
  kept := by simp [System.new, System.records]
  past := by simp [System.new, System.records]
  keyed := by simp [System.new, System.records]

/-- In a run whose scans meet no expired entry and no request in flight, whose cached
responses are asked for by no other method, query or body, and which evicts none that has
not expired, every conflict and every replay is right. -/
theorem replay_and_conflict_exact (sha : Sha256) (ttl maxEntries : Int) (maxBodyBytes : Nat)
    {steps : List Step}
    (finishes : (run (System.step sha) (System.new ttl maxEntries maxBodyBytes) steps).isSome)
    (sound : Meets (System.step sha) (Sound sha) (System.new ttl maxEntries maxBodyBytes) steps) :
    Meets (System.step sha) (AnswersExactly sha) (System.new ttl maxEntries maxBodyBytes) steps :=
  meets_of_keeps (fun _ _ _ holds met stepped => recorded_step holds met stepped)
    (fun _ _ _ holds met _ => answersExactly_step holds met)
    (recorded_new sha ttl maxEntries maxBodyBytes) finishes sound

def repeated : List Step :=
  [.arrive (samplePost [1]), .check 0, .lookup 0, .acquire 0, .respond 0 (some ⟨201, [], []⟩),
    .release 0, .tick 1000000, .arrive (samplePost [1]), .check 1, .lookup 1,
    .arrive (samplePost [2]), .check 2]

theorem repetition_replayed_and_other_body_in_conflict :
    ((run (System.step .head) started repeated).map (fun system => system.calls.map Call.phase)) =
        some [.answered (.handled ⟨201, [], []⟩),
          .answered (.replayed (entryOf ⟨201, [], []⟩ defaultTtl)), .answered .keyConflict] ∧
      Meets (System.step .head) (AnswersExactly .head) started repeated :=
  ⟨by decide, replay_and_conflict_exact .head defaultTtl 10000 1048576 (by decide) (by decide)⟩

def inFlightOther : List Step :=
  [.arrive (samplePost [1]), .check 0, .lookup 0, .acquire 0, .arrive (samplePost [2])]

def otherArrived : System := (run (System.step .head) started inFlightOther).getD started

instance (sha : Sha256) (system : System) (request : Request) :
    Decidable (Contended sha system request) :=
  inferInstanceAs (Decidable (∃ call ∈ system.calls, _))

theorem conflict_in_flight_missed :
    ¬ ∀ steps : List Step, (run (System.step .head) started steps).isSome →
      Meets (System.step .head) (AnswersExactly .head) started steps := by
  intro claimed
  have reached : run (System.step .head) started inFlightOther = some otherArrived := by decide
  have met := claimed (inFlightOther ++ [.check 1]) (by decide)
  have right := ((meets_append reached met).2).1
  obtain ⟨call, turn⟩ : ∃ call, otherArrived.calls[1]? = some call := ⟨_, rfl⟩
  have contended : Contended .head otherArrived call.request := by
    cases turn
    decide
  have enabled : (System.step .head otherArrived (.check 1)).isSome := by decide
  obtain ⟨tuple, own, answers⟩ := answers_check turn enabled
  have conflict := answers.mp ((right call turn enabled).mpr contended)
  have unseen : otherArrived.store.checkConflict tuple = none := by
    cases turn
    cases own
    decide
  rw [unseen] at conflict
  cases conflict

end HlHelper.Idempotency
