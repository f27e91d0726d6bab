import HlHelper.Outbox.Pending

/-! The outbox refines a bounded queue with unique ids, as long as the id counter
that `Open` rebuilds from the surviving keys stays above the ids already drawn. -/

namespace HlHelper.Outbox

open HlHelper.Library

def Options.Allowed (opts : Options) : Prop := 0 ≤ opts.maxEntries ∧ 0 ≤ opts.maxBytes

instance (opts : Options) : Decidable opts.Allowed := inferInstanceAs (Decidable (_ ∧ _))

section Outputs

variable (sha : Sha256) (aead : Aead)

def queueOp : Handle → Event → Option (Fifo.Op Sealed)
  | .opened o, .append payload nonce =>
    some (.append (append sha aead o nonce payload).2
      ⟨payload, newBlob sha aead o nonce payload⟩)
  | .opened _, .ack id => some (.ack id.toNat)
  | _, .reopen opts => some (.limit (limitsOf opts))
  | _, _ => none

def appendResult : Handle → Event → Option (Nat × Bytes)
  | .opened o, .append payload nonce => some ((append sha aead o nonce payload).2, payload)
  | _, _ => none

def history (h : Handle) (events : List Event) : List (Fifo.Op Sealed) :=
  outputs (step sha aead) (queueOp sha aead) h events

def returned (h : Handle) (events : List Event) : List (Nat × Bytes) :=
  outputs (step sha aead) (appendResult sha aead) h events

end Outputs

/-- The counter is above every id drawn when `Append` is called, and `Open` gets
caps that the empty outbox keeps to. -/
def CounterAhead : Handle → Event → Prop
  | .opened o, .append _ _ => lastID o.db < o.nextID
  | _, .reopen opts => opts.Allowed
  | _, _ => True

instance : ∀ h event, Decidable (CounterAhead h event)
  | .opened o, .append _ _ => inferInstanceAs (Decidable (lastID o.db < o.nextID))
  | .opened _, .reopen opts => inferInstanceAs (Decidable opts.Allowed)
  | .refused _ _, .reopen opts => inferInstanceAs (Decidable opts.Allowed)
  | .opened _, .appendFails => isTrue trivial
  | .opened _, .ack _ => isTrue trivial
  | .refused _ _, .append _ _ => isTrue trivial
  | .refused _ _, .appendFails => isTrue trivial
  | .refused _ _, .ack _ => isTrue trivial

def plain (entry : Nat × Sealed) : Nat × Bytes := (entry.1, entry.2.payload)

/-- What ties a file and its process to the abstract queue. -/
structure Refines (aead : Aead) (h : Handle) (f : Fifo Sealed) : Prop where
  held : Represents aead h.db f.waiting
  drawn : ∀ entry ∈ f.appended, entry.1 ≤ lastID h.db
  counter : ∀ o, h = .opened o → o.nextID < 2 ^ 64
  limits : ∀ o, h = .opened o → f.limits = limitsOf o.opts ∧ o.opts.Allowed

theorem init_lt {db : Db} {nextID : Nat} (opens : init db = .ok nextID) : nextID < 2 ^ 64 := by
  unfold init at opens
  split at opens
  · cases opens
  · cases opens
    split_ifs <;> omega

@[simp] theorem openDb_db (db : Db) (opts : Options) : (openDb db opts).db = db := by
  unfold openDb
  split <;> rfl

variable {sha : Sha256} {aead : Aead}

theorem refines_openDb {db : Db} {f : Fifo Sealed} {opts : Options} (allowed : opts.Allowed)
    (held : Represents aead db f.waiting) (drawn : ∀ entry ∈ f.appended, entry.1 ≤ lastID db) :
    Refines aead (openDb db opts) { f with limits := limitsOf opts } := by
  constructor
  · rw [openDb_db]
    exact held
  · rw [openDb_db]
    exact drawn
  · intro o opened
    unfold openDb at opened
    split at opened
    · next nextID opens =>
      cases opened
      exact init_lt opens
    · cases opened
  · intro o opened
    unfold openDb at opened
    split at opened
    · cases opened
      exact ⟨rfl, allowed⟩
    · cases opened

theorem refines_created {opts : Options} (allowed : opts.Allowed) :
    Refines aead (created opts) (Fifo.empty (limitsOf opts)) :=
  refines_openDb (f := Fifo.empty (limitsOf opts)) allowed Represents.empty (by simp [Fifo.empty])

theorem refines_append {o : Outbox} {f : Fifo Sealed} (payload : Bytes) (nonce : Nonce)
    (refines : Refines aead (.opened o) f) (ahead : lastID o.db < o.nextID) :
    ∃ g, Fifo.step Sealed.size f
        (.append o.nextID ⟨payload, newBlob sha aead o nonce payload⟩) = some g ∧
      Refines aead (.opened (append sha aead o nonce payload).1) g ∧
      g.appended.map plain = f.appended.map plain ++ [(o.nextID, payload)] := by
  have fresh : f.Fresh o.nextID := by
    intro entry member
    exact Nat.lt_of_le_of_lt (refines.drawn entry member) ahead
  have bound := refines.counter o rfl
  obtain ⟨sameLimits, allowed⟩ := refines.limits o rfl
  have last := lastID_append sha aead nonce payload bound
  refine ⟨_, by rw [Fifo.step, dif_pos fresh], ?_, ?_⟩
  · constructor
    · rw [Fifo.waiting_evictOldest, Fifo.waiting_push]
      have newest : ∀ item ∈ f.waiting, item.1 < o.nextID := by
        intro item member
        exact fresh item (Fifo.mem_waiting.mp member).1
      have held := @represents_append sha _ _ _ nonce payload refines.held bound newest
      rwa [← sameLimits] at held
    · intro entry member
      change entry ∈ f.appended ++ [(o.nextID, _)] at member
      change entry.1 ≤ lastID (append sha aead o nonce payload).1.db
      rw [last]
      rcases List.mem_append.mp member with old | new
      · exact (fresh entry old).le
      · rw [List.mem_singleton.mp new]
    · intro other opened
      cases opened
      exact Nat.mod_lt _ (by decide)
    · intro other opened
      cases opened
      exact ⟨sameLimits, allowed⟩
  · change (f.appended ++ [_]).map plain = _
    rw [List.map_append]
    rfl

theorem refines_ack {o : Outbox} {f : Fifo Sealed} {id : Nat} (small : id < 2 ^ 64)
    (refines : Refines aead (.opened o) f) :
    Refines aead (.opened { o with db := ack o.db id }) (f.ack id) := by
  have appended : (f.ack id).appended = f.appended := by
    unfold Fifo.ack
    split <;> rfl
  have limits : (f.ack id).limits = f.limits := by
    unfold Fifo.ack
    split <;> rfl
  constructor
  · rw [Fifo.waiting_ack]
    exact represents_ack small refines.held
  · intro entry member
    rw [appended] at member
    change entry.1 ≤ lastID (ack o.db id)
    rw [lastID_ack]
    exact refines.drawn entry member
  · intro other opened
    cases opened
    exact refines.counter o rfl
  · intro other opened
    cases opened
    rw [limits]
    exact refines.limits o rfl

theorem refines_step {h t : Handle} {f : Fifo Sealed} {event : Event}
    (refines : Refines aead h f) (ahead : CounterAhead h event)
    (stepped : step sha aead h event = some t) :
    ∃ g, run (Fifo.step Sealed.size) f (queueOp sha aead h event).toList = some g ∧
      Refines aead t g ∧
      g.appended.map plain =
        f.appended.map plain ++ (appendResult sha aead h event).toList := by
  cases h with
  | opened o =>
    cases event with
    | append payload nonce =>
      cases stepped
      obtain ⟨g, performed, next, appended⟩ := refines_append payload nonce refines ahead
      refine ⟨g, ?_, next, appended⟩
      exact run_cons_eq_some.mpr ⟨g, performed, rfl⟩
    | appendFails =>
      cases stepped
      refine ⟨f, rfl, ?_, (List.append_nil _).symm⟩
      refine ⟨refines.held, refines.drawn, ?_, ?_⟩
      · intro other opened
        cases opened
        exact Nat.mod_lt _ (by decide)
      · intro other opened
        cases opened
        exact refines.limits o rfl
    | ack id =>
      cases stepped
      refine ⟨f.ack id.toNat, rfl, refines_ack id.toNat_lt refines, ?_⟩
      have same : (f.ack id.toNat).appended = f.appended := by
        unfold Fifo.ack
        split <;> rfl
      rw [same]
      exact (List.append_nil _).symm
    | reopen opts =>
      cases stepped
      exact ⟨_, rfl, refines_openDb ahead refines.held refines.drawn, (List.append_nil _).symm⟩
  | refused db error =>
    cases event with
    | reopen opts =>
      cases stepped
      exact ⟨_, rfl, refines_openDb ahead refines.held refines.drawn, (List.append_nil _).symm⟩
    | append payload nonce => cases stepped
    | appendFails => cases stepped
    | ack id => cases stepped

theorem refines_run {h t : Handle} {f : Fifo Sealed} {events : List Event}
    (refines : Refines aead h f) (reached : run (step sha aead) h events = some t)
    (met : Meets (step sha aead) CounterAhead h events) :
    ∃ g, run (Fifo.step Sealed.size) f (history sha aead h events) = some g ∧
      Refines aead t g ∧
      g.appended.map plain = f.appended.map plain ++ returned sha aead h events := by
  induction events generalizing h f with
  | nil =>
    obtain rfl : h = t := by simpa [run] using reached
    exact ⟨f, rfl, refines, (List.append_nil _).symm⟩
  | cons event events ih =>
    obtain ⟨u, stepped, rest⟩ := run_cons_eq_some.mp reached
    obtain ⟨m, first, middle, some⟩ := refines_step refines met.1 stepped
    obtain ⟨g, later, last, more⟩ := ih middle rest (met.2 u stepped)
    refine ⟨g, ?_, last, ?_⟩
    · rw [history, outputs_cons stepped, run_append, first]
      exact later
    · rw [more, some, returned, returned, outputs_cons stepped, List.append_assoc]

theorem withinCaps_append {o : Outbox} {f : Fifo Sealed} (payload : Bytes) (nonce : Nonce)
    (refines : Refines aead (.opened o) f) (ahead : lastID o.db < o.nextID) :
    WithinCaps o.opts (append sha aead o nonce payload).1.db := by
  obtain ⟨sameLimits, allowed⟩ := refines.limits o rfl
  have newest : ∀ item ∈ f.waiting, item.1 < o.nextID := by
    intro item member
    exact Nat.lt_of_le_of_lt (refines.drawn item (Fifo.mem_waiting.mp member).1) ahead
  have held := @represents_append sha _ _ _ nonce payload refines.held
    (refines.counter o rfl) newest
  apply (held.withinCaps_iff o.opts).mpr
  exact Fifo.fits_trim Sealed.size _ allowed

theorem caps_after_append {opts : Options} (allowed : opts.Allowed) {earlier : List Event}
    {payload : Bytes} {nonce : Nonce} {o : Outbox}
    (reached : run (step sha aead) (created opts) (earlier ++ [.append payload nonce]) =
      some (.opened o))
    (met : Meets (step sha aead) CounterAhead (created opts)
      (earlier ++ [.append payload nonce])) : WithinCaps o.opts o.db := by
  rw [run_append, Option.bind_eq_some_iff] at reached
  obtain ⟨h, before, last⟩ := reached
  obtain ⟨metBefore, metLast⟩ := meets_append before met
  obtain ⟨f, -, refines, -⟩ := refines_run (refines_created allowed) before metBefore
  obtain ⟨t, stepped, done⟩ := run_cons_eq_some.mp last
  obtain rfl : t = .opened o := by simpa [run] using done
  cases h with
  | opened old =>
    cases stepped
    exact withinCaps_append payload nonce refines metLast.1
  | refused db error => cases stepped

/-- In every run in which the counter stays ahead, the ids that `Append` returns
increase, what waits is what was appended and neither acknowledged nor evicted,
`Peek` and `Len` answer from it, and only the oldest entries are evicted. -/
theorem outbox_refines_bounded_fifo (sha : Sha256) (aead : Aead) (opts : Options)
    (allowed : opts.Allowed) (events : List Event) (o : Outbox)
    (reached : run (step sha aead) (created opts) events = some (.opened o))
    (met : Meets (step sha aead) CounterAhead (created opts) events) :
    ((returned sha aead (created opts) events).map Prod.fst).Pairwise (fun a b => a < b) ∧
    (∃ f : Fifo Sealed,
      run (Fifo.step Sealed.size) (Fifo.empty (limitsOf opts))
        (history sha aead (created opts) events) = some f ∧
      f.appended.map plain = returned sha aead (created opts) events ∧
      (∀ n : Int, peek aead o.db n =
        .ok ((f.waiting.take n.toNat).map (fun item => ⟨item.1, item.2.payload⟩))) ∧
      len o.db = f.waiting.length ∧
      (∀ id ∈ f.evicted, ∀ entry ∈ f.waiting, id < entry.1)) ∧
    (∀ earlier payload nonce, events = earlier ++ [.append payload nonce] →
      WithinCaps o.opts o.db) := by
  obtain ⟨f, performed, refines, appended⟩ := refines_run (refines_created allowed) reached met
  have all : f.appended.map plain = returned sha aead (created opts) events := by
    simpa [Fifo.empty] using appended
  have held : Represents aead o.db f.waiting := refines.held
  refine ⟨?_, ⟨f, performed, all, held.peek_eq, held.len_eq, ?_⟩, ?_⟩
  · rw [← all, List.map_map, List.pairwise_map]
    exact f.increasing
  · intro id gone entry member
    obtain ⟨inside, unacked, kept⟩ := Fifo.mem_waiting.mp member
    exact f.evicted_oldest id gone entry inside unacked kept
  · intro earlier payload nonce shape
    subst shape
    exact caps_after_append allowed reached met

theorem refines_bounded_fifo_reopened :
    let events := [.append [1] zeroNonce, .append [2] zeroNonce, .ack 1, .reopen someCaps,
      .append [3] zeroNonce]
    ∃ o, run (step .head .plain) (created someCaps) events = some (.opened o) ∧
      ((returned .head .plain (created someCaps) events).map Prod.fst).Pairwise
        (fun a b => a < b) ∧ WithinCaps o.opts o.db := by
  refine ⟨_, rfl, ?_⟩
  have refined := outbox_refines_bounded_fifo .head .plain someCaps (by decide)
    [.append [1] zeroNonce, .append [2] zeroNonce, .ack 1, .reopen someCaps,
      .append [3] zeroNonce] _ rfl (by decide)
  refine ⟨refined.1, refined.2.2 [.append [1] zeroNonce, .append [2] zeroNonce, .ack 1,
    .reopen someCaps] [3] zeroNonce rfl⟩

/-- After the only entry was acknowledged and the file opened again, `Append`
returns the id it had returned before. -/
theorem ids_repeat_after_reopen :
    let events := [.append [1] zeroNonce, .ack 1, .reopen someCaps, .append [2] zeroNonce]
    (run (step .head .plain) (created someCaps) events).isSome = true ∧
      ¬ ((returned .head .plain (created someCaps) events).map Prod.fst).Pairwise
        (fun a b => a < b) := by
  decide

end HlHelper.Outbox
