import HlHelper.Outbox.Refinement

/-! The outbox as its callers see it: numbered contents, oldest first. -/

namespace HlHelper.Outbox

open HlHelper.Library

structure Queue (α : Type) where
  items : List (Nat × α)
  nextID : Nat
  increasing : items.Pairwise (fun first second => first.1 < second.1)
  fresh : ∀ item ∈ items, item.1 < nextID

namespace Queue

variable {α : Type}

def empty : Queue α where
  items := []
  nextID := 1
  increasing := List.Pairwise.nil
  fresh := by simp

/-- `Append`, which evicts the given number of the oldest entries. -/
def append (q : Queue α) (content : α) (evicted : Nat) : Queue α where
  items := (q.items ++ [(q.nextID, content)]).drop evicted
  nextID := q.nextID + 1
  increasing := by
    apply List.Pairwise.sublist (List.drop_sublist _ _)
    apply List.pairwise_append.mpr
    refine ⟨q.increasing, List.pairwise_singleton _ _, ?_⟩
    intro item old other new
    rw [List.mem_singleton.mp new]
    exact q.fresh item old
  fresh := by
    intro item member
    rcases List.mem_append.mp (List.mem_of_mem_drop member) with old | new
    · exact Nat.lt_succ_of_lt (q.fresh item old)
    · rw [List.mem_singleton.mp new]
      exact Nat.lt_succ_self _

/-- An `Append` that fails after it drew its id. -/
def skip (q : Queue α) : Queue α :=
  { q with
    nextID := q.nextID + 1
    fresh := fun item member => Nat.lt_succ_of_lt (q.fresh item member) }

def ack (q : Queue α) (id : Nat) : Queue α where
  items := q.items.filter (fun item => item.1 ≠ id)
  nextID := q.nextID
  increasing := q.increasing.filter _
  fresh := fun item member => q.fresh item (List.mem_filter.mp member).1

def peek (q : Queue α) (n : Nat) : List (Nat × α) := q.items.take n

def nextOf : List (Nat × α) → Nat
  | [] => 1
  | [item] => item.1 + 1
  | _ :: item :: rest => nextOf (item :: rest)

theorem lt_nextOf {items : List (Nat × α)}
    (increasing : items.Pairwise (fun first second => first.1 < second.1)) :
    ∀ item ∈ items, item.1 < nextOf items := by
  induction items with
  | nil => simp
  | cons first rest ih =>
    obtain ⟨before, ordered⟩ := List.pairwise_cons.mp increasing
    cases rest with
    | nil => simp [nextOf]
    | cons second rest =>
      intro item member
      rcases List.mem_cons.mp member with same | later
      · rw [same]
        exact (before second List.mem_cons_self).trans (ih ordered second List.mem_cons_self)
      · exact ih ordered item later

/-- The queue after `Close`, or the end of the process, and `Open`. -/
def reopen (q : Queue α) : Queue α :=
  { q with nextID := nextOf q.items, fresh := lt_nextOf q.increasing }

theorem mem_ack {q : Queue α} {id : Nat} {item : Nat × α} :
    item ∈ (q.ack id).items ↔ item ∈ q.items ∧ item.1 ≠ id := by
  simp [ack]

theorem mem_append {q : Queue α} {content : α} {evicted : Nat} {item : Nat × α}
    (member : item ∈ (q.append content evicted).items) :
    item ∈ q.items ∨ item = (q.nextID, content) := by
  simpa using List.mem_append.mp (List.mem_of_mem_drop member)

theorem content_eq {q : Queue α} {id : Nat} {first second : α} (left : (id, first) ∈ q.items)
    (right : (id, second) ∈ q.items) : first = second := by
  have distinct : (q.items.map Prod.fst).Nodup := by
    apply List.pairwise_map.mpr
    exact q.increasing.imp (fun less => Nat.ne_of_lt less)
  exact (Prod.mk.inj (key_injective distinct left right rfl)).2

end Queue

section Stores

variable {α : Type}

structure Stores (aead : Aead) (encode : α → Bytes) (o : Outbox) (q : Queue α) : Prop where
  held : ∃ items, Represents aead o.db items ∧
    items.map plain = q.items.map (fun item => (item.1, encode item.2))
  counter : o.nextID = q.nextID

variable {sha : Sha256} {aead : Aead} {encode : α → Bytes} {o : Outbox} {q : Queue α}

theorem ids_of_plain {items : List (Nat × Sealed)}
    (same : items.map plain = q.items.map (fun item => (item.1, encode item.2))) :
    items.map Prod.fst = q.items.map Prod.fst := by
  have ids := congrArg (List.map Prod.fst) same
  simpa [List.map_map, Function.comp_def, plain] using ids

theorem stores_created {opts : Options} (opened : created opts = .opened o) :
    Stores aead encode o (Queue.empty (α := α)) := by
  have shape : created opts = .opened ⟨default, opts, 1⟩ := rfl
  rw [shape] at opened
  cases opened
  exact ⟨⟨[], Represents.empty, rfl⟩, rfl⟩

section

variable (stored : Stores aead encode o q)
include stored

theorem stores_append (nonce : Nonce) (content : α) (bound : q.nextID + 1 < 2 ^ 64) :
    ∃ evicted, Stores aead encode (append sha aead o nonce (encode content)).1
      (q.append content evicted) := by
  obtain ⟨items, held, same⟩ := stored.held
  have ids := ids_of_plain same
  have newest : ∀ item ∈ items, item.1 < o.nextID := by
    intro item member
    have inside : item.1 ∈ q.items.map Prod.fst := by
      rw [← ids]
      exact List.mem_map_of_mem member
    obtain ⟨other, present, equal⟩ := List.mem_map.mp inside
    rw [stored.counter, ← equal]
    exact q.fresh other present
  have small : o.nextID < 2 ^ 64 := by
    rw [stored.counter]
    omega
  have next := @represents_append sha _ _ _ nonce (encode content) held small newest
  obtain ⟨front, whole⟩ := Fifo.trim_suffix Sealed.size (limitsOf o.opts)
    (items ++ [(o.nextID, ⟨encode content, newBlob sha aead o nonce (encode content)⟩)])
  refine ⟨front.length, ⟨⟨_, next, ?_⟩, ?_⟩⟩
  · have kept := congrArg (List.drop front.length) whole
    rw [List.drop_left] at kept
    rw [kept, List.map_drop, List.map_append, same, Queue.append, List.map_drop, List.map_append,
      stored.counter]
    rfl
  · change (o.nextID + 1) % 2 ^ 64 = q.nextID + 1
    rw [stored.counter]
    exact Nat.mod_eq_of_lt bound

theorem stores_appendFails (bound : q.nextID + 1 < 2 ^ 64) :
    Stores aead encode (appendFails o) q.skip := by
  refine ⟨stored.held, ?_⟩
  change (o.nextID + 1) % 2 ^ 64 = q.nextID + 1
  rw [stored.counter]
  exact Nat.mod_eq_of_lt bound

theorem stores_ack {id : Nat} (small : id < 2 ^ 64) :
    Stores aead encode { o with db := ack o.db id } (q.ack id) := by
  obtain ⟨items, held, same⟩ := stored.held
  refine ⟨⟨_, represents_ack small held, ?_⟩, stored.counter⟩
  have left : (items.filter (fun item => item.1 ≠ id)).map plain =
      (items.map plain).filter (fun entry => entry.1 ≠ id) := by
    rw [List.filter_map]
    rfl
  rw [left, same, List.filter_map]
  rfl

theorem stores_peek (n : Int) : peek aead o.db n =
      .ok ((q.peek n.toNat).map (fun item => ⟨item.1, encode item.2⟩)) := by
  obtain ⟨items, held, same⟩ := stored.held
  have entries : ∀ listed : List (Nat × Sealed),
      listed.map (fun item => (⟨item.1, item.2.payload⟩ : Entry)) =
        (listed.map plain).map (fun entry => ⟨entry.1, entry.2⟩) := by
    intro listed
    simp [plain]
  rw [held.peek_eq, entries, List.map_take, same, Queue.peek, ← List.map_take, List.map_map]
  rfl

end

theorem maxID_eq {db : Db} {items : List (Nat × Sealed)} (held : Represents aead db items) :
    maxID db = (items.getLast?.map Prod.fst).getD 0 := by
  have last :
      db.outbox.last? = items.getLast?.map (fun item => (putUint64 item.1, item.2.blob)) := by
    rw [Bucket.last?, held.entries, List.getLast?_map]
  rw [maxID, last]
  cases newest : items.getLast? with
  | none => rfl
  | some item =>
    have small := held.bounded item (List.mem_of_getLast? newest)
    simp [uint64_putUint64 small]

theorem nextOf_eq (items : List (Nat × α)) :
    Queue.nextOf items = (items.getLast?.map (fun item => item.1 + 1)).getD 1 := by
  induction items with
  | nil => rfl
  | cons first rest ih =>
    cases rest with
    | nil => rfl
    | cons second rest =>
      rw [Queue.nextOf, ih, List.getLast?_cons_cons]

theorem stores_openDb {other : Outbox} (stored : Stores aead encode o q) {opts : Options}
    (bound : q.nextID < 2 ^ 64) (positive : ∀ item ∈ q.items, 0 < item.1)
    (opened : openDb o.db opts = .opened other) : Stores aead encode other q.reopen := by
  obtain ⟨items, held, same⟩ := stored.held
  have newest : items.getLast?.map Prod.fst = q.items.getLast?.map Prod.fst := by
    rw [← List.getLast?_map, ← List.getLast?_map, ids_of_plain same]
  unfold openDb at opened
  split at opened
  · next nextID opens =>
    cases opened
    refine ⟨⟨items, held, same⟩, ?_⟩
    unfold init at opens
    split at opens
    · cases opens
    · cases opens
      change _ = Queue.nextOf q.items
      rw [maxID_eq held, newest, nextOf_eq]
      cases last : q.items.getLast? with
      | none => rfl
      | some item =>
        have inside := List.mem_of_getLast? last
        have above := positive item inside
        have below := q.fresh item inside
        simp only [Option.map_some, Option.getD_some, if_pos above]
        rw [Nat.mod_eq_of_lt (by omega), if_neg (by omega)]
  · cases opened

section Runs

/-- Calls of the API with contents in place of payloads. -/
inductive Call (α : Type) where
  | append (content : α) (nonce : Nonce)
  | appendFails
  | ack (id : UInt64)
  | reopen (opts : Options)

def Call.event (encode : α → Bytes) : Call α → Event
  | .append content nonce => .append (encode content) nonce
  | .appendFails => .appendFails
  | .ack id => .ack id
  | .reopen opts => .reopen opts

/-- What a call does to the queue. How many entries an `Append` evicts depends on the
caps, which the queue does not have. -/
inductive Queue.Performs (q : Queue α) : Call α → Queue α → Prop
  | append {content : α} {nonce : Nonce} (evicted : Nat) :
      q.Performs (.append content nonce) (q.append content evicted)
  | appendFails : q.Performs .appendFails q.skip
  | ack {id : UInt64} : q.Performs (.ack id) (q.ack id.toNat)
  | reopen {opts : Options} : q.Performs (.reopen opts) q.reopen

/-- There is an id for the call to draw, and one after it. -/
def IdLeft : Handle → Call α → Prop
  | .opened o, .append _ _ | .opened o, .appendFails => o.nextID + 1 < 2 ^ 64
  | _, _ => True

/-- The file holds the queue, whether or not `Open` refused it. -/
structure Holds (aead : Aead) (encode : α → Bytes) (h : Handle) (q : Queue α) : Prop where
  stored : ∃ o, Stores aead encode o q ∧ o.db = h.db ∧ ∀ p, h = .opened p → p = o
  positive : ∀ item ∈ q.items, 0 < item.1
  next : 0 < q.nextID
  small : q.nextID < 2 ^ 64

theorem Stores.holds (stored : Stores aead encode o q) (positive : ∀ item ∈ q.items, 0 < item.1)
    (next : 0 < q.nextID) (small : q.nextID < 2 ^ 64) : Holds aead encode (.opened o) q where
  stored := ⟨o, stored, rfl, fun _ same => (Handle.opened.inj same).symm⟩
  positive := positive
  next := next
  small := small

theorem Holds.stores (holds : Holds aead encode (.opened o) q) : Stores aead encode o q := by
  obtain ⟨p, stored, _, only⟩ := holds.stored
  rw [only o rfl]
  exact stored

theorem holds_created {opts : Options} (opened : created opts = .opened o) :
    Holds aead encode (.opened o) (Queue.empty (α := α)) := by
  apply (stores_created opened).holds
  · simp [Queue.empty]
  · exact Nat.one_pos
  · simp [Queue.empty]

theorem Queue.nextOf_le (q : Queue α) (next : 0 < q.nextID) :
    0 < Queue.nextOf q.items ∧ Queue.nextOf q.items ≤ q.nextID := by
  rw [nextOf_eq]
  cases last : q.items.getLast? with
  | none => exact ⟨Nat.one_pos, next⟩
  | some item => exact ⟨Nat.succ_pos _, q.fresh item (List.mem_of_getLast? last)⟩

theorem Holds.reopen {h : Handle} (holds : Holds aead encode h q) (opts : Options) :
    Holds aead encode (openDb h.db opts) q.reopen := by
  obtain ⟨o, stored, same, _⟩ := holds.stored
  obtain ⟨above, below⟩ := q.nextOf_le holds.next
  have small : q.reopen.nextID < 2 ^ 64 := Nat.lt_of_le_of_lt below holds.small
  rw [← same]
  cases opened : openDb o.db opts with
  | opened other =>
    have next := stores_openDb stored holds.small holds.positive opened
    exact next.holds holds.positive above small
  | refused db error =>
    have file : db = o.db := by
      unfold openDb at opened
      split at opened
      · cases opened
      · cases opened
        rfl
    refine ⟨⟨⟨o.db, opts, q.reopen.nextID⟩, ⟨stored.held, rfl⟩, file.symm, ?_⟩,
      holds.positive, above, small⟩
    intro p refused
    cases refused

theorem holds_step {h t : Handle} {call : Call α} (holds : Holds aead encode h q)
    (left : IdLeft h call) (stepped : step sha aead h (call.event encode) = some t) :
    ∃ p, q.Performs call p ∧ Holds aead encode t p := by
  cases h with
  | opened o =>
    have stored := holds.stores
    cases call with
    | append content nonce =>
      cases stepped
      have bound : q.nextID + 1 < 2 ^ 64 := stored.counter ▸ left
      obtain ⟨evicted, next⟩ := @stores_append _ sha _ _ _ _ stored nonce content bound
      refine ⟨_, .append evicted, next.holds ?_ (Nat.succ_pos _) bound⟩
      intro item member
      rcases Queue.mem_append member with old | new
      · exact holds.positive item old
      · rw [new]
        exact holds.next
    | appendFails =>
      cases stepped
      have bound : q.nextID + 1 < 2 ^ 64 := stored.counter ▸ left
      have next := stores_appendFails stored bound
      exact ⟨_, .appendFails, next.holds holds.positive (Nat.succ_pos _) bound⟩
    | ack id =>
      cases stepped
      refine ⟨_, .ack, (stores_ack stored id.toNat_lt).holds ?_ holds.next holds.small⟩
      intro item member
      exact holds.positive item (Queue.mem_ack.mp member).1
    | reopen opts =>
      cases stepped
      exact ⟨_, .reopen, holds.reopen opts⟩
  | refused db error =>
    cases call with
    | reopen opts =>
      cases stepped
      exact ⟨_, .reopen, holds.reopen opts⟩
    | append content nonce => cases stepped
    | appendFails => cases stepped
    | ack id => cases stepped

theorem outbox_follows_queue {opts : Options} {p : Outbox} {calls : List (Call α)}
    (opened : created opts = .opened o)
    (reached : run (fun h call => step sha aead h (call.event encode)) (.opened o) calls =
      some (.opened p))
    (met : Meets (fun h call => step sha aead h (call.event encode)) IdLeft (.opened o) calls) :
    ∃ q, Follows Queue.Performs Queue.empty calls q ∧ p.nextID = q.nextID ∧ ∀ n : Int,
      peek aead p.db n =
        .ok ((q.peek n.toNat).map (fun item => ⟨item.1, encode item.2⟩)) := by
  have follows : ∃ q, Follows Queue.Performs Queue.empty calls q ∧
      Holds aead encode (.opened p) q := by
    apply run_follows ?_ (holds_created opened) reached met
    intro h call next q holds left stepped
    exact holds_step holds left stepped
  obtain ⟨q, performed, holds⟩ := follows
  exact ⟨q, performed, holds.stores.counter, stores_peek holds.stores⟩

end Runs

end Stores

instance {α : Type} : ∀ (h : Handle) (call : Call α), Decidable (IdLeft h call)
  | .opened o, .append _ _ => inferInstanceAs (Decidable (o.nextID + 1 < 2 ^ 64))
  | .opened o, .appendFails => inferInstanceAs (Decidable (o.nextID + 1 < 2 ^ 64))
  | .opened _, .ack _ => isTrue trivial
  | .opened _, .reopen _ => isTrue trivial
  | .refused _ _, _ => isTrue trivial

/-- The ids start again behind an outbox that is opened empty. -/
def emptied : List (Call Bytes) :=
  [.appendFails, .append [1] zeroNonce, .ack 2, .reopen someCaps, .append [2] zeroNonce]

theorem emptied_outbox_follows : ∃ p q,
    run (fun h call => step .head .plain h (call.event id)) (created someCaps) emptied =
        some (.opened p) ∧
      Follows Queue.Performs Queue.empty emptied q ∧ p.nextID = q.nextID :=
  have ⟨q, follows, next, _⟩ :=
    @outbox_follows_queue _ .head .plain id _ someCaps _ emptied rfl rfl (by decide)
  ⟨_, q, rfl, follows, next⟩

end HlHelper.Outbox
