import HlHelper.Library.Runs
import HlHelper.Replay.Store
import Mathlib.Data.List.Chain
import Mathlib.Data.List.DropRight
import Mathlib.Data.List.Perm.Subperm

/-! Runs of the replay store: what its tables hold of the accepted envelopes, and when the trimmed
nonce is the one that was accepted first. -/

namespace HlHelper.Replay

open HlHelper.Library

namespace Nonces

variable {n : Nonces} {host : HostId} {window : Int}

theorem hostRows_nodup (n : Nonces) (host : HostId) : (n.hostRows host).Nodup :=
  (List.Nodup.of_map _ n.keyed).sublist List.filter_sublist

instance : Std.Total Ahead := ⟨fun first second => by
  unfold Ahead
  omega⟩

instance : IsTrans SeenNonce Ahead := ⟨fun first second third left right => by
  unfold Ahead at left right ⊢
  omega⟩

theorem newest_sublist (n : Nonces) (host : HostId) (window : Int) :
    (n.newest host window).Sublist ((n.hostRows host).insertionSort Ahead) := by
  unfold newest limit
  split
  · exact List.Sublist.refl _
  · exact List.take_sublist _ _

theorem newest_subset {row : SeenNonce} (member : row ∈ n.newest host window) :
    row ∈ n.hostRows host :=
  (List.mem_insertionSort _).mp ((newest_sublist n host window).subset member)

theorem newest_length (bounded : 0 ≤ window) : ((n.newest host window).length : Int) ≤ window := by
  unfold newest limit
  rw [if_neg (not_lt.mpr bounded), List.length_take]
  omega

theorem hostRows_trim (n : Nonces) (host : HostId) (window : Int) :
    (n.trim host window).hostRows host =
      (n.hostRows host).filter (fun row => row ∈ n.newest host window) := by
  unfold hostRows trim
  rw [List.filter_filter, List.filter_filter]
  apply List.filter_congr
  intro row member
  by_cases own : row.hostId = host
  · have kept : row.key ∈ (n.newest host window).map SeenNonce.key ↔
        row ∈ n.newest host window := by
      constructor
      · intro found
        obtain ⟨other, newer, same⟩ := List.mem_map.mp found
        have there := (List.mem_filter.mp (newest_subset newer)).1
        exact key_injective n.keyed there member same ▸ newer
      · exact List.mem_map_of_mem
    simp [own, kept]
  · simp [own]

theorem hostRows_trim_other {other : HostId} (apart : other ≠ host) :
    (n.trim host window).hostRows other = n.hostRows other := by
  unfold hostRows trim
  rw [List.filter_filter]
  apply List.filter_congr
  intro row member
  by_cases own : row.hostId = other
  · simp [own, apart]
  · simp [own]

theorem length_trim (bounded : 0 ≤ window) :
    (((n.trim host window).hostRows host).length : Int) ≤ window := by
  have inside : ((n.trim host window).hostRows host) ⊆ n.newest host window := by
    rw [hostRows_trim]
    intro row member
    simpa using (List.mem_filter.mp member).2
  have shorter := (List.Nodup.subperm (hostRows_nodup (n.trim host window) host) inside).length_le
  have newest : ((n.newest host window).length : Int) ≤ window := newest_length bounded
  omega

theorem hostRows_trim_of_le (short : ((n.hostRows host).length : Int) ≤ window) :
    (n.trim host window).hostRows host = n.hostRows host := by
  rw [hostRows_trim]
  apply List.filter_eq_self.mpr
  intro row member
  have all : n.newest host window = (n.hostRows host).insertionSort Ahead := by
    unfold newest limit
    split
    · rfl
    · apply List.take_of_length_le
      rw [List.length_insertionSort]
      omega
  rw [decide_eq_true_eq, all, List.mem_insertionSort]
  exact member

theorem hostRows_trim_oldest {oldest : SeenNonce} {rest : List SeenNonce}
    (rows : n.hostRows host = oldest :: rest) (full : (rest.length : Int) = window)
    (first : ∀ row ∈ rest, oldest.seenAt ≤ row.seenAt) :
    (n.trim host window).hostRows host = rest := by
  have distinct := hostRows_nodup n host
  have ordered : (n.hostRows host).Pairwise (fun a b => a.rowid < b.rowid) :=
    n.ordered.sublist List.filter_sublist
  rw [rows] at distinct ordered
  have sorted := List.pairwise_insertionSort Ahead (n.hostRows host)
  have perm := List.perm_insertionSort Ahead (n.hostRows host)
  obtain ⟨front, last, split⟩ :
      ∃ front last, (n.hostRows host).insertionSort Ahead = front ++ [last] := by
    rcases List.eq_nil_or_concat ((n.hostRows host).insertionSort Ahead) with
      empty | ⟨front, last, split⟩
    · rw [empty, rows] at perm
      cases perm.length_eq
    · exact ⟨front, last, by rw [split, List.concat_eq_append]⟩
  rw [split] at sorted perm
  have newer : n.newest host window = front := by
    have size := perm.length_eq
    rw [rows, List.length_append, List.length_singleton, List.length_cons] at size
    unfold newest limit
    rw [split, if_neg (by omega), List.take_left' (by omega)]
  have last_eq : last = oldest := by
    have there : last ∈ oldest :: rest := rows ▸ perm.mem_iff.mp (by simp)
    rcases List.mem_cons.mp there with same | later
    · exact same
    · have oldest_there : oldest ∈ front ++ [last] := perm.mem_iff.mpr (by simp [rows])
      rcases List.mem_append.mp oldest_there with before | same
      · have order := (List.pairwise_append.mp sorted).2.2 oldest before last (by simp)
        have below := (List.pairwise_cons.mp ordered).1 last later
        have least := first last later
        unfold Ahead at order
        omega
      · exact (List.mem_singleton.mp same).symm
  have apart := perm.nodup_iff.mpr (rows ▸ distinct)
  rw [last_eq] at apart perm
  rw [hostRows_trim, newer, rows]
  have dropped : oldest ∉ front := by
    intro inside
    exact (List.nodup_append.mp apart).2.2 oldest inside oldest (by simp) rfl
  rw [List.filter_cons_of_neg (by simpa using dropped)]
  apply List.filter_eq_self.mpr
  intro row member
  have there : row ∈ front ++ [oldest] := perm.mem_iff.mpr (rows ▸ List.mem_cons_of_mem _ member)
  rcases List.mem_append.mp there with inside | same
  · simpa using inside
  · obtain rfl := List.mem_singleton.mp same
    exact absurd member (List.nodup_cons.mp distinct).1

theorem hostRows_insert {nonce : Bytes} {stamp : Int}
    {fresh : (host, nonce) ∉ n.rows.map SeenNonce.key} :
    (n.insert host nonce stamp fresh).hostRows host =
      n.hostRows host ++ [⟨n.nextRowid, host, nonce, stamp⟩] := by
  simp [hostRows, insert, List.filter_append]

theorem hostRows_insert_other {other : HostId} {nonce : Bytes} {stamp : Int}
    {fresh : (host, nonce) ∉ n.rows.map SeenNonce.key} (apart : other ≠ host) :
    (n.insert host nonce stamp fresh).hostRows other = n.hostRows other := by
  simp [hostRows, insert, List.filter_append, apart.symm]

end Nonces

/-- A call of `accept`, or the database closed and opened again. -/
inductive Event where
  | accept (call : Call)
  | reopen
  deriving DecidableEq, Repr

section Runs

variable (c : Settings)

def next (conn : Conn) : Event → Conn
  | .accept call => (accept c conn call).2
  | .reopen => .opened conn.db

def outcome (conn : Conn) : Event → Option CommandEnvelope
  | .accept call => if (accept c conn call).1 = .ok () then some call.env else none
  | .reopen => none

def afterEvents : Conn → List Event → Conn
  | conn, [] => conn
  | conn, event :: events => afterEvents (next c conn event) events

def accepted : Conn → List Event → List CommandEnvelope
  | _, [] => []
  | conn, event :: events => (outcome c conn event).toList ++ accepted (next c conn event) events

def ofHost (host : HostId) (history : List CommandEnvelope) : List CommandEnvelope :=
  history.filter (fun env => env.hostId = host)

/-- The checks that `accept` makes of a call, and what the database can bind. -/
structure Admitted (db : Db) (call : Call) (now : Int) : Prop where
  timely : precheck c call = .ok now
  faultless : call.fault = none
  sequence : checkSequence c (db.hostSequence.get? call.env.hostId) call.env.sequence = .ok ()
  unseen : (call.env.hostId, call.env.nonce) ∉ db.seenNonce.rows.map SeenNonce.key
  bound : bindInteger call.env.sequence = .ok () ∧ bindInteger c.nonceWindow = .ok ()

/-- Where the rows of the host fill the window, the first of them was not seen after another one,
nor after now. -/
def TrimsFirst (db : Db) (host : HostId) (now : Int) : Prop :=
  ∀ oldest rest, db.seenNonce.hostRows host = oldest :: rest →
    c.nonceWindow ≤ (db.seenNonce.hostRows host).length →
      (∀ row ∈ rest, oldest.seenAt ≤ row.seenAt) ∧ oldest.seenAt ≤ seenAt now

/-- The clock of a call that passes every check has not gone back behind the first nonce that the
host still has, where one has to go. -/
def Orderly (conn : Conn) : Event → Prop
  | .accept call => ∀ now, Admitted c conn.db call now → TrimsFirst c conn.db call.env.hostId now
  | .reopen => True

def OrderlyRun : Conn → List Event → Prop
  | _, [] => True
  | conn, event :: events => Orderly c conn event ∧ OrderlyRun (next c conn event) events

local instance : LawfulBEq (HostId × Bytes) := inferInstance

instance (db : Db) (call : Call) (now : Int) : Decidable (Admitted c db call now) :=
  decidable_of_iff (precheck c call = .ok now ∧ call.fault = none ∧
      checkSequence c (db.hostSequence.get? call.env.hostId) call.env.sequence = .ok () ∧
      (call.env.hostId, call.env.nonce) ∉ db.seenNonce.rows.map SeenNonce.key ∧
      bindInteger call.env.sequence = .ok () ∧ bindInteger c.nonceWindow = .ok ())
    ⟨fun ⟨timely, faultless, sequence, unseen, bound⟩ =>
      ⟨timely, faultless, sequence, unseen, bound⟩,
     fun admitted => ⟨admitted.timely, admitted.faultless, admitted.sequence, admitted.unseen,
      admitted.bound⟩⟩

instance (db : Db) (host : HostId) (now : Int) : Decidable (TrimsFirst c db host now) :=
  match rows : db.seenNonce.hostRows host with
  | [] => isTrue (by simp [TrimsFirst, rows])
  | oldest :: rest =>
    decidable_of_iff (c.nonceWindow ≤ (oldest :: rest).length →
      (∀ row ∈ rest, oldest.seenAt ≤ row.seenAt) ∧ oldest.seenAt ≤ seenAt now)
      (by simp [TrimsFirst, rows])

instance (conn : Conn) : ∀ event, Decidable (Orderly c conn event)
  | .reopen => isTrue trivial
  | .accept call =>
    match timely : precheck c call with
    | .error e => isTrue (fun now admitted => by
        rw [admitted.timely] at timely
        cases timely)
    | .ok now =>
      decidable_of_iff
        (Admitted c conn.db call now → TrimsFirst c conn.db call.env.hostId now)
        ⟨fun first other admitted => by
          obtain rfl := Except.ok.inj (timely.symm.trans admitted.timely)
          exact first admitted,
         fun all => all now⟩

instance decidableOrderlyRun : ∀ conn events, Decidable (OrderlyRun c conn events)
  | _, [] => isTrue trivial
  | conn, event :: events =>
    have := decidableOrderlyRun (next c conn event) events
    inferInstanceAs (Decidable (_ ∧ _))

/-- What is kept of the sequences and nonces, whatever the clocks. -/
structure Lasting (events : List Event) : Prop where
  increasing : ∀ host, (ofHost host (accepted c (.opened .empty) events)).Pairwise
    (fun a b => a.sequence < b.sequence)
  gap : 0 < c.maxForwardGap → ∀ host, (ofHost host (accepted c (.opened .empty) events)).IsChain
    (fun a b => (b.sequence : Int) - a.sequence ≤ c.maxForwardGap)
  kept : ∀ host, (((afterEvents c (.opened .empty) events).db.seenNonce.hostRows host).length : Int)
    ≤ c.nonceWindow
  atomic : ∀ call e, (accept c (afterEvents c (.opened .empty) events) call).1 = .error e →
    (accept c (afterEvents c (.opened .empty) events) call).2 =
      afterEvents c (.opened .empty) events

/-- No nonce among the last ones that were accepted for the host is accepted again. -/
def WindowKept (events : List Event) : Prop :=
  ∀ before env after, accepted c (.opened .empty) events = before ++ env :: after →
    env.nonce ∉ ((ofHost env.hostId before).map CommandEnvelope.nonce).rtake c.nonceWindow.toNat

end Runs

variable {c : Settings} {db : Db} {call : Call} {now : Int}

def Admitted.result (admitted : Admitted c db call now) : Db where
  hostSequence := db.hostSequence.insert call.env.hostId call.env.sequence
  seenNonce := (db.seenNonce.insert call.env.hostId call.env.nonce (seenAt now)
    admitted.unseen).trim call.env.hostId c.nonceWindow

theorem Admitted.execute (admitted : Admitted c db call now) (statement : Statement) :
    call.execute statement = .ok () := by
  simp [Call.execute, admitted.faultless]

theorem body_admitted (admitted : Admitted c db call now) :
    body c call now db = .ok admitted.result := by
  simp only [body, admitted.execute, admitted.sequence, bind, Except.bind]
  rw [dif_neg admitted.unseen]
  simp only [record, admitted.execute, admitted.bound.1, admitted.bound.2, bind, Except.bind, pure,
    Except.pure, Admitted.result]

theorem faultless_of_execute (runs : ∀ statement, call.execute statement = .ok ()) :
    call.fault = none := by
  cases fault : call.fault with
  | none => rfl
  | some statement =>
    have ran := runs statement
    rw [Call.execute, if_pos fault] at ran
    cases ran

theorem andThen_ok {α : Type} {first : Except ReplayError Unit} {rest : Except ReplayError α}
    {result : α} (ran : (first >>= fun _ => rest) = .ok result) :
    first = .ok () ∧ rest = .ok result := by
  cases first with
  | error e => cases ran
  | ok _ => exact ⟨rfl, ran⟩

theorem admitted_of_body {after : Db} (timely : precheck c call = .ok now)
    (begins : call.execute .beginImmediate = .ok ()) (ran : body c call now db = .ok after)
    (commits : call.execute .commit = .ok ()) : Admitted c db call now := by
  unfold body at ran
  obtain ⟨first, ran⟩ := andThen_ok ran
  obtain ⟨sequence, ran⟩ := andThen_ok ran
  obtain ⟨second, ran⟩ := andThen_ok ran
  split at ran
  · cases ran
  · next unseen =>
    unfold record at ran
    obtain ⟨third, ran⟩ := andThen_ok ran
    obtain ⟨small, ran⟩ := andThen_ok ran
    obtain ⟨fourth, ran⟩ := andThen_ok ran
    obtain ⟨fifth, ran⟩ := andThen_ok ran
    obtain ⟨window, ran⟩ := andThen_ok ran
    refine ⟨timely, faultless_of_execute ?_, sequence, unseen, small, window⟩
    intro statement
    cases statement <;> assumption

theorem accept_cases (c : Settings) (db : Db) (call : Call) :
    (∃ now, ∃ admitted : Admitted c db call now,
      accept c (.opened db) call = (.ok (), .opened admitted.result)) ∨
    ((∀ now, ¬ Admitted c db call now) ∧
      ∃ e, accept c (.opened db) call = (.error e, .opened db)) := by
  by_cases some_ : ∃ now, Admitted c db call now
  · obtain ⟨now, admitted⟩ := some_
    refine .inl ⟨now, admitted, ?_⟩
    unfold accept
    rw [admitted.timely]
    dsimp only
    rw [admitted.execute, admitted.execute]
    dsimp only [Conn.opened, Conn.beginImmediate, Option.getD_some]
    rw [body_admitted admitted]
    rfl
  · refine .inr ⟨fun now admitted => some_ ⟨now, admitted⟩, ?_⟩
    unfold accept
    cases timely : precheck c call with
    | error e => exact ⟨e, rfl⟩
    | ok now =>
      dsimp only
      cases begins : call.execute .beginImmediate with
      | error e => exact ⟨e, rfl⟩
      | ok _ =>
        dsimp only [Conn.opened, Conn.beginImmediate, Option.getD_some]
        cases ran : body c call now db with
        | error e => exact ⟨e, rfl⟩
        | ok after =>
          dsimp only
          cases commits : call.execute .commit with
          | error e => exact ⟨e, rfl⟩
          | ok _ => exact absurd ⟨now, admitted_of_body timely begins ran commits⟩ some_

theorem checkSequence_ok {row : Option Nat} {sequence : Nat}
    (passed : checkSequence c row sequence = .ok ()) :
    row.getD 0 < sequence ∧ (0 < c.maxForwardGap → ∀ last, row = some last →
      (sequence : Int) - last ≤ c.maxForwardGap) := by
  unfold checkSequence at passed
  split at passed
  · cases passed
  · next newer =>
    split at passed
    · cases passed
    · next near =>
      refine ⟨not_le.mp newer, ?_⟩
      rintro enabled last rfl
      by_contra far
      exact near ⟨enabled, rfl, not_le.mp far⟩

theorem ofHost_concat_self (history : List CommandEnvelope) (env : CommandEnvelope) :
    ofHost env.hostId (history ++ [env]) = ofHost env.hostId history ++ [env] := by
  simp [ofHost, List.filter_append]

theorem ofHost_concat_other {history : List CommandEnvelope} {env : CommandEnvelope}
    {host : HostId} (apart : host ≠ env.hostId) :
    ofHost host (history ++ [env]) = ofHost host history := by
  simp [ofHost, List.filter_append, Ne.symm apart]

/-- The tables follow the accepted envelopes, whose sequences increase host by host. -/
structure Tracks (c : Settings) (history : List CommandEnvelope) (db : Db) : Prop where
  last : ∀ host, db.hostSequence.get? host =
    (ofHost host history).getLast?.map CommandEnvelope.sequence
  behind : ∀ env ∈ history, env.sequence ≤ (db.hostSequence.get? env.hostId).getD 0
  increasing : ∀ host, (ofHost host history).Pairwise (fun a b => a.sequence < b.sequence)
  gap : 0 < c.maxForwardGap → ∀ host,
    (ofHost host history).IsChain (fun a b => (b.sequence : Int) - a.sequence ≤ c.maxForwardGap)
  kept : ∀ host, ((db.seenNonce.hostRows host).length : Int) ≤ c.nonceWindow

theorem tracks_empty (window : 0 ≤ c.nonceWindow) : Tracks c [] .empty where
  last := fun _ => rfl
  behind := List.forall_mem_nil _
  increasing := fun _ => List.Pairwise.nil
  gap := fun _ _ => List.isChain_nil
  kept := fun _ => window

variable {history : List CommandEnvelope}

theorem Tracks.grow (window : 0 ≤ c.nonceWindow) (tracks : Tracks c history db)
    (admitted : Admitted c db call now) :
    Tracks c (history ++ [call.env]) admitted.result := by
  obtain ⟨newer, near⟩ := checkSequence_ok admitted.sequence
  have here : admitted.result.hostSequence.get? call.env.hostId = some call.env.sequence :=
    OrderedMap.get?_insert_self _ _ _
  have elsewhere : ∀ {host}, host ≠ call.env.hostId →
      admitted.result.hostSequence.get? host = db.hostSequence.get? host :=
    fun apart => OrderedMap.get?_insert_other _ apart _
  constructor
  · intro host
    by_cases own : host = call.env.hostId
    · subst own
      rw [here, ofHost_concat_self, List.getLast?_concat, Option.map_some]
    · rw [elsewhere own, ofHost_concat_other own]
      exact tracks.last host
  · intro env member
    rcases List.mem_append.mp member with earlier | latest
    · have below := tracks.behind env earlier
      by_cases own : env.hostId = call.env.hostId
      · rw [own, here, Option.getD_some]
        rw [own] at below
        exact (below.trans_lt newer).le
      · rw [elsewhere own]
        exact below
    · rw [List.mem_singleton.mp latest, here, Option.getD_some]
  · intro host
    by_cases own : host = call.env.hostId
    · subst own
      rw [ofHost_concat_self]
      refine List.pairwise_append.mpr ⟨tracks.increasing _, List.pairwise_singleton _ _, ?_⟩
      intro earlier member env latest
      obtain ⟨there, same⟩ := List.mem_filter.mp member
      have below := tracks.behind earlier there
      rw [of_decide_eq_true same] at below
      rw [List.mem_singleton.mp latest]
      exact below.trans_lt newer
    · rw [ofHost_concat_other own]
      exact tracks.increasing host
  · intro enabled host
    by_cases own : host = call.env.hostId
    · subst own
      rw [ofHost_concat_self]
      refine List.isChain_append.mpr ⟨tracks.gap enabled _, List.isChain_singleton _, ?_⟩
      intro earlier final env latest
      obtain rfl : call.env = env := by simpa using latest
      apply near enabled
      rw [tracks.last, final, Option.map_some]
    · rw [ofHost_concat_other own]
      exact tracks.gap enabled host
  · intro host
    by_cases own : host = call.env.hostId
    · subst own
      exact Nonces.length_trim window
    · have rows : admitted.result.seenNonce.hostRows host = db.seenNonce.hostRows host :=
        (Nonces.hostRows_trim_other own).trans (Nonces.hostRows_insert_other own)
      rw [rows]
      exact tracks.kept host

/-- The rows of each host are the last envelopes that were accepted for it. -/
def Windowed (c : Settings) (history : List CommandEnvelope) (db : Db) : Prop :=
  ∀ host, (db.seenNonce.hostRows host).map SeenNonce.nonce =
    ((ofHost host history).map CommandEnvelope.nonce).rtake c.nonceWindow.toNat

theorem rtake_rtake_concat {α : Type*} (count : Nat) (entries : List α) (latest : α) :
    (entries.rtake count ++ [latest]).rtake count = (entries ++ [latest]).rtake count := by
  cases count with
  | zero => simp
  | succ count =>
    rw [List.rtake_concat_succ, List.rtake_concat_succ]
    congr 1
    unfold List.rtake
    rw [List.drop_drop, List.length_drop]
    congr 1
    omega

theorem nonces_of_trim {n : Nonces} {host : HostId} {nonce : Bytes} {stamp window : Int}
    {fresh : (host, nonce) ∉ n.rows.map SeenNonce.key}
    (kept : ((n.hostRows host).length : Int) ≤ window)
    (first : ∀ oldest rest, n.hostRows host = oldest :: rest →
      window ≤ (n.hostRows host).length →
        (∀ row ∈ rest, oldest.seenAt ≤ row.seenAt) ∧ oldest.seenAt ≤ stamp) :
    (((n.insert host nonce stamp fresh).trim host window).hostRows host).map SeenNonce.nonce =
      ((n.hostRows host).map SeenNonce.nonce ++ [nonce]).rtake window.toNat := by
  have inserted := @Nonces.hostRows_insert n host nonce stamp fresh
  rcases lt_or_ge ((n.hostRows host).length : Int) window with room | full
  · have short : (((n.insert host nonce stamp fresh).hostRows host).length : Int) ≤ window := by
      rw [inserted, List.length_append, List.length_singleton]
      omega
    rw [Nonces.hostRows_trim_of_le short, inserted, List.rtake, List.map_append, List.map_singleton]
    have nothing :
        ((n.hostRows host).map SeenNonce.nonce ++ [nonce]).length - window.toNat = 0 := by
      rw [List.length_append, List.length_map, List.length_singleton]
      omega
    rw [nothing, List.drop_zero]
  · cases rows : n.hostRows host with
    | nil =>
      rw [rows] at full kept inserted
      have zero : window = 0 := by
        simp only [List.length_nil] at full kept
        omega
      rw [Nonces.hostRows_trim_oldest inserted (by simp [zero]) (by simp), zero]
      simp
    | cons oldest rest =>
      obtain ⟨least, before⟩ := first oldest rest rows full
      rw [rows, List.length_cons] at full kept
      rw [rows, List.cons_append] at inserted
      rw [Nonces.hostRows_trim_oldest inserted]
      · have size : window.toNat = rest.length + 1 := by omega
        rw [size, List.rtake_concat_succ, List.map_append, List.map_singleton]
        simp [List.rtake]
      · rw [List.length_append, List.length_singleton]
        omega
      · intro row member
        rcases List.mem_append.mp member with old | new
        · exact least row old
        · rw [List.mem_singleton.mp new]
          exact before

theorem Windowed.grow (tracks : Tracks c history db) (windowed : Windowed c history db)
    (admitted : Admitted c db call now) (first : TrimsFirst c db call.env.hostId now) :
    Windowed c (history ++ [call.env]) admitted.result := by
  intro host
  by_cases own : host = call.env.hostId
  · subst own
    rw [ofHost_concat_self, List.map_append, List.map_singleton, ← rtake_rtake_concat,
      ← windowed call.env.hostId]
    exact nonces_of_trim (tracks.kept _) first
  · have rows : admitted.result.seenNonce.hostRows host = db.seenNonce.hostRows host :=
      (Nonces.hostRows_trim_other own).trans (Nonces.hostRows_insert_other own)
    rw [rows, ofHost_concat_other own]
    exact windowed host

theorem Windowed.fresh (windowed : Windowed c history db) (admitted : Admitted c db call now) :
    call.env.nonce ∉ ((ofHost call.env.hostId history).map CommandEnvelope.nonce).rtake
      c.nonceWindow.toNat := by
  rw [← windowed]
  intro repeated
  obtain ⟨row, member, same⟩ := List.mem_map.mp repeated
  obtain ⟨there, own⟩ := List.mem_filter.mp member
  apply admitted.unseen
  refine List.mem_map.mpr ⟨row, there, ?_⟩
  exact Prod.ext (of_decide_eq_true own) same

theorem next_admitted (admitted : Admitted c db call now)
    (done : accept c (.opened db) call = (.ok (), .opened admitted.result)) :
    next c (.opened db) (.accept call) = .opened admitted.result ∧
      (outcome c (.opened db) (.accept call)).toList = [call.env] := by
  simp [next, outcome, done]

theorem next_refused {e : ReplayError}
    (refused : accept c (.opened db) call = (.error e, .opened db)) :
    next c (.opened db) (.accept call) = .opened db ∧
      (outcome c (.opened db) (.accept call)).toList = [] := by
  simp [next, outcome, refused]

theorem tracks_run (window : 0 ≤ c.nonceWindow) (tracks : Tracks c history db)
    (events : List Event) :
    ∃ final, afterEvents c (.opened db) events = .opened final ∧
      Tracks c (history ++ accepted c (.opened db) events) final := by
  induction events generalizing history db with
  | nil => exact ⟨db, rfl, by rwa [accepted, List.append_nil]⟩
  | cons event events ih =>
    cases event with
    | reopen => exact ih tracks
    | accept call =>
      rcases accept_cases c db call with ⟨now, admitted, done⟩ | ⟨_, e, refused⟩
      · obtain ⟨goes, out⟩ := next_admitted admitted done
        rw [afterEvents, accepted, goes, out, ← List.append_assoc]
        exact ih (tracks.grow window admitted)
      · obtain ⟨goes, out⟩ := next_refused refused
        rw [afterEvents, accepted, goes, out, List.nil_append]
        exact ih tracks

theorem windowed_run (window : 0 ≤ c.nonceWindow) (tracks : Tracks c history db)
    (windowed : Windowed c history db) {events : List Event}
    (orderly : OrderlyRun c (.opened db) events) :
    ∀ before env after, accepted c (.opened db) events = before ++ env :: after →
      env.nonce ∉ ((ofHost env.hostId (history ++ before)).map CommandEnvelope.nonce).rtake
        c.nonceWindow.toNat := by
  induction events generalizing history db with
  | nil =>
    intro before env after split
    cases before <;> cases split
  | cons event events ih =>
    obtain ⟨here, rest⟩ := orderly
    cases event with
    | reopen => exact ih tracks windowed rest
    | accept call =>
      rcases accept_cases c db call with ⟨now, admitted, done⟩ | ⟨_, e, refused⟩
      · obtain ⟨goes, out⟩ := next_admitted admitted done
        rw [goes] at rest
        have first := here now admitted
        have later := ih (tracks.grow window admitted) (windowed.grow tracks admitted first)
          rest
        intro before env after split
        rw [accepted, goes, out, List.singleton_append] at split
        cases before with
        | nil =>
          obtain ⟨rfl, -⟩ := List.cons.inj split
          rw [List.append_nil]
          exact windowed.fresh admitted
        | cons head before =>
          obtain ⟨rfl, remaining⟩ := List.cons.inj split
          rw [← List.singleton_append, ← List.append_assoc]
          exact later before env after remaining
      · obtain ⟨goes, out⟩ := next_refused refused
        rw [goes] at rest
        intro before env after split
        rw [accepted, goes, out, List.nil_append] at split
        exact ih tracks windowed rest before env after split

/-- With a window that is not negative the sequences, the gap, the bound on the rows and the
rollbacks hold in every run; the window law holds in those whose trims take the first row. -/
theorem replay_window_kept (c : Settings) (window : 0 ≤ c.nonceWindow) (events : List Event) :
    Lasting c events ∧ (OrderlyRun c (.opened .empty) events → WindowKept c events) := by
  obtain ⟨final, reached, tracks⟩ := tracks_run window (tracks_empty window) events
  rw [List.nil_append] at tracks
  refine ⟨⟨tracks.increasing, tracks.gap, ?_, ?_⟩, ?_⟩
  · rw [reached]
    exact tracks.kept
  · rw [reached]
    intro call e raised
    rcases accept_cases c final call with ⟨now, admitted, done⟩ | ⟨_, e, refused⟩
    · rw [done] at raised
      cases raised
    · rw [refused]
  · intro orderly before env after split
    exact windowed_run window (tracks_empty window) (fun _ => by simp [ofHost, Db.empty,
      Nonces.hostRows, Nonces.empty]) orderly before env after split

section Example

def ofTwo : Settings := { Settings.defaults with nonceWindow := 2 }

def command (sequence : Nat) (nonce : UInt8) : CommandEnvelope :=
  { (default : CommandEnvelope) with
    hostId := "h1"
    sequence := sequence
    nonce := [nonce]
    expiresAt := some (seconds 2000) }

def callAt (sequence : Nat) (nonce : UInt8) (second : Int) : Event :=
  .accept ⟨command sequence nonce, some (second * 1000000), none⟩

theorem window_slides :
    Lasting ofTwo [callAt 1 7 1000, callAt 2 8 1010, .reopen, callAt 3 9 1010, callAt 4 7 1020] ∧
      WindowKept ofTwo
        [callAt 1 7 1000, callAt 2 8 1010, .reopen, callAt 3 9 1010, callAt 4 7 1020] := by
  obtain ⟨lasting, window⟩ := replay_window_kept ofTwo (by decide)
    [callAt 1 7 1000, callAt 2 8 1010, .reopen, callAt 3 9 1010, callAt 4 7 1020]
  exact ⟨lasting, window (by decide +kernel)⟩

/-- A nonce that is accepted while the clock is behind is trimmed at once, and accepted again. -/
theorem nonce_accepted_twice :
    ¬ WindowKept ofTwo [callAt 1 7 1000, callAt 2 8 1010, callAt 3 9 990, callAt 4 9 991] := by
  intro window
  have split : accepted ofTwo (.opened .empty)
      [callAt 1 7 1000, callAt 2 8 1010, callAt 3 9 990, callAt 4 9 991] =
        [command 1 7, command 2 8, command 3 9] ++ command 4 9 :: [] := by decide +kernel
  have fresh := window _ _ _ split
  revert fresh
  decide +kernel

end Example

end HlHelper.Replay
