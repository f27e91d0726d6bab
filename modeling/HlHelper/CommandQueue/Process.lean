import HlHelper.Dispatch.Queue
import HlHelper.Library.Runs
import Mathlib.Data.List.Count

/-! One `CommandQueue` in the life of its process: calls of `enqueue`, commits,
rollbacks and restarts, one after the other. -/

namespace HlHelper.CommandQueue

open HlHelper.Library HlHelper.Dispatch

/-- `drawn` holds the ids of all commands so far: a new command has a new UUID. -/
structure Process where
  session : Session
  cache : Cache
  drawn : List CommandId

def Process.start (tables : Tables) : Process :=
  ⟨Session.begin tables, OrderedMap.empty, tables.commands.map Command.id⟩

inductive Event where
  | enqueue (command : Command) (key : Option String)
  | commit
  | rollback
  | restart
  deriving DecidableEq

/-- The cache of a call that raised: the entry of a row that is gone was deleted. -/
def cacheAfterRaise (cache : Cache) : Option String → Cache
  | none => cache
  | some key =>
    match cache.get? key with
    | none => cache
    | some _ => (cache.moveToEnd key).erase key

/-- After a failed flush the session is rolled back, by `enqueue` or by its caller. -/
def enqueueStep (capacity : Nat) (p : Process) (command : Command) (key : Option String) :
    Process :=
  match enqueue capacity p.session p.cache command key [] with
  | .ok (_, session, cache) => ⟨session, cache, command.id :: p.drawn⟩
  | .error _ => ⟨p.session.rollback, cacheAfterRaise p.cache key, command.id :: p.drawn⟩

def step (capacity : Nat) (p : Process) : Event → Option Process
  | .enqueue command key =>
    if command.id ∈ p.drawn then none else some (enqueueStep capacity p command key)
  | .commit => some { p with session := p.session.commit }
  | .rollback => some { p with session := p.session.rollback }
  | .restart => some { p with session := p.session.rollback, cache := OrderedMap.empty }

/-- The queue without a cache: a key that a row carries is answered with the row. -/
def putOnce (session : Session) (command : Command) :
    Option String → Except DispatchError (Command × Session)
  | none => (session.flushCommand command).map (fun session => (command, session))
  | some key =>
    match session.byIdempotencyKey key with
    | some row => .ok (row, session)
    | none =>
      let command := { command with idempotencyKey := some key }
      (session.flushCommand command).map (fun session => (command, session))

section Cache

variable {capacity : Nat} {cache : Cache} {key : String} {commandId : CommandId}

theorem length_popFirst_iterate (m : Cache) (count : Nat) :
    (OrderedMap.popFirst^[count] m).entries.length = m.entries.length - count := by
  induction count generalizing m with
  | zero => rfl
  | succ count ih =>
    rw [Function.iterate_succ_apply, ih]
    have one : m.popFirst.entries.length = m.entries.length - 1 := List.length_tail
    omega

theorem mem_popFirst_iterate {m : Cache} {count : Nat} {entry : String × CommandId}
    (member : entry ∈ (OrderedMap.popFirst^[count] m).entries) : entry ∈ m.entries := by
  induction count generalizing m with
  | zero => exact member
  | succ count ih =>
    rw [Function.iterate_succ_apply] at member
    exact List.mem_of_mem_tail (ih member)

theorem length_erase_le (m : Cache) (key : String) :
    (m.erase key).entries.length ≤ m.entries.length := List.length_filter_le _ _

theorem length_moveToEnd_le (m : Cache) (key : String) :
    (m.moveToEnd key).entries.length ≤ m.entries.length := by
  unfold OrderedMap.moveToEnd
  cases found : m.get? key with
  | none => exact Nat.le_refl _
  | some value =>
    have absent : key ∉ (m.erase key).keys :=
      fun member => (OrderedMap.mem_keys_erase.mp member).2 rfl
    have fewer : (m.erase key).entries.length < m.entries.length := by
      apply List.length_filter_lt_length_iff_exists.mpr
      exact ⟨(key, value), OrderedMap.get?_eq_some_iff.mp found, by simp⟩
    rw [OrderedMap.entries_insert_of_not_mem absent, List.length_append, List.length_singleton]
    omega

theorem length_remember_le : (remember capacity cache key commandId).entries.length ≤ capacity := by
  rw [remember, length_popFirst_iterate]
  omega

theorem mem_remember {entry : String × CommandId}
    (member : entry ∈ (remember capacity cache key commandId).entries) :
    entry ∈ cache.entries ∨ entry = (key, commandId) := by
  have inserted := OrderedMap.mem_entries_moveToEnd (mem_popFirst_iterate member)
  exact (OrderedMap.mem_entries_insert inserted).imp_left And.left

theorem enqueue_cache {session next : Session} {command row : Command} {after : Cache}
    {key : Option String}
    (returned : enqueue capacity session cache command key [] = .ok (row, next, after)) :
    (∀ entry ∈ after.entries, entry ∈ cache.entries ∨ key = some entry.1 ∧ entry.2 = row.id) ∧
      (cache.entries.length ≤ capacity → after.entries.length ≤ capacity) := by
  have remembered (from_ : Cache) (key : String)
      (fewer : ∀ entry ∈ from_.entries, entry ∈ cache.entries)
      (same : after = remember capacity from_ key row.id) :
      (∀ entry ∈ after.entries, entry ∈ cache.entries ∨
        some key = some entry.1 ∧ entry.2 = row.id) ∧
        (cache.entries.length ≤ capacity → after.entries.length ≤ capacity) := by
    subst same
    refine ⟨fun entry member => ?_, fun _ => length_remember_le⟩
    rcases mem_remember member with old | rfl
    · exact .inl (fewer entry old)
    · exact .inr ⟨rfl, rfl⟩
  have uncached (from_ : Cache) (key : String)
      (fewer : ∀ entry ∈ from_.entries, entry ∈ cache.entries)
      (stored : enqueueUncached capacity session from_ command key [] = .ok (row, next, after)) :
      (∀ entry ∈ after.entries, entry ∈ cache.entries ∨
        some key = some entry.1 ∧ entry.2 = row.id) ∧
        (cache.entries.length ≤ capacity → after.entries.length ≤ capacity) := by
    apply remembered from_ key fewer
    simp only [enqueueUncached] at stored
    split at stored
    · cases stored
      rfl
    · split at stored
      · cases stored
        rfl
      · split at stored <;> cases stored
        rfl
  cases key with
  | none =>
    obtain ⟨flushed, _, same⟩ := map_eq_ok.mp returned
    cases same
    exact ⟨fun entry member => .inl member, id⟩
  | some key =>
    simp only [enqueue] at returned
    split at returned
    · exact uncached cache key (fun _ member => member) returned
    · next cachedId found =>
      split at returned
      · cases returned
        exact ⟨fun entry member => .inl (OrderedMap.mem_entries_moveToEnd member),
          (length_moveToEnd_le cache key).trans⟩
      · refine uncached _ key (fun entry member => ?_) returned
        exact OrderedMap.mem_entries_moveToEnd (List.mem_filter.mp member).1

end Cache

/-- No two rows carry one key, a commit only adds rows, and a cache entry names a
command that was drawn for its key, in case the command is still there. -/
structure Sound (capacity : Nat) (p : Process) : Prop where
  ids : (p.session.tables.commands.map Command.id).Nodup
  keys : (p.session.tables.commands.filterMap Command.idempotencyKey).Nodup
  kept : p.session.committed.commands <+: p.session.tables.commands
  drawn : ∀ row ∈ p.session.tables.commands, row.id ∈ p.drawn
  cached : ∀ entry ∈ p.cache.entries, entry.2 ∈ p.drawn ∧
    ∀ row ∈ p.session.tables.commands, row.id = entry.2 → row.idempotencyKey = some entry.1
  bounded : p.cache.entries.length ≤ capacity

section Sound

variable {capacity : Nat} {p : Process} {command : Command} {key : String}

theorem countP_key_le_one {rows : List Command}
    (keys : (rows.filterMap Command.idempotencyKey).Nodup) (key : String) :
    rows.countP (fun row => row.idempotencyKey = some key) ≤ 1 := by
  have once := List.nodup_iff_count_le_one.mp keys key
  rw [List.count, List.countP_filterMap] at once
  refine le_of_eq_of_le (List.countP_congr fun row _ => ?_) once
  cases row.idempotencyKey <;> simp

theorem byIdempotencyKey_eq_some {session : Session}
    (keys : (session.tables.commands.filterMap Command.idempotencyKey).Nodup) {row : Command} :
    session.byIdempotencyKey key = some row ↔
      row ∈ session.tables.commands ∧ row.idempotencyKey = some key := by
  constructor
  · exact findKey_some
  · rintro ⟨member, carried⟩
    cases found : session.byIdempotencyKey key with
    | none =>
      refine absurd ?_ (byIdempotencyKey_eq_none.mp found)
      exact List.mem_map.mpr ⟨row, member, carried⟩
    | some other =>
      obtain ⟨inside, same⟩ := findKey_some found
      by_contra different
      have both := countP_key_le_one keys key
      have pair : [row, other].Subperm session.tables.commands := by
        apply List.subperm_of_subset
        · simpa using fun same => different (congrArg some same.symm)
        · simp [member, show other ∈ session.tables.commands from inside]
      have two := pair.countP_le (fun row => decide (row.idempotencyKey = some key))
      simp only [List.countP_cons, List.countP_nil, carried, same, decide_true, if_true] at two
      omega

theorem othersCommit_nil (session : Session) : session.othersCommit [] = session := by
  simp [Session.othersCommit]

theorem enqueueUncached_eq (sound : Sound capacity p) (cache : Cache) :
    (enqueueUncached capacity p.session cache command key []).map (fun a => (a.1, a.2.1)) =
      putOnce p.session command (some key) := by
  simp only [enqueueUncached, putOnce, othersCommit_nil]
  cases carried : p.session.byIdempotencyKey key with
  | some row => rfl
  | none =>
    dsimp only
    cases p.session.flushCommand { command with idempotencyKey := some key } with
    | ok session => rfl
    | error error =>
      have gone : p.session.rollback.byIdempotencyKey key = none := by
        rw [byIdempotencyKey_eq_none] at carried ⊢
        exact fun member => carried ((sound.kept.sublist.map _).subset member)
      simp only [gone]
      rfl

theorem enqueue_eq_putOnce (sound : Sound capacity p) (key : Option String) :
    (enqueue capacity p.session p.cache command key []).map (fun a => (a.1, a.2.1)) =
      putOnce p.session command key := by
  cases key with
  | none =>
    simp only [enqueue, putOnce, othersCommit_nil]
    cases p.session.flushCommand command <;> rfl
  | some key =>
    cases found : p.cache.get? key with
    | none =>
      simp only [enqueue, found]
      exact enqueueUncached_eq sound p.cache
    | some cachedId =>
      cases present : p.session.getCommand cachedId with
      | none =>
        simp only [enqueue, found, present]
        exact enqueueUncached_eq sound _
      | some row =>
        obtain ⟨member, named⟩ := findKey_some present
        have carried := (sound.cached _ (OrderedMap.get?_eq_some_iff.mp found)).2 row
          member named
        simp only [enqueue, found, present, putOnce,
          (byIdempotencyKey_eq_some sound.keys).mpr ⟨member, carried⟩]
        rfl

def offered (command : Command) (key : Option String) : Command :=
  { command with idempotencyKey := key.or command.idempotencyKey }

theorem putOnce_cases {session next : Session} {row : Command} {key : Option String}
    (returned : putOnce session command key = .ok (row, next)) :
    (next = session ∧ ∃ k, key = some k ∧ session.byIdempotencyKey k = some row) ∨
      (row = offered command key ∧ session.flushCommand row = .ok next) := by
  have added {row' : Command} (same : row' = offered command key)
      (flushed : (session.flushCommand row').map (fun session => (row', session)) =
        .ok (row, next)) : row = offered command key ∧ session.flushCommand row = .ok next := by
    obtain ⟨stored, ok, pair⟩ := map_eq_ok.mp flushed
    cases pair
    exact ⟨same, ok⟩
  cases key with
  | none => exact .inr (added rfl returned)
  | some k =>
    simp only [putOnce] at returned
    split at returned
    · next carried =>
      cases returned
      exact .inl ⟨rfl, k, rfl, carried⟩
    · exact .inr (added rfl returned)

theorem enqueue_cases {next : Session} {after : Cache} {row : Command} {key : Option String}
    (sound : Sound capacity p)
    (returned : enqueue capacity p.session p.cache command key [] = .ok (row, next, after)) :
    (next = p.session ∧ ∃ k, key = some k ∧ p.session.byIdempotencyKey k = some row) ∨
      (row = offered command key ∧ p.session.flushCommand row = .ok next) := by
  apply putOnce_cases
  rw [← enqueue_eq_putOnce sound key, returned]
  rfl

theorem Sound.added {row : Command} {next : Session} (sound : Sound capacity p)
    (flushed : p.session.flushCommand row = .ok next) :
    (next.tables.commands.map Command.id).Nodup ∧
      (next.tables.commands.filterMap Command.idempotencyKey).Nodup ∧
        next.committed = p.session.committed ∧
          next.tables.commands = p.session.tables.commands ++ [row] := by
  obtain ⟨newId, newKey, _, rfl⟩ := Session.flushCommand_eq_ok.mp flushed
  refine ⟨?_, ?_, rfl, rfl⟩
  · exact @unique_append _ _ _ _ (some row) sound.ids fun _ same => by
      cases same
      exact newId
  · rw [List.filterMap_append, List.nodup_append]
    refine ⟨sound.keys, ?_, ?_⟩
    · cases own : row.idempotencyKey <;> simp [own]
    · intro key carried other single same
      subst same
      obtain ⟨old, member, carries⟩ := List.mem_filterMap.mp carried
      have own : row.idempotencyKey = some key := by simpa using single
      rcases newKey with unkeyed | unused
      · rw [own] at unkeyed
        cases unkeyed
      · exact unused (List.mem_map.mpr ⟨old, member, carries.trans own.symm⟩)

theorem Sound.rolledBack (sound : Sound capacity p) (cache : Cache) (drawn : List CommandId)
    (fewer : ∀ entry ∈ cache.entries, entry ∈ p.cache.entries)
    (short : cache.entries.length ≤ p.cache.entries.length)
    (more : ∀ id ∈ p.drawn, id ∈ drawn) :
    Sound capacity ⟨p.session.rollback, cache, drawn⟩ where
  ids := sound.ids.sublist (sound.kept.sublist.map _)
  keys := sound.keys.sublist (sound.kept.sublist.filterMap _)
  kept := List.prefix_refl _
  drawn := fun row member => more _ (sound.drawn row (sound.kept.subset member))
  cached := fun entry member =>
    ⟨more _ (sound.cached entry (fewer entry member)).1,
      fun row inside => (sound.cached entry (fewer entry member)).2 row (sound.kept.subset inside)⟩
  bounded := short.trans sound.bounded

theorem cacheAfterRaise_le (cache : Cache) (key : Option String) :
    (∀ entry ∈ (cacheAfterRaise cache key).entries, entry ∈ cache.entries) ∧
      (cacheAfterRaise cache key).entries.length ≤ cache.entries.length := by
  cases key with
  | none => exact ⟨fun _ member => member, Nat.le_refl _⟩
  | some key =>
    simp only [cacheAfterRaise]
    split
    · exact ⟨fun _ member => member, Nat.le_refl _⟩
    · refine ⟨fun entry member => ?_, ?_⟩
      · exact OrderedMap.mem_entries_moveToEnd (List.mem_filter.mp member).1
      · exact (length_erase_le _ key).trans (length_moveToEnd_le cache key)

theorem Sound.enqueued (sound : Sound capacity p) (fresh : command.id ∉ p.drawn)
    (key : Option String) : Sound capacity (enqueueStep capacity p command key) := by
  rw [enqueueStep]
  split
  · next row next after returned =>
    obtain ⟨entries, bounded⟩ := enqueue_cache returned
    rcases enqueue_cases sound returned with ⟨rfl, k, rfl, found⟩ | ⟨rfl, flushed⟩
    · obtain ⟨member, carried⟩ := findKey_some found
      refine ⟨sound.ids, sound.keys, sound.kept, fun row inside => ?_, fun entry inside => ?_,
        bounded sound.bounded⟩
      · exact List.mem_cons_of_mem _ (sound.drawn row inside)
      · rcases entries entry inside with old | ⟨own, named⟩
        · exact ⟨List.mem_cons_of_mem _ (sound.cached entry old).1, (sound.cached entry old).2⟩
        · refine ⟨List.mem_cons_of_mem _ (named ▸ sound.drawn row member), ?_⟩
          intro other there same
          rw [key_injective sound.ids there member (same.trans named), carried, own]
    · obtain ⟨ids, keys, committed, rows⟩ := sound.added flushed
      refine ⟨ids, keys, ?_, ?_, ?_, bounded sound.bounded⟩
      · rw [committed, rows]
        exact sound.kept.trans (List.prefix_append _ _)
      · intro row inside
        rw [rows] at inside
        rcases List.mem_append.mp inside with old | new
        · exact List.mem_cons_of_mem _ (sound.drawn row old)
        · rw [List.mem_singleton.mp new]
          exact List.mem_cons_self
      · intro entry inside
        rw [rows]
        rcases entries entry inside with old | ⟨rfl, named⟩
        · obtain ⟨known, carries⟩ := sound.cached entry old
          refine ⟨List.mem_cons_of_mem _ known, fun row there same => ?_⟩
          rcases List.mem_append.mp there with before | new
          · exact carries row before same
          · rw [List.mem_singleton.mp new] at same
            exact absurd (same ▸ known) fresh
        · refine ⟨named ▸ List.mem_cons_self, fun row there same => ?_⟩
          rcases List.mem_append.mp there with before | new
          · exact absurd (same.trans named ▸ sound.drawn row before) fresh
          · rw [List.mem_singleton.mp new]
            rfl
  · obtain ⟨fewer, short⟩ := cacheAfterRaise_le p.cache key
    exact sound.rolledBack _ _ fewer short (fun _ => List.mem_cons_of_mem _)

theorem step_sound (p : Process) (event : Event) (next : Process) (sound : Sound capacity p)
    (stepped : step capacity p event = some next) : Sound capacity next := by
  cases event with
  | enqueue command key =>
    simp only [step] at stepped
    split at stepped
    · cases stepped
    · next fresh =>
      cases stepped
      exact sound.enqueued fresh key
  | commit =>
    cases stepped
    exact { sound with kept := List.prefix_refl _ }
  | rollback =>
    cases stepped
    exact sound.rolledBack _ _ (fun _ member => member) (Nat.le_refl _) (fun _ known => known)
  | restart =>
    cases stepped
    exact sound.rolledBack _ _ (fun _ member => absurd member List.not_mem_nil) (Nat.zero_le _)
      (fun _ known => known)

theorem start_sound {tables : Tables} (ids : (tables.commands.map Command.id).Nodup)
    (keys : (tables.commands.filterMap Command.idempotencyKey).Nodup) :
    Sound capacity (Process.start tables) where
  ids := ids
  keys := keys
  kept := List.prefix_refl _
  drawn := fun _ member => List.mem_map_of_mem member
  cached := fun _ member => absurd member List.not_mem_nil
  bounded := Nat.zero_le _

end Sound

/-- What the queue promises in a state. A new command is one with a new UUID. -/
structure Idempotent (capacity : Nat) (p : Process) : Prop where
  once : ∀ key, p.session.tables.commands.countP (fun row => row.idempotencyKey = some key) ≤ 1 ∧
    p.session.committed.commands.countP (fun row => row.idempotencyKey = some key) ≤ 1
  carrier : ∀ command key row session cache, command.id ∉ p.drawn →
    enqueue capacity p.session p.cache command (some key) [] = .ok (row, session, cache) →
      session.byIdempotencyKey key = some row
  repeated : ∀ command key row, command.id ∉ p.drawn → row ∈ p.session.tables.commands →
    row.idempotencyKey = some key → ∃ cache,
      enqueue capacity p.session p.cache command (some key) [] = .ok (row, p.session, cache)
  first : ∀ command key, command.id ∉ p.drawn →
    (∀ row ∈ p.session.tables.commands, row.idempotencyKey ≠ some key) →
    (∀ row ∈ p.session.tables.commands, row.hostId = command.hostId →
      row.sequence ≠ command.sequence) →
    ∃ session cache, enqueue capacity p.session p.cache command (some key) [] =
        .ok ({ command with idempotencyKey := some key }, session, cache) ∧
      session.tables.commands =
        p.session.tables.commands ++ [{ command with idempotencyKey := some key }]
  rolledBack : ∀ command key row session cache cachedId, command.id ∉ p.drawn →
    p.cache.get? key = some cachedId →
    cachedId ∉ p.session.tables.commands.map Command.id →
    enqueue capacity p.session p.cache command (some key) [] = .ok (row, session, cache) →
      row.id ≠ cachedId
  unkeyed : ∀ command, command.id ∉ p.drawn → command.idempotencyKey = none →
    (∀ row ∈ p.session.tables.commands, row.hostId = command.hostId →
      row.sequence ≠ command.sequence) →
    ∃ session, enqueue capacity p.session p.cache command none [] =
        .ok (command, session, p.cache) ∧
      session.tables.commands = p.session.tables.commands ++ [command]
  bounded : p.cache.entries.length ≤ capacity

section Idempotent

variable {capacity : Nat} {p : Process} {command : Command}

theorem flush_new (sound : Sound capacity p) (fresh : command.id ∉ p.drawn)
    (apart : ∀ row ∈ p.session.tables.commands, row.hostId = command.hostId →
      row.sequence ≠ command.sequence)
    (unused : command.idempotencyKey = none ∨
      command.idempotencyKey ∉ p.session.tables.commands.map Command.idempotencyKey) :
    ∃ session, p.session.flushCommand command = .ok session ∧
      session.tables.commands = p.session.tables.commands ++ [command] := by
  refine ⟨_, Session.flushCommand_eq_ok.mpr ⟨?_, unused, ?_, rfl⟩, rfl⟩
  · intro taken
    obtain ⟨row, member, same⟩ := List.mem_map.mp taken
    exact fresh (same ▸ sound.drawn row member)
  · intro taken
    obtain ⟨row, member, same⟩ := List.mem_map.mp taken
    obtain ⟨host, sequence⟩ := Prod.mk.inj same
    exact apart row member host sequence

theorem enqueue_of_putOnce (sound : Sound capacity p) {key : Option String} {row : Command}
    {session : Session} (answer : putOnce p.session command key = .ok (row, session)) :
    ∃ cache, enqueue capacity p.session p.cache command key [] = .ok (row, session, cache) := by
  rw [← enqueue_eq_putOnce sound key] at answer
  obtain ⟨⟨other, next, cache⟩, returned, same⟩ := map_eq_ok.mp answer
  cases same
  exact ⟨cache, returned⟩

theorem enqueue_carrier (sound : Sound capacity p) {key : String} {row : Command}
    {session : Session} {cache : Cache}
    (returned : enqueue capacity p.session p.cache command (some key) [] =
      .ok (row, session, cache)) : session.byIdempotencyKey key = some row := by
  rcases enqueue_cases sound returned with ⟨rfl, k, same, found⟩ | ⟨rfl, flushed⟩
  · cases same
    exact found
  · obtain ⟨_, keys, _, rows⟩ := sound.added flushed
    exact (byIdempotencyKey_eq_some keys).mpr ⟨by simp [rows], rfl⟩

theorem idempotent_of_sound (sound : Sound capacity p) : Idempotent capacity p where
  once := fun key => ⟨countP_key_le_one sound.keys key,
    sound.kept.sublist.countP_le.trans (countP_key_le_one sound.keys key)⟩
  carrier := fun _ _ _ _ _ _ returned => enqueue_carrier sound returned
  repeated := by
    intro command key row _ member carried
    apply enqueue_of_putOnce sound
    simp only [putOnce, (byIdempotencyKey_eq_some sound.keys).mpr ⟨member, carried⟩]
  first := by
    intro command key fresh absent apart
    have unused : some key ∉ p.session.tables.commands.map Command.idempotencyKey := by
      intro taken
      obtain ⟨row, member, same⟩ := List.mem_map.mp taken
      exact absent row member same
    obtain ⟨session, flushed, rows⟩ := @flush_new _ p { command with idempotencyKey := some key }
      sound fresh apart (.inr unused)
    have answer : putOnce p.session command (some key) =
        .ok ({ command with idempotencyKey := some key }, session) := by
      simp only [putOnce, byIdempotencyKey_eq_none.mpr unused, flushed]
      rfl
    obtain ⟨cache, returned⟩ := enqueue_of_putOnce sound answer
    exact ⟨session, cache, returned, rows⟩
  rolledBack := by
    intro command key row session cache cachedId fresh found gone returned same
    have known := (sound.cached _ (OrderedMap.get?_eq_some_iff.mp found)).1
    rcases enqueue_cases sound returned with ⟨_, k, _, carried⟩ | ⟨rfl, _⟩
    · exact gone (List.mem_map.mpr ⟨row, (findKey_some carried).1, same⟩)
    · exact fresh ((show command.id = cachedId from same) ▸ known)
  unkeyed := by
    intro command fresh plain apart
    obtain ⟨session, flushed, rows⟩ := flush_new sound fresh apart (.inl plain)
    refine ⟨session, ?_, rows⟩
    simp only [enqueue, othersCommit_nil, flushed]
    rfl
  bounded := sound.bounded

/-- Whatever the process has enqueued, committed and rolled back, and wherever it was restarted,
its queue is idempotent. -/
theorem enqueue_idempotent (capacity : Nat) {tables : Tables} {events : List Event}
    (ids : (tables.commands.map Command.id).Nodup)
    (keys : (tables.commands.filterMap Command.idempotencyKey).Nodup)
    (reached : run (step capacity) (Process.start tables) events = some p) :
    Idempotent capacity p :=
  idempotent_of_sound (run_preserves step_sound (start_sound ids keys) reached)

end Idempotent

def noTables : Tables where
  fleet := ⟨[], [], []⟩
  approvals := []
  tasks := []
  runs := []
  commands := []
  nextSeq := fun _ => none
  audit := []

def queuedCommand (id : CommandId) (sequence : Nat) : Command :=
  ⟨id, "run", "host", sequence, [1], .low, 0, 300, .queued, none⟩

def rolledBackThenRepeated : List Event :=
  [.enqueue (queuedCommand "a" 1) (some "key"), .rollback,
    .enqueue (queuedCommand "b" 1) (some "key"), .commit, .restart,
    .enqueue (queuedCommand "c" 2) (some "key"), .enqueue (queuedCommand "d" 2) none]

theorem repeated_after_rollback : ∃ p,
    run (step 1) (Process.start noTables) rolledBackThenRepeated = some p ∧
      p.session.tables.commands.map Command.id = ["b", "d"] ∧ Idempotent 1 p := by
  obtain ⟨p, reached, rows⟩ := (Option.any_eq_true
    (fun p : Process => decide (p.session.tables.commands.map Command.id = ["b", "d"])) _).mp
      (show (run (step 1) (Process.start noTables) rolledBackThenRepeated).any _ = true by
        decide +kernel)
  refine ⟨p, reached, of_decide_eq_true rows, enqueue_idempotent 1 ?_ ?_ reached⟩
  · exact List.nodup_nil
  · exact List.nodup_nil

end HlHelper.CommandQueue
