import Mathlib.Data.List.Nodup

/-! Insertion-ordered maps with unique keys: assigning a present key keeps its
place, assigning an absent key appends, and the oldest entry can be popped. -/

namespace HlHelper.Library

structure OrderedMap (κ ν : Type*) where
  entries : List (κ × ν)
  unique : (entries.map Prod.fst).Nodup

namespace OrderedMap

variable {κ ν : Type*}

@[ext] theorem ext {m n : OrderedMap κ ν} (same : m.entries = n.entries) : m = n := by
  cases m
  cases n
  cases same
  rfl

instance [DecidableEq κ] [DecidableEq ν] : DecidableEq (OrderedMap κ ν) := fun m n =>
  decidable_of_iff (m.entries = n.entries) ⟨ext, fun same => same ▸ rfl⟩

def empty : OrderedMap κ ν := ⟨[], List.nodup_nil⟩

instance : Inhabited (OrderedMap κ ν) := ⟨empty⟩

def keys (m : OrderedMap κ ν) : List κ := m.entries.map Prod.fst
def values (m : OrderedMap κ ν) : List ν := m.entries.map Prod.snd

@[simp] theorem values_empty : (empty : OrderedMap κ ν).values = [] := rfl

@[simp] theorem keys_empty : (empty : OrderedMap κ ν).keys = [] := rfl

theorem eq_of_mem_of_mem {m : OrderedMap κ ν} {key : κ} {first second : ν}
    (left : (key, first) ∈ m.entries) (right : (key, second) ∈ m.entries) : first = second := by
  have same := List.inj_on_of_nodup_map m.unique left right rfl
  exact congrArg Prod.snd same

variable [DecidableEq κ]

def get? (m : OrderedMap κ ν) (key : κ) : Option ν :=
  (m.entries.find? (fun entry => entry.1 = key)).map Prod.snd

def replace (key : κ) (value : ν) (entry : κ × ν) : κ × ν :=
  if entry.1 = key then (key, value) else entry

theorem replace_fst (key : κ) (value : ν) (entry : κ × ν) :
    (replace key value entry).1 = entry.1 := by
  unfold replace
  split
  · next same => exact same.symm
  · rfl

theorem map_replace_keys (key : κ) (value : ν) (entries : List (κ × ν)) :
    (entries.map (replace key value)).map Prod.fst = entries.map Prod.fst := by
  simp [List.map_map, Function.comp_def, replace_fst]

/-- `m[key] = value` of an `OrderedDict`. -/
def insert (m : OrderedMap κ ν) (key : κ) (value : ν) : OrderedMap κ ν :=
  if present : key ∈ m.keys then
    ⟨m.entries.map (replace key value), by rw [map_replace_keys]; exact m.unique⟩
  else
    ⟨m.entries ++ [(key, value)], by
      simp only [List.map_append, List.map_cons, List.map_nil]
      exact List.nodup_append.mpr ⟨m.unique, List.nodup_singleton key, by
        intro a member b single same
        simp only [List.mem_singleton] at single
        exact present (by simpa [keys, single, same] using member)⟩⟩

def erase (m : OrderedMap κ ν) (key : κ) : OrderedMap κ ν :=
  ⟨m.entries.filter (fun entry => entry.1 ≠ key),
    m.unique.sublist (List.filter_sublist.map Prod.fst)⟩

/-- `move_to_end(key)`. -/
def moveToEnd (m : OrderedMap κ ν) (key : κ) : OrderedMap κ ν :=
  match m.get? key with
  | none => m
  | some value => (m.erase key).insert key value

/-- `popitem(last=False)`. -/
def popFirst (m : OrderedMap κ ν) : OrderedMap κ ν :=
  ⟨m.entries.tail, m.unique.sublist ((List.tail_sublist _).map Prod.fst)⟩

/-- Every value is changed, and keeps its key and its place. -/
def mapValues (f : κ → ν → ν) (m : OrderedMap κ ν) : OrderedMap κ ν :=
  ⟨m.entries.map (fun entry => (entry.1, f entry.1 entry.2)), by
    rw [List.map_map]
    exact m.unique⟩

/-- `m.setdefault(key, []).append(item)`. -/
def appendTo {ι : Type*} (m : OrderedMap κ (List ι)) (key : κ) (item : ι) :
    OrderedMap κ (List ι) :=
  m.insert key ((m.get? key).getD [] ++ [item])

theorem entries_insert_of_mem {m : OrderedMap κ ν} {key : κ} (present : key ∈ m.keys) (value : ν) :
    (m.insert key value).entries = m.entries.map (replace key value) := by
  simp [insert, present]

theorem entries_insert_of_not_mem {m : OrderedMap κ ν} {key : κ} (absent : key ∉ m.keys)
    (value : ν) : (m.insert key value).entries = m.entries ++ [(key, value)] := by
  simp [insert, absent]

theorem values_insert_of_not_mem {m : OrderedMap κ ν} {key : κ} (absent : key ∉ m.keys)
    (value : ν) : (m.insert key value).values = m.values ++ [value] := by
  simp [values, entries_insert_of_not_mem absent]

theorem get?_eq_some_iff {m : OrderedMap κ ν} {key : κ} {value : ν} :
    m.get? key = some value ↔ (key, value) ∈ m.entries := by
  constructor
  · intro found
    simp only [get?, Option.map_eq_some_iff] at found
    obtain ⟨entry, found, rfl⟩ := found
    have key_eq : entry.1 = key := by simpa using List.find?_some found
    subst key_eq
    exact List.mem_of_find?_eq_some found
  · intro member
    cases found : m.entries.find? (fun entry => entry.1 = key) with
    | none =>
      have missing := List.find?_eq_none.mp found (key, value) member
      simp at missing
    | some entry =>
      have key_eq : entry.1 = key := by simpa using List.find?_some found
      have inside := List.mem_of_find?_eq_some found
      have same : entry.2 = value := by
        refine eq_of_mem_of_mem (m := m) ?_ member
        rwa [← key_eq]
      simp [get?, found, same]

theorem get?_eq_none_iff {m : OrderedMap κ ν} {key : κ} : m.get? key = none ↔ key ∉ m.keys := by
  simp only [get?, Option.map_eq_none_iff, List.find?_eq_none, decide_eq_true_eq, keys,
    List.mem_map, not_exists, not_and]

theorem insert_same {m : OrderedMap κ ν} {key : κ} {value : ν}
    (member : (key, value) ∈ m.entries) : m.insert key value = m := by
  have present : key ∈ m.keys := List.mem_map.mpr ⟨_, member, rfl⟩
  apply ext
  rw [entries_insert_of_mem present]
  have fixed : ∀ entry ∈ m.entries, replace key value entry = entry := by
    intro entry inside
    unfold replace
    split
    · next same =>
      subst same
      rw [eq_of_mem_of_mem (m := m) member inside]
    · rfl
  calc m.entries.map (replace key value) = m.entries.map id := List.map_congr_left fixed
    _ = m.entries := List.map_id _

theorem mem_keys_erase {m : OrderedMap κ ν} {key other : κ} :
    other ∈ (m.erase key).keys ↔ other ∈ m.keys ∧ other ≠ key := by
  simp only [keys, erase, List.mem_map, List.mem_filter, decide_eq_true_eq, ne_eq, Prod.exists]
  constructor
  · rintro ⟨a, b, ⟨member, different⟩, rfl⟩
    exact ⟨⟨a, b, member, rfl⟩, different⟩
  · rintro ⟨⟨a, b, member, rfl⟩, different⟩
    exact ⟨a, b, ⟨member, different⟩, rfl⟩

theorem get?_moveToEnd_same (m : OrderedMap κ ν) (key : κ) :
    (m.moveToEnd key).get? key = m.get? key := by
  unfold moveToEnd
  cases found : m.get? key with
  | none => exact found
  | some value =>
    have absent : key ∉ (m.erase key).keys := fun member => (mem_keys_erase.mp member).2 rfl
    rw [get?_eq_some_iff, entries_insert_of_not_mem absent]
    simp

theorem mem_values_of_mem_erase {m : OrderedMap κ ν} {key : κ} {value : ν}
    (member : value ∈ (m.erase key).values) : value ∈ m.values := by
  obtain ⟨entry, inside, rfl⟩ := List.mem_map.mp member
  exact List.mem_map.mpr ⟨entry, (List.mem_filter.mp inside).1, rfl⟩

theorem mem_values_insert {m : OrderedMap κ ν} {key : κ} {value other : ν}
    (member : other ∈ (m.insert key value).values) : other ∈ m.values ∨ other = value := by
  obtain ⟨entry, inside, rfl⟩ := List.mem_map.mp member
  by_cases present : key ∈ m.keys
  · rw [entries_insert_of_mem present] at inside
    obtain ⟨old, held, rfl⟩ := List.mem_map.mp inside
    by_cases same : old.1 = key
    · exact .inr (by simp [replace, same])
    · exact .inl (List.mem_map.mpr ⟨old, held, by simp [replace, same]⟩)
  · rw [entries_insert_of_not_mem present] at inside
    rcases List.mem_append.mp inside with inside | inside
    · exact .inl (List.mem_map.mpr ⟨entry, inside, rfl⟩)
    · simp only [List.mem_singleton] at inside
      exact .inr (by rw [inside])

theorem mem_entries_insert {m : OrderedMap κ ν} {key : κ} {value : ν} {entry : κ × ν}
    (member : entry ∈ (m.insert key value).entries) :
    (entry ∈ m.entries ∧ entry.1 ≠ key) ∨ entry = (key, value) := by
  by_cases present : key ∈ m.keys
  · rw [entries_insert_of_mem present] at member
    obtain ⟨old, held, rfl⟩ := List.mem_map.mp member
    by_cases same : old.1 = key
    · exact .inr (by simp [replace, same])
    · exact .inl (by simp [replace, same, held])
  · rw [entries_insert_of_not_mem present] at member
    rcases List.mem_append.mp member with old | new
    · refine .inl ⟨old, ?_⟩
      rintro rfl
      exact present (List.mem_map_of_mem old)
    · exact .inr (List.mem_singleton.mp new)

theorem mem_keys_of_get? {m : OrderedMap κ ν} {key : κ} {value : ν}
    (found : m.get? key = some value) : key ∈ m.keys :=
  List.mem_map.mpr ⟨_, get?_eq_some_iff.mp found, rfl⟩

theorem get?_insert_self (m : OrderedMap κ ν) (key : κ) (value : ν) :
    (m.insert key value).get? key = some value := by
  rw [get?_eq_some_iff]
  by_cases present : key ∈ m.keys
  · rw [entries_insert_of_mem present]
    obtain ⟨entry, inside, rfl⟩ := List.mem_map.mp present
    exact List.mem_map.mpr ⟨entry, inside, by simp [replace]⟩
  · rw [entries_insert_of_not_mem present]
    simp

theorem get?_insert_other (m : OrderedMap κ ν) {key other : κ} (different : other ≠ key)
    (value : ν) : (m.insert key value).get? other = m.get? other := by
  apply Option.ext
  intro found
  rw [get?_eq_some_iff, get?_eq_some_iff]
  constructor
  · intro member
    rcases mem_entries_insert member with ⟨old, _⟩ | new
    · exact old
    · exact absurd (congrArg Prod.fst new) different
  · intro member
    by_cases present : key ∈ m.keys
    · rw [entries_insert_of_mem present]
      exact List.mem_map.mpr ⟨_, member, by simp [replace, different]⟩
    · rw [entries_insert_of_not_mem present]
      exact List.mem_append_left _ member

theorem get?_foldl_insert_all (keys : List κ) (value : ν) (m : OrderedMap κ ν) (key : κ) :
    (keys.foldl (fun m other => m.insert other value) m).get? key =
      if key ∈ keys then some value else m.get? key := by
  induction keys generalizing m with
  | nil => rfl
  | cons first keys ih =>
    rw [List.foldl_cons, ih]
    by_cases later : key ∈ keys
    · rw [if_pos later, if_pos (List.mem_cons_of_mem _ later)]
    · by_cases same : key = first
      · rw [if_neg later, if_pos (same ▸ List.mem_cons_self), same, get?_insert_self]
      · rw [if_neg later, get?_insert_other m same,
          if_neg (List.not_mem_cons_of_ne_of_not_mem same later)]

theorem get?_foldl_assign {α : Type*} (entries : List α) (keysOf : α → List κ) (valueOf : α → ν)
    (m : OrderedMap κ ν) (key : κ) :
    (entries.foldl (fun m entry =>
        (keysOf entry).foldl (fun m other => m.insert other (valueOf entry)) m) m).get? key =
      ((entries.filter (fun entry => key ∈ keysOf entry)).getLast?.map valueOf).or
        (m.get? key) := by
  induction entries generalizing m with
  | nil => rfl
  | cons entry entries ih =>
    rw [List.foldl_cons, ih, List.filter_cons, get?_foldl_insert_all]
    by_cases assigned : key ∈ keysOf entry
    · rw [if_pos assigned, if_pos (decide_eq_true assigned), List.getLast?_cons]
      cases (entries.filter (fun other => key ∈ keysOf other)).getLast? <;> rfl
    · rw [if_neg assigned, if_neg (by simpa using assigned)]

theorem get?_foldl_insert {α : Type*} (entries : List α) (keyOf : α → κ) (valueOf : α → ν)
    (m : OrderedMap κ ν) (key : κ) :
    (entries.foldl (fun m entry => m.insert (keyOf entry) (valueOf entry)) m).get? key =
      ((entries.filter (fun entry => keyOf entry = key)).getLast?.map valueOf).or (m.get? key) := by
  have named : entries.filter (fun entry => keyOf entry = key) =
      entries.filter (fun entry => key ∈ [keyOf entry]) := by
    apply List.filter_congr
    intro entry _
    rw [decide_eq_decide, List.mem_singleton]
    exact eq_comm
  rw [named]
  exact get?_foldl_assign entries (fun entry => [keyOf entry]) valueOf m key

theorem get?_mapValues (f : κ → ν → ν) (m : OrderedMap κ ν) (key : κ) :
    (m.mapValues f).get? key = (m.get? key).map (f key) := by
  cases found : m.get? key with
  | none =>
    rw [get?_eq_none_iff] at found
    refine get?_eq_none_iff.mpr ?_
    intro member
    apply found
    rw [keys, mapValues, List.map_map] at member
    exact member
  | some value =>
    refine get?_eq_some_iff.mpr (List.mem_map.mpr ⟨(key, value), ?_, rfl⟩)
    exact get?_eq_some_iff.mp found

theorem entries_foldl_insert {α : Type*} (items : List α) (keyOf : α → κ) (valueOf : α → ν)
    (m : OrderedMap κ ν) (fresh : (m.keys ++ items.map keyOf).Nodup) :
    (items.foldl (fun m item => m.insert (keyOf item) (valueOf item)) m).entries =
      m.entries ++ items.map (fun item => (keyOf item, valueOf item)) := by
  induction items generalizing m with
  | nil => exact (List.append_nil _).symm
  | cons item items ih =>
    have absent : keyOf item ∉ m.keys := fun present =>
      (List.nodup_append.mp fresh).2.2 _ present _ List.mem_cons_self rfl
    have added := entries_insert_of_not_mem absent (valueOf item)
    have later : ((m.insert (keyOf item) (valueOf item)).keys ++ items.map keyOf).Nodup := by
      rw [keys, added, List.map_append, List.append_assoc]
      exact fresh
    rw [List.foldl_cons, ih _ later, added, List.append_assoc]
    rfl

theorem getD_foldl_appendTo {α ι : Type*} (entries : List α) (keyOf : α → κ) (itemOf : α → ι)
    (m : OrderedMap κ (List ι)) (key : κ) :
    ((entries.foldl (fun m entry => m.appendTo (keyOf entry) (itemOf entry)) m).get? key).getD [] =
      (m.get? key).getD [] ++ (entries.filter (fun entry => keyOf entry = key)).map itemOf := by
  induction entries generalizing m with
  | nil => exact (List.append_nil _).symm
  | cons entry entries ih =>
    rw [List.foldl_cons, ih, List.filter_cons]
    by_cases same : keyOf entry = key
    · rw [if_pos (decide_eq_true same), appendTo, same, get?_insert_self, List.map_cons]
      exact List.append_assoc _ _ _
    · rw [if_neg (by simpa using same), appendTo, get?_insert_other m (Ne.symm same)]

theorem get?_erase_other (m : OrderedMap κ ν) {key other : κ} (different : other ≠ key) :
    (m.erase key).get? other = m.get? other := by
  apply Option.ext
  intro found
  rw [get?_eq_some_iff, get?_eq_some_iff]
  simp [erase, different]

theorem get?_erase_self (m : OrderedMap κ ν) (key : κ) : (m.erase key).get? key = none := by
  rw [get?_eq_none_iff]
  exact fun member => (mem_keys_erase.mp member).2 rfl

theorem get?_moveToEnd (m : OrderedMap κ ν) (key other : κ) :
    (m.moveToEnd key).get? other = m.get? other := by
  by_cases same : other = key
  · rw [same]
    exact get?_moveToEnd_same m key
  · unfold moveToEnd
    cases found : m.get? key with
    | none => rfl
    | some value =>
      dsimp only
      rw [get?_insert_other _ same, get?_erase_other _ same]

theorem get?_popFirst {m : OrderedMap κ ν} {key : κ}
    (kept : ∀ first ∈ m.entries.head?, first.1 ≠ key) : m.popFirst.get? key = m.get? key := by
  apply Option.ext
  intro found
  rw [get?_eq_some_iff, get?_eq_some_iff]
  constructor
  · exact List.mem_of_mem_tail
  · intro member
    change _ ∈ m.entries.tail
    cases entries : m.entries with
    | nil =>
      rw [entries] at member
      exact absurd member List.not_mem_nil
    | cons first rest =>
      rw [entries] at member
      rcases List.mem_cons.mp member with rfl | inside
      · exact absurd rfl (kept (key, found) (by simp [entries]))
      · exact inside

theorem mem_entries_moveToEnd {m : OrderedMap κ ν} {key : κ} {entry : κ × ν}
    (member : entry ∈ (m.moveToEnd key).entries) : entry ∈ m.entries := by
  unfold moveToEnd at member
  cases found : m.get? key with
  | none => rwa [found] at member
  | some value =>
    rw [found] at member
    rcases mem_entries_insert member with ⟨old, _⟩ | rfl
    · exact (List.mem_filter.mp old).1
    · exact get?_eq_some_iff.mp found

end OrderedMap

end HlHelper.Library
