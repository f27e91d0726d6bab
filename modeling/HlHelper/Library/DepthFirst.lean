import HlHelper.Library.OrderedMap
import Mathlib.Data.List.Basic
import Mathlib.Logic.Relation

/-! Depth-first search that keeps in a table what it has found below each vertex. -/

namespace HlHelper.Library

variable {α : Type*}

/-- A way down along children leads from one vertex to the other. -/
def Reaches (children : α → List α) : α → α → Prop :=
  Relation.ReflTransGen fun above below => below ∈ children above

theorem reaches_iff {children : α → List α} {a b : α} :
    Reaches children a b ↔ b = a ∨ ∃ child ∈ children a, Reaches children child b := by
  rw [Reaches, Relation.ReflTransGen.cases_head_iff]
  exact or_congr_left eq_comm

variable [DecidableEq α]

abbrev Descendants (α : Type*) := OrderedMap α (List α)

/-- The loop over children, with what is below them added up. -/
def gather (visit : α → Descendants α → Option (List α × Descendants α)) :
    List α → List α → Descendants α → Option (List α × Descendants α)
  | [], result, table => some (result, table)
  | child :: rest, result, table =>
    match visit child table with
    | none => none
    | some (below, table) => gather visit rest (result ∪ below) table

/-- A visit with at most `depth` visits open at a time. -/
def visit (children : α → List α) : Nat → α → Descendants α →
    Option (List α × Descendants α)
  | 0, _, _ => none
  | depth + 1, a, table =>
    match table.get? a with
    | some below => some (below, table)
    | none =>
      (gather (visit children depth) (children a) [a] table).map fun (result, table) =>
        (result, table.insert a result)

def visitAll (children : α → List α) (depth : Nat) : List α → Descendants α →
    Option (Descendants α)
  | [], table => some table
  | root :: rest, table =>
    match visit children depth root table with
    | none => none
    | some (_, table) => visitAll children depth rest table

section Soundness

variable {children : α → List α} {depth : Nat} {before after : Descendants α} {a b : α}
  {below : List α}

def Descendants.Sound (children : α → List α) (table : Descendants α) : Prop :=
  ∀ a below, table.get? a = some below → ∀ b, b ∈ below ↔ Reaches children a b

structure Explored (children : α → List α) (roots : List α) (before after : Descendants α) :
    Prop where
  sound : after.Sound children
  kept : ∀ a below, before.get? a = some below → after.get? a = some below
  within : ∀ a ∈ after.keys, a ∈ before.keys ∨ ∃ root ∈ roots, Reaches children root a
  done : ∀ root ∈ roots, root ∈ after.keys

theorem Explored.nil (sound : before.Sound children) : Explored children [] before before :=
  ⟨sound, fun _ _ found => found, fun _ member => .inl member, nofun⟩

theorem keys_of_kept (kept : ∀ a below, before.get? a = some below → after.get? a = some below)
    (member : a ∈ before.keys) : a ∈ after.keys := by
  cases found : before.get? a with
  | none => exact absurd member (OrderedMap.get?_eq_none_iff.mp found)
  | some below => exact OrderedMap.mem_keys_of_get? (kept a below found)

theorem Explored.cons {middle : Descendants α} {root : α} {rest : List α}
    (first : Explored children [root] before middle)
    (others : Explored children rest middle after) :
    Explored children (root :: rest) before after where
  sound := others.sound
  kept a below found := others.kept a below (first.kept a below found)
  within a member := by
    rcases others.within a member with old | ⟨other, listed, way⟩
    · rcases first.within a old with older | ⟨other, listed, way⟩
      · exact .inl older
      · exact .inr ⟨root, List.mem_cons_self, List.mem_singleton.mp listed ▸ way⟩
    · exact .inr ⟨other, List.mem_cons_of_mem _ listed, way⟩
  done other listed := by
    rcases List.mem_cons.mp listed with rfl | later
    · exact keys_of_kept others.kept (first.done other (List.mem_singleton_self _))
    · exact others.done other later

theorem Explored.record (explored : Explored children (children a) before after)
    (absent : before.get? a = none) (reached : ∀ b, b ∈ below ↔ Reaches children a b) :
    Explored children [a] before (after.insert a below) where
  sound other found present := by
    by_cases same : other = a
    · rw [same, OrderedMap.get?_insert_self, Option.some.injEq] at present
      exact present ▸ same ▸ reached
    · rw [OrderedMap.get?_insert_other _ same] at present
      exact explored.sound other found present
  kept other found present := by
    have different : other ≠ a := by
      rintro rfl
      exact absurd (absent.symm.trans present) nofun
    rw [OrderedMap.get?_insert_other _ different]
    exact explored.kept other found present
  within other member := by
    obtain ⟨entry, inside, rfl⟩ := List.mem_map.mp member
    rcases OrderedMap.mem_entries_insert inside with ⟨old, _⟩ | rfl
    · refine (explored.within entry.1 (List.mem_map_of_mem old)).imp_right ?_
      rintro ⟨child, listed, way⟩
      exact ⟨a, List.mem_singleton_self _, Relation.ReflTransGen.head listed way⟩
    · exact .inr ⟨a, List.mem_singleton_self _, Relation.ReflTransGen.refl⟩
  done root listed := by
    rw [List.mem_singleton.mp listed]
    exact OrderedMap.mem_keys_of_get? (OrderedMap.get?_insert_self ..)

def VisitSound (children : α → List α)
    (visit : α → Descendants α → Option (List α × Descendants α)) : Prop :=
  ∀ a before below after, before.Sound children → visit a before = some (below, after) →
    Explored children [a] before after ∧ ∀ b, b ∈ below ↔ Reaches children a b

theorem gather_sound {visit : α → Descendants α → Option (List α × Descendants α)}
    (each : VisitSound children visit) {rest result : List α} (sound : before.Sound children)
    (gathered : gather visit rest result before = some (below, after)) :
    Explored children rest before after ∧
      ∀ b, b ∈ below ↔ b ∈ result ∨ ∃ child ∈ rest, Reaches children child b := by
  induction rest generalizing result before with
  | nil =>
    obtain ⟨rfl, rfl⟩ : result = below ∧ before = after := by
      simpa only [gather, Option.some.injEq, Prod.mk.injEq] using gathered
    exact ⟨.nil sound, by simp⟩
  | cons child rest ih =>
    rw [gather] at gathered
    split at gathered
    · cases gathered
    · next found middle visited =>
      obtain ⟨first, reached⟩ := each child before found middle sound visited
      obtain ⟨others, total⟩ := ih first.sound gathered
      refine ⟨first.cons others, fun b => ?_⟩
      rw [total, List.mem_union_iff, reached]
      simp only [List.mem_cons, exists_eq_or_imp, or_assoc]

theorem visit_sound : VisitSound children (visit children depth) := by
  induction depth with
  | zero =>
    intro a before below after _ visited
    cases visited
  | succ depth ih =>
    intro a before below after sound visited
    rw [visit] at visited
    split at visited
    · next found present =>
      obtain ⟨rfl, rfl⟩ : found = below ∧ before = after := by
        simpa only [Option.some.injEq, Prod.mk.injEq] using visited
      refine ⟨⟨sound, fun _ _ old => old, fun _ member => .inl member, ?_⟩,
        sound a found present⟩
      intro root listed
      rw [List.mem_singleton.mp listed]
      exact OrderedMap.mem_keys_of_get? present
    · next absent =>
      obtain ⟨⟨result, middle⟩, gathered, same⟩ := Option.map_eq_some_iff.mp visited
      obtain ⟨rfl, rfl⟩ : result = below ∧ middle.insert a result = after := by
        simpa only [Prod.mk.injEq] using same
      obtain ⟨explored, total⟩ := gather_sound ih sound gathered
      have reached (b : α) : b ∈ result ↔ Reaches children a b := by
        rw [total, reaches_iff, List.mem_singleton]
      exact ⟨explored.record absent reached, reached⟩

theorem visitAll_explored {roots : List α} (sound : before.Sound children)
    (visited : visitAll children depth roots before = some after) :
    Explored children roots before after := by
  induction roots generalizing before with
  | nil =>
    obtain rfl : before = after := Option.some.inj visited
    exact .nil sound
  | cons root rest ih =>
    rw [visitAll] at visited
    split at visited
    · cases visited
    · next found middle first =>
      obtain ⟨explored, _⟩ := visit_sound root before found middle sound first
      exact explored.cons (ih explored.sound visited)

theorem sound_empty : Descendants.Sound children .empty := by
  intro a below found
  cases found

end Soundness

section Totality

variable {children : α → List α} {rank : α → Nat} {depth : Nat}

theorem gather_total {visit : α → Descendants α → Option (List α × Descendants α)}
    {rest : List α} (each : ∀ child ∈ rest, ∀ table, (visit child table).isSome)
    (result : List α) (table : Descendants α) : (gather visit rest result table).isSome := by
  induction rest generalizing result table with
  | nil => rfl
  | cons child rest ih =>
    obtain ⟨first, others⟩ := List.forall_mem_cons.mp each
    obtain ⟨⟨below, middle⟩, visited⟩ := Option.isSome_iff_exists.mp (first table)
    rw [gather, visited]
    exact ih others (result ∪ below) middle

theorem visit_total (falls : ∀ a, ∀ child ∈ children a, rank child < rank a) {a : α}
    (deep : rank a < depth) (table : Descendants α) : (visit children depth a table).isSome := by
  induction depth generalizing a table with
  | zero => exact absurd deep (Nat.not_lt_zero _)
  | succ depth ih =>
    rw [visit]
    split
    · rfl
    · rw [Option.isSome_map]
      refine gather_total (fun child listed table => ih ?_ table) [a] table
      exact Nat.lt_of_lt_of_le (falls a child listed) (Nat.le_of_lt_succ deep)

theorem visitAll_total (falls : ∀ a, ∀ child ∈ children a, rank child < rank a) {roots : List α}
    (deep : ∀ root ∈ roots, rank root < depth) (table : Descendants α) :
    (visitAll children depth roots table).isSome := by
  induction roots generalizing table with
  | nil => rfl
  | cons root rest ih =>
    obtain ⟨first, others⟩ := List.forall_mem_cons.mp deep
    obtain ⟨⟨_, middle⟩, visited⟩ := Option.isSome_iff_exists.mp (visit_total falls first table)
    rw [visitAll, visited]
    exact ih others middle

end Totality

section Rank

omit [DecidableEq α]

def Below (children : α → List α) : α → α → Prop :=
  Relation.TransGen fun above below => below ∈ children above

open Classical in
noncomputable def strictlyBelow (children : α → List α) (vertices : List α) (a : α) : Nat :=
  (vertices.filter fun b => Below children a b).length

variable {children : α → List α} {vertices : List α}

theorem strictlyBelow_le (a : α) : strictlyBelow children vertices a ≤ vertices.length :=
  List.length_filter_le _ _

open Classical in
theorem strictlyBelow_falls
    (acyclic : ∀ a, ¬ Below children a a)
    (known : ∀ a, ∀ child ∈ children a, child ∈ vertices) (a child : α)
    (listed : child ∈ children a) :
    strictlyBelow children vertices child < strictlyBelow children vertices a := by
  have fewer : vertices.filter (fun b => Below children child b) =
      (vertices.filter fun b => Below children a b).filter (fun b => Below children child b) := by
    rw [List.filter_filter]
    refine List.filter_congr fun b _ => ?_
    by_cases way : Below children child b
    · have longer : Below children a b := Relation.TransGen.head listed way
      simp [way, longer]
    · simp [way]
  rw [strictlyBelow, fewer]
  refine List.length_filter_lt_length_iff_exists.mpr ⟨child, ?_, by simpa using acyclic child⟩
  have first : Below children a child := Relation.TransGen.single listed
  exact List.mem_filter.mpr ⟨known a child listed, decide_eq_true first⟩

end Rank

end HlHelper.Library
