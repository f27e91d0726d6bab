import Mathlib.Data.List.Forall2
import Mathlib.Data.List.Induction

/-! Chains of digests: each record is hashed with its position and the digest
before it, or names that digest, and the digest of the last record stands for all
of them. Trees of digests: so does the root for its leaves, when their number is known. -/

namespace HlHelper.Library

variable {β τ : Type*}

/-- The last digest of a chain whose first record has the given position. -/
def chainTip (link : Nat → β → τ → τ) : Nat → τ → List β → τ
  | _, tip, [] => tip
  | position, tip, record :: rest =>
    chainTip link (position + 1) (link position record tip) rest

def chainInputs (link : Nat → β → τ → τ) : Nat → τ → List β → List (Nat × β × τ)
  | _, _, [] => []
  | position, tip, record :: rest =>
    (position, record, tip) ::
      chainInputs link (position + 1) (link position record tip) rest

variable (link : Nat → β → τ → τ)

theorem chainTip_append (position : Nat) (tip : τ) (records more : List β) :
    chainTip link position tip (records ++ more) =
      chainTip link (position + records.length) (chainTip link position tip records) more := by
  induction records generalizing position tip with
  | nil => rfl
  | cons record rest ih =>
    rw [List.cons_append, chainTip, ih, chainTip, List.length_cons, Nat.add_right_comm,
      Nat.add_assoc]

theorem chainInputs_append (position : Nat) (tip : τ) (records more : List β) :
    chainInputs link position tip (records ++ more) =
      chainInputs link position tip records ++
        chainInputs link (position + records.length) (chainTip link position tip records) more := by
  induction records generalizing position tip with
  | nil => rfl
  | cons record rest ih =>
    rw [List.cons_append, chainInputs, ih, chainInputs, chainTip, List.length_cons,
      Nat.add_right_comm, Nat.add_assoc, List.cons_append]

theorem chainTip_injective {position : Nat} {genesis : τ} {first second : List β}
    (width : first.length = second.length)
    (apart : ∀ a ∈ chainInputs link position genesis first,
      ∀ b ∈ chainInputs link position genesis second,
        link a.1 a.2.1 a.2.2 = link b.1 b.2.1 b.2.2 → a = b)
    (same : chainTip link position genesis first = chainTip link position genesis second) :
    first = second := by
  induction first using List.reverseRecOn generalizing second with
  | nil => exact (List.length_eq_zero_iff.mp width.symm).symm
  | append_singleton records record ih =>
    rcases List.eq_nil_or_concat second with rfl | ⟨others, other, rfl⟩
    · simp at width
    · rw [List.concat_eq_append] at width apart same ⊢
      have shorter : records.length = others.length := by simpa using width
      simp only [chainInputs_append, chainTip_append, chainInputs, chainTip, List.mem_append,
        List.mem_singleton, shorter] at apart same
      have last := apart _ (.inr rfl) _ (.inr rfl) same
      simp only [Prod.mk.injEq] at last
      obtain ⟨-, sameRecord, sameTip⟩ := last
      have before := ih shorter
        (fun a inside b within => apart a (.inl inside) b (.inl within)) sameTip
      rw [before, sameRecord]

section Linked

variable {α σ : Type*} (digest before : α → σ)

def Linked : σ → List α → Prop
  | _, [] => True
  | tip, record :: rest => before record = tip ∧ Linked (digest record) rest

def lastDigest (genesis : σ) (records : List α) : σ :=
  (records.getLast?.map digest).getD genesis

variable {digest before}

theorem linked_concat {tip : σ} {records : List α} {record : α} :
    Linked digest before tip (records ++ [record]) ↔
      Linked digest before tip records ∧ before record = lastDigest digest tip records := by
  induction records generalizing tip with
  | nil => simp [Linked, lastDigest]
  | cons first rest ih =>
    have last : lastDigest digest tip (first :: rest) =
        lastDigest digest (digest first) rest := by
      cases rest with
      | nil => rfl
      | cons next rest => simp [lastDigest, List.getLast?_cons]
    rw [List.cons_append, Linked, Linked, ih, last, and_assoc]

theorem lastDigest_concat (genesis : σ) (records : List α) (record : α) :
    lastDigest digest genesis (records ++ [record]) = digest record := by
  simp [lastDigest]

/-- Linked records are determined, back to the first, by the digest of the last: equal
digests stand for related records with one predecessor, and no digest is the genesis. -/
theorem linked_determined {genesis : σ} {rel : α → α → Prop} {first second : List α}
    (linked : Linked digest before genesis first) (linkedToo : Linked digest before genesis second)
    (apart : ∀ a ∈ first, ∀ b ∈ second, digest a = digest b → rel a b ∧ before a = before b)
    (fresh : ∀ a ∈ first, digest a ≠ genesis) (freshToo : ∀ b ∈ second, digest b ≠ genesis)
    (same : lastDigest digest genesis first = lastDigest digest genesis second) :
    List.Forall₂ rel first second := by
  induction first using List.reverseRecOn generalizing second with
  | nil =>
    rcases List.eq_nil_or_concat second with rfl | ⟨others, other, rfl⟩
    · exact .nil
    · rw [List.concat_eq_append] at same freshToo
      rw [lastDigest_concat] at same
      exact absurd same.symm (freshToo other (by simp))
  | append_singleton records record ih =>
    rcases List.eq_nil_or_concat second with rfl | ⟨others, other, rfl⟩
    · rw [lastDigest_concat] at same
      exact absurd same (fresh record (by simp))
    · rw [List.concat_eq_append] at *
      rw [linked_concat] at linked linkedToo
      rw [lastDigest_concat, lastDigest_concat] at same
      obtain ⟨related, tips⟩ := apart record (by simp) other (by simp) same
      rw [linked.2, linkedToo.2] at tips
      have earlier := ih linked.1 linkedToo.1
        (fun a inside b insideToo => apart a (List.mem_append_left _ inside) b
          (List.mem_append_left _ insideToo))
        (fun a inside => fresh a (List.mem_append_left _ inside))
        (fun b inside => freshToo b (List.mem_append_left _ inside)) tips
      exact List.rel_append earlier (.cons related .nil)

end Linked

section Trees

variable (node : τ → τ → τ) (empty : τ)

/-- The level above: each two nodes have a parent, an odd one at the end is its own sibling. -/
def treeLevel : List τ → List τ
  | [] => []
  | [last] => [node last last]
  | left :: right :: rest => node left right :: treeLevel rest

def levelPairs : List τ → List (τ × τ)
  | [] => []
  | [last] => [(last, last)]
  | left :: right :: rest => (left, right) :: levelPairs rest

def treeRoot : Nat → List τ → τ
  | _, [] => empty
  | _, [root] => root
  | 0, root :: _ => root
  | rounds + 1, level => treeRoot rounds (treeLevel node level)

def treePairs : Nat → List τ → List (τ × τ)
  | rounds + 1, left :: right :: rest =>
    levelPairs (left :: right :: rest) ++
      treePairs rounds (treeLevel node (left :: right :: rest))
  | _, _ => []

variable {node empty}

theorem length_treeLevel (level : List τ) :
    (treeLevel node level).length = (level.length + 1) / 2 := by
  induction level using treeLevel.induct with
  | case1 => simp [treeLevel]
  | case2 last => simp [treeLevel]
  | case3 left right rest ih =>
    simp only [treeLevel, List.length_cons, ih]
    omega

theorem forall_treeLevel {holds : τ → Prop} (parents : ∀ left right, holds (node left right))
    (level : List τ) : ∀ parent ∈ treeLevel node level, holds parent := by
  induction level using treeLevel.induct with
  | case1 => exact fun _ nowhere => absurd nowhere List.not_mem_nil
  | case2 last => simpa [treeLevel] using parents last last
  | case3 left right rest ih =>
    rw [treeLevel, List.forall_mem_cons]
    exact ⟨parents left right, ih⟩

theorem forall_levelPairs {holds : τ → Prop} {level : List τ} (all : ∀ one ∈ level, holds one) :
    ∀ pair ∈ levelPairs level, holds pair.1 ∧ holds pair.2 := by
  induction level using treeLevel.induct with
  | case1 => exact fun _ nowhere => absurd nowhere List.not_mem_nil
  | case2 last =>
    have here := all last List.mem_cons_self
    simpa [levelPairs] using here
  | case3 left right rest ih =>
    simp only [List.forall_mem_cons] at all
    rw [levelPairs, List.forall_mem_cons]
    exact ⟨⟨all.1, all.2.1⟩, ih all.2.2⟩

theorem forall_treePairs {holds : τ → Prop} (parents : ∀ left right, holds (node left right))
    {rounds : Nat} {level : List τ} (all : ∀ one ∈ level, holds one) :
    ∀ pair ∈ treePairs node rounds level, holds pair.1 ∧ holds pair.2 := by
  induction rounds generalizing level with
  | zero => simp [treePairs]
  | succ rounds ih =>
    rcases level with _ | ⟨left, _ | ⟨right, rest⟩⟩
    · simp [treePairs]
    · simp [treePairs]
    · rw [treePairs, List.forall_mem_append]
      exact ⟨forall_levelPairs all, ih (forall_treeLevel parents _)⟩

theorem treeLevel_injective {first second : List τ} (width : first.length = second.length)
    (apart : ∀ a ∈ levelPairs first, ∀ b ∈ levelPairs second,
      node a.1 a.2 = node b.1 b.2 → a = b)
    (same : treeLevel node first = treeLevel node second) : first = second := by
  induction first using treeLevel.induct generalizing second with
  | case1 => exact (List.length_eq_zero_iff.mp width.symm).symm
  | case2 last =>
    obtain ⟨other, rfl⟩ := List.length_eq_one_iff.mp width.symm
    have parents : node last last = node other other := by simpa [treeLevel] using same
    have pairs := apart (last, last) List.mem_cons_self (other, other) List.mem_cons_self parents
    rw [(Prod.mk.inj pairs).1]
  | case3 left right rest ih =>
    rcases second with _ | ⟨otherLeft, _ | ⟨otherRight, others⟩⟩
    · simp at width
    · simp at width
    · simp only [levelPairs, List.forall_mem_cons] at apart
      simp only [treeLevel, List.cons.injEq] at same
      have shorter : rest.length = others.length := by simpa using width
      have pairs := apart.1.1 same.1
      have behind := ih shorter
        (fun a inside b within => (apart.2 a inside).2 b within) same.2
      rw [(Prod.mk.inj pairs).1, (Prod.mk.inj pairs).2, behind]

theorem treeRoot_injective {rounds : Nat} {first second : List τ}
    (width : first.length = second.length) (enough : first.length ≤ rounds + 1)
    (apart : ∀ a ∈ treePairs node rounds first, ∀ b ∈ treePairs node rounds second,
      node a.1 a.2 = node b.1 b.2 → a = b)
    (same : treeRoot node empty rounds first = treeRoot node empty rounds second) :
    first = second := by
  induction rounds generalizing first second with
  | zero =>
    rcases first with _ | ⟨root, _ | ⟨right, rest⟩⟩
    · exact (List.length_eq_zero_iff.mp width.symm).symm
    · obtain ⟨other, rfl⟩ := List.length_eq_one_iff.mp width.symm
      simpa [treeRoot] using same
    · simp at enough
  | succ rounds ih =>
    rcases first with _ | ⟨left, _ | ⟨right, rest⟩⟩
    · exact (List.length_eq_zero_iff.mp width.symm).symm
    · obtain ⟨other, rfl⟩ := List.length_eq_one_iff.mp width.symm
      simpa [treeRoot] using same
    · rcases second with _ | ⟨otherLeft, _ | ⟨otherRight, others⟩⟩
      · simp at width
      · simp at width
      · simp only [treePairs, List.forall_mem_append] at apart
        have heights := @length_treeLevel τ node (left :: right :: rest)
        have otherHeights := @length_treeLevel τ node (otherLeft :: otherRight :: others)
        have parents := ih (by rw [heights, otherHeights, width])
          (by rw [heights]; simp only [List.length_cons] at enough ⊢; omega)
          (fun a inside b within => (apart.2 a inside).2 b within) same
        exact treeLevel_injective width (fun a inside b within => (apart.1 a inside).1 b within)
          parents

end Trees

end HlHelper.Library
