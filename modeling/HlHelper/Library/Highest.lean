import HlHelper.Library.Checked

/-! The highest, by rank, of what is found, and passes over lists that find it or raise. -/

namespace HlHelper.Library

variable {ε σ τ α : Type*} {rank : τ → Nat} {S found : τ → Prop} {t u : τ}

structure Highest (rank : τ → Nat) (S : τ → Prop) (t : τ) : Prop where
  found : S t
  above : ∀ u, S u → rank u ≤ rank t

/-- The higher one; the first of two that are equally high. -/
def higher (rank : τ → Nat) (t u : τ) : τ := if rank t ≥ rank u then t else u

/-- The highest of what is found, or none where nothing is. -/
def HighestOf (rank : τ → Nat) (S : τ → Prop) : Option τ → Prop
  | none => ∀ t, ¬ S t
  | some t => Highest rank S t

theorem Highest.congr (highest : Highest rank S t) (same : ∀ u, S u ↔ found u) :
    Highest rank found t :=
  ⟨(same t).mp highest.found, fun u there => highest.above u ((same u).mpr there)⟩

theorem HighestOf.congr {highest : Option τ} (own : HighestOf rank S highest)
    (same : ∀ u, S u ↔ found u) : HighestOf rank found highest := by
  cases highest with
  | none => exact fun t there => own t ((same t).mpr there)
  | some t => exact Highest.congr own same

theorem Highest.le (highest : Highest rank S t) (other : Highest rank found u)
    (more : ∀ v, S v → found v) : rank t ≤ rank u :=
  other.above t (more t highest.found)

theorem Highest.higher (highest : Highest rank S t) (u : τ) :
    Highest rank (fun v => S v ∨ v = u) (higher rank t u) := by
  unfold Library.higher
  split
  case isTrue above =>
    constructor
    · exact .inl highest.found
    · intro v either
      rcases either with there | same
      · exact highest.above v there
      · exact same ▸ above
  case isFalse below =>
    constructor
    · exact .inr rfl
    · intro v either
      rcases either with there | same
      · have le := highest.above v there
        omega
      · exact same ▸ Nat.le_refl _

theorem HighestOf.higher {highest : Option τ} (own : HighestOf rank S highest) (u : τ) :
    HighestOf rank (fun v => S v ∨ v = u)
      (some ((highest.map fun t => Library.higher rank t u).getD u)) := by
  cases highest with
  | none =>
    constructor
    · exact .inr rfl
    · intro v either
      rcases either with there | same
      · exact (own v there).elim
      · exact same ▸ Nat.le_refl _
  | some t => exact Highest.higher own u

theorem HighestOf.unique {first second : Option τ} (injective : ∀ t u, rank t = rank u → t = u)
    (left : HighestOf rank S first) (right : HighestOf rank S second) : first = second := by
  cases first with
  | none =>
    cases second with
    | none => rfl
    | some u => exact (left u right.found).elim
  | some t =>
    cases second with
    | none => exact (right t left.found).elim
    | some u =>
      have same := injective t u (Nat.le_antisymm (right.above t left.found)
        (left.above u right.found))
      rw [same]

theorem HighestOf.parts {α β : Type} {items : List α} {results : List β} {key : α → Prop}
    {own : β → Prop} {part : α → τ → Prop} {top : β → τ} {highest : Option τ}
    (each : List.Forall₂ (fun x y => (own y ↔ key x) ∧ Highest rank (part x) (top y)) items results)
    (found : HighestOf rank (fun t => ∃ y ∈ results, own y ∧ top y = t) highest) :
    HighestOf rank (fun t => ∃ x ∈ items, key x ∧ part x t) highest := by
  cases highest with
  | none =>
    intro t ⟨x, member, keyed, _⟩
    obtain ⟨y, there, same, _⟩ := forall₂_left each member
    exact found (top y) ⟨y, there, same.mpr keyed, rfl⟩
  | some t =>
    constructor
    · obtain ⟨y, there, owned, topped⟩ := Highest.found found
      obtain ⟨x, member, same, best⟩ := forall₂_left each.flip there
      exact ⟨x, member, same.mp owned, topped ▸ best.found⟩
    · intro u ⟨x, member, keyed, inside⟩
      obtain ⟨y, there, same, best⟩ := forall₂_left each member
      calc
        rank u ≤ rank (top y) := best.above u inside
        _ ≤ rank t := Highest.above found (top y) ⟨y, there, same.mpr keyed, rfl⟩

/-- A pass over a list: an item that is hit raises what the state holds, unless it is amiss and
the pass raises. -/
structure Pass (rank : τ → Nat) (holds : σ → τ) (step : σ → α → Except ε σ) (hit : α → Option τ)
    (amiss : α → Prop) : Prop where
  skips : ∀ s x, hit x = none → step s x = .ok s
  raises : ∀ s x t, hit x = some t → ¬ amiss x →
    ∃ next, step s x = .ok next ∧ holds next = higher rank (holds s) t
  fails : ∀ s x t, hit x = some t → amiss x → ∃ e, step s x = .error e

namespace Pass

variable {holds : σ → τ} {step : σ → α → Except ε σ} {hit : α → Option τ} {amiss : α → Prop}

theorem foldlM_highest (pass : Pass rank holds step hit amiss) {items : List α}
    (fine : ∀ x ∈ items, ∀ t, hit x = some t → ¬ amiss x) {s : σ}
    (highest : Highest rank S (holds s)) :
    ∃ last, items.foldlM step s = .ok last ∧
      Highest rank (fun t => S t ∨ ∃ x ∈ items, hit x = some t) (holds last) := by
  induction items generalizing s S with
  | nil => exact ⟨s, rfl, highest.congr (by simp)⟩
  | cons x items ih =>
    have first := fine x List.mem_cons_self
    have rest := fun y later => fine y (List.mem_cons_of_mem x later)
    rw [List.foldlM_cons]
    cases own : hit x with
    | none =>
      rw [pass.skips s x own]
      obtain ⟨last, passed, held⟩ := ih rest highest
      exact ⟨last, passed, held.congr (by simp [own])⟩
    | some t =>
      have ⟨next, stepped, raised⟩ := pass.raises s x t own (first t own)
      rw [stepped]
      have start := highest.higher t
      rw [← raised] at start
      obtain ⟨last, passed, held⟩ := ih rest start
      refine ⟨last, passed, held.congr ?_⟩
      intro u
      simp only [List.mem_cons, exists_eq_or_imp, own, Option.some.injEq, or_assoc,
        @eq_comm _ t u]

theorem fine_of_foldlM (pass : Pass rank holds step hit amiss) {items : List α} {s last : σ}
    (passed : items.foldlM step s = .ok last) :
    ∀ x ∈ items, ∀ t, hit x = some t → ¬ amiss x := by
  induction items generalizing s with
  | nil => exact List.forall_mem_nil _
  | cons x items ih =>
    rw [List.foldlM_cons] at passed
    cases stepped : step s x with
    | error e =>
      rw [stepped] at passed
      cases passed
    | ok next =>
      rw [stepped] at passed
      intro y member t own
      rcases List.mem_cons.mp member with rfl | later
      · intro wrong
        obtain ⟨e, failed⟩ := pass.fails s y t own wrong
        exact absurd (stepped.symm.trans failed) nofun
      · exact ih passed y later t own

end Pass

end HlHelper.Library
