import HlHelper.Posture.ShortCircuit
import Mathlib.Algebra.Order.BigOperators.Group.List
import Mathlib.Algebra.Order.Field.Basic
import Mathlib.Tactic.Linarith
import Mathlib.Tactic.NormNum.OfScientific

/-! The blend in exact arithmetic: its range, the order of the pillars, those without weight, and
pillars whose score rises. -/

namespace HlHelper.Posture

open Library Python

section Rounding

variable {x y : ℚ}

theorem floor_le_roundHalfEven (x : ℚ) : x.floor ≤ roundHalfEven x := by
  unfold roundHalfEven
  dsimp only
  split
  · exact Int.le_refl _
  · split
    · exact Int.le_refl _
    · omega

theorem roundHalfEven_le_succ (x : ℚ) : roundHalfEven x ≤ x.floor + 1 := by
  unfold roundHalfEven
  dsimp only
  split
  · omega
  · split <;> omega

theorem roundHalfEven_mono (le : x ≤ y) : roundHalfEven x ≤ roundHalfEven y := by
  have floors : x.floor ≤ y.floor := Rat.le_floor_iff.mpr ((Rat.floor_le x).trans le)
  by_cases same : x.floor = y.floor
  case neg =>
    calc
      roundHalfEven x ≤ x.floor + 1 := roundHalfEven_le_succ x
      _ ≤ y.floor := by omega
      _ ≤ roundHalfEven y := floor_le_roundHalfEven y
  case pos =>
    rcases le.eq_or_lt with rfl | less
    · exact Int.le_refl _
    · by_cases low : x - x.floor < 1 / 2
      · calc
          roundHalfEven x = x.floor := if_pos low
          _ ≤ y.floor := floors
          _ ≤ roundHalfEven y := floor_le_roundHalfEven y
      · have high : 1 / 2 < y - y.floor := by
          rw [← same]
          linarith
        calc
          roundHalfEven x ≤ x.floor + 1 := roundHalfEven_le_succ x
          _ = y.floor + 1 := by rw [same]
          _ = roundHalfEven y := by
            unfold roundHalfEven
            dsimp only
            rw [if_neg high.le.not_gt, if_neg fun half => high.ne' half.1]

end Rounding

section Blend

variable {subs reordered : List (String × SubScore ℚ)} {weights : List (String × ℚ)}
  {name : String} {score : ℚ}

theorem foldl_add_eq_sum {α : Type} (f : α → ℚ) (entries : List α) :
    entries.foldl (fun total entry => total + f entry) (0.0 : ℚ) = (entries.map f).sum := by
  rw [List.sum_eq_foldl, List.foldl_map]
  norm_num

def bounded (x : ℚ) : Int := roundHalfEven (smaller 100.0 (larger 0.0 x))

section

variable (subs weights)

def den : ℚ :=
  ((weighed subs weights).map fun (w, _, sub) => w * sub.confidence).sum

def num : ℚ :=
  ((weighed subs weights).map fun (w, _, sub) => sub.score * w * sub.confidence).sum

def average : ℚ :=
  if floored subs weights then larger (num subs weights / den subs weights) floorLift
  else num subs weights / den subs weights

theorem score_blend : (blend subs weights).score =
    if den subs weights < 1 / 10 then none else some (bounded (average subs weights)) := by
  have dens : (weighed subs weights).foldl (fun den (w, _, sub) => den + w * sub.confidence)
      (0.0 : ℚ) = den subs weights :=
    @foldl_add_eq_sum (ℚ × String × SubScore ℚ) (fun (w, _, sub) => w * sub.confidence) _
  have nums : (weighed subs weights).foldl
      (fun num (w, _, sub) => num + sub.score * w * sub.confidence) (0.0 : ℚ) =
        num subs weights :=
    @foldl_add_eq_sum (ℚ × String × SubScore ℚ)
      (fun (w, _, sub) => sub.score * w * sub.confidence) _
  have few : lt (den subs weights) (unknownConfThreshold : ℚ) =
      decide (den subs weights < 1 / 10) := by
    unfold unknownConfThreshold
    norm_num [Python.lt]
  unfold blend
  dsimp only
  rw [dens, nums, few]
  by_cases unknown : den subs weights < 1 / 10
  · rw [if_pos unknown, decide_eq_true unknown]
    rfl
  · rw [if_neg unknown, decide_eq_false unknown]
    rfl

end

theorem larger_eq_max (x y : ℚ) : larger x y = max x y := by
  unfold larger
  by_cases less : x < y
  · rw [max_eq_right less.le]
    exact if_pos (decide_eq_true less)
  · rw [max_eq_left (not_lt.mp less)]
    exact if_neg (by simpa [Python.lt] using less)

theorem smaller_eq_min (x y : ℚ) : smaller x y = min x y := by
  unfold smaller
  by_cases less : y < x
  · rw [min_eq_right less.le]
    exact if_pos (decide_eq_true less)
  · rw [min_eq_left (not_lt.mp less)]
    exact if_neg (by simpa [Python.lt] using less)

theorem bounded_eq (x : ℚ) : bounded x = roundHalfEven (min 100 (max 0 x)) := by
  unfold bounded
  rw [smaller_eq_min, larger_eq_max]
  norm_num

theorem bounded_mono {x y : ℚ} (le : x ≤ y) : bounded x ≤ bounded y := by
  rw [bounded_eq, bounded_eq]
  exact roundHalfEven_mono (min_le_min_left 100 (max_le_max_left 0 le))

theorem bounded_range (x : ℚ) : 0 ≤ bounded x ∧ bounded x ≤ 100 := by
  rw [bounded_eq]
  constructor
  · calc
      0 = roundHalfEven 0 := by decide +kernel
      _ ≤ _ := roundHalfEven_mono (le_min (by norm_num) (le_max_left 0 x))
  · calc
      _ ≤ roundHalfEven 100 := roundHalfEven_mono (min_le_left 100 _)
      _ = 100 := by decide +kernel

section

variable (subs weights)

def hotPillars : List String :=
  ((weighed subs weights).filter fun (_, _, sub) =>
    le hotPillarScore sub.score && le hotPillarConf sub.confidence).map (·.2.1)

/-- A hot pillar lifts the score: the others contribute little. -/
def Lifts (hot : String) : Prop :=
  hot ≠ "" ∧ otherContribution subs weights hot < 5 / 2

instance (hot : String) : Decidable (Lifts subs weights hot) :=
  inferInstanceAs (Decidable (_ ∧ _))

/-- All hot pillars lift the score, or none: so it is where at most one is hot. -/
def Agree : Prop :=
  ∀ first ∈ hotPillars subs weights, ∀ second ∈ hotPillars subs weights,
    Lifts subs weights first → Lifts subs weights second

instance : Decidable (Agree subs weights) :=
  inferInstanceAs (Decidable (∀ _ ∈ _, _))

end

theorem floored_iff : floored subs weights = true ↔
    ∃ hot ∈ (hotPillars subs weights).getLast?, Lifts subs weights hot := by
  have little (hot : String) : lt (otherContribution subs weights hot) (2.5 : ℚ) = true ↔
      otherContribution subs weights hot < 5 / 2 := by
    norm_num [Python.lt]
  have same : hotPillar subs weights = (hotPillars subs weights).getLast? := List.getLast?_map.symm
  unfold floored
  rw [same]
  cases (hotPillars subs weights).getLast? with
  | none => simp
  | some hot => simp [Lifts, little]

theorem floored_iff_of_agree (agree : Agree subs weights) : floored subs weights = true ↔
    ∃ hot ∈ hotPillars subs weights, Lifts subs weights hot := by
  rw [floored_iff]
  constructor
  · intro ⟨hot, last, lifts⟩
    exact ⟨hot, List.mem_of_getLast? last, lifts⟩
  · intro ⟨hot, member, lifts⟩
    have ⟨last, found⟩ := Option.isSome_iff_exists.mp
      (List.getLast?_isSome.mpr (List.ne_nil_of_mem member))
    exact ⟨last, found, agree hot member last (List.mem_of_getLast? found) lifts⟩

section

variable (subs weights)

def others (hot : String) : List (ℚ × SubScore ℚ) :=
  ((subs.filter fun entry => entry.1 ≠ hot).map fun entry =>
    (weightOf weights entry.1, entry.2)).filter fun entry => lt 0.0 entry.1

theorem otherContribution_eq (hot : String) : otherContribution subs weights hot =
    ((others subs weights hot).map fun (w, sub) => sub.score * w).sum :=
  @foldl_add_eq_sum (ℚ × SubScore ℚ) (fun (w, sub) => sub.score * w) _

end

section Order

variable (perm : subs.Perm reordered)

include perm

theorem weighed_perm : (weighed subs weights).Perm (weighed reordered weights) :=
  (perm.map _).filter _

theorem lifts_perm (hot : String) : Lifts subs weights hot ↔ Lifts reordered weights hot := by
  have same : (others subs weights hot).Perm (others reordered weights hot) :=
    (((perm.filter _).map _).filter _)
  unfold Lifts
  rw [otherContribution_eq, otherContribution_eq, (same.map _).sum_eq]

theorem agree_perm : Agree subs weights ↔ Agree reordered weights := by
  have hots (hot : String) : hot ∈ hotPillars subs weights ↔ hot ∈ hotPillars reordered weights :=
    (((weighed_perm perm).filter _).map _).mem_iff
  simp only [Agree, hots, lifts_perm perm]

theorem score_perm (agree : Agree subs weights) :
    (blend subs weights).score = (blend reordered weights).score := by
  have dens : den subs weights = den reordered weights := ((weighed_perm perm).map _).sum_eq
  have nums : num subs weights = num reordered weights := ((weighed_perm perm).map _).sum_eq
  have hots (hot : String) : hot ∈ hotPillars subs weights ↔ hot ∈ hotPillars reordered weights :=
    (((weighed_perm perm).filter _).map _).mem_iff
  have floors : floored subs weights = floored reordered weights := by
    apply Bool.eq_iff_iff.mpr
    rw [floored_iff_of_agree agree, floored_iff_of_agree ((agree_perm perm).mp agree)]
    simp only [hots, lifts_perm perm]
  rw [score_blend, score_blend]
  unfold average
  rw [dens, nums, floors]

end Order

section Weightless

variable {before after : List (String × SubScore ℚ)} {entry : String × SubScore ℚ}
  (weightless : weightOf weights entry.1 ≤ 0)

include weightless

theorem weighed_weightless : weighed (before ++ entry :: after) weights =
    weighed (before ++ after) weights := by
  have light : le (weightOf weights entry.1) (0.0 : ℚ) = true := by
    norm_num [Python.le, weightless]
  unfold weighed
  simp [light]

theorem others_weightless (hot : String) : others (before ++ entry :: after) weights hot =
    others (before ++ after) weights hot := by
  have light : lt (0.0 : ℚ) (weightOf weights entry.1) = false := by
    norm_num [Python.lt, weightless]
  unfold others
  by_cases own : entry.1 = hot
  · simp [own]
  · simp [own, light]

theorem blend_weightless : blend (before ++ entry :: after) weights =
    blend (before ++ after) weights := by
  have weighs := @weighed_weightless weights before after entry weightless
  have floors : floored (before ++ entry :: after) weights =
      floored (before ++ after) weights := by
    unfold floored hotPillar
    simp only [weighs, otherContribution_eq, others_weightless weightless]
  unfold blend
  rw [weighs, floors]

end Weightless

section Raise

def raise (name : String) (score : ℚ) (entry : String × SubScore ℚ) : String × SubScore ℚ :=
  if entry.1 = name then (entry.1, { entry.2 with score := score }) else entry

@[simp] theorem raise_name (entry : String × SubScore ℚ) :
    (raise name score entry).1 = entry.1 := by
  unfold raise
  split <;> rfl

@[simp] theorem raise_confidence (entry : String × SubScore ℚ) :
    (raise name score entry).2.confidence = entry.2.confidence := by
  unfold raise
  split <;> rfl

theorem score_le_raise {entry : String × SubScore ℚ}
    (rises : entry.1 = name → entry.2.score ≤ score) :
    entry.2.score ≤ (raise name score entry).2.score := by
  unfold raise
  split
  · next own => exact rises own
  · exact le_refl _

theorem weighed_raise : weighed (subs.map (raise name score)) weights =
    (weighed subs weights).map fun (w, entry) => (w, raise name score entry) := by
  simp [weighed, List.filter_map, Function.comp_def]

theorem den_raise : den (subs.map (raise name score)) weights = den subs weights := by
  unfold den
  rw [weighed_raise, List.map_map]
  congr 2
  funext entry
  simp

theorem weighs_of_mem {entry : ℚ × String × SubScore ℚ} (member : entry ∈ weighed subs weights) :
    0 < entry.1 ∧ entry.2 ∈ subs := by
  obtain ⟨mapped, weighs⟩ := List.mem_filter.mp member
  obtain ⟨pillar, there, rfl⟩ := List.mem_map.mp mapped
  norm_num [Python.le] at weighs
  exact ⟨weighs, there⟩

variable (rises : ∀ entry ∈ subs, entry.1 = name → entry.2.score ≤ score)

include rises

theorem num_le_raise (confident : ∀ entry ∈ subs, 0 ≤ entry.2.confidence) :
    num subs weights ≤ num (subs.map (raise name score)) weights := by
  unfold num
  rw [weighed_raise, List.map_map]
  apply List.sum_le_sum
  intro entry member
  obtain ⟨weighs, there⟩ := weighs_of_mem member
  have less := score_le_raise (rises entry.2 there)
  have sure := confident entry.2 there
  calc
    entry.2.2.score * entry.1 * entry.2.2.confidence
      ≤ (raise name score entry.2).2.score * entry.1 * entry.2.2.confidence :=
        mul_le_mul_of_nonneg_right (mul_le_mul_of_nonneg_right less weighs.le) sure
    _ = _ := by simp

theorem hot_raise {hot : String} (member : hot ∈ hotPillars subs weights) :
    hot ∈ hotPillars (subs.map (raise name score)) weights := by
  unfold hotPillars at member ⊢
  rw [weighed_raise]
  obtain ⟨entry, kept, own⟩ := List.mem_map.mp member
  obtain ⟨there, warm⟩ := List.mem_filter.mp kept
  obtain ⟨high, sure⟩ := Bool.and_eq_true_iff.mp warm
  have less := score_le_raise (rises entry.2 (weighs_of_mem there).2)
  apply List.mem_map.mpr
  refine ⟨(entry.1, raise name score entry.2), ?_, (raise_name entry.2).trans own⟩
  apply List.mem_filter.mpr
  refine ⟨List.mem_map_of_mem there, Bool.and_eq_true_iff.mpr ⟨?_, ?_⟩⟩
  · exact decide_eq_true ((of_decide_eq_true high).trans less)
  · exact (congrArg (le hotPillarConf) (raise_confidence entry.2)).trans sure

omit rises in
theorem others_raise : others (subs.map (raise name score)) weights name =
    others subs weights name := by
  have same : (subs.map (raise name score)).filter (fun entry => entry.1 ≠ name) =
      subs.filter fun entry => entry.1 ≠ name := by
    have still (entry : String × SubScore ℚ)
        (other : entry ∈ subs.filter fun entry => entry.1 ≠ name) :
        raise name score entry = id entry := by
      have apart : ¬ entry.1 = name := of_decide_eq_true (List.mem_filter.mp other).2
      rw [raise, if_neg apart]
      rfl
    calc
      _ = (subs.filter fun entry => entry.1 ≠ name).map (raise name score) := by
        simp [List.filter_map, Function.comp_def]
      _ = _ := (List.map_congr_left still).trans (List.map_id _)
  unfold others
  rw [same]

/-- What takes the lift away: the contribution of the other pillars, with that of the raised
one. -/
def Drowned (subs : List (String × SubScore ℚ)) (weights : List (String × ℚ)) (name : String)
    (score : ℚ) : Prop :=
  ∃ hot ∈ hotPillars subs weights, hot ≠ name ∧ otherContribution subs weights hot < 5 / 2 ∧
    5 / 2 ≤ otherContribution (subs.map (raise name score)) weights hot

theorem floored_raise (agree : Agree (subs.map (raise name score)) weights)
    (calm : ¬ Drowned subs weights name score) (floor : floored subs weights = true) :
    floored (subs.map (raise name score)) weights = true := by
  obtain ⟨hot, last, named, little⟩ := floored_iff.mp floor
  have member := List.mem_of_getLast? last
  apply (floored_iff_of_agree agree).mpr
  refine ⟨hot, hot_raise rises member, named, ?_⟩
  by_cases own : hot = name
  · subst own
    rwa [otherContribution_eq, others_raise, ← otherContribution_eq]
  · exact not_le.mp fun much => calm ⟨hot, member, own, little, much⟩

theorem average_le_raise (confident : ∀ entry ∈ subs, 0 ≤ entry.2.confidence)
    (known : 0 ≤ den subs weights) (agree : Agree (subs.map (raise name score)) weights)
    (calm : ¬ Drowned subs weights name score) :
    average subs weights ≤ average (subs.map (raise name score)) weights := by
  have more : num subs weights / den subs weights ≤
      num (subs.map (raise name score)) weights / den subs weights :=
    div_le_div_of_nonneg_right (num_le_raise rises confident) known
  unfold average
  rw [den_raise]
  by_cases floor : floored subs weights = true
  case pos =>
    rw [if_pos floor, if_pos (floored_raise rises agree calm floor), larger_eq_max, larger_eq_max]
    exact max_le_max_right _ more
  case neg =>
    rw [if_neg floor]
    split
    · rw [larger_eq_max]
      exact more.trans (le_max_left _ _)
    · exact more

end Raise

/-- The score is unknown or from 0 to 100; a pillar without weight is ignored; where all hot
pillars agree on the floor the order does not matter, and a pillar whose score rises does not
lower the score, unless its contribution takes the lift of another pillar away. -/
theorem blend_framed (subs : List (String × SubScore ℚ)) (weights : List (String × ℚ))
    (confident : ∀ entry ∈ subs, 0 ≤ entry.2.confidence) :
    (∀ score ∈ (blend subs weights).score, 0 ≤ score ∧ score ≤ 100) ∧
      (∀ before entry after, subs = before ++ entry :: after → weightOf weights entry.1 = 0 →
        blend (before ++ after) weights = blend subs weights) ∧
      (∀ reordered, subs.Perm reordered → Agree subs weights →
        (blend reordered weights).score = (blend subs weights).score) ∧
      ∀ name score, (∀ entry ∈ subs, entry.1 = name → entry.2.score ≤ score) →
        Agree (subs.map (raise name score)) weights → ¬ Drowned subs weights name score →
        ∀ old ∈ (blend subs weights).score,
          ∃ new ∈ (blend (subs.map (raise name score)) weights).score, old ≤ new := by
  apply And.intro
  case left =>
    intro score known
    rw [score_blend] at known
    split at known
    · cases known
    · cases known
      exact bounded_range _
  case right =>
    apply And.intro
    case left =>
      intro before entry after split weightless
      subst split
      exact (blend_weightless weightless.le).symm
    case right =>
      apply And.intro
      case left => exact fun reordered perm agree => (score_perm perm agree).symm
      case right =>
        intro name score rises agree calm old known
        rw [score_blend] at known ⊢
        rw [den_raise]
        split at known
        · cases known
        · next enough =>
          cases known
          rw [if_neg enough]
          have positive : 0 ≤ den subs weights := by linarith
          exact ⟨_, rfl, bounded_mono (average_le_raise rises confident positive agree calm)⟩

def oneHot (quiet : ℚ) : List (String × SubScore ℚ) :=
  [("vulnerabilities", ⟨75, 1, [], []⟩), ("identity", ⟨quiet, 1, [], []⟩)]

def evenWeights : List (String × ℚ) := [("vulnerabilities", 3 / 10), ("identity", 3 / 10)]

theorem oneHot_framed :
    ∃ new ∈ (blend ((oneHot 0).map (raise "vulnerabilities" 80)) evenWeights).score, 50 ≤ new :=
  (blend_framed (oneHot 0) evenWeights (by decide +kernel)).2.2.2 "vulnerabilities" 80
    (by decide +kernel) (by decide +kernel) (by unfold Drowned; decide +kernel) 50
    (by decide +kernel)

def twoHot : List (String × SubScore ℚ) :=
  [("vulnerabilities", ⟨75, 1, [], []⟩), ("identity", ⟨75, 1, [], []⟩),
    ("hygiene", ⟨0, 1, [], []⟩)]

def lightWeights : List (String × ℚ) :=
  [("vulnerabilities", 3 / 10), ("identity", 1 / 100), ("hygiene", 1 / 2)]

/-- A quiet pillar that rises to 10 takes eight points away, and of two hot pillars the last one
decides on the floor. -/
theorem blend_not_aggregate :
    (¬ ∀ name score, (∀ entry ∈ oneHot 0, entry.1 = name → entry.2.score ≤ score) →
      ∀ old ∈ (blend (oneHot 0) evenWeights).score,
        ∃ new ∈ (blend ((oneHot 0).map (raise name score)) evenWeights).score, old ≤ new) ∧
      ¬ ∀ reordered, twoHot.Perm reordered →
        (blend reordered lightWeights).score = (blend twoHot lightWeights).score := by
  constructor
  case left =>
    intro rises
    have lowered := rises "identity" 10 (by decide +kernel) 50 (by decide +kernel)
    exact absurd lowered (by decide +kernel)
  case right =>
    intro same
    have turned := same twoHot.reverse (List.reverse_perm twoHot).symm
    exact absurd turned (by decide +kernel)

end Blend

end HlHelper.Posture
