import Mathlib.Algebra.Order.Field.Basic
import Mathlib.Tactic.Linarith
import Mathlib.Tactic.Ring

/-! Token buckets: what one bucket lets through in any interval of time. -/

namespace HlHelper.Library

structure TokenBucket (F : Type*) where
  tokens : F
  last : F
  deriving DecidableEq, Repr

def within {F : Type*} [LinearOrder F] (first last : F) (times : List F) : List F :=
  times.filter fun time => first ≤ time ∧ time ≤ last

namespace TokenBucket

variable {F : Type*} [Field F] [LinearOrder F] (rate burst : F)

def refill (bucket : TokenBucket F) (now : F) : TokenBucket F :=
  ⟨min burst (bucket.tokens + (now - bucket.last) * rate), now⟩

def take (bucket : TokenBucket F) : Bool × TokenBucket F :=
  if 1 ≤ bucket.tokens then (true, { bucket with tokens := bucket.tokens - 1 })
  else (false, bucket)

/-- The times at which a bucket that is asked at some times gives a token. -/
def passes : TokenBucket F → List F → List F
  | _, [] => []
  | bucket, now :: times =>
    let (passed, next) := (bucket.refill rate burst now).take
    (if passed then [now] else []) ++ passes next times

variable {rate burst} {bucket : TokenBucket F} {now first last : F} {times : List F}

@[simp] theorem last_refill : (bucket.refill rate burst now).last = now := rfl

@[simp] theorem last_take : bucket.take.2.last = bucket.last := by
  unfold take
  split <;> rfl

theorem tokens_refill_le : (bucket.refill rate burst now).tokens ≤ burst := min_le_left _ _

theorem passes_cons : passes rate burst bucket (now :: times) =
    (if (bucket.refill rate burst now).take.1 then [now] else []) ++
      passes rate burst (bucket.refill rate burst now).take.2 times := rfl

theorem refill_full (full : burst ≤ bucket.tokens + (now - bucket.last) * rate) :
    bucket.refill rate burst now = ⟨burst, now⟩ := by
  rw [refill, min_eq_left full]

theorem passes_subset : passes rate burst bucket times ⊆ times := by
  induction times generalizing bucket with
  | nil => exact List.Subset.refl _
  | cons now times ih =>
    rw [passes]
    apply List.append_subset.mpr
    constructor
    · split <;> simp
    · exact List.subset_cons_of_subset _ ih

omit [Field F] in
theorem within_of_late (late : ∀ time ∈ times, last < time) : within first last times = [] := by
  apply List.filter_eq_nil_iff.mpr
  intro time member inside
  exact absurd (of_decide_eq_true inside).2 (not_le.mpr (late time member))

variable [IsStrictOrderedRing F]

theorem tokens_refill_nonneg (pays : 0 ≤ rate) (room : 0 ≤ burst) (held : 0 ≤ bucket.tokens)
    (forward : bucket.last ≤ now) : 0 ≤ (bucket.refill rate burst now).tokens :=
  le_min room (add_nonneg held (mul_nonneg (sub_nonneg.mpr forward) pays))

omit [IsStrictOrderedRing F] in
theorem last_refill_take : (bucket.refill rate burst now).take.2.last = now := by
  rw [last_take, last_refill]

theorem tokens_take_nonneg (held : 0 ≤ bucket.tokens) : 0 ≤ bucket.take.2.tokens := by
  unfold take
  split
  · next enough => exact sub_nonneg.mpr enough
  · exact held

omit [IsStrictOrderedRing F] in
theorem tokens_take (bucket : TokenBucket F) :
    bucket.take.2.tokens + (if bucket.take.1 then 1 else 0) = bucket.tokens := by
  unfold take
  split <;> simp

theorem length_within_passed (passed : Bool) :
    ((within first last (if passed then [now] else [])).length : F) ≤
      if passed then 1 else 0 := by
  cases passed with
  | false => simp [within]
  | true =>
    have few : (within first last [now]).length ≤ 1 := List.length_filter_le _ [now]
    exact_mod_cast few

theorem length_within_cons :
    ((within first last (passes rate burst bucket (now :: times))).length : F) ≤
      (if (bucket.refill rate burst now).take.1 then 1 else 0) +
        (within first last
          (passes rate burst (bucket.refill rate burst now).take.2 times)).length := by
  rw [passes_cons, within, List.filter_append, List.length_append, Nat.cast_add]
  exact add_le_add_left (length_within_passed _) _

theorem length_within_le_tokens (pays : 0 ≤ rate) (room : 0 ≤ burst) (held : 0 ≤ bucket.tokens)
    (early : bucket.last ≤ last) (ordered : times.Pairwise (· ≤ ·))
    (ahead : ∀ time ∈ times, bucket.last ≤ time) :
    ((within first last (passes rate burst bucket times)).length : F) ≤
      bucket.tokens + (last - bucket.last) * rate := by
  induction times generalizing bucket with
  | nil =>
    have gained := mul_nonneg (sub_nonneg.mpr early) pays
    simpa [passes, within] using add_nonneg held gained
  | cons now times ih =>
    obtain ⟨before, rest⟩ := List.pairwise_cons.mp ordered
    have forward := ahead now List.mem_cons_self
    by_cases late : last < now
    · have gained := mul_nonneg (sub_nonneg.mpr early) pays
      have empty : within first last (passes rate burst bucket (now :: times)) = [] := by
        apply within_of_late
        intro time member
        rcases List.mem_cons.mp (passes_subset member) with rfl | later
        · exact late
        · exact lt_of_lt_of_le late (before time later)
      rw [empty, List.length_nil, Nat.cast_zero]
      exact add_nonneg held gained
    · have full := tokens_refill_nonneg pays room held forward
      have taken := tokens_take (bucket.refill rate burst now)
      have later := @ih (bucket.refill rate burst now).take.2 (tokens_take_nonneg full)
      simp only [last_refill_take] at later
      have later := later (not_lt.mp late) rest before
      have flowed : (bucket.refill rate burst now).tokens ≤
          bucket.tokens + (now - bucket.last) * rate := min_le_right _ _
      calc ((within first last (passes rate burst bucket (now :: times))).length : F)
          ≤ _ := length_within_cons
        _ ≤ (bucket.refill rate burst now).tokens + (last - now) * rate := by linarith
        _ ≤ bucket.tokens + (now - bucket.last) * rate + (last - now) * rate :=
          add_le_add_left flowed _
        _ = bucket.tokens + (last - bucket.last) * rate := by ring

/-- In no interval of time does a bucket give more than its burst and what flows in meanwhile. -/
theorem length_within_passes (pays : 0 ≤ rate) (room : 0 ≤ burst) (held : 0 ≤ bucket.tokens)
    (interval : first ≤ last) (ordered : times.Pairwise (· ≤ ·))
    (ahead : ∀ time ∈ times, bucket.last ≤ time) :
    ((within first last (passes rate burst bucket times)).length : F) ≤
      burst + (last - first) * rate := by
  have gained := mul_nonneg (sub_nonneg.mpr interval) pays
  induction times generalizing bucket with
  | nil => simpa [passes, within] using add_nonneg room gained
  | cons now times ih =>
    obtain ⟨before, rest⟩ := List.pairwise_cons.mp ordered
    have full := tokens_refill_nonneg pays room held (ahead now List.mem_cons_self)
    have nonneg := tokens_take_nonneg full
    by_cases inside : first ≤ now ∧ now ≤ last
    · have taken := tokens_take (bucket.refill rate burst now)
      have later := @length_within_le_tokens _ _ _ rate burst
        (bucket.refill rate burst now).take.2 first last times _ pays room nonneg
      simp only [last_refill_take] at later
      have later := later inside.2 rest before
      have capped : (bucket.refill rate burst now).tokens ≤ burst := tokens_refill_le
      have shorter : (last - now) * rate ≤ (last - first) * rate :=
        mul_le_mul_of_nonneg_right (sub_le_sub_left inside.1 _) pays
      calc ((within first last (passes rate burst bucket (now :: times))).length : F)
          ≤ _ := length_within_cons
        _ ≤ (bucket.refill rate burst now).tokens + (last - now) * rate := by linarith
        _ ≤ burst + (last - first) * rate := add_le_add capped shorter
    · have skipped : within first last (passes rate burst bucket (now :: times)) =
          within first last (passes rate burst (bucket.refill rate burst now).take.2 times) := by
        rw [passes_cons, within, List.filter_append]
        cases (bucket.refill rate burst now).take.1 <;> simp [within, inside]
      rw [skipped]
      apply ih nonneg rest
      rw [last_refill_take]
      exact before

end TokenBucket

end HlHelper.Library
