import HlHelper.Library.OrderedMap
import HlHelper.Library.Runs
import HlHelper.Library.TokenBucket
import Mathlib.Algebra.Order.Ring.Rat

/-! `RateLimiter.check`. Times are seconds, without rounding. A key whose bucket is not evicted
before it is full is served as by one bucket of its own. -/

namespace HlHelper.RateLimit

open HlHelper.Library

abbrev Bucket := TokenBucket ℚ

abbrev Buckets := OrderedMap String Bucket

/-- A rate and a burst count tokens, and are not negative. -/
structure RateLimiter where
  ratePerSec : ℚ
  burst : Nat
  maxBuckets : Nat
  rate_nonneg : 0 ≤ ratePerSec

structure Call where
  key : String
  now : ℚ
  deriving DecidableEq, Repr

/-- `check` returns, raises 429 or raises the `KeyError` of `popitem`. -/
inductive Verdict where
  | passed
  | limited
  | raised
  deriving DecidableEq, Repr

namespace RateLimiter

variable (limiter : RateLimiter)

def popitem (buckets : Buckets) : Option Buckets :=
  if buckets.entries = [] then none else some buckets.popFirst

/-- The bucket of the key, new or refilled, and the buckets beside it. -/
def bucketOf (buckets : Buckets) (call : Call) : Option (Bucket × Buckets) :=
  match buckets.get? call.key with
  | none =>
    let room := if limiter.maxBuckets ≤ buckets.entries.length then popitem buckets
      else some buckets
    room.map fun buckets => (⟨limiter.burst, call.now⟩, buckets)
  | some bucket => some (bucket.refill limiter.ratePerSec limiter.burst call.now, buckets)

def check (buckets : Buckets) (call : Call) : Verdict × Buckets :=
  match limiter.bucketOf buckets call with
  | none => (.raised, buckets)
  | some (bucket, buckets) =>
    let (passed, rest) := bucket.take
    (if passed then .passed else .limited, buckets.insert call.key rest)

def step (buckets : Buckets) (call : Call) : Option Buckets := some (limiter.check buckets call).2

/-- The time of a call for the key that is let through. -/
def passed (key : String) (buckets : Buckets) (call : Call) : Option ℚ :=
  if call.key = key ∧ (limiter.check buckets call).1 = .passed then some call.now else none

/-- The tokens that the bucket of the key holds at a time; a key without a bucket gets a new one. -/
def held (buckets : Buckets) (key : String) (now : ℚ) : ℚ :=
  match buckets.get? key with
  | none => limiter.burst
  | some bucket => (bucket.refill limiter.ratePerSec limiter.burst now).tokens

/-- What the limiter promises for a key: no more than the burst and the rate in any interval, and
no refusal while there is a token. -/
structure Limits (key : String) (calls : List Call) : Prop where
  bounded : ∀ first last, first ≤ last →
    ((within first last (outputs limiter.step (limiter.passed key) .empty calls)).length : ℚ) ≤
      limiter.burst + limiter.ratePerSec * (last - first)
  refuses : ∀ before call after buckets, calls = before ++ call :: after →
    run limiter.step .empty before = some buckets → call.key = key →
    (limiter.check buckets call).1 ≠ .passed → limiter.held buckets key call.now < 1

/-- Fewer other keys than there are buckets come between two calls for the key. -/
def Frequent (key : String) (calls : List Call) : Prop :=
  ∀ others ∈ ((calls.map Call.key).splitOn key).tail.dropLast,
    others.dedup.length < limiter.maxBuckets

instance (key : String) (calls : List Call) : Decidable (limiter.Frequent key calls) :=
  inferInstanceAs (Decidable (∀ _ ∈ _, _))

/-- A check that evicts finds a bucket to evict, and not one of the key unless it is full by
then. -/
def Careful (key : String) (buckets : Buckets) (call : Call) : Prop :=
  buckets.get? call.key = none → limiter.maxBuckets ≤ buckets.entries.length →
    ∃ oldest ∈ buckets.entries.head?, oldest.1 = key →
      limiter.burst ≤ oldest.2.tokens + (call.now - oldest.2.last) * limiter.ratePerSec

instance (key : String) (buckets : Buckets) (call : Call) :
    Decidable (limiter.Careful key buckets call) := by
  unfold Careful
  infer_instance

end RateLimiter

namespace RateLimiter

variable {limiter : RateLimiter} {key : String} {now until_ : ℚ} {buckets after : Buckets}
  {bucket : Bucket} {call : Call} {calls : List Call}

/-- The key is served by its bucket, or by a new one in place of a full one. -/
structure Serves (limiter : RateLimiter) (key : String) (now : ℚ) (buckets : Buckets)
    (bucket : Bucket) : Prop where
  own : ∀ found, buckets.get? key = some found → found = bucket
  full : buckets.get? key = none →
    limiter.burst ≤ bucket.tokens + (now - bucket.last) * limiter.ratePerSec
  nonneg : 0 ≤ bucket.tokens
  past : bucket.last ≤ now

theorem Serves.later (serves : Serves limiter key now buckets bucket) (passes : now ≤ until_) :
    Serves limiter key until_ buckets bucket where
  __ := serves
  full absent := by
    have longer : (now - bucket.last) * limiter.ratePerSec ≤
        (until_ - bucket.last) * limiter.ratePerSec :=
      mul_le_mul_of_nonneg_right (sub_le_sub_right passes _) limiter.rate_nonneg
    exact (serves.full absent).trans (add_le_add_right longer _)
  past := serves.past.trans passes

theorem get?_popFirst_first {oldest : String × Bucket}
    (first : oldest ∈ buckets.entries.head?) : buckets.popFirst.get? oldest.1 = none := by
  apply OrderedMap.get?_eq_none_iff.mpr
  have unique := buckets.unique
  change oldest.1 ∉ buckets.entries.tail.map Prod.fst
  cases entries : buckets.entries with
  | nil => simp
  | cons head rest =>
    rw [entries] at first unique
    cases first
    exact (List.nodup_cons.mp unique).1

theorem room_of_careful (careful : limiter.Careful key buckets call)
    (absent : buckets.get? call.key = none) :
    ∃ rest, (if limiter.maxBuckets ≤ buckets.entries.length then popitem buckets
      else some buckets) = some rest := by
  split
  · next crowded =>
    obtain ⟨oldest, first, _⟩ := careful absent crowded
    unfold popitem
    split
    · next empty =>
      rw [empty] at first
      cases first
    · exact ⟨_, rfl⟩
  · exact ⟨_, rfl⟩

theorem bucketOf_own (serves : Serves limiter call.key call.now buckets bucket)
    (careful : limiter.Careful key buckets call) :
    ∃ rest, limiter.bucketOf buckets call =
      some (bucket.refill limiter.ratePerSec limiter.burst call.now, rest) := by
  unfold bucketOf
  cases there : buckets.get? call.key with
  | none =>
    obtain ⟨rest, room⟩ := room_of_careful careful there
    simp only [room, TokenBucket.refill_full (serves.full there)]
    exact ⟨rest, rfl⟩
  | some found =>
    rw [serves.own found there]
    exact ⟨buckets, rfl⟩

theorem bucketOf_other (serves : Serves limiter key call.now buckets bucket)
    (careful : limiter.Careful key buckets call) :
    ∃ found rest, limiter.bucketOf buckets call = some (found, rest) ∧
      Serves limiter key call.now rest bucket := by
  unfold bucketOf
  cases there : buckets.get? call.key with
  | some found => exact ⟨_, buckets, rfl, serves⟩
  | none =>
    obtain ⟨rest, room⟩ := room_of_careful careful there
    simp only [room]
    refine ⟨_, rest, rfl, ?_⟩
    split at room
    · next crowded =>
      obtain ⟨oldest, first, full⟩ := careful there crowded
      unfold popitem at room
      split at room
      · cases room
      · cases room
        by_cases same : oldest.1 = key
        · have gone := get?_popFirst_first first
          rw [same] at gone
          have mine : buckets.get? key = some oldest.2 := by
            apply OrderedMap.get?_eq_some_iff.mpr
            rw [← same]
            exact List.mem_of_mem_head? first
          have full := full same
          rw [serves.own oldest.2 mine] at full
          exact ⟨fun found there => absurd (gone.symm.trans there) nofun, fun _ => full,
            serves.nonneg, serves.past⟩
        · have kept : buckets.popFirst.get? key = buckets.get? key := by
            apply OrderedMap.get?_popFirst
            intro other there
            obtain rfl := Option.some.inj (there.symm.trans first)
            exact same
          exact ⟨fun found there => serves.own found (kept.symm.trans there),
            fun absent => serves.full (kept.symm.trans absent), serves.nonneg, serves.past⟩
    · cases room
      exact serves

theorem check_own (serves : Serves limiter call.key call.now buckets bucket)
    (careful : limiter.Careful key buckets call) :
    let full := bucket.refill limiter.ratePerSec limiter.burst call.now
    (limiter.check buckets call).1 = (if full.take.1 then .passed else .limited) ∧
      Serves limiter call.key call.now (limiter.check buckets call).2 full.take.2 := by
  obtain ⟨rest, found⟩ := bucketOf_own serves careful
  have full := TokenBucket.tokens_refill_nonneg limiter.rate_nonneg (Nat.cast_nonneg limiter.burst)
    serves.nonneg serves.past
  unfold check
  rw [found]
  refine ⟨rfl, ⟨fun other there => ?_, fun absent => ?_, TokenBucket.tokens_take_nonneg full, ?_⟩⟩
  · exact Option.some.inj (there.symm.trans (OrderedMap.get?_insert_self _ _ _))
  · exact absurd ((OrderedMap.get?_insert_self _ _ _).symm.trans absent) nofun
  · exact le_of_eq TokenBucket.last_refill_take

theorem check_other (other : call.key ≠ key) (serves : Serves limiter key call.now buckets bucket)
    (careful : limiter.Careful key buckets call) :
    Serves limiter key call.now (limiter.check buckets call).2 bucket := by
  obtain ⟨found, rest, met, served⟩ := bucketOf_other serves careful
  simp only [check, met]
  have kept := OrderedMap.get?_insert_other rest (Ne.symm other) found.take.2
  exact ⟨fun own there => served.own own (kept.symm.trans there),
    fun absent => served.full (kept.symm.trans absent), served.nonneg, served.past⟩

def times (key : String) (calls : List Call) : List ℚ :=
  (calls.filter fun call => call.key = key).map Call.now

theorem times_own (own : call.key = key) :
    times key (call :: calls) = call.now :: times key calls := by
  rw [times, List.filter_cons_of_pos (by simpa using own)]
  rfl

theorem times_other (other : call.key ≠ key) : times key (call :: calls) = times key calls := by
  rw [times, List.filter_cons_of_neg (by simpa using other)]
  rfl

section

variable (serves : Serves limiter key now buckets bucket)
include serves

/-- The limiter lets through what one bucket that is never evicted would. -/
theorem outputs_eq_passes (ordered : calls.Pairwise (·.now ≤ ·.now))
    (ahead : ∀ call ∈ calls, now ≤ call.now)
    (met : Meets limiter.step (limiter.Careful key) buckets calls) :
    outputs limiter.step (limiter.passed key) buckets calls =
      TokenBucket.passes limiter.ratePerSec limiter.burst bucket (times key calls) := by
  induction calls generalizing now buckets bucket with
  | nil => rfl
  | cons call calls ih =>
    obtain ⟨before, rest⟩ := List.pairwise_cons.mp ordered
    have served := serves.later (ahead call List.mem_cons_self)
    have later := met.2 _ rfl
    rw [outputs_cons rfl]
    by_cases own : call.key = key
    · subst own
      obtain ⟨verdict, next⟩ := check_own served met.1
      have here : (limiter.passed call.key buckets call).toList =
          if (bucket.refill limiter.ratePerSec limiter.burst call.now).take.1 then [call.now]
          else [] := by
        unfold passed
        rw [verdict]
        cases (bucket.refill limiter.ratePerSec limiter.burst call.now).take.1 <;> simp
      rw [here, ih next rest before later, times_own rfl, TokenBucket.passes_cons]
    · have silent : limiter.passed key buckets call = none := if_neg fun both => own both.1
      rw [silent, times_other own]
      exact ih (check_other own served met.1) rest before later

theorem serves_run (ordered : calls.Pairwise (·.now ≤ ·.now))
    (ahead : ∀ call ∈ calls, now ≤ call.now)
    (met : Meets limiter.step (limiter.Careful key) buckets calls)
    (reached : run limiter.step buckets calls = some after) (passes : now ≤ until_)
    (behind : ∀ call ∈ calls, call.now ≤ until_) :
    ∃ bucket, Serves limiter key until_ after bucket := by
  induction calls generalizing now buckets bucket with
  | nil =>
    obtain rfl : buckets = after := Option.some.inj reached
    exact ⟨bucket, serves.later passes⟩
  | cons call calls ih =>
    obtain ⟨before, rest⟩ := List.pairwise_cons.mp ordered
    obtain ⟨last, behind⟩ := List.forall_mem_cons.mp behind
    have served := serves.later (ahead call List.mem_cons_self)
    by_cases own : call.key = key
    · subst own
      exact ih (check_own served met.1).2 rest before (met.2 _ rfl) reached last behind
    · exact ih (check_other own served met.1) rest before (met.2 _ rfl) reached last behind

theorem Serves.held : limiter.held buckets key now =
      (bucket.refill limiter.ratePerSec limiter.burst now).tokens := by
  unfold RateLimiter.held
  cases there : buckets.get? key with
  | none => simp only [TokenBucket.refill_full (serves.full there)]
  | some found => rw [serves.own found there]

end

theorem serves_initial (limiter : RateLimiter) (key : String) (now : ℚ) :
    Serves limiter key now .empty ⟨limiter.burst, now⟩ :=
  ⟨fun _ there => absurd there nofun, fun _ => by simp, Nat.cast_nonneg _, le_rfl⟩

theorem exists_before (calls : List Call) : ∃ start, ∀ call ∈ calls, start ≤ call.now := by
  induction calls with
  | nil => exact ⟨0, List.forall_mem_nil _⟩
  | cons call calls ih =>
    obtain ⟨start, before⟩ := ih
    refine ⟨min start call.now, List.forall_mem_cons.mpr ⟨min_le_right _ _, ?_⟩⟩
    exact fun other member => (min_le_left _ _).trans (before other member)

theorem limits_when_careful (limiter : RateLimiter) (key : String) (calls : List Call)
    (ordered : calls.Pairwise (·.now ≤ ·.now))
    (met : Meets limiter.step (limiter.Careful key) .empty calls) : limiter.Limits key calls := by
  obtain ⟨start, ahead⟩ := exists_before calls
  have serves := serves_initial limiter key start
  constructor
  case bounded =>
    intro first last interval
    rw [outputs_eq_passes serves ordered ahead met, mul_comm]
    apply TokenBucket.length_within_passes limiter.rate_nonneg (Nat.cast_nonneg _)
      (Nat.cast_nonneg _) interval
    · exact List.pairwise_map.mpr (ordered.filter _)
    · intro time member
      obtain ⟨call, kept, rfl⟩ := List.mem_map.mp member
      exact ahead call (List.mem_filter.mp kept).1
  case refuses =>
    intro before call after buckets split reached own refused
    subst split own
    obtain ⟨first, careful, _⟩ := meets_append reached met
    obtain ⟨earlier, _, between⟩ := List.pairwise_append.mp ordered
    have due := ahead call (List.mem_append_right _ List.mem_cons_self)
    obtain ⟨bucket, served⟩ := serves_run serves earlier
      (fun other member => ahead other (List.mem_append_left _ member)) first reached due
      (fun other member => between other member call List.mem_cons_self)
    rw [served.held]
    rw [(check_own served careful).1] at refused
    unfold TokenBucket.take at refused
    split at refused
    · exact absurd rfl refused
    · next empty => exact not_le.mp empty

def small : RateLimiter := ⟨1, 1, 2, by decide⟩

theorem small_limits_when_full :
    small.Limits "k" [⟨"k", 0⟩, ⟨"a", 0⟩, ⟨"b", 5⟩, ⟨"k", 5⟩, ⟨"k", 5⟩] :=
  limits_when_careful small "k" _ (by decide +kernel) (by decide +kernel)

theorem used_bucket_evicted :
    small.Frequent "k" [⟨"k", 0⟩, ⟨"a", 0⟩, ⟨"k", 0⟩, ⟨"b", 0⟩, ⟨"k", 0⟩] ∧
      ¬ small.Limits "k" [⟨"k", 0⟩, ⟨"a", 0⟩, ⟨"k", 0⟩, ⟨"b", 0⟩, ⟨"k", 0⟩] := by
  constructor
  · decide +kernel
  · intro limits
    have bounded := limits.bounded 0 0 le_rfl
    have passes : within 0 0 (outputs small.step (small.passed "k") .empty
        [⟨"k", 0⟩, ⟨"a", 0⟩, ⟨"k", 0⟩, ⟨"b", 0⟩, ⟨"k", 0⟩]) = [0, 0] := by decide +kernel
    rw [passes] at bounded
    exact absurd bounded (by decide +kernel)

end RateLimiter

end HlHelper.RateLimit
