import HlHelper.Audit.Canonical
import HlHelper.ReEnroll.Soundness
import Mathlib.Data.List.TakeWhile

/-! `NonceCache` and `ReEnrollRateLimiter` over all the hosts, call after call, and the payload of
a re-enrolment as the server and the agent hash it. Times are microseconds. -/

namespace HlHelper.ReEnroll

open HlHelper.Library

section NonceCache

inductive CacheCall where
  | put (hostId : String) (nonce : Bytes) (now : Int)
  | consume (hostId : String) (nonce : Bytes) (now : Int)
  deriving DecidableEq, Repr

def CacheCall.now : CacheCall → Int
  | .put _ _ now | .consume _ _ now => now

variable (service : Service)

def consumeFrom (nonces : OrderedMap String Entry) (hostId : String) (nonce : Bytes) (now : Int) :
    Bool × OrderedMap String Entry :=
  let (valid, left) := consume service (nonces.get? hostId) nonce now
  (valid,
    match left with
    | none => nonces.erase hostId
    | some entry => nonces.insert hostId entry)

def cacheStep (nonces : OrderedMap String Entry) : CacheCall → OrderedMap String Entry
  | .put hostId nonce now => nonces.insert hostId ⟨nonce, now⟩
  | .consume hostId nonce now => (consumeFrom service nonces hostId nonce now).2

def cacheAfter (calls : List CacheCall) : OrderedMap String Entry :=
  calls.foldl (cacheStep service) .empty

def consumes (calls : List CacheCall) (hostId : String) (nonce : Bytes) (now : Int) : Bool :=
  (consumeFrom service (cacheAfter service calls) hostId nonce now).1

/-- The last put for the host is of this nonce and time, and no consume since has succeeded. -/
def Unused (calls : List CacheCall) (hostId : String) (nonce : Bytes) (putAt : Int) : Prop :=
  ∃ early late, calls = early ++ .put hostId nonce putAt :: late ∧
    (∀ other at_, .put hostId other at_ ∉ late) ∧
    ∀ between other at_ rest, late = between ++ .consume hostId other at_ :: rest →
      consumes service (early ++ .put hostId nonce putAt :: between) hostId other at_ = false

def InTime (calls : List CacheCall) : Prop := (calls.map CacheCall.now).Pairwise (· ≤ ·)

instance (calls : List CacheCall) : Decidable (InTime calls) :=
  inferInstanceAs (Decidable (List.Pairwise _ _))

end NonceCache

section Limiter

variable (service : Service)

/-- `ReEnrollRateLimiter.allow`. -/
def allowFrom (attempts : OrderedMap String (List Int)) (hostId : String) (now : Int) :
    Bool × OrderedMap String (List Int) :=
  let (allowed, recent) := allow service ((attempts.get? hostId).getD []) now
  (allowed, attempts.insert hostId recent)

def allowances : OrderedMap String (List Int) → List (String × Int) → List Bool
  | _, [] => []
  | attempts, (hostId, now) :: calls =>
    let (allowed, attempts) := allowFrom service attempts hostId now
    allowed :: allowances attempts calls

def allowedTimes (attempts : OrderedMap String (List Int)) (hostId : String)
    (calls : List (String × Int)) : List Int :=
  (calls.zip (allowances service attempts calls)).filterMap fun call =>
    if call.1.1 = hostId ∧ call.2 = true then some call.1.2 else none

end Limiter

section Payload

def payloadBody (hostId : String) (nonce : Bytes) (tsUnix : Int) : Bytes :=
  Wire.utf8 "reenroll-v1|" ++ Wire.utf8 hostId ++ Wire.utf8 "|" ++ nonce ++ Wire.utf8 "|" ++
    Wire.utf8 (toString tsUnix)

/-- `strconv.FormatInt` to base 10, which negates into an unsigned number first. -/
def formatInt (n : Int64) : Bytes :=
  let digits := Wire.utf8 (String.ofList (Nat.toDigits 10 n.toInt.natAbs))
  if n.toInt < 0 then 45 :: digits else digits

/-- The `body` of the agent's `CanonicalReenrollPayload`; a string of Go is its bytes. -/
def agentBody (hostID nonce : Bytes) (tsUnix : Int64) : Bytes :=
  let body := Wire.utf8 "reenroll-v1|"
  let body := body ++ hostID
  let body := body ++ [124]
  let body := body ++ nonce
  let body := body ++ [124]
  body ++ formatInt tsUnix

end Payload

section NonceCache

variable {service : Service} {nonces : OrderedMap String Entry} {calls between : List CacheCall}
  {call : CacheCall} {hostId other : String} {nonce : Bytes} {now putAt : Int}

theorem consumeFrom_same : (consumeFrom service nonces hostId nonce now).2.get? hostId =
    (consume service (nonces.get? hostId) nonce now).2 := by
  unfold consumeFrom
  dsimp only
  split
  · next gone => rw [OrderedMap.get?_erase_self, gone]
  · next entry kept => rw [OrderedMap.get?_insert_self, kept]

theorem consumeFrom_other (different : other ≠ hostId) :
    (consumeFrom service nonces hostId nonce now).2.get? other = nonces.get? other := by
  unfold consumeFrom
  dsimp only
  split
  · exact OrderedMap.get?_erase_other _ different
  · exact OrderedMap.get?_insert_other _ different _

theorem cacheAfter_append (calls more : List CacheCall) :
    cacheAfter service (calls ++ more) =
      more.foldl (cacheStep service) (cacheAfter service calls) :=
  List.foldl_append

/-- The call leaves what was put for the host: it puts nothing there and uses nothing up. -/
def Spares (service : Service) (calls : List CacheCall) (hostId : String) : CacheCall → Prop
  | .put other _ _ => other ≠ hostId
  | .consume other nonce now => other = hostId → consumes service calls other nonce now = false

theorem unused_concat : Unused service (calls ++ [call]) hostId nonce putAt ↔
    call = .put hostId nonce putAt ∨
      Spares service calls hostId call ∧ Unused service calls hostId nonce putAt := by
  constructor
  · rintro ⟨early, late, same, last, idle⟩
    rcases List.eq_nil_or_concat late with rfl | ⟨before, final, rfl⟩
    · exact .inl (List.cons.inj (List.append_inj' same rfl).2).1
    · rw [List.concat_eq_append] at same last idle
      rw [← List.cons_append, ← List.append_assoc] at same
      obtain ⟨rfl, finals⟩ := List.append_inj' same rfl
      obtain rfl := (List.cons.inj finals).1
      refine .inr ⟨?_, early, before, rfl, ?_, ?_⟩
      · cases call with
        | put host other at_ =>
          rintro rfl
          exact last other at_ (by simp)
        | consume host other at_ =>
          rintro rfl
          exact idle before other at_ [] rfl
      · exact fun other at_ member => last other at_ (List.mem_append_left _ member)
      · rintro between other at_ rest rfl
        exact idle between other at_ (rest ++ [call]) (by simp)
  · rintro (rfl | ⟨spares, early, late, rfl, last, idle⟩)
    · exact ⟨calls, [], rfl, by simp, by simp⟩
    · refine ⟨early, late ++ [call], by simp, ?_, ?_⟩
      · intro other at_ member
        rcases List.mem_append.mp member with within | final
        · exact last other at_ within
        · obtain rfl := List.mem_singleton.mp final
          exact spares rfl
      · intro between other at_ rest same
        rcases List.eq_nil_or_concat rest with rfl | ⟨before, final, rfl⟩
        · obtain ⟨rfl, finals⟩ := List.append_inj' same rfl
          obtain rfl := (List.cons.inj finals).1
          exact spares rfl
        · rw [List.concat_eq_append, ← List.cons_append, ← List.append_assoc] at same
          exact idle between other at_ before (List.append_inj' same rfl).1

/-- What `consume` can do to the slot of the host. -/
inductive Consumed (service : Service) (nonce : Bytes) (now : Int) :
    Option Entry → Bool × Option Entry → Prop where
  | absent : Consumed service nonce now none (false, none)
  | expired {entry} : service.nonceTtl < now - entry.putAt →
      Consumed service nonce now (some entry) (false, none)
  | other {entry} : entry.nonce ≠ nonce →
      Consumed service nonce now (some entry) (false, some entry)
  | used {entry} : now - entry.putAt ≤ service.nonceTtl → entry.nonce = nonce →
      Consumed service nonce now (some entry) (true, none)

theorem consumed (slot : Option Entry) :
    Consumed service nonce now slot (consume service slot nonce now) := by
  unfold consume
  split
  · exact .absent
  · split
    · next late => exact .expired late
    · next alive =>
      split
      · next other => exact .other other
      · next same => exact .used (Int.not_lt.mp alive) (not_not.mp same)

theorem slot_after (calls : List CacheCall) :
    (∀ entry, (cacheAfter service calls).get? hostId = some entry →
      Unused service calls hostId entry.nonce entry.putAt) ∧
    ∀ nonce putAt, Unused service calls hostId nonce putAt →
      (cacheAfter service calls).get? hostId = some ⟨nonce, putAt⟩ ∨
        (cacheAfter service calls).get? hostId = none ∧
          ∃ call ∈ calls, service.nonceTtl < call.now - putAt := by
  induction calls using List.reverseRecOn with
  | nil =>
    have nothing : (cacheAfter service []).get? hostId = none := rfl
    refine ⟨fun entry found => absurd (nothing.symm.trans found) (by simp), ?_⟩
    rintro nonce putAt ⟨early, late, same, -⟩
    simp at same
  | append_singleton calls call ih =>
    have longer : ∀ putAt, (∃ call ∈ calls, service.nonceTtl < call.now - putAt) →
        ∃ late ∈ calls ++ [call], service.nonceTtl < late.now - putAt :=
      fun putAt ⟨early, member, late⟩ => ⟨early, List.mem_append_left _ member, late⟩
    simp only [unused_concat, cacheAfter_append, List.foldl_cons, List.foldl_nil]
    cases call with
    | put host nonce at_ =>
      by_cases same : host = hostId
      · subst same
        simp only [cacheStep, OrderedMap.get?_insert_self, Spares]
        refine ⟨?_, ?_⟩
        · rintro entry found
          cases found
          exact .inl rfl
        · rintro other putAt (put | ⟨spares, -⟩)
          · cases put
            exact .inl rfl
          · exact absurd rfl spares
      · simp only [cacheStep, OrderedMap.get?_insert_other _ (Ne.symm same)]
        refine ⟨fun entry found => .inr ⟨same, ih.1 entry found⟩, ?_⟩
        rintro other putAt (put | ⟨-, unused⟩)
        · cases put
          exact absurd rfl same
        · exact (ih.2 other putAt unused).imp_right (And.imp_right (longer putAt))
    | consume host nonce at_ =>
      by_cases same : host = hostId
      · subst same
        have returned : consumes service calls host nonce at_ =
            (consume service ((cacheAfter service calls).get? host) nonce at_).1 := rfl
        have happens := @consumed service nonce at_ ((cacheAfter service calls).get? host)
        simp only [cacheStep, consumeFrom_same, Spares, true_imp_iff, returned]
        generalize (cacheAfter service calls).get? host = slot at ih happens ⊢
        generalize consume service slot nonce at_ = result at happens ⊢
        refine ⟨fun entry found => ?_, fun other putAt => ?_⟩
        · cases happens with
          | other => exact .inr ⟨rfl, ih.1 entry found⟩
          | absent | expired | used => cases found
        · rintro (put | ⟨spares, unused⟩)
          · cases put
          · rcases ih.2 other putAt unused with rfl | ⟨rfl, late⟩
            · cases happens with
              | expired late =>
                exact .inr ⟨rfl, _, List.mem_append_right _ List.mem_cons_self, late⟩
              | other => exact .inl rfl
              | used => cases spares
            · cases happens
              exact .inr ⟨rfl, longer putAt late⟩
      · simp only [cacheStep, consumeFrom_other (Ne.symm same)]
        refine ⟨fun entry found => .inr
          ⟨fun equal => absurd equal same, ih.1 entry found⟩, ?_⟩
        rintro other putAt (put | ⟨-, unused⟩)
        · cases put
        · exact (ih.2 other putAt unused).imp_right (And.imp_right (longer putAt))

theorem consumes_iff (ordered : InTime (calls ++ [.consume hostId nonce now])) :
    consumes service calls hostId nonce now = true ↔
      ∃ putAt, Unused service calls hostId nonce putAt ∧ now - putAt ≤ service.nonceTtl := by
  obtain ⟨holds, held⟩ := @slot_after service hostId calls
  constructor
  · intro valid
    obtain ⟨entry, found, rfl, alive, -⟩ := consume_ok valid
    exact ⟨entry.putAt, holds entry found, alive⟩
  · rintro ⟨putAt, unused, alive⟩
    rcases held nonce putAt unused with found | ⟨-, call, member, late⟩
    · have returned : consumes service calls hostId nonce now =
          (consume service (some ⟨nonce, putAt⟩) nonce now).1 := by
        rw [← found]
        rfl
      rw [returned, consume]
      simp [Int.not_lt.mpr alive]
    · rw [InTime, List.map_append, List.pairwise_append] at ordered
      have before : call.now ≤ now :=
        ordered.2.2 _ (List.mem_map_of_mem member) _ List.mem_cons_self
      omega

theorem slot_stays_empty (empty : nonces.get? hostId = none)
    (none_put : ∀ nonce at_, .put hostId nonce at_ ∉ between) :
    (between.foldl (cacheStep service) nonces).get? hostId = none := by
  induction between generalizing nonces with
  | nil => exact empty
  | cons call between ih =>
    refine ih ?_ fun nonce at_ member => none_put nonce at_ (List.mem_cons_of_mem _ member)
    cases call with
    | put host nonce at_ =>
      have different : hostId ≠ host := by
        rintro rfl
        exact none_put nonce at_ List.mem_cons_self
      rw [cacheStep, OrderedMap.get?_insert_other _ different, empty]
    | consume host nonce at_ =>
      by_cases same : hostId = host
      · subst same
        rw [cacheStep, consumeFrom_same, empty]
        rfl
      · rw [cacheStep, consumeFrom_other same, empty]

theorem consumes_once (valid : consumes service calls hostId nonce now = true)
    (none_put : ∀ nonce at_, .put hostId nonce at_ ∉ between) (again : Bytes) (later : Int) :
    consumes service (calls ++ .consume hostId nonce now :: between) hostId again later =
      false := by
  obtain ⟨entry, -, -, -, gone⟩ := consume_ok valid
  have empty : (cacheAfter service (calls ++ .consume hostId nonce now :: between)).get? hostId =
      none := by
    rw [cacheAfter_append, List.foldl_cons]
    exact slot_stays_empty (consumeFrom_same.trans gone) none_put
  rw [consumes, consumeFrom, empty]
  rfl

end NonceCache

section Limiter

variable {service : Service} {attempts others : OrderedMap String (List Int)}
  {calls more : List (String × Int)} {hostId other : String} {now : Int}

def held (attempts : OrderedMap String (List Int)) (hostId : String) : List Int :=
  (attempts.get? hostId).getD []

def limiterAfter (service : Service) (attempts : OrderedMap String (List Int))
    (calls : List (String × Int)) : OrderedMap String (List Int) :=
  calls.foldl (fun attempts call => (allowFrom service attempts call.1 call.2).2) attempts

theorem allowFrom_fst : (allowFrom service attempts hostId now).1 =
    (allow service (held attempts hostId) now).1 := rfl

theorem held_allowFrom_same : held (allowFrom service attempts hostId now).2 hostId =
    (allow service (held attempts hostId) now).2 := by
  rw [held, allowFrom, OrderedMap.get?_insert_self]
  rfl

theorem held_allowFrom_other (different : other ≠ hostId) :
    held (allowFrom service attempts hostId now).2 other = held attempts other := by
  rw [held, allowFrom, OrderedMap.get?_insert_other _ different]
  rfl

theorem allowances_cons (attempts : OrderedMap String (List Int)) (call : String × Int)
    (calls : List (String × Int)) :
    allowances service attempts (call :: calls) =
      (allowFrom service attempts call.1 call.2).1 ::
        allowances service (allowFrom service attempts call.1 call.2).2 calls := rfl

theorem allowances_append (attempts : OrderedMap String (List Int))
    (calls more : List (String × Int)) :
    allowances service attempts (calls ++ more) =
      allowances service attempts calls ++
        allowances service (limiterAfter service attempts calls) more := by
  induction calls generalizing attempts with
  | nil => rfl
  | cons call calls ih =>
    rw [List.cons_append, allowances_cons, allowances_cons, ih, List.cons_append]
    rfl

theorem length_allowances (attempts : OrderedMap String (List Int))
    (calls : List (String × Int)) :
    (allowances service attempts calls).length = calls.length := by
  induction calls generalizing attempts with
  | nil => rfl
  | cons call calls ih => rw [allowances_cons, List.length_cons, ih, List.length_cons]

theorem allowedTimes_cons (call : String × Int) :
    allowedTimes service attempts hostId (call :: calls) =
      (if call.1 = hostId ∧ (allowFrom service attempts call.1 call.2).1 = true then [call.2]
        else []) ++
        allowedTimes service (allowFrom service attempts call.1 call.2).2 hostId calls := by
  rw [allowedTimes, allowances_cons, List.zip_cons_cons]
  by_cases admitted : call.1 = hostId ∧ (allowFrom service attempts call.1 call.2).1 = true
  · simp only [List.filterMap_cons, if_pos admitted]
    rfl
  · simp only [List.filterMap_cons, if_neg admitted]
    rfl

def inWindow (service : Service) (first : Int) (times : List Int) : Nat :=
  times.countP fun at_ => first ≤ at_ ∧ at_ ≤ first + service.window

/-- What the limiter holds for a host behind the allowed calls of the given times, when no call to
come is before the last: what it has dropped is over, and no window has held too many. -/
structure Keeps (service : Service) (last : Int) (times held : List Int) : Prop where
  dropped : ∃ old, times = old ++ held ∧ ∀ at_ ∈ old, at_ < last - service.window
  bounded : ∀ first, inWindow service first times ≤ service.maxPerWindow

theorem inWindow_append (first : Int) (times more : List Int) :
    inWindow service first (times ++ more) =
      inWindow service first times + inWindow service first more :=
  List.countP_append

theorem inWindow_dropped {first : Int} {old : List Int}
    (dropped : ∀ at_ ∈ old, at_ < now - service.window) (ends : now ≤ first + service.window) :
    inWindow service first old = 0 := by
  refine List.countP_eq_zero.mpr fun at_ member => ?_
  have early := dropped at_ member
  simp only [decide_eq_true_eq, not_and]
  omega

theorem Keeps.step {last : Int} {times held : List Int} (keeps : Keeps service last times held)
    (forward : last ≤ now) :
    Keeps service now (times ++ if (allow service held now).1 = true then [now] else [])
      (allow service held now).2 := by
  obtain ⟨old, split, ended⟩ := keeps.dropped
  have parts := List.takeWhile_append_dropWhile
    (p := fun at_ => decide (at_ < now - service.window)) (l := held)
  generalize gone : held.takeWhile (fun at_ => decide (at_ < now - service.window)) = taken at parts
  have dropped : ∀ at_ ∈ old ++ taken, at_ < now - service.window := by
    intro at_ member
    rcases List.mem_append.mp member with before | here
    · have early := ended at_ before
      omega
    · rw [← gone] at here
      have early := List.mem_takeWhile_imp here
      exact of_decide_eq_true early
  unfold allow
  dsimp only
  generalize held.dropWhile (fun at_ => decide (at_ < now - service.window)) = recent at parts ⊢
  have whole : times = old ++ taken ++ recent := by rw [split, ← parts, List.append_assoc]
  split
  · exact ⟨⟨old ++ taken, by simpa using whole, dropped⟩, by simpa using keeps.bounded⟩
  · next room =>
    refine ⟨⟨old ++ taken, by simp [whole], dropped⟩, fun first => ?_⟩
    rw [if_pos rfl, inWindow_append]
    by_cases inside : first ≤ now ∧ now ≤ first + service.window
    · have one : inWindow service first [now] = 1 := by simp [inWindow, inside]
      have few : inWindow service first recent ≤ recent.length := List.countP_le_length
      rw [one, whole, inWindow_append, inWindow_dropped dropped inside.2]
      omega
    · have none_new : inWindow service first [now] = 0 := by simpa [inWindow] using inside
      rw [none_new]
      exact keeps.bounded first

theorem Keeps.later {last : Int} {times held : List Int} (keeps : Keeps service last times held)
    (forward : last ≤ now) : Keeps service now times held := by
  obtain ⟨old, split, ended⟩ := keeps.dropped
  refine ⟨⟨old, split, fun at_ member => ?_⟩, keeps.bounded⟩
  have early := ended at_ member
  omega

theorem inWindow_allowedTimes {last : Int} {times : List Int}
    (keeps : Keeps service last times (held attempts hostId))
    (ordered : (last :: calls.map Prod.snd).Pairwise (· ≤ ·)) (first : Int) :
    inWindow service first (times ++ allowedTimes service attempts hostId calls) ≤
      service.maxPerWindow := by
  induction calls generalizing attempts last times with
  | nil =>
    rw [show allowedTimes service attempts hostId [] = [] from rfl, List.append_nil]
    exact keeps.bounded first
  | cons call calls ih =>
    obtain ⟨least, ordered⟩ := List.pairwise_cons.mp ordered
    have forward : last ≤ call.2 := least _ List.mem_cons_self
    rw [allowedTimes_cons, ← List.append_assoc]
    refine ih ?_ ordered
    by_cases same : call.1 = hostId
    · subst same
      rw [held_allowFrom_same, allowFrom_fst]
      simpa using keeps.step forward
    · rw [held_allowFrom_other (Ne.symm same)]
      simpa [same] using keeps.later forward

def Alike (cutoff : Int) (attempts others : OrderedMap String (List Int)) : Prop :=
  ∀ hostId, (held attempts hostId).dropWhile (fun at_ => decide (at_ < cutoff)) =
    (held others hostId).dropWhile fun at_ => decide (at_ < cutoff)

theorem dropWhile_later {early late : Int} (forward : early ≤ late) (times : List Int) :
    (times.dropWhile fun at_ => decide (at_ < early)).dropWhile (fun at_ => decide (at_ < late)) =
      times.dropWhile fun at_ => decide (at_ < late) := by
  induction times with
  | nil => rfl
  | cons time times ih =>
    by_cases old : time < early
    · have over_ : time < late := by omega
      rw [List.dropWhile_cons_of_pos (by simpa using old),
        List.dropWhile_cons_of_pos (by simpa using over_), ih]
    · rw [List.dropWhile_cons_of_neg (by simpa using old)]

theorem Alike.later {early late : Int} (alike : Alike early attempts others)
    (forward : early ≤ late) : Alike late attempts others := by
  intro hostId
  rw [← dropWhile_later forward, alike hostId, dropWhile_later forward]

theorem Alike.allowances {last : Int} (alike : Alike (last - service.window) attempts others)
    (ordered : (last :: calls.map Prod.snd).Pairwise (· ≤ ·)) :
    allowances service attempts calls = allowances service others calls := by
  induction calls generalizing attempts others last with
  | nil => rfl
  | cons call calls ih =>
    obtain ⟨hostId, now⟩ := call
    obtain ⟨least, ordered⟩ := List.pairwise_cons.mp ordered
    have forward : last ≤ now := least _ List.mem_cons_self
    have alike := alike.later (Int.sub_le_sub_right forward service.window)
    have same : allow service (held attempts hostId) now =
        allow service (held others hostId) now := by
      unfold allow
      rw [alike hostId]
    rw [allowances_cons, allowances_cons, allowFrom_fst, allowFrom_fst, same]
    refine congrArg _ (ih (fun other => ?_) ordered)
    by_cases own : other = hostId
    · subst own
      rw [held_allowFrom_same, held_allowFrom_same, same]
    · rw [held_allowFrom_other own, held_allowFrom_other own, alike other]

theorem alike_of_refused (refused : (allowFrom service attempts hostId now).1 = false) :
    Alike (now - service.window) (allowFrom service attempts hostId now).2 attempts := by
  intro other
  by_cases own : other = hostId
  · subst own
    rw [held_allowFrom_same]
    rw [allowFrom_fst] at refused
    unfold allow at refused ⊢
    dsimp only at refused ⊢
    split at refused
    · next full =>
      rw [if_pos full]
      exact dropWhile_later le_rfl _
    · cases refused
  · rw [held_allowFrom_other own]

theorem allowances_without {before : List (String × Int)}
    (ordered : ((before ++ (hostId, now) :: calls).map Prod.snd).Pairwise (· ≤ ·))
    (refused : (allowances service attempts (before ++ (hostId, now) :: calls))[before.length]? =
      some false) :
    allowances service attempts (before ++ (hostId, now) :: calls) =
      allowances service attempts before ++
        false :: (allowances service attempts (before ++ calls)).drop before.length := by
  have here : (allowances service attempts before).length = before.length := length_allowances _ _
  simp only [allowances_append, allowances_cons] at refused ⊢
  rw [List.getElem?_append_right (Nat.le_of_eq here), here, Nat.sub_self, List.getElem?_cons_zero,
    Option.some.injEq] at refused
  rw [List.map_append, List.pairwise_append] at ordered
  rw [refused, List.drop_left' here, (alike_of_refused refused).allowances ordered.2.1]

end Limiter

section Payload

theorem utf8_decimal_plain (n : Int) : (124 : UInt8) ∉ Wire.utf8 (toString n) := by
  intro member
  obtain ⟨c, inside, bar⟩ := (Wire.mem_utf8 (by decide)).mp member
  have text : c = '|' := Char.toNat_inj.mp bar
  subst text
  rcases Audit.mem_toList_int inside with digit | sign
  · exact absurd digit (by decide)
  · exact absurd sign (by decide)

theorem last_mark_inj {β : Type} {mark : β} {first second rest others : List β}
    (plain : mark ∉ rest) (plainToo : mark ∉ others)
    (same : first ++ mark :: rest = second ++ mark :: others) : first = second ∧ rest = others := by
  have reversed := congrArg List.reverse same
  simp only [List.reverse_append, List.reverse_cons, List.append_assoc, List.singleton_append]
    at reversed
  have inside : ∀ c ∈ rest.reverse, ¬ c = mark :=
    fun c member => ne_of_mem_of_not_mem (List.mem_reverse.mp member) plain
  have insideToo : ∀ c ∈ others.reverse, ¬ c = mark :=
    fun c member => ne_of_mem_of_not_mem (List.mem_reverse.mp member) plainToo
  obtain ⟨tails, heads⟩ := append_inj_of_delimited inside insideToo (delimited_cons.mpr rfl)
    (delimited_cons.mpr rfl) reversed
  exact ⟨List.reverse_injective (List.cons.inj heads).2, List.reverse_injective tails⟩

theorem payloadBody_injective {hostId other : String} {nonce twin : Bytes} {ts time : Int}
    (width : nonce.length = twin.length)
    (same : payloadBody hostId nonce ts = payloadBody other twin time) :
    hostId = other ∧ nonce = twin ∧ ts = time := by
  have bar : Wire.utf8 "|" = [124] := by decide +kernel
  simp only [payloadBody, bar, List.append_assoc, List.singleton_append] at same
  have same := List.append_cancel_left same
  simp only [← List.append_assoc] at same
  obtain ⟨heads, times⟩ := last_mark_inj (utf8_decimal_plain ts) (utf8_decimal_plain time) same
  obtain ⟨hosts, nonces⟩ := List.append_inj' heads (by simpa using width)
  exact ⟨Audit.utf8_injective hosts, (List.cons.inj nonces).2,
    Audit.toString_int_injective (Audit.utf8_injective times)⟩

theorem formatInt_eq (n : Int64) : formatInt n = Wire.utf8 (toString n.toInt) := by
  unfold formatInt
  simp only [Wire.utf8_eq, String.toList_ofList]
  cases n.toInt with
  | ofNat m =>
    have natural : ¬ Int.ofNat m < 0 := Int.not_lt.mpr (Int.natCast_nonneg m)
    rw [if_neg natural, Audit.toList_ofNat]
    rfl
  | negSucc m =>
    rw [if_pos (Int.negSucc_lt_zero m), Audit.toList_negSucc]
    rfl

theorem agentBody_eq (hostId : String) (nonce : Bytes) (ts : Int64) :
    agentBody (Wire.utf8 hostId) nonce ts = payloadBody hostId nonce ts.toInt := by
  have bar : Wire.utf8 "|" = [124] := by decide +kernel
  rw [agentBody, payloadBody, formatInt_eq, bar]

end Payload

/-- A nonce is consumed at most once, as the last one put for its host and within its time to live;
the limiter lets at most so many calls through in any window, and what it refuses costs nothing; the
payload stands for host, nonce and time, and the agent hashes the same. -/
theorem reenroll_state_sound (service : Service) :
    (∀ calls hostId nonce now, InTime (calls ++ [.consume hostId nonce now]) →
      (consumes service calls hostId nonce now = true ↔
        ∃ putAt, Unused service calls hostId nonce putAt ∧ now - putAt ≤ service.nonceTtl)) ∧
    (∀ calls hostId nonce now between, consumes service calls hostId nonce now = true →
      (∀ other at_, .put hostId other at_ ∉ between) → ∀ again later,
        consumes service (calls ++ .consume hostId nonce now :: between) hostId again later =
          false) ∧
    (∀ calls : List (String × Int), (calls.map Prod.snd).Pairwise (· ≤ ·) → ∀ hostId first,
      inWindow service first (allowedTimes service .empty hostId calls) ≤ service.maxPerWindow) ∧
    (∀ before hostId now after, ((before ++ (hostId, now) :: after).map Prod.snd).Pairwise (· ≤ ·) →
      (allowances service .empty (before ++ (hostId, now) :: after))[before.length]? = some false →
      allowances service .empty (before ++ (hostId, now) :: after) =
        allowances service .empty before ++
          false :: (allowances service .empty (before ++ after)).drop before.length) ∧
    (∀ hostId nonce ts other twin time, nonce.length = twin.length →
      payloadBody hostId nonce ts = payloadBody other twin time →
      hostId = other ∧ nonce = twin ∧ ts = time) ∧
    ∀ hostId nonce (ts : Int64),
      canonicalPayload service hostId nonce ts.toInt =
          service.sha.sum (payloadBody hostId nonce ts.toInt) ∧
        agentBody (Wire.utf8 hostId) nonce ts = payloadBody hostId nonce ts.toInt := by
  refine ⟨fun _ _ _ _ => consumes_iff, fun _ _ _ _ _ valid none_put => consumes_once valid none_put,
    ?_, fun _ _ _ _ => allowances_without, fun _ _ _ _ _ _ => payloadBody_injective,
    fun hostId nonce ts => ⟨rfl, agentBody_eq hostId nonce ts⟩⟩
  intro calls ordered hostId first
  cases calls with
  | nil => exact Nat.zero_le _
  | cons call calls =>
    have fresh : Keeps service call.2 [] (held .empty hostId) :=
      ⟨⟨[], rfl, by simp⟩, fun _ => Nat.zero_le _⟩
    have twice : (call.2 :: (call :: calls).map Prod.snd).Pairwise (· ≤ ·) := by
      rw [List.map_cons] at ordered ⊢
      refine List.pairwise_cons.mpr ⟨fun time member => ?_, ordered⟩
      rcases List.mem_cons.mp member with rfl | later
      · exact le_rfl
      · exact (List.pairwise_cons.mp ordered).1 time later
    simpa using inWindow_allowedTimes fresh twice first

/-- A nonce put and consumed, two calls of the limiter, and host ids that hold the separator. -/
theorem state_of_one_host :
    consumes plain [.put "h" [7] 0] "h" [7] 5 = true ∧
      consumes plain [.put "h" [7] 0, .consume "h" [7] 5] "h" [7] 6 = false ∧
      inWindow plain 0 (allowedTimes plain .empty "h" [("h", 0), ("h", 1)]) ≤ plain.maxPerWindow ∧
      payloadBody "h|" [7] 3 ≠ payloadBody "h" [124] 3 := by
  obtain ⟨one, once, window, -, body, -⟩ := reenroll_state_sound plain
  have unused : Unused plain [.put "h" [7] 0] "h" [7] 0 := ⟨[], [], rfl, by simp, by simp⟩
  have used := (one [.put "h" [7] 0] "h" [7] 5 (by decide)).mpr ⟨0, unused, by decide⟩
  refine ⟨used, once _ "h" [7] 5 [] used (by simp) [7] 6, window _ (by decide) "h" 0, ?_⟩
  intro same
  exact absurd (body "h|" [7] 3 "h" [124] 3 rfl same).1 (by decide)

end HlHelper.ReEnroll
