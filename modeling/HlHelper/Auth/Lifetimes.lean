import HlHelper.Auth.Revocation
import Mathlib

/-! The uses that keep a session alive, and the lookups that come after its revocation. -/

namespace HlHelper.Auth

open HlHelper.Library

variable {service : Service}

/-- The session is used at its issue, and by a lookup of its token that passes the checks at
most the idle time after a use. -/
inductive Used (service : Service) (calls : List Call) (session : Session) : Int → Prop where
  | issued : Used service calls session session.issuedAt
  | lookup {last call token request} : Used service calls session last → call ∈ calls →
      call.kind = .lookup token request → session.tokenHash = service.hashToken token →
      call.touched = true → call.now - last ≤ service.idleTtl →
      Used service calls session call.now

variable {s t : Sessions} {calls later : List Call} {call : Call} {step : Step} {token : String}
  {session : Session} {time : Int} {request : Option RequestMeta}

theorem Used.at_time {last : Int} (used : Used service calls session last) (member : call ∈ calls)
    (kind : call.kind = .lookup token request) (hash : session.tokenHash = service.hashToken token)
    (touched : call.touched = true) (now : call.now = time) (idle : time - last ≤ service.idleTtl) :
    Used service calls session time := by
  subst now
  exact .lookup used member kind hash touched idle

structure Goes (old new : Call) : Prop where
  kind : new.kind = old.kind
  now : new.now = old.now
  began : new.began = old.began
  touched : old.touched = true → new.touched = true
  returned : old.phase = .returned → new = old

theorem Goes.refl (call : Call) : Goes call call := ⟨rfl, rfl, rfl, id, fun _ => rfl⟩

theorem Goes.trans {old new : Call} (first : Goes old call) (second : Goes call new) :
    Goes old new where
  kind := second.kind.trans first.kind
  now := second.now.trans first.now
  began := second.began.trans first.began
  touched was := second.touched (first.touched was)
  returned was := by
    obtain rfl := first.returned was
    exact second.returned was

theorem goes_of_happens (happens : Happens service s step t) : Onward Goes s.calls t.calls := by
  have going : ∀ {moved new : Call}, new.kind = moved.kind → new.now = moved.now →
      new.began = moved.began → new.touched = moved.touched → moved.phase ≠ .returned →
      Goes moved new := fun kind now began touched running =>
    ⟨kind, now, began, fun was => touched.trans was, fun was => absurd was running⟩
  have pushed : ∀ new, Onward Goes s.calls (s.calls ++ [new]) :=
    fun new => Onward.append Goes.refl _ [new]
  cases happens with
  | opens _ => exact pushed _
  | denies _ => exact pushed _
  | hits _ _ => exact pushed _
  | inserts turn _ phase _ =>
    exact Onward.set Goes.refl turn (going rfl rfl rfl rfl (phase ▸ nofun))
  | selects turn _ phase =>
    exact Onward.set Goes.refl turn (going rfl rfl rfl rfl (phase ▸ nofun))
  | touches turn _ phase =>
    exact Onward.set Goes.refl turn
      ⟨rfl, rfl, rfl, fun _ => rfl, fun was => absurd (phase.symm.trans was) nofun⟩
  | finds turn _ _ phase _ =>
    exact Onward.set Goes.refl turn (going rfl rfl rfl rfl (phase ▸ nofun))
  | revokes turn phase _ =>
    exact Onward.set Goes.refl turn (going rfl rfl rfl rfl (phase ▸ nofun))
  | checks turn _ phase _ _ =>
    exact Onward.set Goes.refl turn (going rfl rfl rfl rfl (phase ▸ nofun))
  | fills turn _ phase _ =>
    exact Onward.set Goes.refl turn (going rfl rfl rfl rfl (phase ▸ nofun))
  | purges turn phase _ _ =>
    refine Onward.set Goes.refl turn (going rfl rfl rfl rfl ?_)
    rcases phase with ⟨selected, _⟩ | committed
    · exact selected ▸ nofun
    · exact committed ▸ nofun
  | relabels _ turn running _ => exact Onward.set Goes.refl turn (going rfl rfl rfl rfl running)
  | ticks => exact Onward.refl Goes.refl _
  | evicts => exact Onward.refl Goes.refl _

theorem Used.mono (goes : ∀ call ∈ calls, ∃ new ∈ later, Goes call new)
    (used : Used service calls session time) : Used service later session time := by
  induction used with
  | issued => exact .issued
  | lookup _ member kind hash touched idle ih =>
    obtain ⟨new, here, going⟩ := goes _ member
    rw [← going.now] at idle ⊢
    exact .lookup ih here (going.kind.trans kind) hash (going.touched touched) idle

theorem Used.same {other : Session} (same : Same session other)
    (used : Used service calls session time) : Used service calls other time := by
  induction used with
  | issued =>
    have issuedAt : other.issuedAt = session.issuedAt := by rw [same]
    exact issuedAt ▸ .issued
  | lookup _ member kind hash touched idle ih =>
    exact .lookup ih member kind (same.tokenHash_eq.trans hash) touched idle

structure CallTimed (service : Service) (calls : List Call) (call : Call) : Prop where
  row : ∀ session ∈ call.row, Used service calls session session.lastUse
  admitted : call.phase = .updating ∨ call.touched = true → ∀ session ∈ call.row,
    call.now ≤ session.expiresAt ∧ call.now - session.lastUse ≤ service.idleTtl
  touched : call.touched = true →
    call.phase = .updated ∨ call.phase = .returned ∨ call.phase = .failed
  updated : call.phase = .updated → call.touched = true
  result : ∀ session ∈ call.result, call.phase = .returned ∧ call.touched = true ∧
    ∃ row ∈ call.row, session = { row with lastUsedAt := some call.now }

structure Timed (service : Service) (s : Sessions) : Prop where
  rows : ∀ row ∈ s.rows, Used service s.calls row row.lastUse
  cached : ∀ entry ∈ s.cache.entries, Used service s.calls entry.2.1 entry.2.1.lastUse
  calls : ∀ call ∈ s.calls, CallTimed service s.calls call
  past : ∀ call ∈ s.calls, call.now ≤ s.now

theorem CallTimed.mono (goes : ∀ call ∈ calls, ∃ new ∈ later, Goes call new)
    (timed : CallTimed service calls call) : CallTimed service later call where
  __ := timed
  row session member := (timed.row session member).mono goes

theorem fresh_timed {kind : Kind} {phase : Phase} (begins : phase ≠ .updated) :
    CallTimed service calls (s.fresh kind phase) where
  row _ member := absurd member nofun
  admitted _ _ member := absurd member nofun
  touched was := absurd was nofun
  updated was := absurd was begins
  result _ member := absurd member nofun

theorem CallTimed.phased (timed : CallTimed service calls call) (phase : Phase)
    (running : call.phase ≠ .returned) (untouched : phase ≠ .updating) (updated : phase ≠ .updated)
    (ends : phase = .returned ∨ phase = .failed ∨ call.phase ≠ .updated ∧ call.phase ≠ .failed) :
    CallTimed service calls { call with phase := phase } where
  row := timed.row
  admitted was := by
    rcases was with same | touched
    · exact absurd same untouched
    · exact timed.admitted (.inr touched)
  touched was := by
    rcases ends with same | same | ⟨not_updated, not_failed⟩
    · exact .inr (.inl same)
    · exact .inr (.inr same)
    · rcases timed.touched was with before | before | before
      · exact absurd before not_updated
      · exact absurd before running
      · exact absurd before not_failed
  updated was := absurd was updated
  result session member := absurd (timed.result session member).1 running

theorem CallTimed.early (timed : CallTimed service calls call) (phase : Phase)
    (early : call.phase ≠ .returned ∧ call.phase ≠ .updated ∧ call.phase ≠ .failed)
    (untouched : phase ≠ .updating) (updated : phase ≠ .updated) :
    CallTimed service calls { call with phase := phase } :=
  timed.phased phase early.1 untouched updated (.inr (.inr early.2))

theorem Service.admits_times {now : Int} (admitted : service.admits session now request = true) :
    now ≤ session.expiresAt ∧ now - session.lastUse ≤ service.idleTtl := by
  simp only [Service.admits, Bool.and_eq_true, decide_eq_true_eq] at admitted
  exact ⟨admitted.1.1.2, admitted.1.2⟩

theorem Timed.next (timed : Timed service s) (happens : Happens service s step t)
    (clock : s.now ≤ t.now)
    (rows : ∀ row ∈ t.rows, row ∈ s.rows ∨ Used service t.calls row row.lastUse)
    (cached : ∀ entry ∈ t.cache.entries, entry ∈ s.cache.entries ∨
      Used service t.calls entry.2.1 entry.2.1.lastUse) (calls : ∀ call ∈ t.calls, call ∈ s.calls ∨
      CallTimed service t.calls call ∧ call.now ≤ s.now) : Timed service t where
  rows row member := by
    rcases rows row member with old | new
    · exact (timed.rows row old).mono (fun _ => (goes_of_happens happens).mem)
    · exact new
  cached entry member := by
    rcases cached entry member with old | new
    · exact (timed.cached entry old).mono (fun _ => (goes_of_happens happens).mem)
    · exact new
  calls call member := by
    rcases calls call member with old | ⟨new, _⟩
    · exact (timed.calls call old).mono (fun _ => (goes_of_happens happens).mem)
    · exact new
  past call member := by
    rcases calls call member with old | ⟨_, new⟩
    · exact Int.le_trans (timed.past call old) clock
    · exact Int.le_trans new clock

theorem Same.used {stored copy : Session} (same : Same stored copy) (now : Int) :
    Same copy { stored with lastUsedAt := some now } := by
  rw [Same, same]

theorem Timed.begun (timed : Timed service s) (happens : Happens service s step t) {new : Call}
    (calls : t.calls = s.calls ++ [new]) (clock : t.now = s.now) (now : new.now = s.now)
    (rows : t.rows = s.rows) (cached : ∀ entry ∈ t.cache.entries, entry ∈ s.cache.entries)
    (fresh : CallTimed service t.calls new) : Timed service t := by
  refine timed.next happens clock.ge (fun _ => rows ▸ .inl)
    (fun entry held => .inl (cached entry held)) ?_
  intro call member
  rw [calls] at member
  rcases List.mem_append.mp member with old | single
  · exact .inl old
  · obtain rfl := List.mem_singleton.mp single
    exact .inr ⟨fresh, now.le⟩

theorem Timed.turned (timed : Timed service s) (happens : Happens service s step t) {index : Nat}
    {new : Call} (turn : s.calls[index]? = some call) (calls : t.calls = s.calls.set index new)
    (clock : t.now = s.now) (now : new.now = call.now)
    (rows : ∀ row ∈ t.rows, row ∈ s.rows ∨ Used service t.calls row row.lastUse)
    (cached : ∀ entry ∈ t.cache.entries, entry ∈ s.cache.entries ∨
      Used service t.calls entry.2.1 entry.2.1.lastUse)
    (moves : CallTimed service t.calls call → CallTimed service t.calls new) : Timed service t := by
  have member := List.mem_of_getElem? turn
  have known := (timed.calls call member).mono fun _ => (goes_of_happens happens).mem
  refine timed.next happens clock.ge rows cached ?_
  intro other there
  rw [calls] at there
  rcases List.mem_or_eq_of_mem_set there with old | rfl
  · exact .inl old
  · exact .inr ⟨moves known, now ▸ timed.past call member⟩

theorem Timed.hits (timed : Timed service s) {expiry : Int}
    (held : s.cache.get? (service.hashToken token) = some (session, expiry))
    (admitted : service.admits session s.now request = true) :
    Timed service
      (s.push { s.fresh (.lookup token request) .updating with row := some session }) := by
  have happens : Happens service s _ _ := .hits held admitted
  refine timed.begun happens rfl rfl rfl rfl (fun _ => id) ⟨?_, ?_, nofun, nofun, nofun⟩
  · intro row same
    cases same
    exact (timed.cached _ (OrderedMap.get?_eq_some_iff.mp held)).mono
      fun _ => (goes_of_happens happens).mem
  · intro _ row same
    cases same
    exact Service.admits_times admitted

theorem Timed.selects (timed : Timed service s) {index : Nat} (turn : s.calls[index]? = some call)
    (kind : call.kind = .lookup token request) (phase : call.phase = .selecting) :
    Timed service (s.moved index { call with
      phase := .selected
      row := s.rows.find? (fun row => row.tokenHash = service.hashToken token) }) := by
  have happens : Happens service s _ _ := .selects turn kind phase
  refine timed.turned happens turn rfl rfl rfl (fun _ => .inl) (fun _ => .inl) fun known => ?_
  have moved := known.early .selected (phase ▸ ⟨nofun, nofun, nofun⟩) nofun nofun
  have untouched : call.touched ≠ true := by
    intro was
    rcases known.touched was with same | same | same
    · exact absurd (phase.symm.trans same) nofun
    · exact absurd (phase.symm.trans same) nofun
    · exact absurd (phase.symm.trans same) nofun
  refine ⟨fun row found => ?_, ?_, moved.touched, moved.updated, ?_⟩
  · exact (timed.rows row (List.mem_of_find?_eq_some found)).mono
      fun _ => (goes_of_happens happens).mem
  · rintro (same | was)
    · cases same
    · exact absurd was untouched
  · exact fun result member => absurd (known.result result member).2.1 untouched

theorem Timed.touches (sound : Sound service s) (timed : Timed service s) {index : Nat}
    (turn : s.calls[index]? = some call) (kind : call.kind = .lookup token request)
    (phase : call.phase = .updating) :
    Timed service { s.moved index { call with phase := .updated, touched := true } with
      rows := s.rows.map (fun row =>
        if call.row.any (fun used => used.id = row.id) then
          { row with lastUsedAt := some call.now }
        else row) } := by
  have happens : Happens service s _ _ := .touches turn kind phase
  have member := List.mem_of_getElem? turn
  have ok := sound.calls call member
  have timed_call := (timed.calls call member).mono fun _ => (goes_of_happens happens).mem
  refine timed.turned happens turn rfl rfl rfl ?_ (fun _ => .inl)
    fun known => ⟨known.row, fun _ => known.admitted (.inl phase), fun _ => .inl rfl,
      fun _ => rfl,
      fun result member => absurd (phase.symm.trans (known.result result member).1) nofun⟩
  intro row member
  obtain ⟨old, old_mem, rfl⟩ := List.mem_map.mp member
  split
  · next used =>
    obtain ⟨session, held, same_id⟩ := (Option.any_eq_true _ _).mp used
    obtain ⟨⟨stored, stored_mem, same⟩, hash⟩ := ok.copy session held
    obtain rfl := List.inj_on_of_nodup_map sound.ids stored_mem old_mem
      (same.id_eq.symm.trans (of_decide_eq_true same_id))
    have times := timed_call.admitted (.inl phase) session held
    have used_now := same.used call.now
    exact .inr (((timed_call.row session held).same used_now).at_time
      (List.mem_set (List.getElem?_eq_some_iff.mp turn).1 _) kind
      (used_now.tokenHash_eq.trans (hash token request kind)) rfl rfl times.2)
  · exact .inl old_mem

theorem Timed.checks (timed : Timed service s) {index : Nat} (turn : s.calls[index]? = some call)
    (kind : call.kind = .lookup token request) (phase : call.phase = .selected)
    (row : call.row = some session) (admitted : service.admits session call.now request = true) :
    Timed service (s.moved index { call with phase := .updating }) := by
  refine timed.turned (.checks turn kind phase row admitted) turn rfl rfl rfl
    (fun _ => .inl) (fun _ => .inl) fun known => ?_
  have moved := known.early .selected (phase ▸ ⟨nofun, nofun, nofun⟩) nofun nofun
  refine ⟨moved.row, fun _ other held => ?_, fun was => ?_, nofun, fun result member => ?_⟩
  · obtain rfl := Option.some.inj (row.symm.trans held)
    exact Service.admits_times admitted
  · rcases moved.touched was with same | same | same <;> cases same
  · exact absurd (moved.result result member).1 nofun

theorem Timed.fills (sound : Sound service s) (timed : Timed service s) {index : Nat}
    (turn : s.calls[index]? = some call) (kind : call.kind = .lookup token request)
    (phase : call.phase = .updated) (row : call.row = some session) :
    Timed service { s.moved index { call with
        phase := .returned
        result := some { session with lastUsedAt := some call.now } } with
      cache := (s.cache.erase (service.hashToken token)).insert (service.hashToken token)
        ({ session with lastUsedAt := some call.now }, s.now + service.cacheTtl) } := by
  have happens : Happens service s _ _ := .fills turn kind phase row
  have member := List.mem_of_getElem? turn
  have ok := sound.calls call member
  have timed_call := (timed.calls call member).mono fun _ => (goes_of_happens happens).mem
  have touched := timed_call.updated phase
  refine timed.turned happens turn rfl rfl rfl (fun _ => .inl) ?_
    fun known => ⟨known.row, fun _ => known.admitted (.inr touched),
      fun _ => .inr (.inl rfl), fun was => absurd was nofun, fun result member => ?_⟩
  · intro entry held
    rcases OrderedMap.mem_entries_insert held with ⟨old, _⟩ | rfl
    · exact .inl (mem_erased old)
    · have kept : Same session { session with lastUsedAt := some call.now } := rfl
      have times := timed_call.admitted (.inr touched) session row
      exact .inr (((timed_call.row session row).same kept).at_time
        (List.mem_set (List.getElem?_eq_some_iff.mp turn).1 _) kind
        ((ok.copy session row).2 token request kind) touched rfl times.2)
  · cases member
    exact ⟨rfl, touched, session, row, rfl⟩

theorem timed_step (sound : Sound service s) (timed : Timed service s)
    (happens : Happens service s step t) : Timed service t := by
  have goes : ∀ call ∈ s.calls, ∃ later ∈ t.calls, Goes call later :=
    fun _ => (goes_of_happens happens).mem
  cases happens with
  | opens begins =>
    refine timed.begun (.opens begins) rfl rfl rfl rfl (fun _ => id) (fresh_timed ?_)
    rcases begins with rfl | ⟨rfl, _⟩
    · exact nofun
    · exact nofun
  | denies dropped =>
    refine timed.begun (.denies dropped) rfl rfl rfl rfl ?_ (fresh_timed nofun)
    rcases dropped with rfl | rfl
    · exact fun _ => id
    · exact fun _ => mem_erased
  | hits held admitted => exact timed.hits held admitted
  | @inserts index call userId mfaLevel request token sessionId turn kind phase fresh =>
    refine timed.turned (.inserts turn kind phase fresh) turn rfl rfl rfl ?_ (fun _ => .inl)
      fun known => known.early _ (phase ▸ ⟨nofun, nofun, nofun⟩) nofun nofun
    intro row member
    rcases List.mem_append.mp member with old | single
    · exact .inl old
    · obtain rfl := List.mem_singleton.mp single
      exact .inr .issued
  | selects turn kind phase => exact timed.selects turn kind phase
  | touches turn kind phase => exact timed.touches sound turn kind phase
  | @finds index call found turn all named phase kind =>
    refine timed.turned (.finds turn all named phase kind) turn rfl rfl rfl (fun _ => .inl)
      (fun _ => .inl) fun known => ?_
    have moved := known.early .selected (phase ▸ ⟨nofun, nofun, nofun⟩) nofun nofun
    exact ⟨moved.row, moved.admitted, moved.touched, moved.updated, moved.result⟩
  | @revokes index call turn phase kind =>
    refine timed.turned (.revokes turn phase kind) turn rfl rfl rfl ?_ (fun _ => .inl)
      fun known => known.early _ (phase ▸ ⟨nofun, nofun, nofun⟩) nofun nofun
    intro row member
    obtain ⟨old, old_mem, rfl⟩ := List.mem_map.mp member
    split
    · have kept : Same old { old with revokedAt := some call.now } := rfl
      exact .inr (((timed.rows old old_mem).mono goes).same kept)
    · exact .inl old_mem
  | checks turn kind phase row admitted => exact timed.checks turn kind phase row admitted
  | fills turn kind phase row => exact timed.fills sound turn kind phase row
  | @purges index call after cache turn phase ends purge =>
    have running : call.phase ≠ .returned ∧ call.phase ≠ .updated ∧ call.phase ≠ .failed := by
      rcases phase with ⟨same, _⟩ | same <;> exact same ▸ ⟨nofun, nofun, nofun⟩
    refine timed.turned (.purges turn phase ends purge) turn rfl rfl rfl (fun _ => .inl) ?_
      fun known => known.early _ running ?_ ?_
    · exact fun entry held => .inl (sound.purge (List.mem_of_getElem? turn) purge held).1
    · rcases ends with rfl | rfl <;> exact nofun
    · rcases ends with rfl | rfl <;> exact nofun
  | @relabels step index call phase own turn running change =>
    refine timed.turned (.relabels own turn running change) turn rfl rfl rfl (fun _ => .inl)
      (fun _ => .inl) fun known => known.phased _ running ?_ ?_ ?_
    · rcases change with rfl | ⟨rfl, _⟩ | ⟨rfl, _⟩ <;> exact nofun
    · rcases change with rfl | ⟨rfl, _⟩ | ⟨rfl, _⟩ <;> exact nofun
    · rcases change with failed | ⟨_, selected, _⟩ | ⟨returned, _⟩
      · exact .inr (.inl failed)
      · exact .inr (.inr ⟨selected ▸ nofun, selected ▸ nofun⟩)
      · exact .inl returned
  | @ticks elapsed =>
    exact timed.next .ticks (Int.le_add_of_nonneg_right (Int.natCast_nonneg elapsed))
      (fun _ => .inl) (fun _ held => .inl (mem_dropExpired held)) (fun _ => .inl)
  | evicts =>
    exact timed.next .evicts (Int.le_refl _) (fun _ => .inl)
      (fun _ held => .inl (mem_erased held)) (fun _ => .inl)

theorem timed_initial (now : Int) : Timed service (.initial now) where
  rows _ member := absurd member List.not_mem_nil
  cached _ member := absurd member List.not_mem_nil
  calls _ member := absurd member List.not_mem_nil
  past _ member := absurd member List.not_mem_nil

theorem old_or_started (happens : Happens service s step t) {index : Nat}
    (there : t.calls[index]? = some call) :
    (∃ old, s.calls[index]? = some old ∧ Goes old call) ∨
      index = s.calls.length ∧ step = .start call.kind ∧ call.now = s.now := by
  have pushed : ∀ new : Call, (s.calls ++ [new])[index]? = some call → s.calls.length ≤ index →
      index = s.calls.length ∧ call = new := by
    intro new there beyond
    rw [List.getElem?_append_right beyond, List.getElem?_singleton] at there
    split at there
    · next first => exact ⟨by omega, (Option.some.inj there).symm⟩
    · cases there
  by_cases known : index < s.calls.length
  · have before := List.getElem?_eq_getElem known
    obtain ⟨later, here, goes⟩ := goes_of_happens happens _ _ before
    obtain rfl := Option.some.inj (here.symm.trans there)
    exact .inl ⟨_, before, goes⟩
  · have beyond := Nat.le_of_not_lt known
    have inside := (List.getElem?_eq_some_iff.mp there).1
    cases happens with
    | opens begins =>
      obtain ⟨same, rfl⟩ := pushed _ there beyond
      exact .inr ⟨same, rfl, rfl⟩
    | denies dropped =>
      obtain ⟨same, rfl⟩ := pushed _ there beyond
      exact .inr ⟨same, rfl, rfl⟩
    | hits held admitted =>
      obtain ⟨same, rfl⟩ := pushed _ there beyond
      exact .inr ⟨same, rfl, rfl⟩
    | ticks => exact absurd inside known
    | evicts => exact absurd inside known
    | _ => exact absurd ((List.length_set ..).symm ▸ inside) known

theorem started {kind : Kind} (happens : Happens service s (.start kind) t) :
    ∃ call, t.calls = s.calls ++ [call] ∧ call.kind = kind ∧ call.now = s.now := by
  cases happens with
  | opens _ => exact ⟨_, rfl, rfl, rfl⟩
  | denies _ => exact ⟨_, rfl, rfl, rfl⟩
  | hits _ _ => exact ⟨_, rfl, rfl, rfl⟩
  | relabels own _ _ _ => rcases own with same | same | same <;> cases same

/-- A revocation of the session of the token has returned. -/
def Cut (service : Service) (token : String) (s : Sessions) : Prop :=
  ∃ revocation ∈ s.calls, revocation.phase = .returned ∧ ∃ row ∈ s.rows.take revocation.began,
    revocation.kind.Revokes row ∧ row.tokenHash = service.hashToken token

theorem cut_step (cut : Cut service token s) (happens : Happens service s step t) :
    Cut service token t := by
  obtain ⟨revocation, member, returned, row, stored, revokes, hash⟩ := cut
  obtain ⟨later, here, goes⟩ := (goes_of_happens happens).mem member
  obtain rfl := goes.returned returned
  obtain ⟨new, inside, follows⟩ := (evolves_of_happens happens).taken _ row stored
  exact ⟨later, here, returned, new, inside, (follows.1.revokes _).mpr revokes,
    follows.1.tokenHash_eq.trans hash⟩

/-- The session of the token is revoked, and the lookups from `base` on do not get it. -/
structure Closed (service : Service) (token : String) (base : Nat) (s : Sessions) : Prop where
  cut : Cut service token s
  barred : ∀ index, base ≤ index → ∀ call ∈ s.calls[index]?,
    (∃ request, call.kind = .lookup token request) → Barred service token index s

theorem closed_of_cut (cut : Cut service token s) : Closed service token s.calls.length s where
  cut := cut
  barred index beyond call there := by
    have inside := (List.getElem?_eq_some_iff.mp there).1
    exact absurd beyond (Nat.not_le_of_lt inside)

theorem closed_step {base : Nat} (sound : Sound service s) (closed : Closed service token base s)
    (happens : Happens service s step t) : Closed service token base t where
  cut := cut_step closed.cut happens
  barred index beyond call there lookup := by
    obtain ⟨request, kind⟩ := lookup
    rcases old_or_started happens there with ⟨old, before, goes⟩ | ⟨rfl, started, _⟩
    · have known := (List.getElem?_eq_some_iff.mp before).1
      exact barred_step sound
        (closed.barred index beyond old before ⟨request, goes.kind.symm.trans kind⟩) known happens
    · rw [kind] at started
      subst started
      obtain ⟨revocation, member, returned, row, stored, revokes, hash⟩ := closed.cut
      exact barred_start sound member returned stored revokes hash happens

theorem Closed.no_result {base index : Nat} (closed : Closed service token base s)
    (beyond : base ≤ index) (there : s.calls[index]? = some call)
    (kind : call.kind = .lookup token request) : call.result = none :=
  ((closed.barred index beyond call there ⟨request, kind⟩).call call there).result

/-- What runs keep: the session service is sound, knows its times, and keeps its calls and its
closed sessions. -/
structure Later (service : Service) (s t : Sessions) : Prop where
  sound : Sound service s → Sound service t
  timed : Sound service s → Timed service s → Timed service t
  closed : ∀ token base, Sound service s → Closed service token base s →
    Closed service token base t
  rows : ∀ row ∈ s.rows, ∃ new ∈ t.rows, Follows row new
  calls : ∀ (index : Nat) call, s.calls[index]? = some call →
    ∃ later, t.calls[index]? = some later ∧ Goes call later
  clock : s.now ≤ t.now

theorem Later.refl (s : Sessions) : Later service s s where
  sound := id
  timed _ := id
  closed _ _ _ := id
  rows row member := ⟨row, member, Same.refl row, id⟩
  calls _ call there := ⟨call, there, Goes.refl call⟩
  clock := Int.le_refl _

theorem Later.trans {u : Sessions} (first : Later service s t) (second : Later service t u) :
    Later service s u where
  sound sound := second.sound (first.sound sound)
  timed sound timed := second.timed (first.sound sound) (first.timed sound timed)
  closed token base sound closed :=
    second.closed token base (first.sound sound) (first.closed token base sound closed)
  rows row member := by
    obtain ⟨middle, inside, follows⟩ := first.rows row member
    obtain ⟨new, here, goes⟩ := second.rows middle inside
    exact ⟨new, here, follows.1.trans goes.1, fun revoked => goes.2 (follows.2 revoked)⟩
  calls index call there := by
    obtain ⟨middle, inside, goes⟩ := first.calls index call there
    obtain ⟨later, here, on⟩ := second.calls index middle inside
    exact ⟨later, here, goes.trans on⟩
  clock := Int.le_trans first.clock second.clock

theorem clock_of_happens (happens : Happens service s step t) : s.now ≤ t.now := by
  cases happens with
  | @ticks elapsed => exact Int.le_add_of_nonneg_right (Int.natCast_nonneg elapsed)
  | _ => exact Int.le_refl _

theorem later_step (careful : Careful s step) (happens : Happens service s step t) :
    Later service s t where
  sound sound := sound_step sound careful happens
  timed sound timed := timed_step sound timed happens
  closed _ _ sound closed := closed_step sound closed happens
  rows := (evolves_of_happens happens).forth
  calls := goes_of_happens happens
  clock := clock_of_happens happens

theorem Later.length (later : Later service s t) : s.calls.length ≤ t.calls.length := by
  by_contra shorter
  have last := List.getElem?_eq_getElem (Nat.lt_of_not_le shorter)
  obtain ⟨_, there, _⟩ := later.calls _ _ last
  exact absurd (List.getElem?_eq_some_iff.mp there).1 (Nat.lt_irrefl _)

end HlHelper.Auth
