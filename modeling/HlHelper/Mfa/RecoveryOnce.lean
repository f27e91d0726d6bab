import HlHelper.Library.Slots
import HlHelper.Mfa.Recovery

/-! Recovery codes are accepted once where no update meets a consumed row, and a regeneration
retires the codes before it where no other call inserts between its deletion and its end, nor
after it codes drawn before. -/

namespace HlHelper.Mfa.Recovery

open HlHelper.Library

variable {hash : String → String} {s t : Server} {index : Nat} {call new : Call} {h : String}

def codeAt (s : Server) (id : CodeId) : Option String :=
  (s.calls[id.1]?).bind fun call => call.codes[id.2]?

def Drawn (hash : String → String) (s : Server) (h : String) : Prop :=
  ∃ id code, codeAt s id = some code ∧ hash code = h

/-- The call at this place has inserted its codes, and the one meant has this hash. -/
def Owns (hash : String → String) (s : Server) (id : CodeId) (h : String) : Prop :=
  ∃ call code, s.calls[id.1]? = some call ∧ call.phase = .returned true ∧
    call.codes[id.2]? = some code ∧ hash code = h

def Fresh (hash : String → String) (s : Server) (draws : List String) : Prop :=
  (draws.map hash).Nodup ∧ ∀ call ∈ s.calls, ∀ code ∈ call.codes, hash code ∉ draws.map hash

def Apart (hash : String → String) (s : Server) : Prop :=
  ∀ id other code same, codeAt s id = some code → codeAt s other = some same →
    hash code = hash same → id = other

theorem fresh_nil : Fresh hash s [] := ⟨List.nodup_nil, fun _ _ _ _ => List.not_mem_nil⟩

theorem Owns.codeAt {id : CodeId} (owns : Owns hash s id h) :
    ∃ code, codeAt s id = some code ∧ hash code = h := by
  obtain ⟨call, code, turn, _, own, same⟩ := owns
  exact ⟨code, by rw [Recovery.codeAt, turn, Option.bind_some, own], same⟩

theorem Owns.eq {id : CodeId} {other : String} (owns : Owns hash s id h)
    (also : Owns hash s id other) : h = other := by
  obtain ⟨code, own, rfl⟩ := owns.codeAt
  obtain ⟨same, own', rfl⟩ := also.codeAt
  rw [Option.some.inj (own.symm.trans own')]

/-- One call goes on, or is new. Its codes stay, or it draws them now. -/
structure Changes (hash : String → String) (s t : Server) (index : Nat) (new : Call) : Prop where
  here : t.calls[index]? = some new
  there : ∀ j, j ≠ index → t.calls[j]? = s.calls[j]?
  under : ∀ old, s.calls[index]? = some old → old.phase ≠ .returned true
  codes : (∃ old, s.calls[index]? = some old ∧ new.codes = old.codes) ∨
    Fresh hash s new.codes ∧ ∀ old, s.calls[index]? = some old → old.codes = []

namespace Changes

theorem of_set (turn : s.calls[index]? = some call) (calls : t.calls = s.calls.set index new)
    (under : call.phase ≠ .returned true)
    (codes : new.codes = call.codes ∨ Fresh hash s new.codes ∧ call.codes = []) :
    Changes hash s t index new where
  here := by
    rw [calls]
    exact List.getElem?_set_self (List.getElem?_eq_some_iff.mp turn).1
  there j other := by rw [calls, List.getElem?_set_ne other.symm]
  under old at_ := Option.some.inj (turn.symm.trans at_) ▸ under
  codes := by
    rcases codes with same | ⟨fresh, none_⟩
    · exact .inl ⟨call, turn, same⟩
    · exact .inr ⟨fresh, fun old at_ => Option.some.inj (turn.symm.trans at_) ▸ none_⟩

theorem of_concat (calls : t.calls = s.calls ++ [new]) (fresh : Fresh hash s new.codes) :
    Changes hash s t s.calls.length new where
  here := by rw [calls, List.getElem?_concat_length]
  there j other := by
    rw [calls]
    by_cases inside : j < s.calls.length
    · rw [List.getElem?_append_left inside]
    · rw [List.getElem?_eq_none (by rw [List.length_append, List.length_singleton]; omega),
        List.getElem?_eq_none (by omega)]
  under old at_ := absurd (List.getElem?_eq_some_iff.mp at_).1 (Nat.lt_irrefl _)
  codes := .inr ⟨fresh, fun old at_ =>
    absurd (List.getElem?_eq_some_iff.mp at_).1 (Nat.lt_irrefl _)⟩

variable (changes : Changes hash s t index new)

include changes

theorem cases {j : Nat} {other : Call} (at_ : t.calls[j]? = some other) :
    j = index ∧ other = new ∨ j ≠ index ∧ s.calls[j]? = some other := by
  by_cases same : j = index
  · subst same
    exact .inl ⟨rfl, (Option.some.inj (changes.here.symm.trans at_)).symm⟩
  · exact .inr ⟨same, changes.there j same ▸ at_⟩

theorem mem {other : Call} (member : other ∈ t.calls) : other = new ∨ other ∈ s.calls := by
  obtain ⟨j, at_⟩ := List.mem_iff_getElem?.mp member
  rcases changes.cases at_ with ⟨_, same⟩ | ⟨_, old⟩
  · exact .inl same
  · exact .inr (List.mem_of_getElem? old)

theorem owns {id : CodeId} (owns : Owns hash s id h) : Owns hash t id h := by
  obtain ⟨call, code, turn, phase, own⟩ := owns
  have other : id.1 ≠ index := fun same => changes.under call (same ▸ turn) phase
  exact ⟨call, code, (changes.there _ other).trans turn, phase, own⟩

theorem codeAt_of {id : CodeId} {code : String} (old : codeAt s id = some code) :
    codeAt t id = some code := by
  by_cases same : id.1 = index
  · obtain ⟨call, turn, own⟩ := Option.bind_eq_some_iff.mp old
    rw [same] at turn
    rw [codeAt, same, changes.here, Option.bind_some]
    rcases changes.codes with ⟨before, at_, codes⟩ | ⟨_, none_⟩
    · rw [codes, Option.some.inj (at_.symm.trans turn), own]
    · rw [none_ call turn] at own
      cases own
  · rw [codeAt, changes.there _ same]
    exact old

theorem codeAt_cases {id : CodeId} {code : String} (there : codeAt t id = some code) :
    codeAt s id = some code ∨
      id.1 = index ∧ Fresh hash s new.codes ∧ new.codes[id.2]? = some code := by
  obtain ⟨call, turn, own⟩ := Option.bind_eq_some_iff.mp there
  rcases changes.cases turn with ⟨same, rfl⟩ | ⟨_, old⟩
  · rcases changes.codes with ⟨before, at_, codes⟩ | ⟨fresh, _⟩
    · exact .inl (by rw [codeAt, same, at_, Option.bind_some, ← codes, own])
    · exact .inr ⟨same, fresh, own⟩
  · exact .inl (by rw [codeAt, old, Option.bind_some, own])

theorem drawn (drawn : Drawn hash s h) : Drawn hash t h := by
  obtain ⟨id, code, own, same⟩ := drawn
  exact ⟨id, code, changes.codeAt_of own, same⟩

theorem apart (apart : Apart hash s) : Apart hash t := by
  have clash : ∀ {id other : CodeId} {code same : String}, codeAt s id = some code →
      Fresh hash s new.codes → new.codes[other.2]? = some same → hash code ≠ hash same := by
    intro id other code same old fresh new_ eq
    obtain ⟨call, turn, own⟩ := Option.bind_eq_some_iff.mp old
    refine fresh.2 call (List.mem_of_getElem? turn) code (List.mem_of_getElem? own) ?_
    rw [eq]
    exact List.mem_map_of_mem (List.mem_of_getElem? new_)
  intro id other code same left right eq
  rcases changes.codeAt_cases left with old | ⟨at_, fresh, own⟩
  · rcases changes.codeAt_cases right with old' | ⟨_, fresh, own⟩
    · exact apart id other code same old old' eq
    · exact absurd eq (clash old fresh own)
  · rcases changes.codeAt_cases right with old | ⟨at_', _, own'⟩
    · exact absurd eq.symm (clash old fresh own)
    · have left_ : (new.codes.map hash)[id.2]? = some (hash code) := by
        rw [List.getElem?_map, own, Option.map_some]
      have right_ : (new.codes.map hash)[other.2]? = some (hash code) := by
        rw [List.getElem?_map, own', Option.map_some, eq]
      have bound := (List.getElem?_eq_some_iff.mp left_).1
      have place := (List.getElem?_inj bound fresh.1).mp (left_.trans right_.symm)
      exact Prod.ext (at_.trans at_'.symm) place

end Changes

/-- No row of this hash can be consumed, and who has it still to insert has been overtaken. -/
def Dead (hash : String → String) (s : Server) (h : String) : Prop :=
  (∀ row ∈ s.rows, row.codeHash = h → row.consumedAt ≠ none) ∧
    ∀ call ∈ s.calls, call.phase = .inserting → h ∈ call.codes.map hash →
      call.completed < s.completed

structure Ok (hash : String → String) (s : Server) (call : Call) : Prop where
  target : ∀ code id time, call.kind = .consume code → call.phase = .updating id time →
    Owns hash s id (hash code)
  doomed : ∀ doomed, call.phase = .committing doomed →
    call.kind.regenerates = true ∧ call.codes = [] ∧ ∀ row ∈ s.rows, row.id ∈ doomed
  undrawn : call.phase = .deleting → call.codes = []
  empty : call.phase = .inserting → call.kind.regenerates = true → s.rows = []
  before : call.completed ≤ s.completed

structure Sound (hash : String → String) (s : Server) : Prop where
  owner : ∀ row ∈ s.rows, Owns hash s row.id row.codeHash
  apart : Apart hash s
  calls : ∀ call ∈ s.calls, Ok hash s call
  oneSet : ∀ (left right : Nat) (first second : Call), left ≠ right →
    s.calls[left]? = some first → first.completes = true →
    s.calls[right]? = some second → second.completes = true →
    (∀ code ∈ first.codes, Dead hash s (hash code)) ∨
      (∀ code ∈ second.codes, Dead hash s (hash code))

inductive Happens (hash : String → String) (s t : Server) : Option String → Prop where
  | moves {index : Nat} {new : Call} (changes : Changes hash s t index new) (rows : t.rows = s.rows)
      (completed : t.completed = s.completed) (ok : Ok hash s new)
      (under : new.phase ≠ .returned true)
      (draws : new.phase = .inserting → Fresh hash s new.codes) : Happens hash s t none
  | updates {index : Nat} {call : Call} {code : String} {id : CodeId} {time : Int}
      (turn : s.calls[index]? = some call)
      (kind : call.kind = .consume code) (phase : call.phase = .updating id time)
      (changes : Changes hash s t index { call with phase := .returned true })
      (present : id ∈ s.rows.map RecoveryCode.id)
      (unused : ∀ row ∈ s.rows, row.id = id → row.consumedAt = none)
      (rows : t.rows = s.rows.map (fun row =>
        if row.id = id then { row with consumedAt := some time } else row))
      (completed : t.completed = s.completed) : Happens hash s t (some (hash code))
  | draws {index : Nat} {new : Call} (changes : Changes hash s t index new)
      (phase : new.phase = .inserting) (fresh : Fresh hash s new.codes)
      (current : new.completed = s.completed) (rows : t.rows = [])
      (completed : t.completed = s.completed) : Happens hash s t none
  | inserts {index : Nat} {call : Call} (turn : s.calls[index]? = some call)
      (phase : call.phase = .inserting)
      (changes : Changes hash s t index { call with phase := .returned true })
      (current : call.completed = s.completed)
      (alone : ∀ other ∈ s.calls.eraseIdx index, other.emptied = false)
      (rows : t.rows = s.rows ++ Server.inserted hash index call.codes)
      (completed : t.completed =
        if call.kind.regenerates then s.completed + 1 else s.completed) : Happens hash s t none

theorem Ok.keep {other : Call} (ok : Ok hash s other) (changes : Changes hash s t index new)
    (rows : ∀ row ∈ t.rows, ∃ old ∈ s.rows, old.id = row.id)
    (completed : s.completed ≤ t.completed) : Ok hash t other where
  target code id time kind phase := changes.owns (ok.target code id time kind phase)
  doomed doomed phase := by
    obtain ⟨kind, none_, all⟩ := ok.doomed doomed phase
    refine ⟨kind, none_, fun row member => ?_⟩
    obtain ⟨old, there, same⟩ := rows row member
    exact same ▸ all old there
  undrawn := ok.undrawn
  empty phase kind := by
    refine List.eq_nil_iff_forall_not_mem.mpr fun row member => ?_
    obtain ⟨old, there, _⟩ := rows row member
    rw [ok.empty phase kind] at there
    exact absurd there List.not_mem_nil
  before := Nat.le_trans ok.before completed

theorem mem_inserted {codes : List String} {row : RecoveryCode}
    (member : row ∈ Server.inserted hash index codes) :
    ∃ place code, codes[place]? = some code ∧ row = ⟨(index, place), hash code, none⟩ := by
  obtain ⟨⟨code, place⟩, there, rfl⟩ := List.mem_map.mp member
  exact ⟨place, code, List.mem_zipIdx_iff_getElem?.mp there, rfl⟩

theorem other_of_erase {other : Call} {j : Nat} (different : j ≠ index)
    (at_ : s.calls[j]? = some other) : other ∈ s.calls.eraseIdx index :=
  List.mem_eraseIdx_iff_getElem?.mpr ⟨j, different, at_⟩

theorem completes_iff {call : Call} : call.completes = true ↔
    call.kind.regenerates = true ∧ call.phase = .returned true := by
  rw [Call.completes, Bool.and_eq_true, decide_eq_true_iff]

theorem drawn_of_mem {j : Nat} {other : Call} (at_ : s.calls[j]? = some other) {code : String}
    (member : code ∈ other.codes) : ∃ place, codeAt s (j, place) = some code := by
  obtain ⟨place, own⟩ := List.mem_iff_getElem?.mp member
  exact ⟨place, by rw [codeAt, at_, Option.bind_some, own]⟩

theorem Sound.retires (sound : Sound hash s) (turn : s.calls[index]? = some call)
    (phase : call.phase = .inserting) (regenerates : call.kind.regenerates = true)
    (changes : Changes hash s t index { call with phase := .returned true })
    (rows : t.rows = s.rows ++ Server.inserted hash index call.codes)
    (completed : t.completed = s.completed + 1) {j : Nat} {other : Call} (different : j ≠ index)
    (at_ : s.calls[j]? = some other) {code : String} (member : code ∈ other.codes) :
    Dead hash t (hash code) := by
  obtain ⟨place, own⟩ := drawn_of_mem at_ member
  refine ⟨fun row there same => ?_, fun pending there inserts _ => ?_⟩
  · have empty := (sound.calls call (List.mem_of_getElem? turn)).empty phase regenerates
    rw [rows, empty, List.nil_append] at there
    obtain ⟨position, own', held, rfl⟩ := mem_inserted there
    have mine : codeAt s (index, position) = some own' := by
      rw [codeAt, turn, Option.bind_some, held]
    exact absurd (congrArg Prod.fst (sound.apart _ _ _ _ own mine same.symm)) different
  · rcases changes.mem there with rfl | old
    · cases inserts
    · have before := (sound.calls pending old).before
      omega

namespace Happens

variable {output : Option String}

section

variable (happens : Happens hash s t output)
include happens

theorem dead (drawn : Drawn hash s h) (dead : Dead hash s h) : Dead hash t h := by
  obtain ⟨id, code, own, rfl⟩ := drawn
  obtain ⟨holder, turn_, own⟩ := Option.bind_eq_some_iff.mp own
  have stale : ∀ {codes}, Fresh hash s codes → hash code ∉ codes.map hash :=
    fun fresh => fresh.2 holder (List.mem_of_getElem? turn_) code (List.mem_of_getElem? own)
  obtain ⟨consumed, overtaken⟩ := dead
  cases happens with
  | moves changes rows completed ok under draws =>
    refine ⟨rows ▸ consumed, fun call member phase has => ?_⟩
    rcases changes.mem member with rfl | old
    · exact absurd has (stale (draws phase))
    · exact completed ▸ overtaken call old phase has
  | @updates _ call kind _ time turn _ phase changes present unused rows completed =>
    refine ⟨fun row member same => ?_, fun call member phase has => ?_⟩
    · rw [rows] at member
      obtain ⟨old, there, rfl⟩ := List.mem_map.mp member
      split at same
      · next here => rw [if_pos here]; exact nofun
      · next here => rw [if_neg here]; exact consumed old there same
    · rcases changes.mem member with rfl | old
      · cases phase
      · exact completed ▸ overtaken call old phase has
  | draws changes phase fresh current rows completed =>
    refine ⟨fun row member => absurd (rows ▸ member) List.not_mem_nil,
      fun call member phase has => ?_⟩
    rcases changes.mem member with rfl | old
    · exact absurd has (stale fresh)
    · exact completed ▸ overtaken call old phase has
  | @inserts _ call turn phase changes current alone rows completed =>
    have missing : hash code ∉ call.codes.map hash := fun has =>
      absurd (overtaken call (List.mem_of_getElem? turn) phase has) (by omega)
    refine ⟨fun row member same => ?_, fun other member phase has => ?_⟩
    · rw [rows] at member
      rcases List.mem_append.mp member with old | new
      · exact consumed row old same
      · obtain ⟨place, own', at_, rfl⟩ := mem_inserted new
        refine absurd ?_ missing
        rw [← same]
        exact List.mem_map_of_mem (List.mem_of_getElem? at_)
    · rcases changes.mem member with rfl | old
      · cases phase
      · have less := overtaken other old phase has
        rw [completed]
        split <;> omega

theorem changes : ∃ index new, Changes hash s t index new := by
  cases happens with
  | moves changes => exact ⟨_, _, changes⟩
  | updates _ _ _ changes => exact ⟨_, _, changes⟩
  | draws changes => exact ⟨_, _, changes⟩
  | inserts _ _ changes => exact ⟨_, _, changes⟩

variable (sound : Sound hash s)
include sound

theorem owner : ∀ row ∈ t.rows, Owns hash t row.id row.codeHash := by
  intro row member
  cases happens with
  | moves changes rows => exact changes.owns (sound.owner row (rows ▸ member))
  | updates _ _ _ changes _ _ rows =>
    rw [rows] at member
    obtain ⟨old, there, rfl⟩ := List.mem_map.mp member
    have owns := changes.owns (sound.owner old there)
    split <;> exact owns
  | draws _ _ _ _ rows => exact absurd (rows ▸ member) List.not_mem_nil
  | inserts turn _ changes _ _ rows =>
    rw [rows] at member
    rcases List.mem_append.mp member with old | new
    · exact changes.owns (sound.owner row old)
    · obtain ⟨place, code, own, rfl⟩ := mem_inserted new
      exact ⟨_, code, changes.here, rfl, own, rfl⟩

theorem calls : ∀ call ∈ t.calls, Ok hash t call := by
  intro other member
  cases happens with
  | moves changes rows completed ok =>
    have keep : ∀ {call}, Ok hash s call → Ok hash t call := fun ok =>
      ok.keep changes (fun row there => ⟨row, rows ▸ there, rfl⟩) (Nat.le_of_eq completed.symm)
    rcases changes.mem member with rfl | old
    · exact keep ok
    · exact keep (sound.calls other old)
  | updates turn kind phase changes _ _ rows completed =>
    have keep : ∀ {call}, Ok hash s call → Ok hash t call := fun ok => by
      refine ok.keep changes (fun row there => ?_) (Nat.le_of_eq completed.symm)
      rw [rows] at there
      obtain ⟨old, before, rfl⟩ := List.mem_map.mp there
      exact ⟨old, before, by split <;> rfl⟩
    rcases changes.mem member with rfl | old
    · exact ⟨nofun, nofun, nofun, nofun, completed ▸ (sound.calls _
        (List.mem_of_getElem? turn)).before⟩
    · exact keep (sound.calls other old)
  | draws changes phase fresh current rows completed =>
    rcases changes.mem member with rfl | old
    · exact ⟨fun _ _ _ _ other => absurd (phase.symm.trans other) nofun,
        fun _ other => absurd (phase.symm.trans other) nofun,
        fun other => absurd (phase.symm.trans other) nofun, fun _ _ => rows,
        Nat.le_of_eq (current.trans completed.symm)⟩
    · refine (sound.calls other old).keep changes (fun row there => ?_)
        (Nat.le_of_eq completed.symm)
      exact absurd (rows ▸ there) List.not_mem_nil
  | inserts turn phase changes current alone rows completed =>
    have grows : s.completed ≤ t.completed := by
      rw [completed]
      split <;> omega
    obtain ⟨j, at_⟩ := List.mem_iff_getElem?.mp member
    rcases changes.cases at_ with ⟨_, rfl⟩ | ⟨different, old⟩
    · exact ⟨nofun, nofun, nofun, nofun, Nat.le_trans (sound.calls _
        (List.mem_of_getElem? turn)).before grows⟩
    · have ok := sound.calls other (List.mem_of_getElem? old)
      have idle := alone other (other_of_erase different old)
      refine ⟨fun code id time kind phase => changes.owns (ok.target code id time kind phase),
        fun doomed phase => ?_, ok.undrawn, fun phase kind => ?_, Nat.le_trans ok.before grows⟩
      · rw [Call.emptied, (ok.doomed doomed phase).1, phase] at idle
        cases idle
      · rw [Call.emptied, kind, phase] at idle
        cases idle

theorem retires : ∃ index new, Changes hash s t index new ∧ (new.completes = true →
      ∀ (j : Nat) (other : Call), j ≠ index → s.calls[j]? = some other →
        ∀ code ∈ other.codes, Dead hash t (hash code)) := by
  cases happens with
  | moves changes _ _ _ under =>
    exact ⟨_, _, changes, fun done => absurd (completes_iff.mp done).2 under⟩
  | @updates _ call code _ _ _ kind _ changes =>
    refine ⟨_, _, changes, fun done => ?_⟩
    have regenerates : call.kind.regenerates = true := (completes_iff.mp done).1
    rw [kind] at regenerates
    cases regenerates
  | draws changes phase =>
    refine ⟨_, _, changes, fun done => ?_⟩
    exact absurd (phase.symm.trans (completes_iff.mp done).2) nofun
  | @inserts _ call turn phase changes _ _ rows completed =>
    refine ⟨_, _, changes, fun done j other different at_ code member => ?_⟩
    have regenerates : call.kind.regenerates = true := (completes_iff.mp done).1
    rw [regenerates, if_pos rfl] at completed
    exact sound.retires turn phase regenerates changes rows completed different at_ member

theorem oneSet (left right : Nat) (first second : Call) (different : left ≠ right)
    (at_left : t.calls[left]? = some first) (done_left : first.completes = true)
    (at_right : t.calls[right]? = some second) (done_right : second.completes = true) :
    (∀ code ∈ first.codes, Dead hash t (hash code)) ∨
      (∀ code ∈ second.codes, Dead hash t (hash code)) := by
  obtain ⟨index, new, changes, retires⟩ := happens.retires sound
  have still : ∀ {j : Nat} {call : Call}, s.calls[j]? = some call →
      (∀ code ∈ call.codes, Dead hash s (hash code)) →
      ∀ code ∈ call.codes, Dead hash t (hash code) := by
    intro j call at_ all code member
    obtain ⟨place, own⟩ := drawn_of_mem at_ member
    exact happens.dead ⟨_, code, own, rfl⟩ (all code member)
  rcases changes.cases at_left with ⟨here, rfl⟩ | ⟨elsewhere, old⟩
  · rcases changes.cases at_right with ⟨same, _⟩ | ⟨elsewhere, old⟩
    · exact absurd (here.trans same.symm) different
    · exact .inr (retires done_left right second elsewhere old)
  · rcases changes.cases at_right with ⟨_, rfl⟩ | ⟨_, old'⟩
    · exact .inl (retires done_right left first elsewhere old)
    · rcases sound.oneSet left right first second different old done_left old' done_right with
        all | all
      · exact .inl (still old all)
      · exact .inr (still old' all)

end

theorem sound (happens : Happens hash s t output) (sound : Sound hash s) : Sound hash t where
  owner := happens.owner sound
  apart := by
    obtain ⟨_, _, changes⟩ := happens.changes
    exact changes.apart sound.apart
  calls := happens.calls sound
  oneSet := happens.oneSet sound

theorem accepts (happens : Happens hash s t (some h)) (sound : Sound hash s) :
    Drawn hash t h ∧ ¬ Dead hash s h ∧ Dead hash t h := by
  cases happens with
  | @updates index call code id time turn kind phase changes present unused rows completed =>
    have owns := (sound.calls call (List.mem_of_getElem? turn)).target code id time kind phase
    obtain ⟨drawn, own, same⟩ := owns.codeAt
    refine ⟨changes.drawn ⟨id, drawn, own, same⟩, fun dead => ?_, fun row member held => ?_,
      fun pending member inserts has => ?_⟩
    · obtain ⟨row, there, rfl⟩ := List.mem_map.mp present
      exact dead.1 row there ((sound.owner row there).eq owns) (unused row there rfl)
    · rw [rows] at member
      obtain ⟨old, there, rfl⟩ := List.mem_map.mp member
      by_cases here : old.id = id
      · rw [if_pos here]
        exact nofun
      · rw [if_neg here] at held
        obtain ⟨other, own', same'⟩ := (sound.owner old there).codeAt
        have equal : hash other = hash drawn := same'.trans (held.trans same.symm)
        exact absurd (sound.apart _ _ _ _ own' own equal) here
    · rcases changes.mem member with rfl | old
      · cases inserts
      · obtain ⟨other, among, equal⟩ := List.mem_map.mp has
        obtain ⟨j, at_⟩ := List.mem_iff_getElem?.mp old
        obtain ⟨place, own'⟩ := drawn_of_mem at_ among
        have place_eq := sound.apart _ _ _ _ own' own (equal.trans same.symm)
        obtain ⟨holder, _, turn', returned, _⟩ := owns
        rw [← place_eq] at turn'
        rw [Option.some.inj (at_.symm.trans turn')] at inserts
        exact absurd (inserts.symm.trans returned) nofun

end Happens

/-- A call that waits for nothing that the others depend on. -/
def Phase.plain : Phase → Bool
  | .selecting | .raised | .returned false => true
  | _ => false

theorem failed_plain (failCount : Nat) :
    (if 3 ≤ failCount then Phase.raised else .returned false).plain = true := by
  split <;> rfl

theorem ok_plain (plain : new.phase.plain = true) (before : new.completed ≤ s.completed) :
    Ok hash s new := by
  have other : ∀ {phase : Phase}, new.phase = phase → phase.plain = true := by
    rintro _ rfl
    exact plain
  exact ⟨fun _ _ _ _ phase => absurd (other phase) nofun, fun _ phase => absurd (other phase) nofun,
    fun phase => absurd (other phase) nofun, fun phase => absurd (other phase) nofun, before⟩

theorem happens_plain (changes : Changes hash s t index new) (rows : t.rows = s.rows)
    (completed : t.completed = s.completed) (plain : new.phase.plain = true)
    (before : new.completed ≤ s.completed) : Happens hash s t none :=
  .moves changes rows completed (ok_plain plain before)
    (fun returned => absurd (plain.symm.trans (congrArg Phase.plain returned)) nofun)
    (fun inserts => absurd (plain.symm.trans (congrArg Phase.plain inserts)) nofun)

theorem happens_start {service : Nat} {now : Int} {draws : List String} {kind : Kind}
    (started : s.start hash service now draws kind = some t) : Happens hash s t none := by
  cases kind with
  | consume code =>
    cases checked : cooldownCheck (s.cooldowns service) now with
    | none =>
      simp only [Server.start, checked] at started
      cases started
      exact happens_plain (.of_concat rfl fresh_nil) rfl rfl rfl (Nat.le_refl _)
    | some entry =>
      simp only [Server.start, checked] at started
      cases started
      exact happens_plain (.of_concat rfl fresh_nil) rfl rfl rfl (Nat.le_refl _)
  | generate count =>
    simp only [Server.start] at started
    split at started
    · next drawn =>
      cases started
      have fresh : Fresh hash s draws := drawn.2
      exact .moves (.of_concat rfl fresh) rfl rfl
        ⟨nofun, nofun, nofun, nofun, Nat.le_refl _⟩ nofun (fun _ => fresh)
    · cases started
  | regenerate count =>
    cases started
    exact .moves (.of_concat rfl fresh_nil) rfl rfl
      ⟨nofun, nofun, fun _ => rfl, nofun, Nat.le_refl _⟩ nofun nofun

theorem happens_select (sound : Sound hash s) (turn : s.calls[index]? = some call)
    {code : String} {now : Int} (kind : call.kind = .consume code)
    (phase : call.phase = .selecting) :
    Happens hash s (s.select hash index call code now) none := by
  have before := (sound.calls call (List.mem_of_getElem? turn)).before
  have under : call.phase ≠ .returned true := phase ▸ nofun
  rw [Server.select]
  split
  · next row found =>
    have matches_ : row.codeHash = hash code ∧ row.consumedAt = none := by
      simpa using List.find?_some found
    refine .moves (.of_set turn rfl under (.inl rfl)) rfl rfl
      ⟨fun other id time consumes updates => ?_, nofun, nofun, nofun, before⟩ nofun nofun
    obtain ⟨rfl, _⟩ := Phase.updating.inj updates
    obtain rfl := Kind.consume.inj (kind.symm.trans consumes)
    exact matches_.1 ▸ sound.owner row (List.mem_of_find?_eq_some found)
  · exact happens_plain (.of_set turn rfl under (.inl rfl)) rfl rfl (failed_plain _) before

theorem happens_update (sound : Sound hash s) (turn : s.calls[index]? = some call)
    {code : String} {id : CodeId} {time : Int} (kind : call.kind = .consume code)
    (phase : call.phase = .updating id time)
    (unused : ∀ row ∈ s.rows, row.id = id → row.consumedAt = none) :
    Happens hash s (s.update index call id time)
      (if id ∈ s.rows.map RecoveryCode.id then some (hash code) else none) := by
  have under : call.phase ≠ .returned true := phase ▸ nofun
  rw [Server.update]
  by_cases present : id ∈ s.rows.map RecoveryCode.id
  · rw [if_pos present, if_pos present]
    exact .updates turn kind phase (.of_set turn rfl under (.inl rfl)) present unused rfl rfl
  · rw [if_neg present, if_neg present]
    exact happens_plain (.of_set turn rfl under (.inl rfl)) rfl rfl rfl
      (sound.calls call (List.mem_of_getElem? turn)).before

theorem happens_insert (sound : Sound hash s) (turn : s.calls[index]? = some call)
    (phase : call.phase = .inserting) (current : call.completed = s.completed)
    (alone : ∀ other ∈ s.calls.eraseIdx index, other.emptied = false) :
    Happens hash s (s.insert hash index call) none := by
  have under : call.phase ≠ .returned true := phase ▸ nofun
  rw [Server.insert]
  split
  · exact happens_plain (.of_set turn rfl under (.inl rfl)) rfl rfl rfl
      (sound.calls call (List.mem_of_getElem? turn)).before
  · exact .inserts turn phase (.of_set turn rfl under (.inl rfl)) current alone rfl rfl

theorem happens_list {count : Nat} (ok : Ok hash s call) (turn : s.calls[index]? = some call)
    (kind : call.kind = .regenerate count) (phase : call.phase = .deleting) :
    Happens hash s
      (s.moved index { call with phase := .committing (s.rows.map RecoveryCode.id) }) none := by
  refine .moves (.of_set turn rfl (phase ▸ nofun) (.inl rfl)) rfl rfl
    ⟨nofun, fun doomed same => ?_, nofun, nofun, ok.before⟩ nofun nofun
  obtain rfl := Phase.committing.inj same
  exact ⟨congrArg Kind.regenerates kind, ok.undrawn phase,
    fun row member => List.mem_map_of_mem member⟩

theorem happens_draw {count : Nat} {doomed : List CodeId} {draws : List String}
    (ok : Ok hash s call) (turn : s.calls[index]? = some call)
    (phase : call.phase = .committing doomed) (drawn : s.Draws hash count draws) :
    Happens hash s
      { s.moved index
          { call with codes := draws, completed := s.completed, phase := .inserting } with
        rows := s.rows.filter (fun row => row.id ∉ doomed) } none := by
  obtain ⟨_, none_, all⟩ := ok.doomed doomed phase
  have fresh : Fresh hash s draws := drawn.2
  refine .draws (.of_set turn rfl (phase ▸ nofun) (.inr ⟨fresh, none_⟩)) rfl fresh rfl ?_ rfl
  exact List.filter_eq_nil_iff.mpr fun row member => by simp [all row member]

theorem happens_advance {now : Int} {draws : List String} (sound : Sound hash s)
    (turn : s.calls[index]? = some call) (careful : Careful s (.advance index now draws))
    (stepped : s.advance hash index now draws call = some t) :
    Happens hash s t (accepted hash s (.advance index now draws)) := by
  have ok := sound.calls call (List.mem_of_getElem? turn)
  simp only [Careful, turn] at careful
  simp only [accepted, turn, Option.bind_some]
  rw [Server.advance] at stepped
  split at stepped
  · next code kind phase =>
    cases stepped
    simp only [kind, phase]
    exact happens_select sound turn kind phase
  · next code id time kind phase =>
    simp only [phase] at careful
    split at stepped
    · cases stepped
    · next free =>
      cases stepped
      simp only [kind, phase, and_iff_left free]
      exact happens_update sound turn kind phase careful
  · next count kind phase =>
    split at stepped
    · cases stepped
    · cases stepped
      simpa only [kind, phase] using happens_list ok turn kind phase
  · next count doomed kind phase =>
    split at stepped
    · next drawn =>
      cases stepped
      simpa only [kind, phase] using happens_draw ok turn phase drawn
    · cases stepped
  · next count kind phase =>
    cases stepped
    simp only [phase] at careful
    simp only [kind, phase]
    exact happens_insert sound turn phase careful.1 careful.2
  · next count kind phase =>
    cases stepped
    simp only [phase] at careful
    simp only [kind, phase]
    exact happens_insert sound turn phase careful.1 careful.2
  · cases stepped

theorem happens_of_step {event : Step} (sound : Sound hash s) (careful : Careful s event)
    (stepped : s.step hash event = some t) : Happens hash s t (accepted hash s event) := by
  cases event with
  | start service kind now draws => exact happens_start stepped
  | advance index now draws =>
    obtain ⟨call, turn, advances⟩ := Option.bind_eq_some_iff.mp stepped
    exact happens_advance sound turn careful advances
  | fail index =>
    obtain ⟨call, turn, fails⟩ := Option.bind_eq_some_iff.mp stepped
    rw [Server.fail] at fails
    split at fails
    · cases fails
    · cases fails
    · next open_ _ =>
      cases fails
      exact happens_plain (.of_set turn rfl (open_ true) (.inl rfl)) rfl rfl rfl
        (sound.calls call (List.mem_of_getElem? turn)).before

theorem accepted_of_stuck {event : Step} (stuck : s.step hash event = none) :
    accepted hash s event = none := by
  cases event with
  | advance index now draws =>
    cases turn : s.calls[index]? with
    | none => simp only [accepted, turn, Option.bind_none]
    | some call =>
      simp only [Server.step, turn, Option.bind_some] at stuck
      simp only [accepted, turn, Option.bind_some]
      cases kind : call.kind <;> cases phase : call.phase <;>
        simp [Server.advance, kind, phase] at stuck ⊢
      exact fun _ _ _ => stuck
  | _ => rfl

theorem run_accepts {steps : List Step} (sound : Sound hash s)
    (met : Meets (Server.step hash) Careful s steps) :
    (outputs (Server.step hash) (accepted hash) s steps).Nodup ∧
      ∀ h, Drawn hash s h → Dead hash s h →
        h ∉ outputs (Server.step hash) (accepted hash) s steps := by
  induction steps generalizing s with
  | nil => exact ⟨List.nodup_nil, fun _ _ _ => List.not_mem_nil⟩
  | cons event steps ih =>
    cases stepped : s.step hash event with
    | none =>
      rw [outputs, accepted_of_stuck stepped, stepped]
      exact ⟨List.nodup_nil, fun _ _ _ => List.not_mem_nil⟩
    | some t =>
      have happens := happens_of_step sound met.1 stepped
      obtain ⟨once, never⟩ := ih (happens.sound sound) (met.2 t stepped)
      obtain ⟨_, _, changes⟩ := happens.changes
      have later : ∀ h, Drawn hash s h → Dead hash s h →
          h ∉ outputs (Server.step hash) (accepted hash) t steps :=
        fun h drawn dead => never h (changes.drawn drawn) (happens.dead drawn dead)
      rw [outputs_cons stepped]
      cases output : accepted hash s event with
      | none => exact ⟨once, later⟩
      | some first =>
        rw [output] at happens
        obtain ⟨drawn, alive, dead⟩ := happens.accepts sound
        refine ⟨List.nodup_cons.mpr ⟨never first drawn dead, once⟩, fun h known gone => ?_⟩
        intro member
        rcases List.mem_cons.mp member with rfl | rest
        · exact alive gone
        · exact later h known gone rest

theorem sound_initial : Sound hash .initial where
  owner _ member := absurd member List.not_mem_nil
  apart _ _ _ _ own := absurd own nofun
  calls _ member := absurd member List.not_mem_nil
  oneSet _ _ _ _ _ own := absurd own nofun

theorem sound_run {steps : List Step} (reached : run (Server.step hash) .initial steps = some s)
    (met : Meets (Server.step hash) Careful .initial steps) : Sound hash s :=
  run_keeps (fun _ _ _ sound careful stepped =>
    (happens_of_step sound careful stepped).sound sound) sound_initial reached met

theorem one_time_when_careful (hash : String → String) (steps : List Step)
    (met : Meets (Server.step hash) Careful .initial steps) : OneTime hash steps where
  once := (run_accepts sound_initial met).1
  retired before after index now draws s t call split reached stepped at_ done other old
      different held code member := by
    subst split
    obtain ⟨first, second⟩ := meets_append reached met
    have sound := sound_run reached first
    have happens := happens_of_step sound second.1 stepped
    obtain ⟨place, new, changes, retires⟩ := happens.retires sound
    rcases changes.cases at_ with ⟨rfl, rfl⟩ | ⟨_, before⟩
    · obtain ⟨position, own⟩ := drawn_of_mem held member
      have dead := retires done other old different held code member
      have drawn := changes.drawn ⟨_, code, own, rfl⟩
      exact (run_accepts (happens.sound sound) (second.2 t stepped)).2 _ drawn dead
    · rw [Server.step, before, Option.bind_some, Server.advance, (completes_iff.mp done).2]
        at stepped
      cases kind : call.kind <;> exact absurd (kind ▸ stepped) nofun
  oneSet before after s split reached left right first second different at_left done_left
      at_right done_right := by
    subst split
    have sound := sound_run reached (meets_append reached met).1
    have invalid : ∀ {code}, Dead hash s (hash code) → ¬ s.Valid hash code := by
      rintro code dead ⟨row, there, same, unused⟩
      exact dead.1 row there same unused
    rcases sound.oneSet left right first second different at_left done_left at_right done_right
      with all | all
    · exact .inl fun code member => invalid (all code member)
    · exact .inr fun code member => invalid (all code member)

def goes (index statements : Nat) (draws : List String) : List Step :=
  List.replicate statements (.advance index 0 draws)

theorem old_code_is_refused :
    OneTime id
      (.start 0 (.generate 2) 0 ["a", "b"] :: goes 0 1 [] ++
        .start 0 (.consume "a") 0 [] :: goes 1 2 [] ++
        .start 0 (.regenerate 1) 0 [] :: goes 2 3 ["c"] ++
        .start 0 (.consume "b") 0 [] :: goes 3 1 [] ++
        .start 0 (.consume "c") 0 [] :: goes 4 2 []) :=
  one_time_when_careful id _ (by decide +kernel)

def consumedTwice : List Step :=
  .start 0 (.generate 1) 0 ["a"] :: goes 0 1 [] ++
    [.start 0 (.consume "a") 0 [], .start 0 (.consume "a") 0 []] ++ goes 1 1 [] ++ goes 2 1 [] ++
    goes 1 1 [] ++ goes 2 1 []

def overtaken : List Step :=
  [.start 0 (.generate 1) 0 ["a"], .start 0 (.regenerate 1) 0 []] ++ goes 1 2 ["b"]

def lateInsertion : List Step := goes 0 1 [] ++ .start 0 (.consume "a") 0 [] :: goes 2 2 []

def regeneratedTwice : List Step :=
  [.start 0 (.regenerate 1) 0 [], .start 0 (.regenerate 1) 0 []] ++ goes 0 2 ["a"] ++
    goes 1 2 ["b"] ++ goes 0 1 [] ++ goes 1 1 []

/-- A code that two overlapping calls consume, a code that is accepted although a regeneration
has completed since it was drawn, and the codes of two regenerations valid at once. -/
theorem codes_outlive_regeneration :
    ¬ OneTime id consumedTwice ∧ ¬ OneTime id (overtaken ++ .advance 1 0 [] :: lateInsertion) ∧
      ¬ OneTime id regeneratedTwice := by
  refine ⟨fun laws => ?_, fun laws => ?_, fun laws => ?_⟩
  · have codes : outputs (Server.step id) (accepted id) .initial consumedTwice = ["a", "a"] := by
      decide +kernel
    exact absurd (codes ▸ laws.once) (by decide)
  · have found : (run (Server.step id) .initial overtaken).any (fun s =>
        (s.step id (.advance 1 0 [])).any (fun t =>
          t.calls[1]?.any Call.completes &&
            s.calls[0]?.any (fun old => "a" ∈ old.codes) &&
            decide ("a" ∈ outputs (Server.step id) (accepted id) t lateInsertion))) := by
      decide +kernel
    obtain ⟨s, reached, found⟩ := (Option.any_eq_true _ _).mp found
    obtain ⟨t, stepped, found⟩ := (Option.any_eq_true _ _).mp found
    obtain ⟨both, accepted_⟩ := Bool.and_eq_true_iff.mp found
    obtain ⟨completes, drawn⟩ := Bool.and_eq_true_iff.mp both
    obtain ⟨call, at_, done⟩ := (Option.any_eq_true _ _).mp completes
    obtain ⟨old, held, member⟩ := (Option.any_eq_true _ _).mp drawn
    exact laws.retired overtaken lateInsertion 1 0 [] s t call rfl reached stepped at_ done 0 old
      (by decide) held "a" (of_decide_eq_true member) (of_decide_eq_true accepted_)
  · have found : (run (Server.step id) .initial regeneratedTwice).any (fun s =>
        s.calls[0]?.any (fun call => call.completes && decide (call.codes = ["a"])) &&
          s.calls[1]?.any (fun call => call.completes && decide (call.codes = ["b"])) &&
          decide (s.rows = [⟨(0, 0), "a", none⟩, ⟨(1, 0), "b", none⟩])) := by
      decide +kernel
    obtain ⟨s, reached, found⟩ := (Option.any_eq_true _ _).mp found
    obtain ⟨both, rows⟩ := Bool.and_eq_true_iff.mp found
    obtain ⟨first, second⟩ := Bool.and_eq_true_iff.mp both
    obtain ⟨left, at_left, first⟩ := (Option.any_eq_true _ _).mp first
    obtain ⟨right, at_right, second⟩ := (Option.any_eq_true _ _).mp second
    obtain ⟨done_left, codes_left⟩ := Bool.and_eq_true_iff.mp first
    obtain ⟨done_right, codes_right⟩ := Bool.and_eq_true_iff.mp second
    have rows := of_decide_eq_true rows
    rcases laws.oneSet regeneratedTwice [] s (List.append_nil _).symm reached 0 1 left right
      (by decide) at_left done_left at_right done_right with invalid | invalid
    · refine invalid "a" (of_decide_eq_true codes_left ▸ List.mem_singleton_self _) ?_
      exact ⟨⟨(0, 0), "a", none⟩, rows ▸ List.mem_cons_self, rfl, rfl⟩
    · refine invalid "b" (of_decide_eq_true codes_right ▸ List.mem_singleton_self _) ?_
      exact ⟨⟨(1, 0), "b", none⟩, rows ▸ List.mem_cons_of_mem _ List.mem_cons_self, rfl, rfl⟩

end HlHelper.Mfa.Recovery
