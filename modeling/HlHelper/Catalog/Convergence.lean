import HlHelper.Catalog.Store
import Mathlib.Data.List.Induction

/-! What the catalogue holds of an advisory, told from the calls: its last item, and for each kind
the last score that a call found for it. -/

namespace HlHelper.Catalog

open HlHelper.Library

section History

def Matches (id : String) (content : Content) (key : String) : Prop :=
  key = id ∨ key ∈ content.aliases ∧ key ≠ ""

instance (id : String) (content : Content) : DecidablePred (Matches id content) :=
  fun _ => inferInstanceAs (Decidable (_ ∨ _))

/-- The last score of a map for an advisory, in the map's order. -/
def lastMatch (id : String) (content : Content) (scores : OrderedMap String Score) :
    Option Score :=
  (scores.entries.filter (fun entry => Matches id content entry.1)).getLast?.map Prod.snd

/-- The last item of a call for an id, if the call stores any. -/
def Call.item (id : String) : Call → Option FeedAdvisory
  | .upsert items _ batchSize _ =>
    if 0 < batchSize then (items.filter (fun item => item.id = id)).getLast? else none
  | .applyScores _ _ _ => none

/-- The score of a kind that a call finds for an advisory. -/
def Call.score (kind : ScoreKind) (id : String) (content : Content) : Call → Option Score
  | .upsert _ _ _ _ => none
  | .applyScores scores other batchSize =>
    if other = kind ∧ 0 < batchSize then lastMatch id content scores else none

/-- The last item for an id, of calls with the latest first. -/
def lastItem (id : String) : List Call → Option FeedAdvisory
  | [] => none
  | call :: earlier => (call.item id).or (lastItem id earlier)

/-- The last score that a call has found for an advisory as it was then. -/
def lastScore (kind : ScoreKind) (id : String) : List Call → Option Score
  | [] => none
  | call :: earlier =>
    ((lastItem id earlier).bind fun item => call.score kind id item.content).or
      (lastScore kind id earlier)

/-- What tables hold of an advisory after calls, the latest of which is the first. -/
structure Tells (calls : List Call) (tables : Tables) (id : String) : Prop where
  content : (tables.advisories.get? id).map Advisory.content =
    (lastItem id calls).map FeedAdvisory.content
  affected : tables.affected.filter (fun pkg => pkg.advisoryId = id) =
    ((lastItem id calls).map FeedAdvisory.packages).getD []
  scores : ∀ adv, tables.advisories.get? id = some adv → adv.epss = lastScore .epss id calls ∧
    adv.kev = (lastScore .kev id calls).getD (.flag false)

def Call.again (later : Int) : Call → Call
  | .upsert items source batchSize _ => .upsert items source batchSize later
  | .applyScores scores kind batchSize => .applyScores scores kind batchSize

def Advisory.timeless (adv : Advisory) : Advisory := { adv with updatedAt := 0 }

/-- Two tables differ in update times only, and in the order of their rows. -/
def SameButTime (first second : Tables) : Prop := ∀ id,
  (first.advisories.get? id).map Advisory.timeless =
      (second.advisories.get? id).map Advisory.timeless ∧
    first.affected.filter (fun pkg => pkg.advisoryId = id) =
      second.affected.filter (fun pkg => pkg.advisoryId = id)

end History

section Upsert

/-- What an item makes of the row of its id, if there is one. -/
def FeedAdvisory.place (item : FeedAdvisory) (source : String) (now : Int) :
    Option Advisory → Advisory
  | none => item.row source now
  | some adv => item.update now adv

def put (source : String) (now : Int) (tables : Tables) (item : FeedAdvisory) : Tables where
  advisories := tables.advisories.insert item.id
    (item.place source now (tables.advisories.get? item.id))
  affected := replaceAffected tables.affected item

variable {source : String} {now : Int}

theorem upsert_tables (s : Session) (item : FeedAdvisory) :
    (s.upsert source now item).tables = put source now s.tables item := by
  unfold Session.upsert put
  cases s.tables.advisories.get? item.id <;> rfl

theorem upsertBatch_tables (s : Session) (chunk : List FeedAdvisory) :
    (s.upsertBatch source now chunk).tables = chunk.foldl (put source now) s.tables := by
  have fold : ∀ s : Session, (chunk.foldl (Session.upsert source now) s).tables =
      chunk.foldl (put source now) s.tables := by
    induction chunk with
    | nil => exact fun _ => rfl
    | cons item chunk ih =>
      intro s
      rw [List.foldl_cons, ih, upsert_tables, List.foldl_cons]
  exact fold { s with inPlace := .empty }

theorem batches_tables (chunks : List (List FeedAdvisory)) (s : Session) :
    (chunks.foldl (Session.upsertBatch source now) s).tables =
      chunks.flatten.foldl (put source now) s.tables := by
  induction chunks generalizing s with
  | nil => rfl
  | cons chunk chunks ih =>
    rw [List.foldl_cons, ih, upsertBatch_tables, List.flatten_cons, List.foldl_append]

theorem upsertAdvisories_tables (tables : Tables) (items : List FeedAdvisory) (source : String)
    (batchSize now : Int) : (upsertAdvisories tables items source batchSize now).2 =
      (if 0 < batchSize then items else []).foldl (put source now) tables := by
  unfold upsertAdvisories
  by_cases zero : batchSize = 0
  · rw [if_pos zero, if_neg (by omega)]
    rfl
  · rw [if_neg zero]
    by_cases positive : 0 < batchSize
    · dsimp only
      rw [batches_tables, batchesOf, if_pos positive, if_pos positive,
        flatten_batches (by omega)]
    · rw [batchesOf, if_neg positive, if_neg positive]
      rfl

theorem place_place (first second : FeedAdvisory) (adv : Option Advisory) :
    second.place source now (some (first.place source now adv)) = second.place source now adv := by
  cases adv <;> rfl

theorem put_get? (tables : Tables) (item : FeedAdvisory) (id : String) :
    (put source now tables item).advisories.get? id =
      if item.id = id then some (item.place source now (tables.advisories.get? id))
      else tables.advisories.get? id := by
  by_cases same : item.id = id
  · subst same
    rw [if_pos rfl]
    exact OrderedMap.get?_insert_self _ _ _
  · rw [if_neg same]
    exact OrderedMap.get?_insert_other _ (Ne.symm same) _

theorem put_affected (tables : Tables) (item : FeedAdvisory) (id : String) :
    (put source now tables item).affected.filter (fun pkg => pkg.advisoryId = id) =
      if item.id = id then item.packages
      else tables.affected.filter (fun pkg => pkg.advisoryId = id) := by
  have own : ∀ pkg ∈ item.packages, pkg.advisoryId = item.id := by
    intro pkg member
    obtain ⟨_, _, rfl⟩ := List.mem_map.mp member
    rfl
  rw [put, replaceAffected, List.filter_append, List.filter_filter]
  by_cases same : item.id = id
  · subst same
    rw [if_pos rfl, List.filter_eq_self.mpr fun pkg member => decide_eq_true (own pkg member)]
    rw [List.filter_eq_nil_iff.mpr, List.nil_append]
    intro pkg _
    simp
  · have none : item.packages.filter (fun pkg => pkg.advisoryId = id) = [] := by
      rw [List.filter_eq_nil_iff]
      intro pkg member
      rw [own pkg member]
      simpa using same
    rw [if_neg same, none, List.append_nil]
    apply List.filter_congr
    intro pkg _
    by_cases here : pkg.advisoryId = id
    · simp [here, Ne.symm same]
    · simp [here]

theorem items_put (tables : Tables) (items : List FeedAdvisory) (id : String) :
    (items.foldl (put source now) tables).advisories.get? id =
        ((items.filter (fun item => item.id = id)).getLast?.map fun item =>
          item.place source now (tables.advisories.get? id)).or (tables.advisories.get? id) ∧
      (items.foldl (put source now) tables).affected.filter (fun pkg => pkg.advisoryId = id) =
        ((items.filter (fun item => item.id = id)).getLast?.map FeedAdvisory.packages).getD
          (tables.affected.filter (fun pkg => pkg.advisoryId = id)) := by
  induction items using List.reverseRecOn with
  | nil => exact ⟨rfl, rfl⟩
  | append_singleton items item ih =>
    obtain ⟨row, packages⟩ := ih
    rw [List.foldl_append, List.foldl_cons, List.foldl_nil, put_get?, put_affected,
      List.filter_append, List.filter_singleton]
    by_cases same : item.id = id
    · rw [if_pos same, if_pos same, decide_eq_true same, cond_true, List.getLast?_concat, row]
      refine ⟨?_, rfl⟩
      cases (items.filter (fun item => item.id = id)).getLast? with
      | none => rfl
      | some earlier => exact congrArg some (place_place earlier item _)
    · rw [if_neg same, if_neg same, decide_eq_false same, cond_false, List.append_nil]
      exact ⟨row, packages⟩

end Upsert

section Scores

theorem mem_aliasIndex (rows : List (String × Advisory)) (id key : String) :
    id ∈ ((aliasIndex rows).get? key).getD [] ↔ ∃ row ∈ rows, row.1 = id ∧ key ∈ indexKeys row := by
  have fold : ∀ index : OrderedMap String (List String),
      id ∈ ((rows.foldl (fun index row =>
        (indexKeys row).foldl (fun index key => index.appendTo key row.1) index) index).get?
          key).getD [] ↔
      id ∈ (index.get? key).getD [] ∨ ∃ row ∈ rows, row.1 = id ∧ key ∈ indexKeys row := by
    induction rows with
    | nil => simp
    | cons row rows ih =>
      intro index
      rw [List.foldl_cons, ih, OrderedMap.getD_foldl_appendTo (indexKeys row) (fun key => key)
        (fun _ => row.1)]
      simp only [List.mem_append, List.mem_map, List.mem_filter, decide_eq_true_eq,
        List.exists_mem_cons_iff, or_assoc]
      apply or_congr_right
      apply or_congr_left
      constructor
      · rintro ⟨other, ⟨member, rfl⟩, same⟩
        exact ⟨same, member⟩
      · rintro ⟨same, member⟩
        exact ⟨key, ⟨member, rfl⟩, same⟩
  exact (fold .empty).trans (or_iff_right List.not_mem_nil)

theorem mem_indexKeys {id key : String} {adv : Advisory} :
    key ∈ indexKeys (id, adv) ↔ Matches id adv.content key := by
  simp [indexKeys, Matches]

variable {engine : Engine} {tables : Tables}

theorem resolve_get? (scores : OrderedMap String Score) {id : String} {adv : Advisory}
    (stored : tables.advisories.get? id = some adv) :
    (resolve (aliasIndex (engine.select tables.advisories.entries)) scores).get? id =
      lastMatch id adv.content scores := by
  have matched : ∀ key, id ∈ ((aliasIndex (engine.select tables.advisories.entries)).get?
      key).getD [] ↔ Matches id adv.content key := by
    intro key
    rw [mem_aliasIndex, ← mem_indexKeys]
    constructor
    · rintro ⟨⟨_, other⟩, member, rfl, found⟩
      have there := (engine.select_perm _).mem_iff.mp member
      obtain rfl := OrderedMap.eq_of_mem_of_mem there (OrderedMap.get?_eq_some_iff.mp stored)
      exact found
    · intro found
      exact ⟨(id, adv), (engine.select_perm _).mem_iff.mpr
        (OrderedMap.get?_eq_some_iff.mp stored), rfl, found⟩
  rw [resolve, OrderedMap.get?_foldl_assign, lastMatch]
  simp only [matched]
  exact Option.or_none

/-- What the groups of the batches make of one advisory. -/
def assign (kind : ScoreKind) (id : String) (adv : Advisory) (group : Score × List String) :
    Advisory :=
  if id ∈ group.2 then kind.set group.1 adv else adv

/-- What a call makes of a row for which it has found a score or none. -/
def ScoreKind.apply (kind : ScoreKind) (found : Option Score) (adv : Advisory) : Advisory :=
  (found.map (kind.set · adv)).getD adv

theorem apply_content (kind : ScoreKind) (found : Option Score) (adv : Advisory) :
    (kind.apply found adv).content = adv.content := by
  cases found with
  | none => rfl
  | some score => cases kind <;> rfl

theorem apply_scores (kind : ScoreKind) (found : Option Score) (adv : Advisory) :
    (kind.apply found adv).epss = (if kind = .epss then found else none).or adv.epss ∧
      (kind.apply found adv).kev = (if kind = .kev then found else none).getD adv.kev := by
  cases found with
  | none =>
    rw [ite_self, ite_self]
    exact ⟨rfl, rfl⟩
  | some score => cases kind <;> exact ⟨rfl, rfl⟩

theorem set_set (kind : ScoreKind) (first second : Score) (adv : Advisory) :
    kind.set second (kind.set first adv) = kind.set second adv := by
  cases kind <;> rfl

theorem updateIds_tables (kind : ScoreKind) (groups : List (Score × List String))
    (state : Tables × Nat) (id : String) :
    (groups.foldl (updateIds kind) state).1.advisories.get? id =
        (state.1.advisories.get? id).map (fun adv => groups.foldl (assign kind id) adv) ∧
      (groups.foldl (updateIds kind) state).1.affected = state.1.affected := by
  induction groups generalizing state with
  | nil => exact ⟨Option.map_id_fun'.symm ▸ rfl, rfl⟩
  | cons group groups ih =>
    obtain ⟨row, packages⟩ := ih (updateIds kind state group)
    rw [List.foldl_cons, row, packages]
    refine ⟨?_, rfl⟩
    rw [updateIds, OrderedMap.get?_mapValues, Option.map_map]
    rfl

theorem assign_groups (kind : ScoreKind) (id : String) {score : Score}
    (groups : List (Score × List String)) (one : ∀ group ∈ groups, id ∈ group.2 → group.1 = score)
    (adv : Advisory) : groups.foldl (assign kind id) adv =
      if ∃ group ∈ groups, id ∈ group.2 then kind.set score adv else adv := by
  induction groups generalizing adv with
  | nil => simp
  | cons group groups ih =>
    rw [List.foldl_cons, ih fun other member => one other (List.mem_cons_of_mem _ member)]
    by_cases here : id ∈ group.2
    · have same := one group List.mem_cons_self here
      rw [assign, if_pos here, same, set_set, ite_self,
        if_pos ⟨group, List.mem_cons_self, here⟩]
    · have others : (∃ other ∈ group :: groups, id ∈ other.2) ↔
          ∃ other ∈ groups, id ∈ other.2 := by
        rw [List.exists_mem_cons_iff]
        exact or_iff_right here
      rw [assign, if_neg here]
      exact if_congr others.symm rfl rfl

theorem mem_byVal (chunk : List (String × Score)) (id : String) (score : Score) :
    (∃ ids, (score, ids) ∈ (byVal chunk).entries ∧ id ∈ ids) ↔ (id, score) ∈ chunk := by
  have grouped : ((byVal chunk).get? score).getD [] =
      (chunk.filter (fun entry => entry.2 = score)).map Prod.fst := by
    rw [byVal, OrderedMap.getD_foldl_appendTo]
    rfl
  have inside : id ∈ ((byVal chunk).get? score).getD [] ↔ (id, score) ∈ chunk := by
    rw [grouped]
    simp
  rw [← inside]
  constructor
  · rintro ⟨ids, there, member⟩
    rw [OrderedMap.get?_eq_some_iff.mpr there]
    exact member
  · intro member
    cases found : (byVal chunk).get? score with
    | none =>
      rw [found] at member
      exact (List.not_mem_nil member).elim
    | some ids =>
      rw [found] at member
      exact ⟨ids, OrderedMap.get?_eq_some_iff.mp found, member⟩

def groupsOf (batchSize : Int) (resolved : OrderedMap String Score) :
    List (Score × List String) :=
  (batchesOf batchSize resolved.entries).flatMap fun chunk => (byVal chunk).entries

theorem mem_groupsOf (resolved : OrderedMap String Score) {batchSize : Int}
    (positive : 0 < batchSize) (id : String) (score : Score) :
    (∃ group ∈ groupsOf batchSize resolved, id ∈ group.2 ∧ group.1 = score) ↔
      resolved.get? id = some score := by
  have whole : (batchesOf batchSize resolved.entries).flatten = resolved.entries := by
    rw [batchesOf, if_pos positive, flatten_batches (by omega)]
  have member_iff : (id, score) ∈ resolved.entries ↔
      ∃ chunk ∈ batchesOf batchSize resolved.entries, (id, score) ∈ chunk := by
    rw [← List.mem_flatten, whole]
  rw [OrderedMap.get?_eq_some_iff, member_iff]
  constructor
  · rintro ⟨⟨_, ids⟩, member, inside, rfl⟩
    obtain ⟨chunk, there, found⟩ := List.mem_flatMap.mp member
    exact ⟨chunk, there, (mem_byVal chunk id _).mp ⟨ids, found, inside⟩⟩
  · rintro ⟨chunk, there, found⟩
    obtain ⟨ids, member, inside⟩ := (mem_byVal chunk id score).mpr found
    exact ⟨(score, ids), List.mem_flatMap.mpr ⟨chunk, there, member⟩, inside, rfl⟩

theorem batches_scores (kind : ScoreKind) (resolved : OrderedMap String Score) {batchSize : Int}
    (positive : 0 < batchSize) (state : Tables × Nat) (id : String) :
    ((batchesOf batchSize resolved.entries).foldl (fun state chunk =>
        (byVal chunk).entries.foldl (updateIds kind) state) state).1.advisories.get? id =
      (state.1.advisories.get? id).map (kind.apply (resolved.get? id)) := by
  rw [← List.foldl_flatMap, (updateIds_tables kind _ state id).1]
  congr 1
  funext adv
  have named := mem_groupsOf resolved positive id
  cases found : resolved.get? id with
  | none =>
    have nobody : ∀ group ∈ groupsOf batchSize resolved, id ∉ group.2 := by
      intro group member inside
      have some := (named group.1).mp ⟨group, member, inside, rfl⟩
      rw [found] at some
      cases some
    have one : ∀ group ∈ groupsOf batchSize resolved, id ∈ group.2 → group.1 = .flag false :=
      fun group member inside => (nobody group member inside).elim
    refine (assign_groups kind id _ one adv).trans (if_neg ?_)
    rintro ⟨group, member, inside⟩
    exact nobody group member inside
  | some score =>
    obtain ⟨group, member, inside, _⟩ := (named score).mpr found
    have one : ∀ other ∈ groupsOf batchSize resolved, id ∈ other.2 → other.1 = score := by
      intro other there within
      have some := (named other.1).mp ⟨other, there, within, rfl⟩
      rw [found] at some
      exact (Option.some.inj some).symm
    exact (assign_groups kind id _ one adv).trans (if_pos ⟨group, member, inside⟩)

theorem applyScores_tables (scores : OrderedMap String Score) (kind : ScoreKind)
    (batchSize : Int) : (applyScores engine tables scores kind batchSize).2 =
      ((batchesOf batchSize (resolve (aliasIndex (engine.select tables.advisories.entries))
        scores).entries).foldl (fun state chunk =>
          (byVal chunk).entries.foldl (updateIds kind) state) (tables, 0)).1 := by
  have nothing : batchesOf batchSize ([] : List (String × Score)) = [] := by
    rw [batchesOf, batches_nil, ite_self]
  unfold applyScores
  by_cases bare : scores.entries.isEmpty
  · rw [if_pos bare, resolve, List.isEmpty_iff.mp bare, List.foldl_nil]
    exact (congrArg (fun chunks => (List.foldl _ (tables, 0) chunks).1) nothing).symm
  rw [if_neg bare]
  dsimp only
  by_cases unresolved : (resolve (aliasIndex (engine.select tables.advisories.entries))
      scores).entries.isEmpty
  · rw [if_pos unresolved, List.isEmpty_iff.mp unresolved, nothing]
    rfl
  rw [if_neg unresolved]
  by_cases zero : batchSize = 0
  · rw [if_pos zero, batchesOf, if_neg (by omega)]
    rfl
  · rw [if_neg zero]

theorem applyScores_get? (scores : OrderedMap String Score) (kind : ScoreKind) (batchSize : Int)
    (id : String) :
    (applyScores engine tables scores kind batchSize).2.advisories.get? id =
      (tables.advisories.get? id).map fun adv =>
        kind.apply (if 0 < batchSize then lastMatch id adv.content scores else none) adv := by
  rw [applyScores_tables]
  by_cases positive : 0 < batchSize
  · rw [batches_scores kind _ positive]
    cases stored : tables.advisories.get? id with
    | none => rfl
    | some adv =>
      rw [Option.map_some, Option.map_some, resolve_get? scores stored, if_pos positive]
  · rw [batchesOf, if_neg positive, List.foldl_nil]
    simp only [if_neg positive]
    exact Option.map_id_fun'.symm ▸ rfl

theorem applyScores_affected (scores : OrderedMap String Score) (kind : ScoreKind)
    (batchSize : Int) :
    (applyScores engine tables scores kind batchSize).2.affected = tables.affected := by
  rw [applyScores_tables, ← List.foldl_flatMap]
  exact (updateIds_tables kind _ (tables, 0) "").2

end Scores

section Runs

variable {engine : Engine}

theorem lastScore_none (kind : ScoreKind) (id : String) {calls : List Call}
    (absent : lastItem id calls = none) : lastScore kind id calls = none := by
  induction calls with
  | nil => rfl
  | cons call earlier ih =>
    have before : lastItem id earlier = none := (Option.or_eq_none_iff.mp absent).2
    rw [lastScore, before, ih before]
    rfl

theorem Tells.absent {calls : List Call} {tables : Tables} {id : String}
    (told : Tells calls tables id) (unstored : tables.advisories.get? id = none) :
    lastItem id calls = none := by
  have content := told.content
  rw [unstored, Option.map_none] at content
  exact Option.map_eq_none_iff.mp content.symm

theorem call_upsert (engine : Engine) (tables : Tables) (items : List FeedAdvisory)
    (source : String) (batchSize now : Int) (id : String) :
    (tables.call engine (.upsert items source batchSize now)).advisories.get? id =
        (((Call.upsert items source batchSize now).item id).map fun item =>
          item.place source now (tables.advisories.get? id)).or (tables.advisories.get? id) ∧
      (tables.call engine (.upsert items source batchSize now)).affected.filter
          (fun pkg => pkg.advisoryId = id) =
        (((Call.upsert items source batchSize now).item id).map FeedAdvisory.packages).getD
          (tables.affected.filter (fun pkg => pkg.advisoryId = id)) := by
  have last : ((if 0 < batchSize then items else []).filter (fun item => item.id = id)).getLast? =
      (Call.upsert items source batchSize now).item id := by
    rw [Call.item]
    split <;> rfl
  rw [Tables.call, upsertAdvisories_tables, ← last]
  exact items_put tables _ id

theorem lastScore_upsert (kind : ScoreKind) (id : String) (items : List FeedAdvisory)
    (source : String) (batchSize now : Int) (calls : List Call) :
    lastScore kind id (.upsert items source batchSize now :: calls) = lastScore kind id calls := by
  rw [lastScore]
  cases lastItem id calls <;> rfl

theorem Tells.placed {calls : List Call} {tables : Tables} {id : String}
    (told : Tells calls tables id) (item : FeedAdvisory) (source : String) (now : Int) :
    (item.place source now (tables.advisories.get? id)).epss = lastScore .epss id calls ∧
      (item.place source now (tables.advisories.get? id)).kev =
        (lastScore .kev id calls).getD (.flag false) := by
  cases before : tables.advisories.get? id with
  | none =>
    rw [lastScore_none _ _ (told.absent before), lastScore_none _ _ (told.absent before)]
    exact ⟨rfl, rfl⟩
  | some old => exact told.scores old before

theorem Tells.upsert (engine : Engine) {calls : List Call} {tables : Tables} {id : String}
    (told : Tells calls tables id) (items : List FeedAdvisory) (source : String)
    (batchSize now : Int) :
    Tells (.upsert items source batchSize now :: calls)
      (tables.call engine (.upsert items source batchSize now)) id := by
  obtain ⟨row, packages⟩ := call_upsert engine tables items source batchSize now id
  cases latest : (Call.upsert items source batchSize now).item id with
  | none =>
    have same : lastItem id (.upsert items source batchSize now :: calls) =
        lastItem id calls := by
      rw [lastItem, latest, Option.none_or]
    rw [latest] at row packages
    constructor
    · rw [same, ← told.content]
      exact congrArg (Option.map Advisory.content) row
    · rw [same, ← told.affected]
      exact packages
    · intro adv stored
      rw [lastScore_upsert, lastScore_upsert]
      exact told.scores adv (row.symm.trans stored)
  | some item =>
    have same : lastItem id (.upsert items source batchSize now :: calls) = some item := by
      rw [lastItem, latest, Option.some_or]
    rw [latest] at row packages
    constructor
    · calc
        _ = some (item.place source now (tables.advisories.get? id)).content :=
          congrArg (Option.map Advisory.content) row
        _ = some item.content := by cases tables.advisories.get? id <;> rfl
        _ = _ := by rw [same]; rfl
    · rw [same]
      exact packages
    · intro adv stored
      rw [lastScore_upsert, lastScore_upsert, ← Option.some.inj (row.symm.trans stored)]
      exact told.placed item source now

theorem Tells.applyScores {calls : List Call} {tables : Tables} {id : String}
    (told : Tells calls tables id) (scores : OrderedMap String Score) (kind : ScoreKind)
    (batchSize : Int) :
    Tells (.applyScores scores kind batchSize :: calls)
      (tables.call engine (.applyScores scores kind batchSize)) id := by
  have row := @applyScores_get? engine tables scores kind batchSize id
  have same : lastItem id (.applyScores scores kind batchSize :: calls) = lastItem id calls :=
    Option.none_or
  constructor
  · rw [same, ← told.content]
    refine (congrArg (Option.map Advisory.content) row).trans ?_
    rw [Option.map_map]
    congr 1
    funext adv
    exact apply_content kind _ adv
  · rw [same, ← told.affected]
    exact congrArg (List.filter _) (applyScores_affected scores kind batchSize)
  · intro adv stored
    obtain ⟨old, before, rfl⟩ := Option.map_eq_some_iff.mp (row.symm.trans stored)
    have content := told.content
    rw [before, Option.map_some] at content
    obtain ⟨item, latest, alike⟩ := Option.map_eq_some_iff.mp content.symm
    obtain ⟨epss, kev⟩ := told.scores old before
    obtain ⟨first, second⟩ := apply_scores kind
      (if 0 < batchSize then lastMatch id old.content scores else none) old
    have found : ∀ other, lastScore other id (.applyScores scores kind batchSize :: calls) =
        (if kind = other then if 0 < batchSize then lastMatch id old.content scores else none
          else none).or (lastScore other id calls) := by
      intro other
      rw [lastScore, latest, Option.bind_some, alike, Call.score, ite_and]
    constructor
    · rw [found, ← epss]
      exact first
    · refine second.trans ?_
      rw [found, kev]
      cases (if kind = .kev then if 0 < batchSize then lastMatch id old.content scores else none
          else none : Option Score) <;> rfl

theorem run_tells (calls : List Call) (id : String) :
    Tells calls.reverse (Tables.run engine calls) id := by
  induction calls using List.reverseRecOn with
  | nil =>
    constructor
    · rfl
    · rfl
    · intro adv stored
      cases stored
  | append_singleton calls call ih =>
    rw [List.reverse_append, Tables.run, List.foldl_append]
    cases call with
    | upsert items source batchSize now => exact ih.upsert engine items source batchSize now
    | applyScores scores kind batchSize => exact ih.applyScores scores kind batchSize

theorem place_again (item : FeedAdvisory) (source : String) (now later : Int)
    (adv : Option Advisory) :
    (item.place source later (some (item.place source now adv))).timeless =
      (item.place source now adv).timeless := by
  cases adv <;> rfl

theorem apply_again (kind : ScoreKind) (found : Option Score) (adv : Advisory) :
    kind.apply found (kind.apply found adv) = kind.apply found adv := by
  cases found with
  | none => rfl
  | some score => exact set_set kind score score adv

theorem call_again (tables : Tables) (call : Call) (later : Int) :
    SameButTime ((tables.call engine call).call engine (call.again later))
      (tables.call engine call) := by
  intro id
  cases call with
  | upsert items source batchSize now =>
    obtain ⟨row, packages⟩ := call_upsert engine tables items source batchSize now id
    obtain ⟨again, repackaged⟩ := call_upsert engine
      (tables.call engine (.upsert items source batchSize now)) items source batchSize later id
    have alike : (Call.upsert items source batchSize later).item id =
        (Call.upsert items source batchSize now).item id := rfl
    rw [Call.again, again, repackaged, row, packages, alike]
    cases (Call.upsert items source batchSize now).item id with
    | none => exact ⟨rfl, rfl⟩
    | some item => exact ⟨congrArg some (place_again item source now later _), rfl⟩
  | applyScores scores kind batchSize =>
    simp only [Tables.call, Call.again, applyScores_affected, and_true]
    rw [applyScores_get?, applyScores_get?]
    apply congrArg (Option.map Advisory.timeless)
    rw [Option.map_map]
    congr 1
    funext adv
    simp only [Function.comp_apply, apply_content, apply_again]

/-- The catalogue holds the last item and the last scores found, and a call made again changes no
more than the update time. -/
theorem catalogue_converges (engine : Engine) (calls : List Call) :
    (∀ id, Tells calls.reverse (Tables.run engine calls) id) ∧
      ∀ (call : Call) (later : Int),
        SameButTime (Tables.run engine (calls ++ [call, call.again later]))
          (Tables.run engine (calls ++ [call])) := by
  refine ⟨run_tells calls, ?_⟩
  intro call later
  rw [Tables.run, Tables.run, List.foldl_append, List.foldl_append]
  exact call_again (Tables.run engine calls) call later

/-- One map in two orders leaves two numbers, and an advisory that is in the KEV map no more keeps
its flag. -/
theorem order_counts : ∃ (engine : Engine) (items : List FeedAdvisory)
    (scores turned listed unlisted : OrderedMap String Score),
    scores.entries.Perm turned.entries ∧
    (((Tables.run engine [.upsert items "osv" 500 0, .applyScores scores .epss 500]).advisories.get?
        "GHSA-1").bind Advisory.epss) ≠
      (((Tables.run engine [.upsert items "osv" 500 0,
        .applyScores turned .epss 500]).advisories.get? "GHSA-1").bind Advisory.epss) ∧
    listed.get? "CVE-1" = some (.flag true) ∧ unlisted.keys = ["CVE-3"] ∧
    (((Tables.run engine [.upsert items "osv" 500 0, .applyScores listed .kev 500,
      .applyScores unlisted .kev 500]).advisories.get? "GHSA-1").map Advisory.kev) =
        some (.flag true) :=
  ⟨⟨id, List.Perm.refl⟩,
    [⟨"GHSA-1", ⟨["CVE-1", "CVE-2"], "", none, "high", none, none, none, none, []⟩, []⟩],
    ⟨[("CVE-1", .number "0.1"), ("CVE-2", .number "0.9")], by decide⟩,
    ⟨[("CVE-2", .number "0.9"), ("CVE-1", .number "0.1")], by decide⟩,
    ⟨[("CVE-1", .flag true)], by decide⟩, ⟨[("CVE-3", .flag true)], by decide⟩,
    by decide +kernel⟩

end Runs

end HlHelper.Catalog
