import HlHelper.Agent.OsPackages
import HlHelper.Library.Checked
import HlHelper.Library.Rows

/-! Status files of dpkg: stanzas of fields, set apart by empty lines. What the agent's parser
makes of the text of such a file, against the packages that its stanzas stand for. -/

namespace HlHelper.Agent

open Exposure Library

/-- A field: its name, what follows the colon on its line, and its continuation lines without the
space in front. -/
structure Field where
  name : List Char
  text : List Char
  more : List Line
  filled : name ≠ []
  named : ∀ c ∈ name, c ≠ ':' ∧ isSpace c = false
  oneLine : '\n' ∉ text
  continued : ∀ line ∈ more, '\n' ∉ line

def Field.value (field : Field) : List Char := trimSpace field.text

def Field.lines (field : Field) : List Line :=
  (field.name ++ ':' :: field.text) :: field.more.map (fun line => ' ' :: line)

structure Stanza where
  fields : List Field
  distinct : (fields.map Field.name).Nodup
  packaged : ∃ field ∈ fields, field.name = "Package".toList ∧ field.value ≠ []

def Stanza.lines (stanza : Stanza) : List Line := stanza.fields.flatMap Field.lines

/-- The value of a field, empty where the stanza has none of the name. -/
def Stanza.value (stanza : Stanza) (key : String) : List Char :=
  ((findKey Field.name stanza.fields key.toList).map Field.value).getD []

/-- The last of the three words of `Status`, the state of the package, is `installed`. -/
def Stanza.installed (stanza : Stanza) : Bool :=
  decide ((Exposure.fields (stanza.value "Status"))[2]? = some "installed".toList)

def Stanza.package (stanza : Stanza) : Option Pkg :=
  if stanza.installed then
    some ⟨"dpkg", stanza.value "Package", stanza.value "Version", [],
      stanza.value "Architecture"⟩
  else none

/-- The stanzas of a file, each with the number of empty lines that come after it besides the one
that sets it apart from the next. -/
abbrev StatusFile := List (Stanza × Nat)

def StatusFile.lines : StatusFile → List Line
  | [] => []
  | [(stanza, gap)] => stanza.lines ++ List.replicate gap []
  | (stanza, gap) :: next :: rest =>
    stanza.lines ++ (List.replicate (gap + 1) [] ++ StatusFile.lines (next :: rest))

/-- The text of the file; `ended` says whether its last line ends with a newline. -/
def StatusFile.render (ended : Bool) (file : StatusFile) : List Char := unlines ended file.lines

def StatusFile.packages (file : StatusFile) : List Pkg :=
  file.filterMap (fun entry => entry.1.package)

/-- Of each stanza the lines that come before the first line of the file that does not fit. -/
def StatusFile.scanned : StatusFile → List (List Line)
  | [] => []
  | (stanza, _) :: rest =>
    stanza.lines.takeWhile Fits ::
      if ∀ line ∈ stanza.lines, Fits line then StatusFile.scanned rest
      else rest.map (fun _ => [])

/-- In an installed stanza the last of the lines that reads as `Package`, `Version` or
`Architecture` has the value of that field and the last that reads as `Status` is taken as
installed; in another stanza it is not, or no package is named. -/
def Stanza.ReadsRight (stanza : Stanza) (lines : List Line) : Prop :=
  if stanza.installed then
    containsInstalled (reading "Status" lines) = true ∧
      ∀ key ∈ ["Package", "Version", "Architecture"], reading key lines = stanza.value key
  else containsInstalled (reading "Status" lines) = true → reading "Package" lines = []

def StatusFile.ReadsRight (file : StatusFile) : Prop :=
  List.Forall₂ (fun entry lines => entry.1.ReadsRight lines) file file.scanned

variable {field : Field} {stanza : Stanza} {file : StatusFile} {line : Line}

theorem parseKV_field (field : Field) :
    parseKV (field.name ++ ':' :: field.text) = (field.name, field.value) := by
  have plain : ':' ∉ field.name := fun member => (field.named _ member).1 rfl
  rw [parseKV_colon plain, trimSpace_eq_self fun c member => (field.named c member).2, Field.value]

theorem mem_lines (member : line ∈ stanza.lines) :
    ∃ c rest, line = c :: rest ∧ c ≠ '\n' ∧ c ≠ '\r' := by
  obtain ⟨field, _, inside⟩ := List.mem_flatMap.mp member
  rcases List.mem_cons.mp inside with rfl | continued
  · cases name : field.name with
    | nil => exact absurd name field.filled
    | cons c rest =>
      have solid := (field.named c (name ▸ List.mem_cons_self)).2
      refine ⟨c, rest ++ ':' :: field.text, rfl, ?_, ?_⟩
      · rintro rfl
        exact absurd solid (by decide)
      · rintro rfl
        exact absurd solid (by decide)
  · obtain ⟨rest, _, rfl⟩ := List.mem_map.mp continued
    exact ⟨' ', rest, rfl, by decide, by decide⟩

theorem newline_not_mem (member : line ∈ stanza.lines) : '\n' ∉ line := by
  obtain ⟨field, _, inside⟩ := List.mem_flatMap.mp member
  rcases List.mem_cons.mp inside with rfl | continued
  · intro newline
    rcases List.mem_append.mp newline with name | text
    · exact absurd (field.named _ name).2 (by decide)
    · rcases List.mem_cons.mp text with colon | text
      · exact absurd colon (by decide)
      · exact field.oneLine text
  · obtain ⟨rest, listed, rfl⟩ := List.mem_map.mp continued
    intro newline
    rcases List.mem_cons.mp newline with space | text
    · exact absurd space (by decide)
    · exact field.continued rest listed text

theorem dropCR_filled (member : line ∈ stanza.lines) : dropCR line ≠ [] := by
  obtain ⟨c, rest, rfl, _, solid⟩ := mem_lines member
  unfold dropCR
  split
  · next last =>
    cases rest with
    | nil => exact absurd (Option.some.inj last) solid
    | cons d rest => exact List.cons_ne_nil c _
  · exact List.cons_ne_nil c rest

theorem packagesOf_stanza {lines : List Line} (own : ∀ line ∈ lines, line ∈ stanza.lines) :
    packagesOf (lines.map dropCR) = (packageOf lines).toList := by
  rw [packagesOf_filled, packageOf_dropCR]
  intro member
  obtain ⟨line, inside, empty⟩ := List.mem_map.mp member
  exact dropCR_filled (own line inside) empty

theorem packageOf_nil : packageOf [] = none := by
  decide

theorem fits_nil : Fits [] := by
  decide

theorem map_dropCR_gap (n : Nat) (lines : List Line) :
    (List.replicate n [] ++ lines).map dropCR = List.replicate n [] ++ lines.map dropCR := by
  rw [List.map_append, List.map_replicate]
  rfl

theorem takeWhile_gap (n : Nat) (lines : List Line) :
    (List.replicate n [] ++ lines).takeWhile Fits =
      List.replicate n [] ++ lines.takeWhile Fits := by
  apply List.takeWhile_append_of_pos
  intro line member
  rw [List.eq_of_mem_replicate member]
  exact decide_eq_true fits_nil

theorem takeWhile_cut {lines : List Line} (long : ¬ ∀ line ∈ lines, Fits line)
    (more : List Line) : (lines ++ more).takeWhile Fits = lines.takeWhile Fits := by
  rw [List.takeWhile_append, if_neg]
  intro whole
  apply long
  have same := (List.takeWhile_prefix (fun line => decide (Fits line))).eq_of_length whole
  intro line member
  exact of_decide_eq_true (List.takeWhile_eq_self_iff.mp same line member)

theorem lines_cons (stanza : Stanza) (gap : Nat) (rest : StatusFile) :
    ∃ n, StatusFile.lines ((stanza, gap) :: rest) =
      stanza.lines ++ (List.replicate n [] ++ rest.lines) ∧ (n = 0 → rest = []) := by
  cases rest with
  | nil => exact ⟨gap, by simp [StatusFile.lines], fun _ => rfl⟩
  | cons next rest => exact ⟨gap + 1, rfl, fun none => absurd none (Nat.succ_ne_zero gap)⟩

theorem packagesOf_scanned (file : StatusFile) :
    packagesOf ((file.lines.takeWhile Fits).map dropCR) = file.scanned.filterMap packageOf := by
  induction file with
  | nil => exact packagesOf_nil
  | cons entry rest ih =>
    obtain ⟨stanza, gap⟩ := entry
    obtain ⟨n, split, last⟩ := lines_cons stanza gap rest
    have cons (lines : List Line) (more : List (List Line)) :
        (lines :: more).filterMap packageOf =
          (packageOf lines).toList ++ more.filterMap packageOf := by
      rw [List.filterMap_cons]
      cases packageOf lines <;> rfl
    rw [split, StatusFile.scanned, cons]
    by_cases short : ∀ line ∈ stanza.lines, Fits line
    · have whole : stanza.lines.takeWhile Fits = stanza.lines :=
        List.takeWhile_eq_self_iff.mpr fun line member => decide_eq_true (short line member)
      rw [if_pos short, whole, List.takeWhile_append_of_pos
        (fun line member => decide_eq_true (short line member)), takeWhile_gap, List.map_append,
        map_dropCR_gap, ← ih, ← packagesOf_stanza fun _ member => member]
      cases n with
      | succ n => exact packagesOf_gaps _ n _
      | zero =>
        rw [last rfl]
        simp [StatusFile.lines, packagesOf_nil]
    · rw [if_neg short, takeWhile_cut short,
        packagesOf_stanza fun _ member => (List.takeWhile_prefix _).subset member]
      simp [packageOf_nil]

theorem packagesOf_trailing (lines : List Line) :
    packagesOf (((lines ++ [[]]).takeWhile Fits).map dropCR) =
      packagesOf ((lines.takeWhile Fits).map dropCR) := by
  by_cases short : ∀ line ∈ lines, Fits line
  · have whole : lines.takeWhile Fits = lines :=
      List.takeWhile_eq_self_iff.mpr fun line member => decide_eq_true (short line member)
    have rest : [[]].takeWhile (fun line => decide (Fits line)) = [[]] := by decide
    rw [List.takeWhile_append_of_pos (fun line member => decide_eq_true (short line member)),
      whole, rest, List.map_append]
    exact (packagesOf_gap _ []).trans (by rw [packagesOf_nil, List.append_nil])
  · rw [takeWhile_cut short]

theorem newline_not_mem_file {file : StatusFile} (member : line ∈ file.lines) : '\n' ∉ line := by
  induction file with
  | nil => cases member
  | cons entry rest ih =>
    obtain ⟨stanza, gap⟩ := entry
    obtain ⟨n, split, _⟩ := lines_cons stanza gap rest
    rw [split] at member
    rcases List.mem_append.mp member with own | later
    · exact newline_not_mem own
    · rcases List.mem_append.mp later with empty | later
      · rw [List.eq_of_mem_replicate empty]
        exact List.not_mem_nil
      · exact ih later

theorem parseDpkgStatus_render (ended : Bool) (file : StatusFile) :
    parseDpkgStatus (file.render ended) = file.scanned.filterMap packageOf := by
  rw [← packagesOf_scanned]
  change packagesOf (((splitLines (unlines ended file.lines)).takeWhile Fits).map dropCR) = _
  rcases splitLines_unlines ended fun line member => newline_not_mem_file member with
    same | short
  · rw [same]
  · rw [← packagesOf_trailing, short]

theorem scanned_length (file : StatusFile) : file.length = file.scanned.length := by
  induction file with
  | nil => rfl
  | cons entry rest ih =>
    rw [StatusFile.scanned]
    split
    · simp [ih]
    · simp

theorem scanned_take (file : StatusFile) (n : Nat) :
    StatusFile.scanned (file.take n) = file.scanned.take n := by
  induction file generalizing n with
  | nil => simp [StatusFile.scanned]
  | cons entry rest ih =>
    cases n with
    | zero => rfl
    | succ n =>
      rw [List.take_succ_cons, StatusFile.scanned, StatusFile.scanned, List.take_succ_cons,
        ih n]
      split
      · rfl
      · rw [List.map_take]

theorem value_of_mem (listed : field ∈ stanza.fields) {key : String}
    (named : field.name = key.toList) : stanza.value key = field.value := by
  have found := (findKey_eq_some_iff stanza.distinct).mpr ⟨listed, named⟩
  rw [Stanza.value, found]
  rfl

theorem packageOf_iff (stanza : Stanza) (lines : List Line) :
    stanza.package = packageOf lines ↔ stanza.ReadsRight lines := by
  unfold Stanza.package packageOf Stanza.ReadsRight
  cases stanza.installed with
  | true =>
    have filled : stanza.value "Package" ≠ [] := by
      obtain ⟨field, listed, named, filled⟩ := stanza.packaged
      rwa [value_of_mem listed named]
    rw [if_pos rfl, if_pos rfl]
    constructor
    · intro same
      split at same
      · next counts =>
        obtain ⟨_, name, version, _, arch⟩ := Pkg.mk.inj (Option.some.inj same)
        refine ⟨counts.2, fun key listed => ?_⟩
        simp only [List.mem_cons, List.not_mem_nil, or_false] at listed
        rcases listed with rfl | rfl | rfl
        · exact name.symm
        · exact version.symm
        · exact arch.symm
      · cases same
    · rintro ⟨counts, keys⟩
      have name := keys "Package" (by simp)
      rw [← name, ← keys "Version" (by simp), ← keys "Architecture" (by simp),
        if_pos ⟨name.symm ▸ filled, counts⟩]
  | false =>
    rw [if_neg Bool.false_ne_true, if_neg Bool.false_ne_true]
    constructor
    · intro same counts
      by_contra named
      rw [if_pos ⟨named, counts⟩] at same
      cases same
    · intro none
      rw [if_neg fun counts => counts.1 (none counts.2)]

/-- The packages that the parser returns are those of the installed stanzas, in the file and in
each of its beginnings, exactly if each stanza is read right. -/
theorem parse_render_iff (file : StatusFile) :
    file.ReadsRight ↔ ∀ front back ended, file = front ++ back →
      parseDpkgStatus (StatusFile.render ended front) = StatusFile.packages front := by
  have places : file.ReadsRight ↔
      List.Forall₂ (fun entry lines => Stanza.package entry.1 = packageOf lines) file
        file.scanned := by
    simp only [packageOf_iff]
    rfl
  rw [places, forall₂_iff_prefixes (scanned_length file)]
  constructor
  · rintro each front back ended rfl
    rw [parseDpkgStatus_render]
    have same := each front.length
    rw [← scanned_take, List.take_left] at same
    exact same.symm
  · intro all n
    rw [← scanned_take, ← parseDpkgStatus_render true]
    exact (all (file.take n) (file.drop n) true (List.take_append_drop n file).symm).symm

section Plain

def parserKeys : List String := ["Package", "Version", "Architecture", "Status"]

/-- The lines of the stanza fit, no continuation line reads as a key of the parser, and the parser
takes its status for what it says. -/
structure Stanza.Plain (stanza : Stanza) : Prop where
  short : ∀ line ∈ stanza.lines, Fits line
  prose : ∀ field ∈ stanza.fields, ∀ line ∈ field.more,
    (parseKV (' ' :: line)).1 ∉ parserKeys.map String.toList
  status : containsInstalled (stanza.value "Status") = stanza.installed

theorem filter_lines {fields : List Field} {key : String} (known : key ∈ parserKeys)
    (prose : ∀ field ∈ fields, ∀ line ∈ field.more,
      (parseKV (' ' :: line)).1 ∉ parserKeys.map String.toList) :
    ((fields.flatMap Field.lines).map parseKV).filter (fun kv => kv.1 = key.toList) =
      (fields.filter (fun field => field.name = key.toList)).map
        (fun field => (field.name, field.value)) := by
  induction fields with
  | nil => rfl
  | cons field fields ih =>
    obtain ⟨here, others⟩ := List.forall_mem_cons.mp prose
    have continued :
        ((field.more.map (fun line => ' ' :: line)).map parseKV).filter
          (fun kv => kv.1 = key.toList) = [] := by
      rw [List.filter_eq_nil_iff]
      intro kv member
      obtain ⟨line, inside, rfl⟩ := List.mem_map.mp member
      obtain ⟨rest, listed, rfl⟩ := List.mem_map.mp inside
      intro named
      apply here rest listed
      rw [of_decide_eq_true named]
      exact List.mem_map_of_mem known
    rw [List.flatMap_cons, List.map_append, List.filter_append, ih others, Field.lines,
      List.map_cons, parseKV_field, List.filter_cons, continued, List.filter_cons]
    by_cases named : field.name = key.toList <;> simp [named]

theorem Stanza.Plain.reading (plain : stanza.Plain) {key : String} (known : key ∈ parserKeys) :
    reading key stanza.lines = stanza.value key := by
  rw [Agent.reading, Stanza.lines, filter_lines known plain.prose, Stanza.value]
  cases found : findKey Field.name stanza.fields key.toList with
  | none =>
    have nothing : stanza.fields.filter (fun field => field.name = key.toList) = [] := by
      rw [List.filter_eq_nil_iff]
      intro field listed named
      exact findKey_none.mp found (List.mem_map.mpr ⟨field, listed, of_decide_eq_true named⟩)
    rw [nothing]
    rfl
  | some field =>
    obtain ⟨listed, named⟩ := findKey_some found
    rw [← named, filter_key_eq_singleton stanza.distinct listed]
    rfl

theorem Stanza.Plain.readsRight (plain : stanza.Plain) : stanza.ReadsRight stanza.lines := by
  have status := plain.reading (show "Status" ∈ parserKeys by simp [parserKeys])
  unfold Stanza.ReadsRight
  rw [status, plain.status]
  split
  · next installed =>
    refine ⟨installed, fun key listed => plain.reading ?_⟩
    exact List.mem_append_left ["Status"] listed
  · next other => exact fun installed => absurd installed other

theorem readsRight_of_plain (plain : ∀ entry ∈ file, entry.1.Plain) : file.ReadsRight := by
  unfold StatusFile.ReadsRight
  induction file with
  | nil => exact List.Forall₂.nil
  | cons entry rest ih =>
    obtain ⟨here, others⟩ := List.forall_mem_cons.mp plain
    have whole : entry.1.lines.takeWhile Fits = entry.1.lines :=
      List.takeWhile_eq_self_iff.mpr fun line member => decide_eq_true (here.short line member)
    rw [StatusFile.scanned, if_pos here.short, whole]
    exact List.Forall₂.cons here.readsRight (ih others)

end Plain

section Files

def simpleField (name text : String) (filled : name.toList ≠ [])
    (named : ∀ c ∈ name.toList, c ≠ ':' ∧ isSpace c = false) (oneLine : '\n' ∉ text.toList) :
    Field :=
  ⟨name.toList, text.toList, [], filled, named, oneLine, List.forall_mem_nil _⟩

def description (line : String) (continued : '\n' ∉ line.toList) : Field :=
  ⟨"Description".toList, " GNU Bourne Again SHell".toList, [line.toList], by decide,
    by simp [isSpace], by decide, by simpa using continued⟩

/-- An installed package whose description goes on with the given line. -/
def bashStanza (line : String) (continued : '\n' ∉ line.toList) : Stanza where
  fields := [
    simpleField "Package" " bash" (by decide) (by simp [isSpace]) (by decide),
    simpleField "Status" " install ok installed" (by decide) (by simp [isSpace]) (by decide),
    simpleField "Architecture" " amd64" (by decide) (by simp [isSpace]) (by decide),
    simpleField "Version" " 5.1" (by decide) (by simp [isSpace]) (by decide),
    description line continued]
  distinct := show ["Package".toList, "Status".toList, "Architecture".toList, "Version".toList,
    "Description".toList].Nodup by decide
  packaged := ⟨_, List.mem_cons_self, rfl, show trimSpace " bash".toList ≠ [] by decide⟩

def removedPkg : Stanza where
  fields := [
    simpleField "Package" " removed-pkg" (by decide) (by simp [isSpace]) (by decide),
    simpleField "Status" " purge ok not-installed" (by decide) (by simp [isSpace]) (by decide)]
  distinct := by decide
  packaged := ⟨_, List.mem_cons_self, rfl, show trimSpace " removed-pkg".toList ≠ [] by decide⟩

def twoStanzas : StatusFile := [(bashStanza "see: bash(1)" (by simp), 0), (removedPkg, 0)]

theorem twoStanzas_parsed :
    parseDpkgStatus (StatusFile.render false twoStanzas) =
      [⟨"dpkg", "bash".toList, "5.1".toList, [], "amd64".toList⟩] := by
  have plain : ∀ entry ∈ twoStanzas, entry.1.Plain := by
    intro entry member
    simp only [twoStanzas, List.mem_cons, List.not_mem_nil, or_false] at member
    rcases member with rfl | rfl
    · exact ⟨by decide +kernel, by decide +kernel, by decide +kernel⟩
    · exact ⟨by decide +kernel, by decide +kernel, by decide +kernel⟩
  have parsed := (parse_render_iff twoStanzas).mp (readsRight_of_plain plain) twoStanzas [] false
    (List.append_nil _).symm
  rw [parsed]
  decide +kernel

theorem description_overrides :
    ¬ ∀ (file : StatusFile) ended,
      parseDpkgStatus (StatusFile.render ended file) = StatusFile.packages file := by
  intro inverts
  have parsed := inverts [(bashStanza "Version: 4.4 had a bug here" (by simp), 0)] true
  revert parsed
  decide +kernel

end Files

end HlHelper.Agent
