import HlHelper.Advisory.Events
import HlHelper.Dispatch.Payload
import Mathlib.Data.Char
import Mathlib.Data.List.Lex
import Mathlib.Data.Prod.Lex
import Mathlib.Order.WithBot

/-! `_in_range` and `_tuple_compare`: whether a version lies in the range of an affected
package, and the orders by which the versions of an ecosystem are compared. -/

namespace HlHelper.Advisory

open Dispatch (truthy)

/-- `packaging.version`: the versions that it reads, in their order. -/
structure Packaging where
  Version : Type
  order : LinearOrder Version
  parse : String → Option Version

attribute [instance] Packaging.order

/-- `str.isdigit` of one character, and `int` of several. -/
structure Digits where
  isDigit : Char → Bool
  int : List Char → Option Nat

/-- Not before `introduced`, and before `fixed`, where they are given. -/
def between {V : Type} [LinearOrder V] (current : V) (introduced fixed : Option V) : Bool :=
  if introduced.any (current < ·) then false
  else if fixed.any (· ≤ current) then false
  else true

theorem between_iff {V : Type} [LinearOrder V] {current : V} {introduced fixed : Option V} :
    between current introduced fixed = true ↔
      (∀ first ∈ introduced, first ≤ current) ∧ ∀ last ∈ fixed, current < last := by
  unfold between
  split
  · next early => cases introduced <;> simp_all
  · split
    · next late => cases fixed <;> simp_all
    · next early late => cases introduced <;> cases fixed <;> simp_all

section Tuple

variable (digits : Digits)

/-- A segment as the number that it starts with and what follows. -/
def segment (part : List Char) : Nat × List Char :=
  match part.takeWhile digits.isDigit with
  | [] => (0, part)
  | number =>
    match digits.int number with
    | some num => (num, part.dropWhile digits.isDigit)
    | none => (0, part)

def versionTuple (version : String) : List (Nat ×ₗ List Char) :=
  if version = "" then []
  else
    ((version.toList.map (fun c => if c = '-' ∨ c = '+' then '.' else c)).splitOn '.').map
      fun part => toLex (segment digits part)

/-- `_tuple_compare`; pairs of an integer and a string always compare. -/
def tupleCompare (current : String) (introduced fixed : Option String) : Bool :=
  between (versionTuple digits current) ((truthy introduced).map (versionTuple digits))
    ((truthy fixed).map (versionTuple digits))

end Tuple

/-- The comparison by `packaging`, which raises where it cannot read a version. -/
def Packaging.compare (packaging : Packaging) (current : String)
    (introduced fixed : Option String) : Option Bool :=
  (packaging.parse current).bind fun cur =>
  ((truthy introduced).mapM packaging.parse).bind fun intro =>
  ((truthy fixed).mapM packaging.parse).map fun fix => between cur intro fix

/-- `_in_range`; `packaging` is what could be imported. -/
def inRange (packaging : Option Packaging) (digits : Digits) (current : String)
    (introduced fixed : Option String) (ecosystem : String) : Bool :=
  if ecosystem ∈ ["PyPI", "Go", "Maven", "NuGet", "crates.io"] then
    match packaging with
    | none => tupleCompare digits current introduced fixed
    | some packaging => (packaging.compare current introduced fixed).getD false
  else if ecosystem ∈ ["npm", "Debian", "Ubuntu", "RHEL", "Alpine", "Arch"] then
    match packaging with
    | some packaging =>
      if ecosystem = "npm" then
        (packaging.compare current introduced fixed).getD
          (tupleCompare digits current introduced fixed)
      else tupleCompare digits current introduced fixed
    | none => tupleCompare digits current introduced fixed
  else tupleCompare digits current introduced fixed

def asciiDigits : Digits where
  isDigit := Char.isDigit
  int := fun number => some (number.foldl (fun value c => 10 * value + (c.toNat - 48)) 0)

example : tupleCompare asciiDigits "1.10-3ubuntu5" (some "1.9") (some "1.10-3ubuntu6") = true := by
  decide

section Truthy

theorem truthy_of_ne {text : String} (named : text ≠ "") : truthy (some text) = some text := by
  rw [truthy]
  simpa using named

theorem truthy_of_forall_ne {value : Option String} (named : ∀ text ∈ value, text ≠ "") :
    truthy value = value := by
  cases value with
  | none => rfl
  | some text => exact truthy_of_ne (named text rfl)

end Truthy

/-- What `_in_range` can read of the versions of an ecosystem, and how it orders them. -/
structure Comparison (packaging : Option Packaging) (digits : Digits) (ecosystem : String) where
  Version : Type
  order : LinearOrder Version
  read : String → Version
  Known : String → Prop
  inRange_iff : ∀ {version first : String} {fix : Option String},
    first ≠ "" → (∀ text ∈ fix, text ≠ "") →
      (inRange packaging digits version (some first) fix ecosystem = true ↔
        (Known version ∧ Known first ∧ ∀ text ∈ fix, Known text) ∧
          (Interval.map read ⟨first, fix, none⟩).Holds (read version))

attribute [instance] Comparison.order

abbrev packagingEcosystems : List String := ["PyPI", "Go", "Maven", "NuGet", "crates.io"]

/-- The order of the tuples, for what `packaging` is not asked about. -/
def tupleComparison (packaging : Option Packaging) (digits : Digits) (ecosystem : String)
    (unasked : packaging = none ∨ ecosystem ∉ packagingEcosystems ∧ ecosystem ≠ "npm") :
    Comparison packaging digits ecosystem where
  Version := List (Nat ×ₗ List Char)
  order := inferInstance
  read := versionTuple digits
  Known := fun _ => True
  inRange_iff := by
    intro version first fix named closes
    have compared : inRange packaging digits version (some first) fix ecosystem =
        tupleCompare digits version (some first) fix := by
      unfold inRange
      rcases unasked with rfl | ⟨other, notNpm⟩
      · simp
      · rw [if_neg other]
        cases packaging with
        | none => simp
        | some packaging => simp [notNpm]
    rw [compared, tupleCompare, truthy_of_ne named, truthy_of_forall_ne closes, between_iff]
    simp [Interval.Holds, Interval.map]

theorem compare_eq_some_true {packaging : Packaging} {version first : String}
    {fix : Option String} (named : first ≠ "") (closes : ∀ text ∈ fix, text ≠ "") :
    packaging.compare version (some first) fix = some true ↔
      ∃ current ∈ packaging.parse version, ∃ low ∈ packaging.parse first, low ≤ current ∧
        ∀ text ∈ fix, ∃ high ∈ packaging.parse text, current < high := by
  rw [Packaging.compare, truthy_of_ne named, truthy_of_forall_ne closes]
  cases packaging.parse version with
  | none => simp
  | some current =>
    cases low : packaging.parse first with
    | none => simp [low]
    | some low_ =>
      cases fix with
      | none => simp [low, between_iff]
      | some text =>
        cases high : packaging.parse text with
        | none => simp [low, high]
        | some high_ => simp [low, high, between_iff]

/-- The versions that `packaging` cannot read come before those that it reads. -/
def Packaging.read (packaging : Packaging) (version : String) : WithBot packaging.Version :=
  (packaging.parse version).elim ⊥ WithBot.some

def packagingComparison (packaging : Packaging) (digits : Digits) (ecosystem : String)
    (asked : ecosystem ∈ packagingEcosystems) :
    Comparison (some packaging) digits ecosystem where
  Version := WithBot packaging.Version
  order := inferInstance
  read := packaging.read
  Known := fun version => (packaging.parse version).isSome = true
  inRange_iff := by
    intro version first fix named closes
    have compared : inRange (some packaging) digits version (some first) fix ecosystem = true ↔
        packaging.compare version (some first) fix = some true := by
      unfold inRange
      rw [if_pos asked]
      dsimp only
      cases packaging.compare version (some first) fix <;> simp
    rw [compared, compare_eq_some_true named closes]
    unfold Packaging.read Interval.map Interval.Holds
    cases packaging.parse version with
    | none => simp
    | some current =>
      cases low : packaging.parse first with
      | none => simp
      | some low_ =>
        cases fix with
        | none => simp [low]
        | some text => cases high : packaging.parse text <;> simp [low, high]

/-- Whether a version lies in an interval, as `_in_range` compares versions. -/
def Interval.holdsVersion (packaging : Option Packaging) (digits : Digits)
    (interval : Interval String) (ecosystem version : String) : Bool :=
  inRange packaging digits version (some interval.introduced) interval.fixed ecosystem &&
    interval.lastAffected.all fun last =>
      inRange packaging digits last (some version) none ecosystem

namespace Comparison

variable {packaging : Option Packaging} {digits : Digits} {ecosystem : String}
  (comparison : Comparison packaging digits ecosystem)

def Readable (version : String) : Prop := version ≠ "" ∧ comparison.Known version

def Unbounded : Prop :=
  ∀ version, comparison.Known version →
    ∃ later, comparison.Readable later ∧ comparison.read version < comparison.read later

theorem holdsVersion_iff {interval : Interval String} {version : String}
    (readable : interval.All comparison.Readable) (own : comparison.Readable version) :
    interval.holdsVersion packaging digits ecosystem version = true ↔
      (interval.map comparison.read).Holds (comparison.read version) := by
  obtain ⟨introduced, fixed, lastAffected⟩ := interval
  obtain ⟨⟨named, known⟩, closes, lasts⟩ := readable
  have knows : comparison.Known version ∧ comparison.Known introduced ∧
      ∀ text ∈ fixed, comparison.Known text :=
    ⟨own.2, known, fun text member => (closes text member).2⟩
  have first : inRange packaging digits version (some introduced) fixed ecosystem = true ↔
      (Interval.map comparison.read ⟨introduced, fixed, none⟩).Holds (comparison.read version) := by
    rw [comparison.inRange_iff named fun text member => (closes text member).1]
    exact and_iff_right knows
  rw [Interval.holdsVersion, Bool.and_eq_true, first]
  cases lastAffected with
  | none => simp [Interval.Holds, Interval.map]
  | some last =>
    have until_ : inRange packaging digits last (some version) none ecosystem = true ↔
        comparison.read version ≤ comparison.read last := by
      rw [comparison.inRange_iff own.1 (by simp)]
      simp [Interval.Holds, Interval.map, own.2, (lasts last rfl).2]
    simp [Interval.Holds, Interval.map, until_, and_assoc]

theorem evaluate_iff {events : List (Event String)} {version : String}
    (readable : ∀ event ∈ events, comparison.Readable event.version)
    (ordered : events.Pairwise fun event later =>
      comparison.read event.version < comparison.read later.version)
    (own : comparison.Readable version) :
    (events.map (Event.map comparison.read)).foldl (evaluate (comparison.read version)) false =
        true ↔
      ∃ interval ∈ intervals none events,
        interval.holdsVersion packaging digits ecosystem version = true := by
  have increasing : (events.map (Event.map comparison.read)).Pairwise
      (fun event later => event.version < later.version) := by
    rw [List.pairwise_map]
    simpa using ordered
  have swept := @foldl_evaluate_iff _ _ (comparison.read version) _ none increasing (by simp)
  have mapped := intervals_map comparison.read none events
  rw [Option.map_none] at mapped
  rw [Option.any_none] at swept
  rw [swept, mapped]
  simp only [List.mem_map, exists_exists_and_eq_and]
  refine exists_congr fun interval => and_congr_right fun member => ?_
  have each := all_of_mem_intervals (by simp) readable member
  exact (comparison.holdsVersion_iff each own).symm

end Comparison

theorem lt_concat {α : Type} [LinearOrder α] (front : List α) (last : α) :
    front < front ++ [last] := by
  have extended : front ++ [] < front ++ [last] := List.append_left_lt (List.nil_lt_cons last [])
  rwa [List.append_nil] at extended

theorem versionTuple_lt (digits : Digits) (version : String) :
    versionTuple digits version < versionTuple digits (version ++ ".") := by
  have extended : version ++ "." ≠ "" := by simp
  rw [versionTuple, versionTuple, if_neg extended]
  rw [String.toList_append, List.map_append]
  change _ < (List.splitOn '.' (_ ++ '.' :: [])).map _
  rw [List.splitOn_append_cons_self, List.map_append]
  have dot : List.splitOn '.' ([] : List Char) = [[]] := by simp
  rw [dot, List.map_singleton]
  split
  · exact lt_of_le_of_lt (not_lt.mp (List.not_lt_nil _)) (lt_concat _ _)
  · exact lt_concat _ _

theorem unbounded_tupleComparison {packaging : Option Packaging} {digits : Digits}
    {ecosystem : String}
    (unasked : packaging = none ∨ ecosystem ∉ packagingEcosystems ∧ ecosystem ≠ "npm") :
    (tupleComparison packaging digits ecosystem unasked).Unbounded := by
  intro version _
  refine ⟨version ++ ".", ⟨?_, trivial⟩, versionTuple_lt digits version⟩
  simp

end HlHelper.Advisory
