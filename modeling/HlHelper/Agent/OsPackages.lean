import HlHelper.Exposure.Collectors
import HlHelper.Library.Lines
import Mathlib.Data.List.Infix

/-! The packages that the agent reads in dpkg's status file, `os_pkg.go`, and what its parser
does with lines that empty lines set apart. -/

namespace HlHelper.Agent

open Exposure Library

abbrev Line := List Char

structure Pkg where
  ecosystem : String
  name : List Char
  version : List Char
  source : List Char
  arch : List Char
  deriving DecidableEq, Repr, Inhabited

def maxScanTokenSize : Nat := 64 * 1024

def byteLength (line : Line) : Nat := line.foldr (fun c n => c.utf8Size + n) 0

/-- The line leaves room in the buffer of the scanner, which is full at its size. -/
def Fits (line : Line) : Prop := byteLength line < maxScanTokenSize

instance : DecidablePred Fits := fun _ => inferInstanceAs (Decidable (_ < _))

/-- A carriage return at the end of a line is not part of it. -/
def dropCR (line : Line) : Line :=
  if line.getLast? = some '\r' then line.dropLast else line

/-- The lines that `Scan` returns: a line that does not fit ends the scan. -/
def scanLines (text : List Char) : List Line :=
  ((splitLines text).takeWhile Fits).map dropCR

def parseKV (line : Line) : List Char × List Char :=
  if ':' ∈ line then
    (trimSpace (line.takeWhile (· ≠ ':')), trimSpace ((line.dropWhile (· ≠ ':')).drop 1))
  else ([], [])

def containsInstalled (status : List Char) : Bool :=
  decide ("install ok installed".toList <:+: status)

/-- The variables of `parseDpkgStatus`. -/
structure DpkgParser where
  pkgs : List Pkg
  pkg : Pkg
  status : List Char

def emptyPkg : Pkg := ⟨"dpkg", [], [], [], []⟩

def DpkgParser.start : DpkgParser := ⟨[], emptyPkg, []⟩

def DpkgParser.flush (p : DpkgParser) : List Pkg :=
  if p.pkg.name ≠ [] ∧ containsInstalled p.status then p.pkgs ++ [p.pkg] else p.pkgs

def DpkgParser.line (p : DpkgParser) (line : Line) : DpkgParser :=
  if line = [] then ⟨p.flush, emptyPkg, []⟩
  else
    match parseKV line with
    | (k, v) =>
      if k = "Package".toList then { p with pkg := { p.pkg with name := v } }
      else if k = "Version".toList then { p with pkg := { p.pkg with version := v } }
      else if k = "Architecture".toList then { p with pkg := { p.pkg with arch := v } }
      else if k = "Status".toList then { p with status := v }
      else p

def parseDpkgStatus (text : List Char) : List Pkg :=
  ((scanLines text).foldl DpkgParser.line .start).flush

def reading (key : String) (lines : List Line) : List Char :=
  (((lines.map parseKV).filter (fun kv => kv.1 = key.toList)).getLast?.map Prod.snd).getD []

def packageOf (lines : List Line) : Option Pkg :=
  if reading "Package" lines ≠ [] ∧ containsInstalled (reading "Status" lines) then
    some ⟨"dpkg", reading "Package" lines, reading "Version" lines, [],
      reading "Architecture" lines⟩
  else none

def packagesOf (lines : List Line) : List Pkg :=
  (lines.foldl DpkgParser.line .start).flush

variable {p : DpkgParser} {line : Line} {lines : List Line}

theorem reading_snoc (key : String) (lines : List Line) (line : Line) :
    reading key (lines ++ [line]) =
      if (parseKV line).1 = key.toList then (parseKV line).2 else reading key lines := by
  unfold reading
  rw [List.map_append, List.filter_append]
  split
  · next named => simp [named]
  · next other => simp [other]

theorem foldl_filled (pkgs : List Pkg) (filled : [] ∉ lines) :
    lines.foldl DpkgParser.line ⟨pkgs, emptyPkg, []⟩ =
      ⟨pkgs, ⟨"dpkg", reading "Package" lines, reading "Version" lines, [],
        reading "Architecture" lines⟩, reading "Status" lines⟩ := by
  induction lines using List.reverseRecOn with
  | nil => rfl
  | append_singleton lines line ih =>
    have here : line ≠ [] := by
      rintro rfl
      exact filled (by simp)
    have before : [] ∉ lines := fun member => filled (List.mem_append_left _ member)
    rw [List.foldl_append, ih before]
    simp only [List.foldl_cons, List.foldl_nil, DpkgParser.line, if_neg here, reading_snoc]
    split
    · next named => simp [named]
    · split
      · next named => simp [named]
      · split
        · next named => simp [named]
        · split <;> rfl

theorem packagesOf_filled (filled : [] ∉ lines) : packagesOf lines = (packageOf lines).toList := by
  rw [packagesOf, DpkgParser.start, foldl_filled [] filled, DpkgParser.flush, packageOf]
  split <;> rfl

theorem flush_append (pkgs : List Pkg) (p : DpkgParser) :
    ({ p with pkgs := pkgs ++ p.pkgs } : DpkgParser).flush = pkgs ++ p.flush := by
  by_cases counts : p.pkg.name ≠ [] ∧ containsInstalled p.status = true
  · rw [DpkgParser.flush, DpkgParser.flush, if_pos counts, if_pos counts, List.append_assoc]
  · rw [DpkgParser.flush, DpkgParser.flush, if_neg counts, if_neg counts]

theorem line_append (pkgs : List Pkg) (p : DpkgParser) (line : Line) :
    ({ p with pkgs := pkgs ++ p.pkgs } : DpkgParser).line line =
      { p.line line with pkgs := pkgs ++ (p.line line).pkgs } := by
  by_cases empty : line = []
  · rw [DpkgParser.line, DpkgParser.line, if_pos empty, if_pos empty, flush_append]
  · simp only [DpkgParser.line, if_neg empty]
    repeat' split
    all_goals rfl

theorem flush_foldl (pkgs : List Pkg) (p : DpkgParser) :
    (lines.foldl DpkgParser.line { p with pkgs := pkgs ++ p.pkgs }).flush =
      pkgs ++ (lines.foldl DpkgParser.line p).flush := by
  induction lines generalizing p with
  | nil => exact flush_append pkgs p
  | cons line lines ih =>
    rw [List.foldl_cons, List.foldl_cons, line_append]
    exact ih (p.line line)

theorem packagesOf_gap (front back : List Line) :
    packagesOf (front ++ [] :: back) = packagesOf front ++ packagesOf back := by
  have gap : (front ++ [[]]).foldl DpkgParser.line .start =
      { DpkgParser.start with pkgs := packagesOf front ++ [] } := by
    rw [List.foldl_append, List.append_nil]
    rfl
  rw [packagesOf, List.append_cons, List.foldl_append, gap]
  exact flush_foldl (packagesOf front) .start

theorem packagesOf_nil : packagesOf [] = [] := by
  decide

theorem packagesOf_gaps (front : List Line) (n : Nat) (back : List Line) :
    packagesOf (front ++ (List.replicate (n + 1) [] ++ back)) =
      packagesOf front ++ packagesOf back := by
  induction n generalizing front with
  | zero => exact packagesOf_gap front back
  | succ n ih =>
    rw [List.replicate_succ, List.cons_append, packagesOf_gap, ← List.nil_append (_ ++ back), ih,
      packagesOf_nil, List.nil_append]

theorem trimSpace_eq_self {text : List Char} (solid : ∀ c ∈ text, isSpace c = false) :
    trimSpace text = text := by
  have front : text.dropWhile isSpace = text := by
    cases text with
    | nil => rfl
    | cons c rest => exact List.dropWhile_cons_of_neg (by simp [solid c List.mem_cons_self])
  rw [trimSpace, front, List.rdropWhile_eq_self_iff]
  intro filled
  simp [solid _ (List.getLast_mem filled)]

theorem trimSpace_concat (text : List Char) {c : Char} (space : isSpace c = true) :
    trimSpace (text ++ [c]) = trimSpace text := by
  unfold trimSpace
  rw [List.dropWhile_append]
  split
  · next nothing =>
    rw [List.isEmpty_iff.mp nothing, List.dropWhile_cons_of_pos space]
    rfl
  · exact List.rdropWhile_concat_pos isSpace _ c space

theorem parseKV_colon {name : List Char} (plain : ':' ∉ name) (text : List Char) :
    parseKV (name ++ ':' :: text) = (trimSpace name, trimSpace text) := by
  have before : ∀ c ∈ name, decide (c ≠ ':') = true := by
    intro c member
    rw [decide_eq_true_iff]
    rintro rfl
    exact plain member
  have inside : ':' ∈ name ++ ':' :: text := List.mem_append_right _ List.mem_cons_self
  rw [parseKV, if_pos inside, List.takeWhile_append_of_pos before,
    List.dropWhile_append_of_pos before]
  simp

theorem parseKV_dropCR (line : Line) : parseKV (dropCR line) = parseKV line := by
  unfold dropCR
  split
  · next last =>
    obtain ⟨front, rfl⟩ := List.getLast?_eq_some_iff.mp last
    rw [List.dropLast_concat]
    by_cases colon : ':' ∈ front
    · obtain ⟨name, text, rfl, plain⟩ := List.eq_append_cons_of_mem colon
      have longer : name ++ ':' :: text ++ ['\r'] = name ++ ':' :: (text ++ ['\r']) := by simp
      rw [longer, parseKV_colon plain, parseKV_colon plain, trimSpace_concat text (by decide)]
    · have still : ':' ∉ front ++ ['\r'] := by
        rw [List.mem_append, not_or]
        exact ⟨colon, by decide⟩
      rw [parseKV, parseKV, if_neg colon, if_neg still]
  · rfl

theorem reading_dropCR (key : String) (lines : List Line) :
    reading key (lines.map dropCR) = reading key lines := by
  have same : parseKV ∘ dropCR = parseKV := funext parseKV_dropCR
  rw [reading, List.map_map, same, reading]

theorem packageOf_dropCR (lines : List Line) : packageOf (lines.map dropCR) = packageOf lines := by
  simp only [packageOf, reading_dropCR]

end HlHelper.Agent
