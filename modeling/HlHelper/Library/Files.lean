import Mathlib.Data.List.Basic
import Mathlib.Logic.Function.Basic

/-! Paths of files without symbolic links, and what a write, a removal and a renaming of one file
leave of the others. -/

namespace HlHelper.Library

/-- The segments of a path from the last one; `up` counts the leading `..` of a relative one. -/
structure Path where
  rooted : Bool
  up : Nat
  segments : List String
  deriving DecidableEq, Repr

namespace Path

def root : Path := ⟨true, 0, []⟩

def here : Path := ⟨false, 0, []⟩

def enter (path : Path) (segment : String) : Path :=
  if segment = "" ∨ segment = "." then path
  else if segment = ".." then
    match path.segments with
    | [] => if path.rooted then path else { path with up := path.up + 1 }
    | _ :: rest => { path with segments := rest }
  else { path with segments := segment :: path.segments }

/-- The way down a text with slashes between its segments. -/
def descend (path : Path) (text : String) : Path :=
  ((text.toList.splitOn '/').map String.ofList).foldl enter path

/-- A path that is read from a text: one with a leading slash starts at the root. -/
def ofText (text : String) : Path :=
  if text.toList.head? = some '/' then root.descend text else here.descend text

/-- The path followed by a text: one with a leading slash starts at the root again. -/
def join (path : Path) (text : String) : Path :=
  if text.toList.head? = some '/' then root.descend text else path.descend text

end Path

abbrev Files (π β : Type*) := π → Option β

namespace Files

variable {π β : Type*} [DecidableEq π] {files after : Files π β} {path source target other : π}
  {content : β}

def write (files : Files π β) (path : π) (content : β) : Files π β :=
  Function.update files path (some content)

def remove (files : Files π β) (path : π) : Files π β := Function.update files path none

/-- The target is replaced; none where the source is not there. -/
def rename (files : Files π β) (source target : π) : Option (Files π β) :=
  (files source).map (fun content => write (remove files source) target content)

@[simp] theorem write_self : write files path content path = some content :=
  Function.update_self ..

@[simp] theorem write_other (elsewhere : other ≠ path) :
    write files path content other = files other :=
  Function.update_of_ne elsewhere ..

@[simp] theorem remove_self : remove files path path = none := Function.update_self ..

@[simp] theorem remove_other (elsewhere : other ≠ path) : remove files path other = files other :=
  Function.update_of_ne elsewhere ..

theorem rename_eq_some : rename files source target = some after ↔
    ∃ content, files source = some content ∧ write (remove files source) target content = after :=
  Option.map_eq_some_iff

section

variable (renamed : rename files source target = some after)
include renamed

theorem rename_target : after target = files source := by
  obtain ⟨content, there, rfl⟩ := rename_eq_some.mp renamed
  rw [write_self, there]

theorem rename_source (apart : source ≠ target) : after source = none := by
  obtain ⟨content, _, rfl⟩ := rename_eq_some.mp renamed
  rw [write_other apart, remove_self]

theorem rename_other (not_source : other ≠ source) (not_target : other ≠ target) :
    after other = files other := by
  obtain ⟨content, _, rfl⟩ := rename_eq_some.mp renamed
  rw [write_other not_target, remove_other not_source]

end

end Files

inductive FileOp (π β : Type*) where
  | write (path : π) (content : β)
  | rename (source target : π)
  | remove (path : π)

namespace FileOp

variable {π β : Type*} [DecidableEq π] {files : Files π β} {path : π} {op : FileOp π β}
  {ops : List (FileOp π β)}

/-- A renaming of a file that is not there does nothing. -/
def apply (files : Files π β) : FileOp π β → Files π β
  | .write path content => files.write path content
  | .rename source target => (files.rename source target).getD files
  | .remove path => files.remove path

/-- What an operation that is cut off may leave: a write some other content. -/
def torn (files : Files π β) (left : Option β) : FileOp π β → Files π β
  | .write path _ =>
    match left with
    | none => files
    | some content => files.write path content
  | .rename _ _ | .remove _ => files

/-- The files after the first operations and the cut of the one behind them. -/
def cut (ops : List (FileOp π β)) (done : Nat) (left : Option β) (files : Files π β) :
    Files π β :=
  match ops[done]? with
  | none => (ops.take done).foldl apply files
  | some op => op.torn ((ops.take done).foldl apply files) left

def Touches (path : π) : FileOp π β → Prop
  | .write target _ | .remove target => path = target
  | .rename source target => path = source ∨ path = target

theorem apply_other (untouched : ¬ op.Touches path) : op.apply files path = files path := by
  cases op with
  | write target content => exact Files.write_other untouched
  | remove target => exact Files.remove_other untouched
  | rename source target =>
    obtain ⟨not_source, not_target⟩ := not_or.mp untouched
    rw [apply]
    cases renamed : files.rename source target with
    | none => rfl
    | some after => exact Files.rename_other renamed not_source not_target

theorem foldl_other (untouched : ∀ op ∈ ops, ¬ op.Touches path) :
    ops.foldl apply files path = files path := by
  induction ops generalizing files with
  | nil => rfl
  | cons op ops ih =>
    obtain ⟨first, rest⟩ := List.forall_mem_cons.mp untouched
    exact (ih rest).trans (apply_other first)

theorem cut_all {done : Nat} {left : Option β} (all : ops.length ≤ done) :
    cut ops done left files = ops.foldl apply files := by
  rw [cut, List.getElem?_eq_none all, List.take_of_length_le all]

end FileOp

end HlHelper.Library
