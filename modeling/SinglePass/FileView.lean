import SinglePass.OsText
import SinglePass.Source

/-!
# File systems seen through paths

Whoever only reads learns nothing about a file system but the answers to three questions: what
stands at a path, which names a directory lists, and what opening a path gives.  This is a
`FileView`.  The answers are independent of each other, as the rights to them are: something may
well stand at a path that cannot be opened, and a directory need not list what can be found in it.

A path that is too long leads nowhere in any file system.  This is why a search below a directory
ends, also where links lead back to a directory above: every step down makes the path longer.
-/

namespace SinglePass

/-! ## Answers -/

/-- Why nothing can be found at a path, or nothing can be read there. -/
inductive FileError where
  | notFound
  | permissionDenied
  | notDirectory
  | isDirectory
  | nameTooLong
  | tooManyLinks
  | nulInPath
  /-- Any other cause, by its wording. -/
  | other (message : String)
deriving DecidableEq

/-- The wording of the cause. -/
def FileError.message : FileError → String
  | notFound => "No such file or directory (os error 2)"
  | permissionDenied => "Permission denied (os error 13)"
  | notDirectory => "Not a directory (os error 20)"
  | isDirectory => "Is a directory (os error 21)"
  | nameTooLong => "File name too long (os error 36)"
  | tooManyLinks => "Too many levels of symbolic links (os error 40)"
  | nulInPath => "file name contained an unexpected NUL byte"
  | other message => message

/-- What may stand at a path. -/
inductive FileType where
  | file
  | directory
  /-- Anything else, such as a pipe. -/
  | other
deriving DecidableEq

/-- What reading gives that was opened: bytes up to the end, or up to a failure. -/
structure Stream where
  bytes : List UInt8
  failure? : Option FileError
deriving DecidableEq

/-- The part of some bytes that consists of whole lines. -/
def wholeLines (bytes : List UInt8) : List UInt8 := (bytes.reverse.dropWhile (· ≠ 10)).reverse

/-- What is read line by line.  A line in which reading fails is not read at all. -/
def Stream.source (s : Stream) : Source :=
  match s.failure? with
  | none => Source.ofBytes s.bytes
  | some e => Source.ofBytes (wholeLines s.bytes) ++ [.failure e.message]

/-! ## Paths that lead nowhere -/

/-- Number of bytes from which on a path is too long. -/
def maxPathSize : Nat := 4096

/-- Why a path leads nowhere in any file system, if it does. -/
def pathFault? (path : OsText) : Option FileError :=
  if 0 ∈ path then some .nulInPath
  else if path = [] then some .notFound
  else if maxPathSize ≤ path.length then some .nameTooLong
  else none

/-- A path without a fault is not too long. -/
theorem length_lt_of_pathFault?_eq_none {path : OsText} (h : pathFault? path = none) :
    path.length < maxPathSize := by
  simp only [pathFault?] at h
  split at h
  · cases h
  · split at h
    · cases h
    · split at h
      · cases h
      · next hsize => exact Nat.lt_of_not_le hsize

/-! ## Views -/

/-- A file system as seen through paths, links followed. -/
structure FileView where
  /-- What stands at a path. -/
  stat : OsText → Except FileError FileType
  /-- The names in a directory, other than those that every directory has, each as far as it can be
  read. -/
  list : OsText → Except FileError (List (Except FileError OsText))
  /-- What opening a path gives. -/
  openFile : OsText → Except FileError Stream
  /-- Nothing stands at a path that is too long. -/
  length_lt : ∀ {path type}, stat path = .ok type → path.length < maxPathSize
  /-- Every name has a character. -/
  name_ne_nil : ∀ {path entries name}, list path = .ok entries → .ok name ∈ entries → name ≠ []

namespace FileView

/-- What is answered of a path, unless it leads nowhere. -/
def answer {α : Type} (ask : OsText → Except FileError α) (path : OsText) : Except FileError α :=
  match pathFault? path with
  | some e => .error e
  | none => ask path

/-- A path without a fault is asked for. -/
theorem answer_of_none {α : Type} {ask : OsText → Except FileError α} {path : OsText}
    (h : pathFault? path = none) : answer ask path = ask path := by
  rw [answer, h]

/-- Only a path without a fault is answered. -/
theorem pathFault?_of_answer {α : Type} {ask : OsText → Except FileError α} {path : OsText} {a : α}
    (h : answer ask path = .ok a) : pathFault? path = none := by
  cases hfault : pathFault? path with
  | none => rfl
  | some e =>
    rw [answer, hfault] at h
    nomatch h

/-- The view with the given answers, as far as any file system gives them. -/
def ofAnswers (stat : OsText → Except FileError FileType)
    (list : OsText → Except FileError (List OsText)) (openFile : OsText → Except FileError Stream) :
    FileView where
  stat := answer stat
  list path := (answer list path).map fun names => (names.filter (· ≠ [])).map .ok
  openFile := answer openFile
  length_lt h := length_lt_of_pathFault?_eq_none (pathFault?_of_answer h)
  name_ne_nil {path entries name} h hname := by
    cases hlist : answer list path with
    | error e =>
      rw [hlist] at h
      nomatch h
    | ok names =>
      rw [hlist] at h
      obtain rfl := Except.ok.inj h
      obtain ⟨name', hname', heq⟩ := List.mem_map.1 hname
      obtain rfl := Except.ok.inj heq
      exact of_decide_eq_true (List.mem_filter.1 hname').2

/-- Does anything stand at the path? -/
def pathExists (view : FileView) (path : OsText) : Bool :=
  match view.stat path with
  | .ok _ => true
  | .error _ => false

/-- Does a file stand at the path?  What cannot be looked at is none. -/
def isFile (view : FileView) (path : OsText) : Bool :=
  match view.stat path with
  | .ok .file => true
  | _ => false

/-- Does a directory stand at the path?  What cannot be looked at is none. -/
def isDirectory (view : FileView) (path : OsText) : Bool :=
  match view.stat path with
  | .ok .directory => true
  | _ => false

/-- A file is what is seen to be one. -/
theorem isFile_iff {view : FileView} {path : OsText} :
    view.isFile path = true ↔ view.stat path = .ok .file := by
  unfold isFile
  split <;> simp_all

/-- A directory is what is seen to be one. -/
theorem isDirectory_iff {view : FileView} {path : OsText} :
    view.isDirectory path = true ↔ view.stat path = .ok .directory := by
  unfold isDirectory
  split <;> simp_all

end FileView

end SinglePass
