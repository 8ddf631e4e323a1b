import SinglePass.FileView
import SinglePass.StableSort

/-!
# Collecting source files

A path stands for source files.  That of a file stands for this file, whatever its name is, and that
of a directory for all files below it with the extension of source files.  Directories with a hidden
name and those named `target` are passed over, unless they are asked for.

What cannot be looked at counts as a file, and a directory that cannot be listed, or an entry of it
that cannot be read, stands for nothing.
-/

namespace SinglePass.Command

/-! ## Names -/

/-- Extension of a name: what follows its last full stop, unless that is its first character. -/
def extension? (name : OsText) : Option OsText :=
  match name.reverse.dropWhile (· ≠ dot) with
  | _ :: _ :: _ => some (name.reverse.takeWhile (· ≠ dot)).reverse
  | _ => none

/-- Extension of source files. -/
def sourceExtension : OsText := utf8 "sim"

/-- A name as a text.  One that is not valid counts as empty. -/
def nameText (name : OsText) : String := (textOf? name).getD ""

/-- Is a directory of this name passed over? -/
def isSkipped (name : OsText) : Bool :=
  (nameText name).toList.head? = some '.' || nameText name = "target"

/-- The path of a name in a directory.  A directory path that ends in a slash gets no other, nor
does the empty one. -/
def joinPath (directory name : OsText) : OsText :=
  if directory = [] ∨ directory.getLast? = some slash then directory ++ name
  else directory ++ slash :: name

/-- The names of a directory in order. -/
def sortNames (names : List OsText) : List OsText := stableSort (fun a b => a ≤ b) names

/-- The names among the entries of a directory that can be read. -/
def readNames (entries : List (Except FileError OsText)) : List OsText :=
  entries.filterMap Except.toOption

/-- A name is read if there is an entry for it. -/
theorem mem_readNames {entries : List (Except FileError OsText)} {name : OsText} :
    name ∈ readNames entries ↔ .ok name ∈ entries := by
  rw [readNames, List.mem_filterMap]
  constructor
  · rintro ⟨e | name', hmem, heq⟩
    · nomatch heq
    · obtain rfl := Option.some.inj heq
      exact hmem
  · exact fun hmem => ⟨.ok name, hmem, rfl⟩

/-- Sorting keeps the names. -/
theorem mem_sortNames {names : List OsText} {name : OsText} :
    name ∈ sortNames names ↔ name ∈ names :=
  mem_stableSort

/-! ## Searching -/

/-- What a directory stands for with the given entries, if `inside` says what the directories in it
stand for. -/
def collectEntries (view : FileView) (inside : OsText → List OsText) (path : OsText)
    (entries : List (Except FileError OsText)) : List OsText :=
  (sortNames (readNames entries)).flatMap fun name =>
    if view.isDirectory (joinPath path name) then
      if isSkipped name then [] else inside (joinPath path name)
    else if extension? name = some sourceExtension then [joinPath path name]
    else []

/-- The files that a path stands for, in directories that nest less than `n` deep. -/
def collectFrom (view : FileView) : Nat → OsText → List OsText
  | 0, _ => []
  | n + 1, path =>
    if view.isFile path then [path]
    else if view.isDirectory path then
      match view.list path with
      | .error _ => []
      | .ok entries => collectEntries view (collectFrom view n) path entries
    else []

/-- The files that a path stands for.  Every directory makes the path longer, and a path of
`maxPathSize` bytes leads nowhere, so directories never nest that deep. -/
def collect (view : FileView) (path : OsText) : List OsText :=
  collectFrom view maxPathSize path

/-! ## The bound on the depth does not matter -/

/-- A name makes a path longer. -/
theorem length_lt_joinPath (path : OsText) {name : OsText} (h : name ≠ []) :
    path.length < (joinPath path name).length := by
  have hpos := List.length_pos_iff.2 h
  unfold joinPath
  split
  · rw [List.length_append]
    omega
  · rw [List.length_append, List.length_cons]
    omega

/-- A path that is too long stands for nothing. -/
theorem collectFrom_of_long (view : FileView) (n : Nat) {path : OsText}
    (h : maxPathSize ≤ path.length) : collectFrom view n path = [] := by
  cases n with
  | zero => rfl
  | succ n =>
    have hfile : ¬ view.isFile path = true := fun hfile =>
      absurd (view.length_lt (FileView.isFile_iff.1 hfile)) (Nat.not_lt.2 h)
    have hdirectory : ¬ view.isDirectory path = true := fun hdirectory =>
      absurd (view.length_lt (FileView.isDirectory_iff.1 hdirectory)) (Nat.not_lt.2 h)
    rw [collectFrom, if_neg hfile, if_neg hdirectory]

/-- Only what `inside` says of longer paths matters. -/
theorem collectEntries_congr {view : FileView} {inside inside' : OsText → List OsText}
    {path : OsText} {entries : List (Except FileError OsText)}
    (hlist : view.list path = .ok entries)
    (h : ∀ path', path.length < path'.length → inside path' = inside' path') :
    collectEntries view inside path entries = collectEntries view inside' path entries := by
  unfold collectEntries
  rw [List.flatMap_def, List.flatMap_def]
  refine congrArg List.flatten (List.map_congr_left fun name hname => ?_)
  have hne : name ≠ [] := view.name_ne_nil hlist (mem_readNames.1 (mem_sortNames.1 hname))
  rw [h _ (length_lt_joinPath path hne)]

/-- Deep enough is deep enough. -/
theorem collectFrom_eq (view : FileView) {m n : Nat} {path : OsText}
    (hm : maxPathSize ≤ m + path.length) (hn : maxPathSize ≤ n + path.length) :
    collectFrom view m path = collectFrom view n path := by
  induction m generalizing n path with
  | zero => rw [collectFrom_of_long view _ (by omega), collectFrom_of_long view _ (by omega)]
  | succ m ih =>
    cases n with
    | zero => rw [collectFrom_of_long view _ (by omega), collectFrom_of_long view _ (by omega)]
    | succ n =>
      rw [collectFrom, collectFrom]
      split
      · rfl
      · split
        · cases hlist : view.list path with
          | error e => rfl
          | ok entries =>
            exact collectEntries_congr hlist fun path' hlonger => ih (by omega) (by omega)
        · rfl

/-- What a path stands for, told without a bound. -/
theorem collect_eq (view : FileView) (path : OsText) :
    collect view path =
      if view.isFile path then [path]
      else if view.isDirectory path then
        match view.list path with
        | .error _ => []
        | .ok entries => collectEntries view (collect view) path entries
      else [] := by
  rw [collect, collectFrom_eq view (n := maxPathSize + 1) (Nat.le_add_right _ _) (by omega),
    collectFrom]
  rfl

end SinglePass.Command
