import Mathlib.Data.List.Basic
import SinglePass.Command.Collect

/-!
# What is collected

The files that a path stands for, in any file system and whatever it refuses to answer.  They are
told by the names that lead down to them (`Found`), and the names are found by the recursion that
finds the files (`collectFrom_eq_sources`).  It finds all of them (`mem_sources`), and where no
directory lists a name twice the names increase from one to the next (`sources_increasing`),
although each directory is sorted for itself.
-/

namespace SinglePass.Command

variable {view : FileView} {path name : OsText} {below : List OsText} {n : Nat}

/-! ## What is found -/

/-- The path of names that lead down from another path. -/
def pathBelow (path : OsText) (names : List OsText) : OsText := names.foldl joinPath path

/-- No names lead nowhere else. -/
@[simp] theorem pathBelow_nil (path : OsText) : pathBelow path [] = path := rfl

/-- The first name leads to the path that the others lead down from. -/
@[simp] theorem pathBelow_cons (path name : OsText) (names : List OsText) :
    pathBelow path (name :: names) = pathBelow (joinPath path name) names := rfl

/-- Names lead down from a directory to something that is collected. -/
inductive Found (view : FileView) : OsText → List OsText → Prop
  /-- What does not count as a directory is collected for its extension. -/
  | file {path name : OsText} {entries : List (Except FileError OsText)}
      (directory : view.isDirectory path = true) (list_eq : view.list path = .ok entries)
      (entry : .ok name ∈ entries) (unseen : ¬ view.isDirectory (joinPath path name) = true)
      (extension : extension? name = some sourceExtension) : Found view path [name]
  | inside {path name : OsText} {more : List OsText} {entries : List (Except FileError OsText)}
      (directory : view.isDirectory path = true) (list_eq : view.list path = .ok entries)
      (entry : .ok name ∈ entries) (seen : view.isDirectory (joinPath path name) = true)
      (walked : ¬ isSkipped name = true) (others : Found view (joinPath path name) more) :
      Found view path (name :: more)

/-- The order of the names that lead down: the first difference decides, by its bytes. -/
def PathBefore : List OsText → List OsText → Prop := List.Lex fun a b => a < b

/-- No directory lists a name twice. -/
def ListsOnce (view : FileView) : Prop :=
  ∀ path entries, view.list path = .ok entries → (readNames entries).Nodup

/-! ## The names that are found -/

/-- The names that lead down to the files under one name of a directory. -/
def sourcesUnder (view : FileView) (path : OsText) (inside : OsText → List (List OsText))
    (name : OsText) : List (List OsText) :=
  if view.isDirectory (joinPath path name) then
    if isSkipped name then [] else (inside (joinPath path name)).map (name :: ·)
  else if extension? name = some sourceExtension then [[name]]
  else []

/-- The names that lead down to the files that are found below a directory. -/
def sources (view : FileView) : Nat → OsText → List (List OsText)
  | 0, _ => []
  | n + 1, path =>
    if view.isDirectory path then
      match view.list path with
      | .error _ => []
      | .ok entries =>
        (sortNames (readNames entries)).flatMap (sourcesUnder view path (sources view n))
    else []

/-- What is found under a name is below the directory of this name, or the file itself. -/
theorem mem_sourcesUnder {inside : OsText → List (List OsText)} :
    below ∈ sourcesUnder view path inside name ↔
      (view.isDirectory (joinPath path name) = true ∧ ¬ isSkipped name = true ∧
        ∃ more ∈ inside (joinPath path name), below = name :: more) ∨
      (¬ view.isDirectory (joinPath path name) = true ∧
        extension? name = some sourceExtension ∧ below = [name]) := by
  unfold sourcesUnder
  split
  · split <;> simp [*, eq_comm]
  · split <;> simp [*]

/-- What is found in a directory is found under one of its names. -/
theorem mem_sources_succ :
    below ∈ sources view (n + 1) path ↔
      view.isDirectory path = true ∧ ∃ entries, view.list path = .ok entries ∧
        ∃ name, .ok name ∈ entries ∧ below ∈ sourcesUnder view path (sources view n) name := by
  rw [sources]
  split
  · next hdirectory =>
    cases hlist : view.list path with
    | error e => simp
    | ok entries => simp [hdirectory, mem_sortNames, mem_readNames]
  · next hdirectory => simp [hdirectory]

/-- No file is a directory. -/
theorem not_isDirectory_of_isFile (h : view.isFile path = true) :
    ¬ view.isDirectory path = true := by
  rw [FileView.isFile_iff] at h
  rw [FileView.isDirectory_iff, h]
  simp

/-- The names that are found lead to the files that are collected. -/
theorem collectFrom_eq_sources (n : Nat) (h : ¬ view.isFile path = true) :
    collectFrom view n path = (sources view n path).map (pathBelow path) := by
  induction n generalizing path with
  | zero => rfl
  | succ n ih =>
    rw [collectFrom, if_neg h, sources]
    split
    · cases view.list path with
      | error e => rfl
      | ok entries =>
        show (sortNames (readNames entries)).flatMap _ = List.map _ (List.flatMap _ _)
        rw [List.map_flatMap]
        refine List.flatMap_congr fun name _ => ?_
        unfold sourcesUnder
        split
        · next hseen =>
          split
          · rfl
          · rw [ih fun hfile => not_isDirectory_of_isFile hfile hseen, List.map_map]
            rfl
        · split <;> rfl
    · rfl

/-! ## All of them are found -/

/-- The path grows with each step down, so there are enough steps. -/
theorem mem_sources (hn : maxPathSize ≤ n + path.length) :
    below ∈ sources view n path ↔ Found view path below := by
  induction n generalizing path below with
  | zero =>
    have hnone : ¬ view.isDirectory path = true := fun hdirectory =>
      absurd (view.length_lt (FileView.isDirectory_iff.1 hdirectory)) (by omega)
    refine iff_of_false List.not_mem_nil fun h => ?_
    cases h with
    | file directory => exact hnone directory
    | inside directory => exact hnone directory
  | succ n ih =>
    have inside {entries : List (Except FileError OsText)} {name : OsText} {more : List OsText}
        (hlist : view.list path = .ok entries) (hname : .ok name ∈ entries) :
        more ∈ sources view n (joinPath path name) ↔ Found view (joinPath path name) more := by
      have hlonger := length_lt_joinPath path (view.name_ne_nil hlist hname)
      exact ih (by omega)
    rw [mem_sources_succ]
    constructor
    · rintro ⟨hdirectory, entries, hlist, name, hname, hbelow⟩
      rcases mem_sourcesUnder.1 hbelow with ⟨hseen, hskip, more, hmore, rfl⟩ | ⟨hseen, hext, rfl⟩
      · exact .inside hdirectory hlist hname hseen hskip ((inside hlist hname).1 hmore)
      · exact .file hdirectory hlist hname hseen hext
    · intro h
      cases h with
      | file directory list_eq entry unseen extension =>
        exact ⟨directory, _, list_eq, _, entry,
          mem_sourcesUnder.2 (.inr ⟨unseen, extension, rfl⟩)⟩
      | inside directory list_eq entry seen walked others =>
        exact ⟨directory, _, list_eq, _, entry,
          mem_sourcesUnder.2 (.inl ⟨seen, walked, _, (inside list_eq entry).2 others, rfl⟩)⟩

/-! ## They are found in order -/

/-- Different names in order increase from one to the next. -/
theorem sortNames_increasing {names : List OsText} (h : names.Nodup) :
    (sortNames names).Pairwise fun a b => a < b := by
  have hsorted : (sortNames names).Pairwise fun a b => decide (a ≤ b) = true := by
    apply stableSort_pairwise
    · intro a b
      exact (List.le_total a b).imp decide_eq_true decide_eq_true
    · intro a b c hab hbc
      exact decide_eq_true (List.le_trans (of_decide_eq_true hab) (of_decide_eq_true hbc))
  have hnodup : (sortNames names).Nodup := (stableSort_perm _ names).nodup_iff.2 h
  refine (hsorted.and hnodup).imp fun {a b} ⟨hle, hne⟩ => Decidable.byContradiction fun hlt => ?_
  exact hne (List.le_antisymm (of_decide_eq_true hle) hlt)

/-- Sorting each directory for itself puts all of them in order. -/
theorem sources_increasing (hdistinct : ListsOnce view) (n : Nat) (path : OsText) :
    (sources view n path).Pairwise PathBefore := by
  induction n generalizing path with
  | zero => exact .nil
  | succ n ih =>
    rw [sources]
    split
    · cases hlist : view.list path with
      | error e => exact .nil
      | ok entries =>
        show List.Pairwise _ (List.flatMap _ _)
        rw [List.pairwise_flatMap]
        -- Under one name the rest decides; what is under different names is told apart by these.
        constructor
        · intro name _
          unfold sourcesUnder
          split
          · split
            · exact .nil
            · exact List.pairwise_map.2 ((ih _).imp .cons)
          · split
            · exact List.pairwise_singleton _ _
            · exact .nil
        · have begins {name : OsText} {below : List OsText}
              (hbelow : below ∈ sourcesUnder view path (sources view n) name) :
              ∃ more, below = name :: more := by
            rcases mem_sourcesUnder.1 hbelow with ⟨-, -, more, -, rfl⟩ | ⟨-, -, rfl⟩
            · exact ⟨more, rfl⟩
            · exact ⟨[], rfl⟩
          refine (sortNames_increasing (hdistinct _ _ hlist)).imp fun hlt below hbelow
            below' hbelow' => ?_
          obtain ⟨more, rfl⟩ := begins hbelow
          obtain ⟨more', rfl⟩ := begins hbelow'
          exact .rel hlt
    · exact .nil

/-- Nothing stands before itself. -/
theorem PathBefore.ne {below' : List OsText} (h : PathBefore below below') : below ≠ below' := by
  rintro rfl
  induction below with
  | nil => nomatch h
  | cons name more ih =>
    cases h with
    | rel hlt => exact List.lt_irrefl _ hlt
    | cons hmore => exact ih hmore

/-! ## Collecting -/

/-- A file stands for itself, whatever its name. -/
theorem collect_of_isFile (h : view.isFile path = true) : collect view path = [path] := by
  rw [collect_eq, if_pos h]

/-- Anything else stands for what is found below it, in order. -/
theorem exists_found (view : FileView) (h : ¬ view.isFile path = true) :
    ∃ found : List (List OsText), collect view path = found.map (pathBelow path) ∧
      (∀ below, below ∈ found ↔ Found view path below) ∧
      (ListsOnce view → found.Pairwise PathBefore) :=
  ⟨_, collectFrom_eq_sources maxPathSize h, fun _ => mem_sources (Nat.le_add_right _ _),
    fun hdistinct => sources_increasing hdistinct maxPathSize path⟩

end SinglePass.Command
