import Mathlib.Algebra.GroupWithZero.Nat
import Mathlib.Data.List.Forall2
import SinglePass.Command.Run
import SinglePass.FileTree

/-!
# What checking paths comes to

The output and the exit code of checking the files under some paths, told file by file.

* `Judged`: what a single file adds to the lines of both streams and to the two counts of the
  summary.  `Judged.add` is the step, and `checkFiles_eq_total` the sum over all files.
* `Answers`: the four ways in which a check ends.  A path that does not exist, or no file at all,
  ends it before anything is checked.
* `checkPaths_outcome`: the check of any paths ends in exactly one of these ways.
-/

namespace SinglePass.Command

/-! ## Single files -/

/-- The lines about some faults: one line for each, and behind it one with its hint if it has
one. -/
inductive Listing (path : String) :
    List (Diagnostic Simple.Kind Simple.Ty) → List String → Prop
  | nil : Listing path [] []
  | plain {d : Diagnostic Simple.Kind Simple.Ty} {ds : List (Diagnostic Simple.Kind Simple.Ty)}
      {lines : List String} :
      d.help? = none → Listing path ds lines →
      Listing path (d :: ds) ((path ++ ": " ++ d.message) :: lines)
  | hinted {d : Diagnostic Simple.Kind Simple.Ty} {ds : List (Diagnostic Simple.Kind Simple.Ty)}
      {lines : List String} {hint : String} :
      d.help? = some hint → Listing path ds lines →
      Listing path (d :: ds) ((path ++ ": " ++ d.message) :: ("    help: " ++ hint) :: lines)

/-- Can the file be opened, and is nothing wrong with it? -/
def Clean (view : FileView) (strategy : Strategy) (path : OsText) : Prop :=
  ∃ source, openSource view path = .ok source ∧ (Simple.check strategy source).errors = []

/-- What one file adds to the output, to the number of faults and to that of bad files. -/
inductive Judged (view : FileView) (strategy : Strategy) (path : OsText) : Tally → Prop
  | unreadable {e : FileError} :
      openSource view path = .error e →
      Judged view strategy path
        ⟨[], ["Error reading file '" ++ display path ++ "': " ++ e.message], 0, 1⟩
  | clean : Clean view strategy path → Judged view strategy path ⟨[], [], 0, 0⟩
  | faulty {source : Source} {errors : List (Diagnostic Simple.Kind Simple.Ty)}
      {lines : List String} :
      openSource view path = .ok source → (Simple.check strategy source).errors = errors →
      errors ≠ [] → errors.Pairwise (fun d e => d.position ≤ e.position) →
      Listing (display path) errors lines →
      Judged view strategy path ⟨lines, [], errors.length, 1⟩

/-- A listing is what rendering the errors gives. -/
theorem Listing.eq {path : String} {errors : List (Diagnostic Simple.Kind Simple.Ty)}
    {lines : List String} (h : Listing path errors lines) :
    Simple.renderDiagnostics path errors = lines := by
  induction h with
  | nil => rfl
  | plain hhelp _ ih =>
    rw [Simple.renderDiagnostics, List.flatMap_cons, hhelp, ← ih]
    rfl
  | hinted hhelp _ ih =>
    rw [Simple.renderDiagnostics, List.flatMap_cons, hhelp, ← ih]
    rfl

/-- Rendering errors gives a listing of them. -/
theorem listing_renderDiagnostics (path : String)
    (errors : List (Diagnostic Simple.Kind Simple.Ty)) :
    Listing path errors (Simple.renderDiagnostics path errors) := by
  induction errors with
  | nil => exact .nil
  | cons d ds ih =>
    rw [Simple.renderDiagnostics, List.flatMap_cons]
    cases hhelp : d.help? with
    | none => exact .plain hhelp ih
    | some hint => exact .hinted hhelp ih

section

variable {view : FileView} {strategy : Strategy} {path : OsText} {part : Tally}

/-- A file that cannot be opened is not checked. -/
theorem checkFile_of_error {e : FileError} (h : openSource view path = .error e) :
    checkFile view strategy path = .error e := by
  rw [checkFile, h]
  rfl

/-- A file that can be opened is checked for what it holds. -/
theorem checkFile_of_ok {source : Source} (h : openSource view path = .ok source) :
    checkFile view strategy path = .ok (Simple.check strategy source).errors := by
  rw [checkFile, h]
  rfl

/-- Every file is judged. -/
theorem exists_judged (view : FileView) (strategy : Strategy) (path : OsText) :
    ∃ part, Judged view strategy path part := by
  cases hopen : openSource view path with
  | error e => exact ⟨_, .unreadable hopen⟩
  | ok source =>
    by_cases herrors : (Simple.check strategy source).errors = []
    · exact ⟨_, .clean ⟨source, hopen, herrors⟩⟩
    · exact ⟨_, .faulty hopen rfl herrors (Diagnostic.sort_pairwise _)
        (listing_renderDiagnostics (display path) _)⟩

/-- A file is counted as bad unless it is clean. -/
theorem Judged.bad_eq_zero_iff (h : Judged view strategy path part) :
    part.bad = 0 ↔ Clean view strategy path := by
  cases h with
  | unreadable hopen =>
    refine ⟨fun hbad => absurd hbad Nat.one_ne_zero, ?_⟩
    rintro ⟨source, hsource, -⟩
    rw [hopen] at hsource
    nomatch hsource
  | clean hclean => exact ⟨fun _ => hclean, fun _ => rfl⟩
  | faulty hopen herrors hne =>
    refine ⟨fun hbad => absurd hbad Nat.one_ne_zero, ?_⟩
    rintro ⟨source, hsource, hnone⟩
    rw [hopen] at hsource
    cases hsource
    exact absurd (herrors.symm.trans hnone) hne

/-! ## All files -/

/-- Two tallies one after the other. -/
def Tally.append (t u : Tally) : Tally :=
  ⟨t.stdout ++ u.stdout, t.stderr ++ u.stderr, t.errors + u.errors, t.bad + u.bad⟩

/-- What single files add up to. -/
def Tally.total (parts : List Tally) : Tally :=
  ⟨parts.flatMap stdout, parts.flatMap stderr, (parts.map errors).sum, (parts.map bad).sum⟩

/-- Nothing has been counted at the start. -/
theorem Tally.start_append (t : Tally) : Tally.start.append t = t := by
  simp [append, start]

/-- Counting one file after the other adds up what each contributes. -/
theorem Tally.append_total_cons (t part : Tally) (parts : List Tally) :
    (t.append part).append (total parts) = t.append (total (part :: parts)) := by
  simp only [append, total, List.flatMap_cons, List.map_cons, List.sum_cons, List.append_assoc,
    Nat.add_assoc]

/-- Counting a file adds what it adds. -/
theorem Judged.add (h : Judged view strategy path part) (t : Tally) :
    t.add path (checkFile view strategy path) = t.append part := by
  cases h with
  | unreadable hopen =>
    rw [checkFile_of_error hopen, Tally.append, List.append_nil]
    rfl
  | clean hclean =>
    obtain ⟨source, hopen, herrors⟩ := hclean
    rw [checkFile_of_ok hopen, herrors]
    show Tally.mk (t.stdout ++ []) t.stderr (t.errors + 0) t.bad =
      ⟨t.stdout ++ [], t.stderr ++ [], t.errors + 0, t.bad + 0⟩
    rw [List.append_nil, List.append_nil, Nat.add_zero, Nat.add_zero]
  | faulty hopen herrors hne _ hlines =>
    rw [checkFile_of_ok hopen, herrors, Tally.add, hlines.eq, Tally.append, List.append_nil,
      if_neg (by simpa using hne)]

variable {files : List OsText} {parts : List Tally}

/-- Checking files comes to the total of what each contributes. -/
theorem checkFiles_eq_total (h : List.Forall₂ (Judged view strategy) files parts) :
    checkFiles view strategy files = .total parts := by
  have hfold : ∀ t : Tally, files.foldl
      (fun t path => t.add path (checkFile view strategy path)) t = t.append (.total parts) := by
    induction h with
    | nil => intro t; simp [Tally.append, Tally.total]
    | cons hfirst _ ih =>
      intro t
      rw [List.foldl_cons, ih, hfirst.add, Tally.append_total_cons]
  exact (hfold .start).trans (Tally.start_append _)

/-- All files are judged, one by one. -/
theorem exists_forall₂_judged (view : FileView) (strategy : Strategy) (files : List OsText) :
    ∃ parts, List.Forall₂ (Judged view strategy) files parts := by
  induction files with
  | nil => exact ⟨[], .nil⟩
  | cons path files ih =>
    obtain ⟨part, hpart⟩ := exists_judged view strategy path
    obtain ⟨parts, hparts⟩ := ih
    exact ⟨part :: parts, .cons hpart hparts⟩

/-- No file is counted as bad if all of them are clean. -/
theorem total_bad_eq_zero_iff (h : List.Forall₂ (Judged view strategy) files parts) :
    (Tally.total parts).bad = 0 ↔ ∀ file ∈ files, Clean view strategy file := by
  induction h with
  | nil => simp [Tally.total]
  | @cons path part files parts hfirst _ ih =>
    have hsum : (Tally.total (part :: parts)).bad = part.bad + (Tally.total parts).bad := by
      simp [Tally.total]
    rw [hsum, Nat.add_eq_zero_iff, hfirst.bad_eq_zero_iff, ih, List.forall_mem_cons]

/-- Files with which nothing is wrong leave no trace. -/
theorem checkFiles_of_clean (h : ∀ file ∈ files, Clean view strategy file) :
    checkFiles view strategy files = .start := by
  have hparts : List.Forall₂ (Judged view strategy) files (files.map fun _ => .start) := by
    rw [List.forall₂_map_right_iff, List.forall₂_same]
    exact fun file hfile => .clean (h file hfile)
  rw [checkFiles_eq_total hparts]
  simp [Tally.total, Tally.start]

end

/-! ## Paths -/

/-- How the check of some paths ends. -/
inductive Answers (view : FileView) (strategy : Strategy) (paths : List OsText) : Output → Prop
  /-- The first path that does not exist is the only one that is spoken of. -/
  | missing {before after : List OsText} {path : OsText} :
      paths = before ++ path :: after → (∀ other ∈ before, view.pathExists other = true) →
      view.pathExists path = false →
      Answers view strategy paths
        ⟨1, [], ["Cannot access '" ++ display path ++ "': no such file or directory"]⟩
  /-- There are no files under the paths. -/
  | nothing :
      (∀ path ∈ paths, view.pathExists path = true) → paths.flatMap (collect view) = [] →
      Answers view strategy paths ⟨1, [], ["No .sim files found"]⟩
  /-- Nothing is wrong with any file. -/
  | clean {files : List OsText} :
      (∀ path ∈ paths, view.pathExists path = true) → files = paths.flatMap (collect view) →
      files ≠ [] → (∀ file ∈ files, Clean view strategy file) →
      Answers view strategy paths
        ⟨0, ["✓ " ++ toString files.length ++ " file(s) checked"], []⟩
  /-- Something is wrong with some file; every file says what, in its turn. -/
  | faulty {files : List OsText} {file : OsText} {parts : List Tally} :
      (∀ path ∈ paths, view.pathExists path = true) → files = paths.flatMap (collect view) →
      file ∈ files → ¬ Clean view strategy file →
      List.Forall₂ (Judged view strategy) files parts →
      Answers view strategy paths
        ⟨1, parts.flatMap Tally.stdout,
          parts.flatMap Tally.stderr ++ ["\n" ++ toString (parts.map Tally.errors).sum
            ++ " error(s) in " ++ toString (parts.map Tally.bad).sum ++ " of "
            ++ toString files.length ++ " file(s)"]⟩

section

variable {view : FileView} {strategy : Strategy} {paths : List OsText} {out : Output}

/-- Where all paths exist and there is a file to check, the output is that of checking the files. -/
theorem checkPaths_of_exists (hall : ∀ path ∈ paths, view.pathExists path = true)
    (hne : paths.flatMap (collect view) ≠ []) :
    checkPaths view strategy paths =
      (checkFiles view strategy (paths.flatMap (collect view))).output
        (paths.flatMap (collect view)).length := by
  have hfind : (paths.find? fun path => !view.pathExists path) = none := by
    rw [List.find?_eq_none]
    intro path hpath
    simp [hall path hpath]
  unfold checkPaths
  rw [hfind]
  cases hfiles : paths.flatMap (collect view) with
  | nil => exact absurd hfiles hne
  | cons file files => rfl

/-- What answers a check is its output. -/
theorem Answers.eq (h : Answers view strategy paths out) :
    checkPaths view strategy paths = out := by
  cases h with
  | @missing before after path hpaths hbefore hmissing =>
    have hfind : (paths.find? fun path => !view.pathExists path) = some path := by
      rw [List.find?_eq_some_iff_append]
      refine ⟨by simp [hmissing], before, after, hpaths, fun other hother => ?_⟩
      simp [hbefore other hother]
    unfold checkPaths
    rw [hfind]
    rfl
  | nothing hall hnone =>
    have hfind : (paths.find? fun path => !view.pathExists path) = none := by
      rw [List.find?_eq_none]
      intro path hpath
      simp [hall path hpath]
    unfold checkPaths
    rw [hfind, hnone]
    rfl
  | clean hall hfiles hne hclean =>
    subst hfiles
    rw [checkPaths_of_exists hall hne, checkFiles_of_clean hclean]
    rfl
  | faulty hall hfiles hmem hfault hparts =>
    subst hfiles
    have hbad : (Tally.total _).bad ≠ 0 := fun hzero =>
      hfault ((total_bad_eq_zero_iff hparts).1 hzero _ hmem)
    rw [checkPaths_of_exists hall (List.ne_nil_of_mem hmem), checkFiles_eq_total hparts,
      Tally.output, if_neg hbad]
    rfl

/-- Every check is answered. -/
theorem exists_answers (view : FileView) (strategy : Strategy) (paths : List OsText) :
    ∃ out, Answers view strategy paths out := by
  cases hfind : paths.find? fun path => !view.pathExists path with
  | some path =>
    obtain ⟨hmissing, before, after, hpaths, hbefore⟩ := List.find?_eq_some_iff_append.1 hfind
    exact ⟨_, .missing hpaths (by simpa using hbefore) (by simpa using hmissing)⟩
  | none =>
    have hall : ∀ path ∈ paths, view.pathExists path = true := by
      simpa using hfind
    by_cases hne : paths.flatMap (collect view) = []
    · exact ⟨_, .nothing hall hne⟩
    · by_cases hclean : ∀ file ∈ paths.flatMap (collect view), Clean view strategy file
      · exact ⟨_, .clean hall rfl hne hclean⟩
      · push Not at hclean
        obtain ⟨file, hmem, hfault⟩ := hclean
        obtain ⟨parts, hparts⟩ :=
          exists_forall₂_judged view strategy (paths.flatMap (collect view))
        exact ⟨_, .faulty hall rfl hmem hfault hparts⟩

/-- A check is answered in one way only. -/
theorem checkPaths_eq_iff :
    checkPaths view strategy paths = out ↔ Answers view strategy paths out := by
  refine ⟨?_, Answers.eq⟩
  rintro rfl
  obtain ⟨out, h⟩ := exists_answers view strategy paths
  rwa [h.eq]

/-- The exit code tells whether every file can be opened and nothing is wrong with it. -/
theorem exit_eq_zero_iff : (checkPaths view strategy paths).exit = 0 ↔
    (∀ path ∈ paths, view.pathExists path = true) ∧ paths.flatMap (collect view) ≠ [] ∧
      ∀ file ∈ paths.flatMap (collect view), Clean view strategy file := by
  constructor
  · intro hexit
    generalize hout : checkPaths view strategy paths = out at hexit
    cases checkPaths_eq_iff.1 hout with
    | missing => nomatch hexit
    | nothing => nomatch hexit
    | clean hall hfiles hne hclean =>
      subst hfiles
      exact ⟨hall, hne, hclean⟩
    | faulty => nomatch hexit
  · rintro ⟨hall, hne, hclean⟩
    rw [(Answers.clean hall rfl hne hclean).eq]

end

/-- **What checking paths comes to.**  On every file system and for all paths, under either
strategy, the check of the paths ends as `Answers` says and in no other way; it exits with 0 exactly
if it comes to checking files, all of them can be opened, and nothing is wrong with any.  A command
line that is handed over with these paths and this strategy, and with no file to print the tokens
of, is answered by just that, and so is a run of the program whose parser hands it over. -/
theorem checkPaths_outcome (view : FileView) (strategy : Strategy) (paths : List OsText) :
    (∀ out, checkPaths view strategy paths = out ↔ Answers view strategy paths out) ∧
    ((checkPaths view strategy paths).exit = 0 ↔
      (∀ path ∈ paths, view.pathExists path = true) ∧ paths.flatMap (collect view) ≠ [] ∧
        ∀ file ∈ paths.flatMap (collect view), Clean view strategy file) ∧
    ∀ cli : Cli, cli.paths = paths → cli.strategy = strategy → cli.lexFile? = none →
      Answers view strategy paths (execute view cli) ∧
        ∀ parse args, parse args = .ok cli → run parse view args = execute view cli := by
  refine ⟨fun _ => checkPaths_eq_iff, exit_eq_zero_iff, ?_⟩
  rintro cli rfl rfl hlex
  refine ⟨?_, fun parse args hok => by rw [run, hok]⟩
  rw [← checkPaths_eq_iff, execute, hlex]

/-- A tree with a file that may not be opened, and a directory that holds an empty file and a broken
link. -/
def lockedTree : FileTree where
  nodes := [([utf8 "locked"], .file (.error .permissionDenied)),
    ([utf8 "src"], .directory ⟨true, true⟩),
    ([utf8 "src", utf8 "gone.sim"], .link (utf8 "nowhere")),
    ([utf8 "src", utf8 "empty.sim"], .file (.ok ⟨[], none⟩))]
  home := []

/-- The file that may not be opened exists, and the other files are checked behind it. -/
theorem run_lockedTree :
    plainParser (["locked", "--fail-fast", "src"].map utf8) =
        .ok ⟨[utf8 "locked", utf8 "src"], true, none⟩ ∧
      lockedTree.view.pathExists (utf8 "locked") = true ∧
      run plainParser lockedTree.view (["locked", "--fail-fast", "src"].map utf8) =
        ⟨1, ["src/empty.sim: (1,1): '<EOF>' found where 'PROGRAM' expected"],
          ["Error reading file 'locked': Permission denied (os error 13)",
            "Error reading file 'src/gone.sim': No such file or directory (os error 2)",
            "\n1 error(s) in 3 of 3 file(s)"]⟩ := by
  have hargs : plainParser (["locked", "--fail-fast", "src"].map utf8) =
      .ok ⟨[utf8 "locked", utf8 "src"], true, none⟩ := rfl
  refine ⟨hargs, by decide, ?_⟩
  obtain ⟨hout, -, hrun⟩ :=
    checkPaths_outcome lockedTree.view .failFast [utf8 "locked", utf8 "src"]
  obtain ⟨hanswers, hexecute⟩ := hrun ⟨[utf8 "locked", utf8 "src"], true, none⟩ rfl rfl rfl
  rw [hexecute plainParser _ hargs, ← (hout _).2 hanswers]
  decide +kernel

end SinglePass.Command
