import Mathlib.Logic.Basic
import SinglePass.FileTree
import SinglePass.Proofs.Command.Reading

/-!
# The modes of a command line

Which command lines are accepted, and what each of them asks for, whatever parser reads them as long
as it goes by the documented rules.

* `AsksCheck`, `AsksTokens`: the command lines of the two modes, told without reading them from left
  to right.
* `reads_check_iff`: what is read of a command line without `--lex`, by induction on its arguments.
* `reads_tokens_iff`: what is read of one that has room for nothing else.
* `modes_exclusive`: a command line is accepted exactly if it is of one of the two modes, and then
  it is not of the other one.  In front of `--` it does not matter where the flag stands.
-/

namespace SinglePass.Command

/-! ## What is asked for -/

/-- The flag that selects the strategy. -/
def failFastFlag : OsText := longOption "fail-fast"

/-- The arguments before the first `--`. -/
def front (args : List OsText) : List OsText := args.takeWhile (· ≠ terminator)

/-- The arguments after the first `--`. -/
def back (args : List OsText) : List OsText := (args.dropWhile (· ≠ terminator)).tail

/-- The paths of a command line without other options than `--fail-fast`. -/
def pathsOf (args : List OsText) : List OsText :=
  (front args).filter (· ≠ failFastFlag) ++ back args

/-- A command line that asks for a check. -/
structure AsksCheck (args : List OsText) : Prop where
  front_plain : ∀ text ∈ front args, text = failFastFlag ∨ text ≠ [] ∧ IsPlain text
  once : (front args).count failFastFlag ≤ 1
  back_nonempty : [] ∉ back args
  some_path : pathsOf args ≠ []

/-- Command lines that ask for the tokens of a file. -/
inductive AsksTokens (file : OsText) : List OsText → Prop
  | apart {ends : List OsText} (h : file ≠ [] ∧ IsPlain file)
      (hends : ends = [] ∨ ends = [terminator]) :
      AsksTokens file (longOption "lex" :: file :: ends)
  | joined {ends : List OsText} (h : file ≠ []) (hends : ends = [] ∨ ends = [terminator]) :
      AsksTokens file (longOptionWith "lex" file :: ends)

section

variable {text file : OsText} {args rest xs ys : List OsText} {uses : List Use}

/-- An argument before the terminator is in front of it. -/
theorem front_cons (h : text ≠ terminator) : front (text :: rest) = text :: front rest :=
  List.takeWhile_cons_of_pos (decide_eq_true h)

/-- An argument before the terminator is not behind it. -/
theorem back_cons (h : text ≠ terminator) : back (text :: rest) = back rest := by
  simp [back, h]

/-- Arguments before the terminator stay in front of what is in front of it. -/
theorem front_append (h : terminator ∉ xs) : front (xs ++ ys) = xs ++ front ys :=
  List.takeWhile_append_of_pos fun _ hx => decide_eq_true (ne_of_mem_of_not_mem hx h)

/-- Arguments before the terminator do not change what is behind it. -/
theorem back_append (h : terminator ∉ xs) : back (xs ++ ys) = back ys := by
  rw [back, List.dropWhile_append_of_pos fun _ hx => decide_eq_true (ne_of_mem_of_not_mem hx h)]
  rfl

/-- The flag is not the terminator. -/
theorem failFastFlag_ne_terminator : failFastFlag ≠ terminator := by decide

/-! ## Asking for a check -/

/-- The argument that is used by one in front of `--`. -/
def useOf (text : OsText) : Use :=
  if text = failFastFlag then ⟨.failFast, none⟩ else ⟨.paths, some text⟩

/-- The arguments that a command line uses which has no other option than `--fail-fast`. -/
def usesOf (args : List OsText) : List Use :=
  (front args).map useOf ++ (back args).map fun path => ⟨.paths, some path⟩

/-- An argument before the terminator is used by itself. -/
theorem usesOf_cons (h : text ≠ terminator) :
    usesOf (text :: rest) = useOf text :: usesOf rest := by
  rw [usesOf, front_cons h, back_cons h]
  rfl

/-- Behind the terminator, every argument is a path. -/
theorem usesOf_terminator (rest : List OsText) :
    usesOf (terminator :: rest) = rest.map fun path => ⟨.paths, some path⟩ := by
  simp [usesOf, front, back]

/-- The flag uses its own argument, without a value. -/
theorem useOf_failFast : useOf failFastFlag = ⟨.failFast, none⟩ := if_pos rfl

/-- What is not the flag is used as a path. -/
theorem useOf_of_ne (h : text ≠ failFastFlag) : useOf text = ⟨.paths, some text⟩ := if_neg h

/-- No single argument asks for the tokens of a file. -/
theorem useOf_id_ne_lexFile (text : OsText) : (useOf text).id ≠ .lexFile := by
  unfold useOf
  split <;> simp

/-- What holds of all uses holds of those in front of the terminator and of those behind it. -/
theorem forall_mem_usesOf {p : Use → Prop} :
    (∀ use ∈ usesOf args, p use) ↔
      (∀ text ∈ front args, p (useOf text)) ∧ ∀ path ∈ back args, p ⟨.paths, some path⟩ := by
  rw [usesOf, List.forall_mem_append, List.forall_mem_map, List.forall_mem_map]

/-- Paths and flags never ask for the tokens of a file. -/
theorem usesOf_id_ne_lexFile (args : List OsText) : ∀ use ∈ usesOf args, use.id ≠ .lexFile :=
  forall_mem_usesOf.2 ⟨fun text _ => useOf_id_ne_lexFile text, by simp⟩

/-- What is read without `--lex`, from one argument to the next. -/
theorem reads_check_iff :
    (Reads args uses ∧ ∀ use ∈ uses, use.id ≠ .lexFile) ↔
      (∀ text ∈ front args, text = failFastFlag ∨ IsPlain text) ∧ uses = usesOf args := by
  constructor
  · rintro ⟨h, hlex⟩
    -- Without `--lex` every rule adds the use of a single argument.
    induction h with
    | nil => exact ⟨fun _ htext => absurd htext List.not_mem_nil, rfl⟩
    | behind paths => exact ⟨by simp [front], (usesOf_terminator paths).symm⟩
    | @value text rest uses plain _ ih =>
      obtain ⟨hfront, rfl⟩ := ih fun use huse => hlex use (List.mem_cons_of_mem _ huse)
      rw [front_cons plain.ne_terminator, usesOf_cons plain.ne_terminator,
        useOf_of_ne plain.ne_failFast]
      exact ⟨List.forall_mem_cons.2 ⟨.inr plain, hfront⟩, rfl⟩
    | @flag id name rest uses long action _ ih =>
      obtain rfl := eq_failFast_of_setTrue action
      obtain rfl := Option.some.inj long
      obtain ⟨hfront, rfl⟩ := ih fun use huse => hlex use (List.mem_cons_of_mem _ huse)
      rw [← failFastFlag, front_cons failFastFlag_ne_terminator,
        usesOf_cons failFastFlag_ne_terminator, useOf_failFast]
      exact ⟨List.forall_mem_cons.2 ⟨.inl rfl, hfront⟩, rfl⟩
    | option long action =>
      exact absurd (eq_lexFile_of_set action) (hlex _ List.mem_cons_self)
    | attached long action =>
      exact absurd (eq_lexFile_of_set action) (hlex _ List.mem_cons_self)
  · rintro ⟨hfront, rfl⟩
    refine ⟨?_, usesOf_id_ne_lexFile args⟩
    induction args with
    | nil => exact .nil
    | cons text rest ih =>
      by_cases hend : text = terminator
      · subst hend
        rw [usesOf_terminator]
        exact .behind rest
      · rw [front_cons hend, List.forall_mem_cons] at hfront
        rw [usesOf_cons hend]
        by_cases hflag : text = failFastFlag
        · subst hflag
          rw [useOf_failFast]
          exact .failFast (ih hfront.2)
        · rw [useOf_of_ne hflag]
          exact .value (hfront.1.resolve_left hflag) (ih hfront.2)

/-- Values are collected in the order of the uses. -/
theorem values_append (id : ArgId) (uses uses' : List Use) :
    Use.values id (uses ++ uses') = Use.values id uses ++ Use.values id uses' :=
  List.filterMap_append

/-- What such a command line comes to. -/
theorem ofUses_usesOf (args : List OsText) :
    Cli.ofUses (usesOf args) = ⟨pathsOf args, decide (failFastFlag ∈ front args), none⟩ := by
  have hpaths (texts : List OsText) :
      Use.values .paths (texts.map useOf) = texts.filter (· ≠ failFastFlag) := by
    induction texts with
    | nil => rfl
    | cons text texts ih =>
      rw [Use.values] at ih ⊢
      by_cases hflag : text = failFastFlag
      · simp [hflag, useOf_failFast, ih]
      · simp [hflag, useOf_of_ne hflag, ih]
  have hbehind (texts : List OsText) :
      Use.values .paths (texts.map fun path => ⟨.paths, some path⟩) = texts := by
    rw [Use.values, List.filterMap_map]
    exact List.filterMap_some
  have hlex : Use.values .lexFile (usesOf args) = [] :=
    List.filterMap_eq_nil_iff.2 fun use huse => if_neg (usesOf_id_ne_lexFile args use huse)
  have hflag : ((usesOf args).any fun use => use.id = .failFast) =
      decide (failFastFlag ∈ front args) := by
    rw [Bool.eq_iff_iff, List.any_eq_true, decide_eq_true_iff]
    constructor
    · rintro ⟨use, huse, hid⟩
      rcases List.mem_append.1 huse with hfront | hback
      · obtain ⟨text, htext, rfl⟩ := List.mem_map.1 hfront
        by_cases hflag : text = failFastFlag
        · exact hflag ▸ htext
        · rw [useOf_of_ne hflag] at hid
          simp at hid
      · obtain ⟨text, -, rfl⟩ := List.mem_map.1 hback
        simp at hid
    · exact fun hmem => ⟨useOf failFastFlag,
        List.mem_append_left _ (List.mem_map_of_mem hmem), by rw [useOf_failFast]; rfl⟩
  rw [Cli.ofUses, hlex, hflag, usesOf, values_append, hpaths, hbehind]
  rfl

/-- Only the flag uses the argument of the flag. -/
theorem useOf_id_eq_failFast_iff : (useOf text).id = .failFast ↔ text = failFastFlag := by
  by_cases h : text = failFastFlag
  · simp [h, useOf_failFast]
  · simp [h, useOf_of_ne h]

/-- The flag is used as often as it stands in front of the terminator. -/
theorem count_failFast_usesOf (args : List OsText) :
    ((usesOf args).map Use.id).count .failFast = (front args).count failFastFlag := by
  have hfront (texts : List OsText) :
      ((texts.map useOf).map Use.id).count .failFast = texts.count failFastFlag := by
    induction texts with
    | nil => rfl
    | cons text texts ih =>
      rw [List.map_cons, List.map_cons, List.count_cons, List.count_cons, ih]
      simp only [beq_iff_eq, useOf_id_eq_failFast_iff]
  have hbehind (texts : List OsText) :
      ((texts.map fun path => (⟨.paths, some path⟩ : Use)).map Use.id).count .failFast = 0 :=
    List.count_eq_zero.2 (by simp)
  rw [usesOf, List.map_append, List.count_append, hfront, hbehind, Nat.add_zero]

/-- There is no path exactly if nothing but flags is used. -/
theorem pathsOf_eq_nil_iff :
    pathsOf args = [] ↔ ∀ use ∈ usesOf args, ¬ (use.id = .paths ∨ use.id = .lexFile) := by
  have huse (text : OsText) :
      ¬ ((useOf text).id = .paths ∨ (useOf text).id = .lexFile) ↔ text = failFastFlag := by
    by_cases h : text = failFastFlag
    · simp [h, useOf_failFast]
    · simp [h, useOf_of_ne h]
  rw [forall_mem_usesOf, pathsOf, List.append_eq_nil_iff, List.filter_eq_nil_iff]
  simp [huse, List.eq_nil_iff_forall_not_mem]

/-- When the arguments of such a command line go together. -/
theorem fits_usesOf_iff (args : List OsText) :
    Fits (usesOf args) ↔ (front args).count failFastFlag ≤ 1 ∧
      (∀ text ∈ front args, text = failFastFlag ∨ text ≠ []) ∧ [] ∉ back args ∧
      pathsOf args ≠ [] := by
  have hlex : ((usesOf args).map Use.id).count .lexFile ≤ 1 := by
    rw [List.count_eq_zero.2 (by simpa using usesOf_id_ne_lexFile args)]
    exact Nat.zero_le 1
  have hapart : ∀ use ∈ usesOf args, use.id = .lexFile →
      ∀ other ∈ usesOf args, other.id = .lexFile :=
    fun use huse hid => absurd hid (usesOf_id_ne_lexFile args use huse)
  have huse (text : OsText) : (useOf text).value? ≠ some [] ↔ text = failFastFlag ∨ text ≠ [] := by
    by_cases h : text = failFastFlag
    · simp [h, useOf_failFast]
    · simp [h, useOf_of_ne h]
  have hvalues : (∀ use ∈ usesOf args, use.value? ≠ some []) ↔
      (∀ text ∈ front args, text = failFastFlag ∨ text ≠ []) ∧ [] ∉ back args := by
    rw [forall_mem_usesOf]
    simp only [huse]
    refine and_congr_right fun _ => ⟨fun h hmem => h [] hmem rfl, ?_⟩
    rintro h path hpath heq
    exact h (Option.some.inj heq ▸ hpath)
  have hpresent : (∃ use ∈ usesOf args, use.id = .paths ∨ use.id = .lexFile) ↔
      pathsOf args ≠ [] := by
    rw [ne_eq, pathsOf_eq_nil_iff]
    simp only [not_forall, not_not, exists_prop]
  rw [fits_iff, count_failFast_usesOf, hvalues, hpresent]
  constructor
  · rintro ⟨honce, -, ⟨hfront, hback⟩, -, hpath⟩
    exact ⟨honce, hfront, hback, hpath⟩
  · rintro ⟨honce, hfront, hback, hpath⟩
    exact ⟨honce, hlex, ⟨hfront, hback⟩, hapart, hpath⟩

/-- Every use of `--lex` has a value. -/
theorem Reads.value_of_lexFile (h : Reads args uses) {use : Use} (huse : use ∈ uses)
    (hid : use.id = .lexFile) : ∃ file, use.value? = some file := by
  induction h with
  | nil => nomatch huse
  | behind paths =>
    obtain ⟨path, -, rfl⟩ := List.mem_map.1 huse
    exact ⟨path, rfl⟩
  | flag _ action _ ih =>
    rcases List.mem_cons.1 huse with rfl | huse
    · cases hid.symm.trans (eq_failFast_of_setTrue action)
    · exact ih huse
  | value _ _ ih | option _ _ _ _ ih | attached _ _ _ ih =>
    rcases List.mem_cons.1 huse with rfl | huse
    · exact ⟨_, rfl⟩
    · exact ih huse

/-- What a parser hands over for a check. -/
theorem Documented.check_iff {parse : ArgumentParser} (h : Documented parse) {cli : Cli} :
    parse args = .ok cli ∧ cli.lexFile? = none ↔
      AsksCheck args ∧ cli = ⟨pathsOf args, decide (failFastFlag ∈ front args), none⟩ := by
  rw [h.parse_eq_ok_iff]
  constructor
  · rintro ⟨⟨uses, hreads, hfits, rfl⟩, hlex⟩
    have hno_lex : ∀ use ∈ uses, use.id ≠ .lexFile := by
      intro use huse hid
      obtain ⟨file, hfile⟩ := hreads.value_of_lexFile huse hid
      have hnone := List.filterMap_eq_nil_iff.1 (List.head?_eq_none_iff.1 hlex) use huse
      rw [if_pos hid, hfile] at hnone
      nomatch hnone
    obtain ⟨hplain, rfl⟩ := reads_check_iff.1 ⟨hreads, hno_lex⟩
    obtain ⟨honce, hfront, hback, hpath⟩ := (fits_usesOf_iff args).1 hfits
    refine ⟨⟨fun text htext => ?_, honce, hback, hpath⟩, ofUses_usesOf args⟩
    by_cases hflag : text = failFastFlag
    · exact .inl hflag
    · exact .inr ⟨(hfront text htext).resolve_left hflag, (hplain text htext).resolve_left hflag⟩
  · rintro ⟨hasks, rfl⟩
    have hplain : ∀ text ∈ front args, text = failFastFlag ∨ IsPlain text :=
      fun text htext => (hasks.front_plain text htext).imp_right And.right
    have hfits : Fits (usesOf args) := (fits_usesOf_iff args).2
      ⟨hasks.once, fun text htext => (hasks.front_plain text htext).imp_right And.left,
        hasks.back_nonempty, hasks.some_path⟩
    have hreads := (reads_check_iff.2 ⟨hplain, rfl⟩).1
    exact ⟨⟨usesOf args, hreads, hfits, (ofUses_usesOf args).symm⟩, rfl⟩

/-! ## Asking for tokens -/

/-- No uses are read from no arguments, or from the terminator alone. -/
theorem reads_nil_iff : Reads args [] ↔ args = [] ∨ args = [terminator] := by
  constructor
  · intro h
    generalize hnone : ([] : List Use) = uses at h
    cases h with
    | nil => exact .inl rfl
    | behind paths =>
      obtain rfl := List.map_eq_nil_iff.1 hnone.symm
      exact .inr rfl
    | _ => nomatch hnone
  · rintro (rfl | rfl)
    · exact .nil
    · exact .behind []

/-- What is read of a command line that has room for nothing but a file. -/
theorem reads_tokens_iff :
    Reads args [⟨.lexFile, some file⟩] ∧ file ≠ [] ↔ AsksTokens file args := by
  constructor
  · rintro ⟨h, hfile⟩
    generalize huses : [(⟨.lexFile, some file⟩ : Use)] = uses at h
    cases h with
    | nil => nomatch huses
    | behind paths =>
      cases paths with
      | nil => nomatch huses
      | cons path more => cases (List.cons.inj huses).1
    | value => cases (List.cons.inj huses).1
    | flag => cases (List.cons.inj huses).1
    | option long action plain others =>
      obtain rfl := eq_lexFile_of_set action
      obtain rfl := Option.some.inj long
      obtain ⟨huse, rfl⟩ := List.cons.inj huses
      cases huse
      exact .apart ⟨hfile, plain⟩ (reads_nil_iff.1 others)
    | attached long action others =>
      obtain rfl := eq_lexFile_of_set action
      obtain rfl := Option.some.inj long
      obtain ⟨huse, rfl⟩ := List.cons.inj huses
      cases huse
      exact .joined hfile (reads_nil_iff.1 others)
  · intro h
    cases h with
    | apart hfile hends => exact ⟨.lexFile hfile.2 (reads_nil_iff.2 hends), hfile.1⟩
    | joined hfile hends => exact ⟨.attached rfl rfl (reads_nil_iff.2 hends), hfile⟩

/-- Where `--lex` is used, nothing else is. -/
theorem eq_singleton_of_fits (h : Fits uses) {use : Use} (huse : use ∈ uses)
    (hid : use.id = .lexFile) : uses = [use] := by
  obtain ⟨-, honce, -, hapart, -⟩ := fits_iff.1 h
  have hall : ∀ id ∈ uses.map Use.id, .lexFile = id := by
    intro id hmem
    obtain ⟨other, hother, rfl⟩ := List.mem_map.1 hmem
    exact (hapart use huse hid other hother).symm
  rw [List.count_eq_length.2 hall, List.length_map] at honce
  obtain ⟨other, rfl⟩ : ∃ other, uses = [other] :=
    List.length_eq_one_iff.1 (Nat.le_antisymm honce (List.length_pos_of_mem huse))
  rw [List.mem_singleton.1 huse]

/-- What a parser hands over for tokens. -/
theorem Documented.tokens_iff {parse : ArgumentParser} (h : Documented parse) {cli : Cli} :
    parse args = .ok cli ∧ cli.lexFile? = some file ↔
      AsksTokens file args ∧ cli = ⟨[], false, some file⟩ := by
  rw [h.parse_eq_ok_iff]
  constructor
  · rintro ⟨⟨uses, hreads, hfits, rfl⟩, hlex⟩
    obtain ⟨⟨id, value?⟩, huse, hvalue⟩ := List.mem_filterMap.1 (List.mem_of_head? hlex)
    obtain ⟨rfl, rfl⟩ : id = .lexFile ∧ value? = some file := by
      split at hvalue
      · next hid => exact ⟨hid, hvalue⟩
      · nomatch hvalue
    obtain rfl := eq_singleton_of_fits hfits huse rfl
    have hfile : file ≠ [] := fun hnil => hfits.nonempty _ huse (congrArg some hnil)
    exact ⟨reads_tokens_iff.1 ⟨hreads, hfile⟩, rfl⟩
  · rintro ⟨hasks, rfl⟩
    obtain ⟨hreads, hfile⟩ := reads_tokens_iff.2 hasks
    exact ⟨⟨_, hreads, fits_iff.2 (by simp [hfile]), rfl⟩, rfl⟩

/-! ## Moving the flag -/

/-- A flag in front of the terminator may be moved to the front. -/
theorem front_move (h : terminator ∉ xs) :
    (front (xs ++ failFastFlag :: ys)).Perm (front (failFastFlag :: (xs ++ ys))) := by
  rw [front_append h, front_cons failFastFlag_ne_terminator, front_cons failFastFlag_ne_terminator,
    front_append h]
  exact List.perm_middle

/-- Moving a flag does not change what is behind the terminator. -/
theorem back_move (h : terminator ∉ xs) :
    back (xs ++ failFastFlag :: ys) = back (failFastFlag :: (xs ++ ys)) := by
  rw [back_append h, back_cons failFastFlag_ne_terminator, back_cons failFastFlag_ne_terminator,
    back_append h]

/-- Moving a flag does not change the paths. -/
theorem pathsOf_move (h : terminator ∉ xs) :
    pathsOf (xs ++ failFastFlag :: ys) = pathsOf (failFastFlag :: (xs ++ ys)) := by
  simp [pathsOf, front_append h, back_append h, front_cons failFastFlag_ne_terminator,
    back_cons failFastFlag_ne_terminator]

/-- What asks for a check asks for it in any order that keeps the paths. -/
theorem AsksCheck.of_perm {args' : List OsText} (h : AsksCheck args)
    (hfront : (front args).Perm (front args')) (hback : back args = back args')
    (hpaths : pathsOf args = pathsOf args') : AsksCheck args' where
  front_plain text htext := h.front_plain text (hfront.mem_iff.2 htext)
  once := hfront.count_eq _ ▸ h.once
  back_nonempty := hback ▸ h.back_nonempty
  some_path := hpaths ▸ h.some_path

/-- What asks for the tokens of a file has no flag. -/
theorem AsksTokens.failFast_notMem (h : AsksTokens file args) : failFastFlag ∉ args := by
  have hends {ends : List OsText} (hends : ends = [] ∨ ends = [terminator]) :
      failFastFlag ∉ ends := by
    rcases hends with rfl | rfl <;> decide
  cases h with
  | apart hfile h =>
    have hne : failFastFlag ≠ file := fun hflag => hfile.2.ne_failFast hflag.symm
    exact List.not_mem_cons_of_ne_of_not_mem (by decide)
      (List.not_mem_cons_of_ne_of_not_mem hne (hends h))
  | joined _ h =>
    have hne : failFastFlag ≠ longOptionWith "lex" file := fun hflag =>
      absurd (congrArg (·[2]?) hflag) (show ¬ some (102 : UInt8) = some 108 by decide)
    exact List.not_mem_cons_of_ne_of_not_mem hne (hends h)

/-- The flag may as well stand in front. -/
theorem Documented.parse_move {parse : ArgumentParser} (hparse : Documented parse)
    (h : terminator ∉ xs) {cli : Cli} :
    parse (xs ++ failFastFlag :: ys) = .ok cli ↔ parse (failFastFlag :: (xs ++ ys)) = .ok cli := by
  have hfront : (front (xs ++ failFastFlag :: ys)).Perm (front (failFastFlag :: (xs ++ ys))) :=
    front_move h
  have hback : back (xs ++ failFastFlag :: ys) = back (failFastFlag :: (xs ++ ys)) := back_move h
  have hpaths : pathsOf (xs ++ failFastFlag :: ys) = pathsOf (failFastFlag :: (xs ++ ys)) :=
    pathsOf_move h
  cases hlex : cli.lexFile? with
  | none =>
    have hcheck {args : List OsText} : parse args = .ok cli ↔
        AsksCheck args ∧ cli = ⟨pathsOf args, decide (failFastFlag ∈ front args), none⟩ := by
      rw [← hparse.check_iff, and_iff_left hlex]
    rw [hcheck, hcheck, hpaths]
    simp only [hfront.mem_iff]
    exact and_congr_left fun _ =>
      ⟨fun hasks => hasks.of_perm hfront hback hpaths,
        fun hasks => hasks.of_perm hfront.symm hback.symm hpaths.symm⟩
  | some file =>
    refine iff_of_false (fun hok => ?_) (fun hok => ?_)
    · exact (hparse.tokens_iff.1 ⟨hok, hlex⟩).1.failFast_notMem (by simp)
    · exact (hparse.tokens_iff.1 ⟨hok, hlex⟩).1.failFast_notMem (by simp)

end

/-! ## The modes -/

/-- The two modes: what a command line asks for, what is handed over, and what is printed. -/
inductive Selected (view : FileView) (args : List OsText) (cli : Cli) : Output → Prop
  | check (asks : AsksCheck args) (lex : cli.lexFile? = none) (paths : cli.paths = pathsOf args)
      (flag : cli.failFast = true ↔ failFastFlag ∈ front args)
      (strategy : cli.strategy = .failFast ↔ failFastFlag ∈ front args) :
      Selected view args cli (checkPaths view cli.strategy cli.paths)
  | tokens {file : OsText} (asks : AsksTokens file args) (lex : cli.lexFile? = some file)
      (paths : cli.paths = []) (flag : cli.failFast = false) :
      Selected view args cli (tokensOf view file)

/-- The strategy is that of the flag. -/
theorem strategy_eq_failFast_iff {cli : Cli} : cli.strategy = .failFast ↔ cli.failFast = true := by
  unfold Cli.strategy
  split <;> simp_all

/-- What a documented parser hands over selects its mode. -/
theorem Documented.selected {parse : ArgumentParser} (h : Documented parse) {args : List OsText}
    {cli : Cli} (hok : parse args = .ok cli) (view : FileView) :
    Selected view args cli (execute view cli) := by
  cases hlex : cli.lexFile? with
  | none =>
    have hexecute : execute view cli = checkPaths view cli.strategy cli.paths := by
      rw [execute, hlex]
    obtain ⟨hasks, hcli⟩ := h.check_iff.1 ⟨hok, hlex⟩
    have hflag : cli.failFast = true ↔ failFastFlag ∈ front args := by
      rw [hcli, decide_eq_true_iff]
    rw [hexecute]
    exact .check hasks hlex (by rw [hcli]) hflag (strategy_eq_failFast_iff.trans hflag)
  | some file =>
    have hexecute : execute view cli = tokensOf view file := by rw [execute, hlex]
    obtain ⟨hasks, hcli⟩ := h.tokens_iff.1 ⟨hok, hlex⟩
    rw [hexecute]
    exact .tokens hasks hlex (by rw [hcli]) (by rw [hcli])

/-- **The modes exclude each other.**  Whatever parser reads the command line, if it goes by the
documented rules: a check is asked for exactly if in front of the first `--` there is nothing but
paths and one `--fail-fast` at most, if no path is empty, and if there is a path.  Then all of them
are checked, in their order, and the flag decides on the strategy.  Tokens are asked for exactly if
there is nothing but one file, given to `--lex`; then there are no paths, and the flag is not set.
So whatever is accepted is of just one of these modes, and this one is run.  In front of `--` it
makes no difference where the flag stands. -/
theorem modes_exclusive {parse : ArgumentParser} (h : Documented parse) (view : FileView)
    (args : List OsText) :
    ((∃ cli, parse args = .ok cli ∧ cli.lexFile? = none) ↔ AsksCheck args) ∧
    (∀ file, (∃ cli, parse args = .ok cli ∧ cli.lexFile? = some file) ↔ AsksTokens file args) ∧
    ¬ (AsksCheck args ∧ ∃ file, AsksTokens file args) ∧
    (∀ cli, parse args = .ok cli → Selected view args cli (execute view cli) ∧
      run parse view args = execute view cli) ∧
    ∀ xs ys xs' ys', terminator ∉ xs → terminator ∉ xs' → args = xs ++ failFastFlag :: ys →
      xs ++ ys = xs' ++ ys' → ∀ cli, parse args = .ok cli ↔
        parse (xs' ++ failFastFlag :: ys') = .ok cli := by
  refine ⟨⟨?_, ?_⟩, fun file => ⟨?_, ?_⟩, ?_, fun cli hok => ⟨h.selected hok view, ?_⟩, ?_⟩
  · rintro ⟨cli, hcheck⟩
    exact (h.check_iff.1 hcheck).1
  · exact fun hasks => ⟨_, h.check_iff.2 ⟨hasks, rfl⟩⟩
  · rintro ⟨cli, htokens⟩
    exact (h.tokens_iff.1 htokens).1
  · exact fun hasks => ⟨_, h.tokens_iff.2 ⟨hasks, rfl⟩⟩
  · rintro ⟨hcheck, file, htokens⟩
    have hok := (h.check_iff.2 ⟨hcheck, rfl⟩).1
    have hok' := (h.tokens_iff.2 ⟨htokens, rfl⟩).1
    nomatch congrArg Cli.lexFile? (Except.ok.inj (hok.symm.trans hok'))
  · rw [run, hok]
  · rintro xs ys xs' ys' hxs hxs' rfl hsame cli
    rw [h.parse_move hxs, hsame, h.parse_move hxs']

/-- A flag between the paths, and behind `--` something that looks like an option. -/
theorem modes_exclusive_plainParser :
    Documented plainParser ∧
      AsksCheck (["a.sim", "-", "--fail-fast", "--", "--lex", "b.sim"].map utf8) ∧
      ∃ cli, plainParser (["a.sim", "-", "--fail-fast", "--", "--lex", "b.sim"].map utf8) =
          .ok cli ∧
        cli = ⟨["a.sim", "-", "--lex", "b.sim"].map utf8, true, none⟩ ∧
        run plainParser (FileTree.view ⟨[], []⟩)
            (["a.sim", "-", "--fail-fast", "--", "--lex", "b.sim"].map utf8) =
          checkPaths (FileTree.view ⟨[], []⟩) .failFast
            (["a.sim", "-", "--lex", "b.sim"].map utf8) := by
  have h := modes_exclusive plainParser_documented (FileTree.view ⟨[], []⟩)
    (["a.sim", "-", "--fail-fast", "--", "--lex", "b.sim"].map utf8)
  have hok : plainParser (["a.sim", "-", "--fail-fast", "--", "--lex", "b.sim"].map utf8) =
      .ok ⟨["a.sim", "-", "--lex", "b.sim"].map utf8, true, none⟩ :=
    plainParser_eq_ok_iff.2 (by decide)
  exact ⟨plainParser_documented, h.1.1 ⟨_, hok, rfl⟩, _, hok, rfl, (h.2.2.2.1 _ hok).2⟩

end SinglePass.Command
