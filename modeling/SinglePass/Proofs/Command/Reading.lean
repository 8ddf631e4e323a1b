import SinglePass.Command.Run

/-!
# Parsers of command lines

The program does not read its command line itself.  What it relies on is that the parser goes by the
rules that are documented for the declared arguments (`Documented`):

* `Reads`: which arguments a command line uses, read from left to right by their declarations.  An
  option has no abbreviations, and an argument that begins with a hyphen is no value.
* `Fits`: whether the arguments that are used go together.
* `Cli.ofUses`: what they come to.

A command line is read in one way at most (`Reads.unique`), because `Use.readAll?` finds whatever
there is to read (`readAll?_eq_some_iff`).  So there are parsers that go by the rules
(`plainParser_documented`), and all of them hand over the same (`Documented.parse_eq_ok_iff`).
-/

namespace SinglePass.Command

/-! ## The rules -/

/-- The arguments that a command line uses. -/
inductive Reads : List OsText → List Use → Prop
  | nil : Reads [] []
  /-- Everything behind `--` is a value. -/
  | behind (paths : List OsText) :
      Reads (terminator :: paths) (paths.map fun path => ⟨.paths, some path⟩)
  | value {text : OsText} {rest : List OsText} {uses : List Use} (plain : IsPlain text)
      (others : Reads rest uses) : Reads (text :: rest) (⟨.paths, some text⟩ :: uses)
  | flag {id : ArgId} {name : String} {rest : List OsText} {uses : List Use}
      (long : (declaration id).long? = some name) (action : (declaration id).action = .setTrue)
      (others : Reads rest uses) : Reads (longOption name :: rest) (⟨id, none⟩ :: uses)
  /-- The value of an option is the next argument. -/
  | option {id : ArgId} {name : String} {value : OsText} {rest : List OsText} {uses : List Use}
      (long : (declaration id).long? = some name) (action : (declaration id).action = .set)
      (plain : IsPlain value) (others : Reads rest uses) :
      Reads (longOption name :: value :: rest) (⟨id, some value⟩ :: uses)
  /-- The value of an option is behind `=`, whatever it is. -/
  | attached {id : ArgId} {name : String} {value : OsText} {rest : List OsText} {uses : List Use}
      (long : (declaration id).long? = some name) (action : (declaration id).action = .set)
      (others : Reads rest uses) :
      Reads (longOptionWith name value :: rest) (⟨id, some value⟩ :: uses)

/-- What is documented of a parser of command lines. -/
structure Documented (parse : ArgumentParser) : Prop where
  /-- What is handed over has been read, and is what the arguments come to. -/
  reads : ∀ {args cli}, parse args = .ok cli → ∃ uses, Reads args uses ∧ cli = Cli.ofUses uses
  /-- Arguments that do not go together are refused. -/
  fits : ∀ {args cli uses}, parse args = .ok cli → Reads args uses → Fits uses
  /-- Nothing else is. -/
  accepts : ∀ {args uses}, Reads args uses → Fits uses → ∃ cli, parse args = .ok cli

/-! ## Reading is a function -/

section

variable {id : ArgId} {name : String} {text value : OsText} {args rest : List OsText}
  {uses : List Use}

/-- Only the flag takes no value. -/
theorem eq_failFast_of_setTrue (h : (declaration id).action = .setTrue) : id = .failFast := by
  cases id with
  | failFast => rfl
  | _ => nomatch h

/-- Only the option for a file of tokens takes a value of its own. -/
theorem eq_lexFile_of_set (h : (declaration id).action = .set) : id = .lexFile := by
  cases id with
  | lexFile => rfl
  | _ => nomatch h

/-- The only flag. -/
theorem Reads.failFast (others : Reads rest uses) :
    Reads (longOption "fail-fast" :: rest) (⟨.failFast, none⟩ :: uses) :=
  .flag rfl rfl others

/-- The only option with a value. -/
theorem Reads.lexFile (plain : IsPlain value) (others : Reads rest uses) :
    Reads (longOption "lex" :: value :: rest) (⟨.lexFile, some value⟩ :: uses) :=
  .option rfl rfl plain others

/-- A plain argument is not the terminator. -/
theorem IsPlain.ne_terminator (h : IsPlain text) : text ≠ terminator := by
  rintro rfl
  revert h
  decide

/-- A plain argument is not the flag. -/
theorem IsPlain.ne_failFast (h : IsPlain text) : text ≠ longOption "fail-fast" := by
  rintro rfl
  revert h
  decide

/-- What begins with the name of an option and `=` is that option with a value. -/
theorem longOptionWith_drop (h : longOptionWith "lex" [] <+: text) :
    longOptionWith "lex" (text.drop (longOptionWith "lex" []).length) = text := by
  obtain ⟨value, rfl⟩ := h
  rw [List.drop_left, longOptionWith, longOptionWith, List.append_nil]

/-- One argument, or an option with its value, is read after the other. -/
theorem readAll?_cons (text : OsText) (rest : List OsText) :
    Use.readAll? (text :: rest) =
      if text = terminator then some (rest.map fun path => ⟨.paths, some path⟩)
      else if IsPlain text then (Use.readAll? rest).map (⟨.paths, some text⟩ :: ·)
      else if text = longOption "fail-fast" then (Use.readAll? rest).map (⟨.failFast, none⟩ :: ·)
      else if text = longOption "lex" then
        match rest with
        | [] => none
        | value :: rest =>
          if IsPlain value then (Use.readAll? rest).map (⟨.lexFile, some value⟩ :: ·) else none
      else if longOptionWith "lex" [] <+: text then
        (Use.readAll? rest).map
          (⟨.lexFile, some (text.drop (longOptionWith "lex" []).length)⟩ :: ·)
      else none :=
  Use.readAll?.eq_def (text :: rest)

/-- The flag is read as itself. -/
theorem readAll?_failFast (rest : List OsText) :
    Use.readAll? (longOption "fail-fast" :: rest) =
      (Use.readAll? rest).map (⟨.failFast, none⟩ :: ·) := by
  rw [readAll?_cons, if_neg (by decide), if_neg (by decide), if_pos rfl]

/-- The option is read together with its value. -/
theorem readAll?_lex (hplain : IsPlain value) (rest : List OsText) :
    Use.readAll? (longOption "lex" :: value :: rest) =
      (Use.readAll? rest).map (⟨.lexFile, some value⟩ :: ·) := by
  rw [readAll?_cons, if_neg (by decide), if_neg (by decide), if_neg (by decide), if_pos rfl]
  exact if_pos hplain

/-- No other rule reads an option with its value behind `=`. -/
theorem readAll?_lexWith (value : OsText) (rest : List OsText) :
    Use.readAll? (longOptionWith "lex" value :: rest) =
      (Use.readAll? rest).map (⟨.lexFile, some value⟩ :: ·) := by
  have happend : longOptionWith "lex" value = longOptionWith "lex" [] ++ value := by
    rw [longOptionWith, longOptionWith, List.append_nil]
  have hlength : (longOptionWith "lex" value).length = 6 + value.length := by
    rw [happend, List.length_append]
    rfl
  have hlonger {text : OsText} (h : text.length < 6) : longOptionWith "lex" value ≠ text := by
    rintro rfl
    omega
  have hplain : ¬ IsPlain (longOptionWith "lex" value) := by
    rintro (hhyphen | hhead)
    · exact hlonger (by decide) hhyphen
    · exact hhead rfl
  have hflag : longOptionWith "lex" value ≠ longOption "fail-fast" := fun h =>
    absurd (congrArg (·[2]?) h) (show ¬ some (108 : UInt8) = some 102 by decide)
  have hdrop : (longOptionWith "lex" value).drop (longOptionWith "lex" []).length = value := by
    rw [happend, List.drop_left]
  rw [readAll?_cons, if_neg (hlonger (by decide)), if_neg hplain, if_neg hflag,
    if_neg (hlonger (by decide)), if_pos ⟨value, happend.symm⟩, hdrop]

/-- What is found can be read. -/
theorem reads_of_readAll? (h : Use.readAll? args = some uses) : Reads args uses := by
  fun_induction Use.readAll? args generalizing uses with
  | case1 =>
    obtain rfl := Option.some.inj h
    exact .nil
  | case2 rest =>
    obtain rfl := Option.some.inj h
    exact .behind rest
  | case3 text rest _ hplain ih =>
    obtain ⟨others, hothers, rfl⟩ := Option.map_eq_some_iff.1 h
    exact .value hplain (ih hothers)
  | case4 rest _ _ ih =>
    obtain ⟨others, hothers, rfl⟩ := Option.map_eq_some_iff.1 h
    exact .failFast (ih hothers)
  | case5 => nomatch h
  | case6 value rest hplain _ _ _ ih =>
    obtain ⟨others, hothers, rfl⟩ := Option.map_eq_some_iff.1 h
    exact .lexFile hplain (ih hothers)
  | case7 => nomatch h
  | case8 text rest _ _ _ _ hstarts ih =>
    obtain ⟨others, hothers, rfl⟩ := Option.map_eq_some_iff.1 h
    have hread : Reads (longOptionWith "lex" (text.drop (longOptionWith "lex" []).length) :: rest)
        (⟨.lexFile, some (text.drop (longOptionWith "lex" []).length)⟩ :: others) :=
      .attached rfl rfl (ih hothers)
    rwa [longOptionWith_drop hstarts] at hread
  | case9 => nomatch h

/-- Whatever there is to read is found. -/
theorem Reads.readAll?_eq (h : Reads args uses) : Use.readAll? args = some uses := by
  induction h with
  | nil => rfl
  | behind paths => rw [readAll?_cons, if_pos rfl]
  | value plain _ ih =>
    rw [readAll?_cons, if_neg plain.ne_terminator, if_pos plain, ih]
    rfl
  | flag long action _ ih =>
    obtain rfl := eq_failFast_of_setTrue action
    obtain rfl := Option.some.inj long
    rw [readAll?_failFast, ih]
    rfl
  | option long action plain _ ih =>
    obtain rfl := eq_lexFile_of_set action
    obtain rfl := Option.some.inj long
    rw [readAll?_lex plain, ih]
    rfl
  | attached long action _ ih =>
    obtain rfl := eq_lexFile_of_set action
    obtain rfl := Option.some.inj long
    rw [readAll?_lexWith, ih]
    rfl

/-- Reading from left to right finds what the rules say. -/
theorem readAll?_eq_some_iff : Use.readAll? args = some uses ↔ Reads args uses :=
  ⟨reads_of_readAll?, Reads.readAll?_eq⟩

/-- There is one way at most to read a command line. -/
theorem Reads.unique {uses' : List Use} (h : Reads args uses) (h' : Reads args uses') :
    uses = uses' :=
  Option.some.inj (h.readAll?_eq.symm.trans h'.readAll?_eq)

end

/-! ## Parsers that go by the rules -/

/-- All parsers that go by the rules hand over the same. -/
theorem Documented.parse_eq_ok_iff {parse : ArgumentParser} (h : Documented parse)
    {args : List OsText} {cli : Cli} :
    parse args = .ok cli ↔ ∃ uses, Reads args uses ∧ Fits uses ∧ cli = Cli.ofUses uses := by
  constructor
  · intro hparse
    obtain ⟨uses, hreads, hcli⟩ := h.reads hparse
    exact ⟨uses, hreads, h.fits hparse hreads, hcli⟩
  · rintro ⟨uses, hreads, hfits, rfl⟩
    obtain ⟨cli, hparse⟩ := h.accepts hreads hfits
    -- Whatever the parser has read is the same, as there is only one way to read it.
    obtain ⟨uses', hreads', hcli⟩ := h.reads hparse
    rw [hparse, hcli, hreads.unique hreads']

/-- What is read of a command line are its uses, if they fit. -/
theorem read?_eq_some_iff {args : List OsText} {cli : Cli} :
    Cli.read? args = some cli ↔ ∃ uses, Reads args uses ∧ Fits uses ∧ cli = Cli.ofUses uses := by
  simp only [← readAll?_eq_some_iff, Cli.read?]
  cases hread : Use.readAll? args with
  | none => simp
  | some uses =>
    by_cases hfits : Fits uses
    · simp [hfits, eq_comm]
    · simp [hfits]

/-- The plain parser hands over what is read, and nothing else. -/
theorem plainParser_eq_ok_iff {args : List OsText} {cli : Cli} :
    plainParser args = .ok cli ↔ Cli.read? args = some cli := by
  unfold plainParser
  cases Cli.read? args <;> simp

/-- There are such parsers. -/
theorem plainParser_documented : Documented plainParser where
  reads {args cli} h := by
    obtain ⟨uses, hreads, -, hcli⟩ := read?_eq_some_iff.1 (plainParser_eq_ok_iff.1 h)
    exact ⟨uses, hreads, hcli⟩
  fits {args cli uses} h hreads := by
    obtain ⟨uses', hreads', hfits, -⟩ := read?_eq_some_iff.1 (plainParser_eq_ok_iff.1 h)
    rwa [hreads.unique hreads']
  accepts {args uses} hreads hfits :=
    ⟨Cli.ofUses uses, plainParser_eq_ok_iff.2 (read?_eq_some_iff.2 ⟨uses, hreads, hfits, rfl⟩)⟩

end SinglePass.Command
