import SinglePass.Proofs.Command.Checking
import SinglePass.Proofs.Engine.Conservation
import SinglePass.Proofs.Scanning.Stream

/-!
# Printing tokens

The output and the exit code of printing the tokens of a file, whatever the file holds.

A scan meets its faults in the order of their positions: invalid tokens stand one behind the other,
and a failure of the source is met at its end, behind all of them (`Lexicon.Tiles.scan_faults`,
`foundIn_increasing`).  So the faults that are listed behind the tokens stand in the order in which
they were found.

* `foundIn`: the faults of a scan, told from its tokens.
* `PrintsTokens`: what printing the tokens of a source comes to, and `tokens_printed` that it comes
  to that for every file that can be opened.
-/

namespace SinglePass

variable {κ τ : Type} [TokenKind κ]

/-! ## The faults of a scan -/

/-- The faults of a scan with the given tokens in front of the one that ends the source: one for
each invalid token, and behind them the failure of the source. -/
def foundIn (source : Source) (tokens : List (Token κ)) (eof : Token κ) : List (Diagnostic κ τ) :=
  (tokens.filter (TokenKind.isInvalid ·.kind)).map .lexical ++
    (source.failure?.map (.io eof.position)).toList

omit [TokenKind κ] in
/-- A source without a failure is one that can be read. -/
theorem Source.failure?_eq_none_iff {source : Source} :
    source.failure? = none ↔ source.Readable := by
  induction source with
  | nil => simp [failure?, Readable]
  | cons reading more ih =>
    cases reading with
    | line text => simpa [failure?, Readable] using ih
    | failure cause =>
      constructor
      · intro h
        cases h
      · exact fun h => absurd List.mem_cons_self (h cause)

/-- Nothing is found if no token is invalid and every line can be read. -/
theorem foundIn_eq_nil_iff {source : Source} {tokens : List (Token κ)} {eof : Token κ} :
    (foundIn source tokens eof : List (Diagnostic κ τ)) = [] ↔
      (∀ t ∈ tokens, TokenKind.isInvalid t.kind = false) ∧ source.Readable := by
  simp [foundIn, ← Source.failure?_eq_none_iff, List.filter_eq_nil_iff]

/-- If the tokens stand in reading order, so do the faults. -/
theorem foundIn_increasing {source : Source} {tokens : List (Token κ)} {eof : Token κ}
    (h : (tokens ++ [eof]).Pairwise fun t u => t.position < u.position) :
    (foundIn source tokens eof : List (Diagnostic κ τ)).Pairwise fun d e =>
      d.position < e.position := by
  obtain ⟨htokens, -, hend⟩ := List.pairwise_append.1 h
  refine List.pairwise_append.2 ⟨?_, ?_, ?_⟩
  · exact List.pairwise_map.2 (htokens.sublist List.filter_sublist)
  · cases source.failure? with
    | none => exact .nil
    | some cause => exact List.pairwise_singleton _ _
  · intro d hd e he
    obtain ⟨t, ht, rfl⟩ := List.mem_map.1 hd
    obtain ⟨cause, -, rfl⟩ := Option.map_eq_some_iff.1 (Option.mem_toList.1 he)
    exact hend t (List.mem_filter.1 ht).1 eof (List.mem_singleton.2 rfl)

/-- In a source that is tiled by its lexicon these are the faults that a scan meets, from the first
line on. -/
theorem Lexicon.Tiles.scan_faults {l : Lexicon κ} {gap tail : List Char → Prop}
    (h : l.Tiles gap tail) (source : Source) :
    ∃ (tokens : List (Token κ)) (eof : Token κ),
      source.tokens l.classifier = tokens ++ [eof] ∧ eof.isEnd = true ∧
      (∀ t ∈ tokens, t.isEnd = false) ∧
      (Cursor.start source).faults ++ (source.stream l.classifier).flatMap Scanned.faults =
        (foundIn source tokens eof : List (Diagnostic κ τ)) := by
  obtain ⟨tokens, eof, failure?, htiled, hfailure, hstart⟩ := Source.tiled (τ := τ) h source
  refine ⟨tokens, eof, ?_, htiled.ends, htiled.ordinary, ?_⟩
  · rw [← Source.map_token_stream (τ := τ), htiled.map_token]
  · rw [htiled.stream_eq, List.flatMap_append, flatMap_faults_ofToken, List.flatMap_singleton,
      foundIn, ← hfailure]
    by_cases htokens : tokens = []
    · rw [htokens]
      rfl
    · rw [hstart htokens]
      rfl

namespace Command

/-! ## Files -/

/-- What printing the tokens of a source comes to.  A scanner reads the tokens up to the one that
ends the source. -/
structure PrintsTokens (path : String) (source : Source) (out : Output)
    (tokens : List (Token Simple.Kind)) (eof : Token Simple.Kind) : Prop where
  drained : (Scanner.drain (τ := Simple.Ty) Simple.classifier (.init source [])).1 =
    tokens ++ [eof]
  ends : eof.isEnd = true
  ordinary : ∀ t ∈ tokens, t.isEnd = false
  /-- There is a line for each of them. -/
  stdout_eq : out.stdout = (tokens ++ [eof]).map tokenLine
  exit_eq_zero_iff : out.exit = 0 ↔
    (∀ t ∈ tokens ++ [eof], TokenKind.isInvalid t.kind = false) ∧ source.Readable
  exit_eq : out.exit = 0 ∨ out.exit = 1
  /-- Nothing is said of anything but the faults of the scan. -/
  listing : Listing path (foundIn source tokens eof) out.stderr
  /-- They are listed as they were detected: sorting them changes nothing. -/
  detected : (Scanner.drain Simple.classifier (.init source [])).2.sink? =
    some (foundIn source tokens eof : List (Diagnostic Simple.Kind Simple.Ty))
  sorted : (Scanner.drain Simple.classifier (.init source [])).2.finish.1 =
    some (foundIn source tokens eof : List (Diagnostic Simple.Kind Simple.Ty))
  increasing : (foundIn source tokens eof : List (Diagnostic Simple.Kind Simple.Ty)).Pairwise
    fun d e => d.position < e.position

/-- What is printed are the tokens, and the faults that are found, in order. -/
theorem printTokens_eq {path : OsText} {source : Source}
    {found : List (Diagnostic Simple.Kind Simple.Ty)}
    (h : (Cursor.start source).faults ++
      (source.stream Simple.classifier).flatMap Scanned.faults = found) :
    printTokens path source =
      ⟨if (Diagnostic.sort found).isEmpty then 0 else 1,
        (source.tokens Simple.classifier).map tokenLine,
        Simple.renderDiagnostics (display path) (Diagnostic.sort found)⟩ := by
  rw [← h, ← Source.map_token_stream (τ := Simple.Ty), List.map_map]
  rfl

/-- Printing the tokens of a source comes to one of the outcomes. -/
theorem exists_printsTokens (path : OsText) (source : Source) :
    ∃ tokens eof, PrintsTokens (display path) source (printTokens path source) tokens eof := by
  obtain ⟨tokens, eof, htokens, hend, hordinary, hfaults⟩ :=
    Simple.tiles.scan_faults (τ := Simple.Ty) source
  change source.tokens Simple.classifier = _ at htokens
  have hincreasing : (foundIn source tokens eof :
      List (Diagnostic Simple.Kind Simple.Ty)).Pairwise fun d e => d.position < e.position := by
    apply foundIn_increasing
    rw [← htokens]
    exact Simple.tiles.positions_increase source
  -- The faults increase, so sorting leaves them as they were found.
  have hsort : Diagnostic.sort (foundIn source tokens eof) =
      (foundIn source tokens eof : List (Diagnostic Simple.Kind Simple.Ty)) :=
    Diagnostic.sort_eq_self (hincreasing.imp Position.le_of_lt)
  have hdetected : (Scanner.drain Simple.classifier (.init source [])).2.sink? =
      some (foundIn source tokens eof : List (Diagnostic Simple.Kind Simple.Ty)) := by
    rw [Scanner.sink_drain, List.nil_append, ← hfaults]
    rfl
  have hprint : printTokens path source = _ := printTokens_eq hfaults
  rw [hsort, htokens] at hprint
  have hvalid : TokenKind.isInvalid eof.kind = false := by
    rw [Token.isEnd_eq_true.1 hend]
    exact Simple.tiles.end_valid
  refine ⟨tokens, eof, ?_, hend, hordinary, ?_, ?_, ?_, ?_, hdetected, ?_, hincreasing⟩
  · rw [Scanner.tokens_drain, htokens]
  · rw [hprint]
  · have hall : (∀ t ∈ tokens ++ [eof], TokenKind.isInvalid t.kind = false) ↔
        ∀ t ∈ tokens, TokenKind.isInvalid t.kind = false := by
      rw [List.forall_mem_append, List.forall_mem_singleton]
      exact and_iff_left hvalid
    have hexit : (printTokens path source).exit = 0 ↔
        (foundIn source tokens eof : List (Diagnostic Simple.Kind Simple.Ty)) = [] := by
      rw [hprint]
      cases (foundIn source tokens eof : List (Diagnostic Simple.Kind Simple.Ty)) <;> simp
    rw [hall, hexit, foundIn_eq_nil_iff]
  · rw [hprint]
    dsimp only
    split
    · exact .inl rfl
    · exact .inr rfl
  · rw [hprint]
    exact listing_renderDiagnostics (display path) _
  · rw [Scanner.finish, hdetected, Option.map_some, hsort]

/-- **What printing tokens comes to.**  Whatever a file holds that can be opened, printing its
tokens gives one line for each token of the scan, the one that ends the source last, and exits with
0 exactly if no token is invalid and every line can be read.  Otherwise each invalid token is listed
once, in the order of the scan, and behind them the failure to read, if there is one: as they are
detected, so they are sorted.  A command line that asks for the tokens prints just that. -/
theorem tokens_printed (view : FileView) (path : OsText) (source : Source)
    (hopen : openSource view path = .ok source) :
    (∃ tokens eof, PrintsTokens (display path) source (tokensOf view path) tokens eof) ∧
      ∀ cli : Cli, cli.lexFile? = some path → execute view cli = tokensOf view path := by
  constructor
  · rw [tokensOf, hopen]
    exact exists_printsTokens path source
  · intro cli hlex
    rw [execute, hlex]

/-- A tree with one file, in which reading fails in the third line. -/
def halfReadableTree : FileTree where
  nodes := [([utf8 "odd.sim"],
    .file (.ok ⟨[97, 32, 36, 10, 98, 10, 99], some (.other "Input/output error (os error 5)")⟩))]
  home := []

/-- Its first line has an invalid token, and what there is of its third one is not read. -/
theorem tokens_printed_halfReadable :
    openSource halfReadableTree.view (utf8 "odd.sim") =
        .ok [.line "a $", .line "b", .failure "Input/output error (os error 5)"] ∧
      (∃ tokens eof, PrintsTokens "odd.sim"
        [.line "a $", .line "b", .failure "Input/output error (os error 5)"]
        (tokensOf halfReadableTree.view (utf8 "odd.sim")) tokens eof) ∧
      execute halfReadableTree.view ⟨[], false, some (utf8 "odd.sim")⟩ =
        ⟨1,
          ["   1:1    Ident            a", "   1:3    InvalidChar      $",
            "   2:1    Ident            b", "   2:2    Eof              <EOF>"],
          ["odd.sim: (1,3): Invalid token '$'",
            "odd.sim: (2,2): I/O error: Input/output error (os error 5)"]⟩ := by
  have hopen : openSource halfReadableTree.view (utf8 "odd.sim") =
      .ok [.line "a $", .line "b", .failure "Input/output error (os error 5)"] := by
    decide +kernel
  obtain ⟨hprints, hexecute⟩ := tokens_printed halfReadableTree.view (utf8 "odd.sim") _ hopen
  rw [display_utf8] at hprints
  refine ⟨hopen, hprints, ?_⟩
  rw [hexecute _ rfl]
  decide +kernel

end Command

end SinglePass
