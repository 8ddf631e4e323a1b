import SinglePass.Proofs.Engine.Conservation
import SinglePass.Proofs.Engine.Advance

/-!
# What requiring a token does

`mustBe` consumes a token of the required kind or rejects the one that is looked at.  While a run is
recovering it skips: to the first token of the kind among those that are left, which it consumes, or
else to the end of the source.  `State.Requires` says so of one state, with all that the call leaves
behind, and `mustBe_effect` says that every state of every run is such.

Skipping is an induction on its rounds (`State.skipping`); `State.Onward` is what carries it.  The
faults that the scanner records on the way are told from the tokens that the run comes to: for every
classifier the lexical ones are, and for the lexicons that tile their lines all of them.
-/

namespace SinglePass

variable {κ τ ω : Type}

/-! ## Moving on -/

/-- A run that has moved on by `n` tokens.  Of the faults exactly those are recorded that came with
the tokens it has come to. -/
structure State.Onward (n : Nat) (s t : State κ τ ω) : Prop where
  input_eq : t.input = s.input.drop n
  sink_eq : t.sink = s.sink ++ (s.ahead.tokens.take n).flatMap Scanned.faults
  scopes_eq : t.scopes = s.scopes
  notes_eq : t.notes = s.notes

namespace State

variable {s t : State κ τ ω} {n : Nat}

/-- The flag does not matter for moving on. -/
theorem shift_withRecovering (flag : Bool) (s : State κ τ ω) :
    ({ s with recovering := flag } : State κ τ ω).shift = { s.shift with recovering := flag } := by
  unfold shift
  cases s.ahead.tokens <;> rfl

/-- Neither does it for staying. -/
theorem Onward.nothing (flag : Bool) (s : State κ τ ω) :
    s.Onward 0 { s with recovering := flag } :=
  ⟨rfl, (List.append_nil _).symm, rfl, rfl⟩

/-- A round of moving on comes before the others. -/
theorem Onward.step (hmore : s.ahead.tokens ≠ []) (h : s.shift.Onward n t) :
    s.Onward (n + 1) t := by
  obtain ⟨next, more, htokens⟩ := List.exists_cons_of_ne_nil hmore
  have hsink : s.shift.sink = s.sink ++ next.faults := by rw [shift_of_cons htokens]
  constructor
  · rw [h.input_eq, input_shift_of_cons htokens]
    rfl
  · rw [h.sink_eq, hsink, shift_tokens, htokens, List.tail_cons, List.take_succ_cons,
      List.flatMap_cons, List.append_assoc]
  · rw [h.scopes_eq, shift_scopes]
  · rw [h.notes_eq, shift_notes]

end State

variable [TokenKind κ]

/-! ## Skipping to a token -/

namespace Recognizer

variable {kind : κ} {s : State κ τ ω} {i : Nat}

/-- Before a round of skipping there is another token, and the search goes on with it. -/
theorem findIdx?_of_not_over (h : ¬ s.Over kind) :
    s.ahead.tokens ≠ [] ∧ s.input = s.lookahead :: s.shift.input ∧
      s.input.findIdx? (·.kind = kind) =
        (s.shift.input.findIdx? (·.kind = kind)).map (· + 1) := by
  unfold State.Over at h
  rw [not_or, not_or] at h
  obtain ⟨hkind, -, htokens⟩ := h
  obtain ⟨next, more, hnext⟩ := List.exists_cons_of_ne_nil htokens
  have hinput : s.input = s.lookahead :: s.shift.input := by
    rw [State.input_shift_of_cons hnext, State.input]
  refine ⟨htokens, hinput, ?_⟩
  rw [hinput, List.findIdx?_cons, if_neg (by simpa using hkind)]

/-- While recovering, the first token of the kind is consumed, and the recovery is over. -/
theorem mustBe_of_findIdx?_eq_some (strategy : Strategy) (placed : s.Placed)
    (hr : s.recovering = true) (hkind : kind ≠ TokenKind.endOfFile)
    (hfind : s.input.findIdx? (·.kind = kind) = some i) :
    ∃ token t, s.input[i]? = some token ∧ mustBe kind strategy s = (.value (some token), t) ∧
      t.recovering = false ∧ s.Onward (i + 1) t := by
  induction s using State.skipping kind generalizing i with
  | stop s hover =>
    have hk : s.lookahead.kind = kind := by
      rcases placed.over_iff.1 hover with hk | hend
      · exact hk
      · -- nothing is left at the end of the source, which is not of the kind
        have hne : s.lookahead.kind ≠ kind := by
          rw [Token.isEnd_eq_true.1 hend]
          exact hkind.symm
        rw [State.input, placed.tokens_eq_nil hend, List.map_nil, List.findIdx?_cons,
          if_neg (by simpa using hne)] at hfind
        cases hfind
    rw [State.input, List.findIdx?_cons, if_pos (decide_eq_true hk)] at hfind
    obtain rfl := Option.some.inj hfind
    have htokens := placed.tokens_ne_nil (hk ▸ hkind)
    refine ⟨s.lookahead, ({ s with recovering := false } : State κ τ ω).shift, rfl, ?_, ?_, ?_⟩
    · rw [mustBe_of_recovering strategy hr, resynchronize, State.discardTo_of_over hover, if_pos hk]
      rfl
    · rw [State.shift_recovering]
    · rw [State.shift_withRecovering]
      exact .step htokens (.nothing false s.shift)
  | round s hnot ih =>
    obtain ⟨htokens, hinput, hsearch⟩ := findIdx?_of_not_over hnot
    rw [hsearch] at hfind
    obtain ⟨j, hj, rfl⟩ := Option.map_eq_some_iff.1 hfind
    obtain ⟨token, t, htoken, hmustBe, hflag, honward⟩ :=
      ih placed.shift ((State.shift_recovering s).trans hr) hj
    refine ⟨token, t, ?_, ?_, hflag, .step htokens honward⟩
    · rw [hinput, List.getElem?_cons_succ, htoken]
    · rw [mustBe_of_not_over strategy hr hnot, hmustBe]

/-- If there is no such token, all tokens up to the end of the source are skipped. -/
theorem mustBe_of_findIdx?_eq_none (strategy : Strategy) (placed : s.Placed)
    (hr : s.recovering = true) (hfind : s.input.findIdx? (·.kind = kind) = none) :
    ∃ t, mustBe kind strategy s = (.value none, t) ∧ t.recovering = true ∧
      t.lookahead.isEnd = true ∧ s.Onward (s.input.length - 1) t := by
  induction s using State.skipping kind with
  | stop s hover =>
    have hk : s.lookahead.kind ≠ kind := by
      intro hk
      rw [State.input, List.findIdx?_cons, if_pos (decide_eq_true hk)] at hfind
      cases hfind
    have hend := (placed.over_iff.1 hover).resolve_left hk
    refine ⟨s, ?_, hr, hend, ?_⟩
    · rw [mustBe_of_recovering strategy hr, resynchronize, State.discardTo_of_over hover, if_neg hk]
    · rw [State.input, placed.tokens_eq_nil hend]
      have hsame := State.Onward.nothing true s
      rwa [← hr] at hsame
  | round s hnot ih =>
    obtain ⟨htokens, hinput, hsearch⟩ := findIdx?_of_not_over hnot
    rw [hsearch, Option.map_eq_none_iff] at hfind
    obtain ⟨t, hmustBe, hflag, hend, honward⟩ :=
      ih placed.shift ((State.shift_recovering s).trans hr) hfind
    refine ⟨t, ?_, hflag, hend, ?_⟩
    · rw [mustBe_of_not_over strategy hr hnot, hmustBe]
    · have hlength : s.input.length - 1 = s.shift.input.length - 1 + 1 := by
        rw [hinput]
        rfl
      rw [hlength]
      exact .step htokens honward

end Recognizer

/-! ## The states of a run -/

/-- A state that a run of a source can come to: moves lead there from its beginning. -/
def State.Reached (classifier : Classifier κ) (strategy : Strategy) (source : Source)
    (s : State κ τ ω) : Prop :=
  ∃ ms : List (Move κ τ strategy),
    Leads (State.initial classifier source : State κ τ ω).engine ms s.engine

namespace State.Reached

variable {classifier : Classifier κ} {strategy : Strategy} {source : Source} {s : State κ τ ω}

/-- The start of a source is reached. -/
theorem initial (classifier : Classifier κ) (strategy : Strategy) (source : Source) :
    (State.initial classifier source : State κ τ ω).Reached classifier strategy source :=
  ⟨[], rfl⟩

/-- Whatever drives the engine stays among them. -/
theorem driven {α : Type} {r : Recognizer κ τ ω α} (h : Driven r)
    (hs : s.Reached classifier strategy source) :
    (r strategy s).2.Reached classifier strategy source := by
  obtain ⟨ms, hms⟩ := hs
  obtain ⟨ms', hms'⟩ := h.followed strategy s
  exact ⟨ms ++ ms', hms.append hms'⟩

/-- Wherever a run has come to, the rest of a source is before it. -/
theorem placed (h : s.Reached classifier strategy source) : s.Placed := by
  obtain ⟨ms, hms⟩ := h
  have hinitial : (State.initial classifier source : State κ τ ω).engine.Placed :=
    (State.placed_initial (ω := ω) classifier source).congr rfl rfl
  have hengine : s.engine.Placed :=
    hms.preserves (p := State.Placed) (fun _ _ => Move.placed_after) hinitial
  exact hengine.congr rfl rfl

/-- Wherever a run has come to, some tokens of the source are behind it. -/
theorem reads (h : s.Reached classifier strategy source) :
    ∃ n, s.Reads classifier source n := by
  obtain ⟨ms, hms⟩ := h
  obtain ⟨n, hengine⟩ := hms.preserves (p := fun u => ∃ n, u.Reads classifier source n)
    (fun m _ => m.exists_reads)
    ⟨0, (State.reads_initial (ω := ω) classifier source).congr rfl rfl rfl⟩
  exact ⟨n, hengine.congr rfl rfl rfl⟩

end State.Reached

/-! ## What the scanner records on the way -/

/-- The faults that a token of a source brings: its own, and the failure of the source if it is the
one that ends it. -/
def Source.faultsOf (source : Source) (t : Token κ) : List (Diagnostic κ τ) :=
  Cursor.lexicalFaults t ++
    if t.isEnd then (source.failure?.map (.io t.position)).toList else []

/-- The faults that come with some tokens, if a lexicon tiles the lines. -/
def Brings (source : Source) (ts : List (Token κ)) (faults : List (Diagnostic κ τ)) : Prop :=
  faults = ts.flatMap source.faultsOf

/-- The faults that come with some tokens, whatever the classifier: the scanner has found all of
them, and those of invalid tokens are the ones of these tokens. -/
def BringsLexical (ts : List (Token κ)) (faults : List (Diagnostic κ τ)) : Prop :=
  faults.filter Diagnostic.isLexical = ts.flatMap Cursor.lexicalFaults ∧
    ∀ d ∈ faults, d.isScanning = true

/-- Tokens of a source bring the faults of those among them that are invalid. -/
theorem bringsLexical_of_subset {classifier : Classifier κ} {source : Source}
    {found : List (Scanned κ τ)} (h : found ⊆ source.stream classifier) :
    BringsLexical (found.map Scanned.token) (found.flatMap Scanned.faults) := by
  constructor
  · rw [List.filter_flatMap, List.flatMap_map]
    exact List.flatMap_congr fun scanned hmem => Cursor.filter_isLexical_of_mem_stream (h hmem)
  · intro d hd
    obtain ⟨scanned, hmem, hd⟩ := List.mem_flatMap.1 hd
    exact Source.isScanning_of_mem_stream (h hmem) d hd

/-- If there are tokens before it, the token that ends a source brings the failure. -/
theorem Lexicon.Tiles.faults_eq_faultsOf {l : Lexicon κ} {gap tail : List Char → Prop}
    (htiles : l.Tiles gap tail) {source : Source} {scanned : Scanned κ τ}
    (h : scanned ∈ (source.stream l.classifier).tail) :
    scanned.faults = source.faultsOf scanned.token := by
  obtain ⟨ts, eof, failure?, htiled, hfailure, hstart⟩ := Source.tiled (τ := τ) htiles source
  rw [htiled.stream_eq] at h
  cases ts with
  | nil => cases h
  | cons t ts =>
    rcases List.mem_append.1 h with h | h
    · obtain ⟨u, hu, rfl⟩ := List.mem_map.1 h
      have hordinary : u.isEnd = false := htiled.ordinary u (List.mem_cons_of_mem t hu)
      show Cursor.lexicalFaults u = Cursor.lexicalFaults u ++ if u.isEnd then _ else []
      rw [hordinary, if_neg Bool.false_ne_true, List.append_nil]
    · obtain rfl := List.mem_singleton.1 h
      have hvalid : (Cursor.lexicalFaults eof : List (Diagnostic κ τ)) = [] := by
        rw [Cursor.lexicalFaults, Token.isEnd_eq_true.1 htiled.ends, htiles.end_valid]
        rfl
      rw [hstart (List.cons_ne_nil t ts), List.nil_append] at hfailure
      show (failure?.map (.io eof.position)).toList =
        Cursor.lexicalFaults eof ++ if eof.isEnd then _ else []
      rw [hvalid, htiled.ends, if_pos rfl, hfailure, List.nil_append]

/-- Where lines are cut into gaps and lexemes, tokens bring their lexical faults and failures. -/
theorem Lexicon.Tiles.brings_of_subset {l : Lexicon κ} {gap tail : List Char → Prop}
    (htiles : l.Tiles gap tail) {source : Source} {found : List (Scanned κ τ)}
    (h : found ⊆ (source.stream l.classifier).tail) :
    Brings source (found.map Scanned.token) (found.flatMap Scanned.faults) := by
  unfold Brings
  rw [List.flatMap_map]
  exact List.flatMap_congr fun scanned hmem => htiles.faults_eq_faultsOf (h hmem)

/-! ## The effect of requiring a token -/

/-- A run that has moved on by `n` tokens and has recorded what comes with the tokens that it has
come to. -/
structure State.MovesOn (brings : List (Token κ) → List (Diagnostic κ τ) → Prop) (n : Nat)
    (s t : State κ τ ω) : Prop where
  input_eq : t.input = s.input.drop n
  sink_eq : ∃ faults, t.sink = s.sink ++ faults ∧ brings (s.input.tail.take n) faults
  scopes_eq : t.scopes = s.scopes
  notes_eq : t.notes = s.notes

/-- All that requiring a token of a kind does to a run on a source with these tokens. -/
structure State.Requires (tokens : List (Token κ))
    (brings : List (Token κ) → List (Diagnostic κ τ) → Prop) (kind : κ) (strategy : Strategy)
    (s : State κ τ ω) : Prop where
  rest : s.input <:+ tokens
  /-- While recovering, the first token of the kind is consumed with all before it. -/
  found : s.recovering = true → ∀ i, s.input.findIdx? (·.kind = kind) = some i →
    ∃ token t, s.input[i]? = some token ∧
      Recognizer.mustBe kind strategy s = (.value (some token), t) ∧
      t.recovering = false ∧ s.MovesOn brings (i + 1) t
  /-- If there is none, the run goes to the end of the source and is still recovering. -/
  missing : s.recovering = true → s.input.findIdx? (·.kind = kind) = none →
    ∃ t, Recognizer.mustBe kind strategy s = (.value none, t) ∧ t.recovering = true ∧
      t.lookahead.isEnd = true ∧ s.MovesOn brings (s.input.length - 1) t
  /-- Otherwise a token of the kind is consumed. -/
  present : s.recovering = false → s.lookahead.kind = kind →
    ∃ t, Recognizer.mustBe kind strategy s = (.value (some s.lookahead), t) ∧
      t.recovering = false ∧ s.MovesOn brings 1 t
  /-- Any other token is rejected where it stands. -/
  rejected : s.recovering = false → s.lookahead.kind ≠ kind →
    Recognizer.mustBe kind strategy s =
      match strategy with
      | .failFast => (.abort, s.record (.unexpected s.lookahead (.kind kind)))
      | .recovering =>
        (.value none,
          { s.record (.unexpected s.lookahead (.kind kind)) with recovering := true })

omit [TokenKind κ] in
/-- What goes onward over some tokens moves on with what these bring. -/
theorem State.Onward.movesOn {brings : List (Token κ) → List (Diagnostic κ τ) → Prop} {n : Nat}
    {s t : State κ τ ω} (h : s.Onward n t)
    (hbrings : ∀ found, found ⊆ s.ahead.tokens →
      brings (found.map Scanned.token) (found.flatMap Scanned.faults)) :
    s.MovesOn brings n t := by
  refine ⟨h.input_eq, ⟨_, h.sink_eq, ?_⟩, h.scopes_eq, h.notes_eq⟩
  have htokens : s.input.tail.take n = (s.ahead.tokens.take n).map Scanned.token := by
    rw [State.input, List.tail_cons, List.map_take]
  rw [htokens]
  exact hbrings _ (List.take_subset n _)

/-- The tokens that are ahead of a run are tokens of the source behind the first one. -/
theorem State.Reads.ahead_subset {classifier : Classifier κ} {source : Source} {n : Nat}
    {s : State κ τ ω} (h : s.Reads classifier source n) :
    s.ahead.tokens ⊆ (source.stream (τ := τ) classifier).tail := by
  rw [h.ahead_eq, ← List.drop_one, Nat.add_comm, ← List.drop_drop]
  exact List.drop_subset n _

namespace State.Reached

variable {strategy : Strategy} {source : Source} {s : State κ τ ω} {kind : κ}

/-- Requiring a token finds it, misses it or skips to it, with what the tokens bring. -/
theorem requires_of_brings {classifier : Classifier κ}
    {brings : List (Token κ) → List (Diagnostic κ τ) → Prop}
    (h : s.Reached classifier strategy source) (hkind : kind ≠ TokenKind.endOfFile)
    (hbrings : ∀ found, found ⊆ (source.stream (τ := τ) classifier).tail →
      brings (found.map Scanned.token) (found.flatMap Scanned.faults)) :
    s.Requires (source.tokens classifier) brings kind strategy := by
  have placed := h.placed
  obtain ⟨n, hreads⟩ := h.reads
  have hahead : ∀ found, found ⊆ s.ahead.tokens →
      brings (found.map Scanned.token) (found.flatMap Scanned.faults) :=
    fun found hfound => hbrings found (List.Subset.trans hfound hreads.ahead_subset)
  constructor
  · rw [hreads.input_eq]
    exact List.drop_suffix n _
  · intro hr i hfind
    obtain ⟨token, t, htoken, hmustBe, hflag, honward⟩ :=
      Recognizer.mustBe_of_findIdx?_eq_some strategy placed hr hkind hfind
    exact ⟨token, t, htoken, hmustBe, hflag, honward.movesOn hahead⟩
  · intro hr hfind
    obtain ⟨t, hmustBe, hflag, hend, honward⟩ :=
      Recognizer.mustBe_of_findIdx?_eq_none strategy placed hr hfind
    exact ⟨t, hmustBe, hflag, hend, honward.movesOn hahead⟩
  · intro hr hk
    have hflag : s.shift.recovering = false := (State.shift_recovering s).trans hr
    have hsame := State.Onward.nothing false s.shift
    rw [← hflag] at hsame
    refine ⟨s.shift, Recognizer.mustBe_of_kind_eq strategy hr hk, hflag, ?_⟩
    exact (Onward.step (placed.tokens_ne_nil (hk ▸ hkind)) hsame).movesOn hahead
  · intro hr hk
    cases strategy with
    | failFast => exact Recognizer.mustBe_failFast_of_kind_ne hr hk
    | recovering => exact Recognizer.mustBe_recovering_of_kind_ne hr hk

/-- Requiring a token brings the lexical faults of what is skipped. -/
theorem requires {classifier : Classifier κ} (h : s.Reached classifier strategy source)
    (hkind : kind ≠ TokenKind.endOfFile) :
    s.Requires (source.tokens classifier) BringsLexical kind strategy :=
  h.requires_of_brings hkind fun _ hfound =>
    bringsLexical_of_subset fun _ hmem => List.mem_of_mem_tail (hfound hmem)

/-- Where lines are cut into gaps and lexemes, requiring a token brings all faults of what is
skipped. -/
theorem requires_of_tiles {l : Lexicon κ} {gap tail : List Char → Prop}
    (htiles : l.Tiles gap tail) (h : s.Reached l.classifier strategy source)
    (hkind : kind ≠ TokenKind.endOfFile) :
    s.Requires (source.tokens l.classifier) (Brings source) kind strategy :=
  h.requires_of_brings hkind fun _ hfound => htiles.brings_of_subset hfound

end State.Reached

/-- In every state that a run comes to, requiring a token of a kind other than that of the end of
the source does this and nothing else, whatever the classifier; for Simple and for word lists, all
faults of the scanner are accounted for. -/
theorem mustBe_effect {ω₁ ω₂ : Type} {classifier : Classifier κ} {strategy : Strategy}
    {source : Source} {s : State κ τ ω} {simple : State Simple.Kind Simple.Ty ω₁}
    {words : State WordList.Kind WordList.Ty ω₂} {kind : κ} {kind₁ : Simple.Kind}
    {kind₂ : WordList.Kind} (hs : s.Reached classifier strategy source)
    (hsimple : simple.Reached Simple.classifier strategy source)
    (hwords : words.Reached WordList.classifier strategy source)
    (hkind : kind ≠ TokenKind.endOfFile) (hkind₁ : kind₁ ≠ .endOfFile)
    (hkind₂ : kind₂ ≠ .endOfFile) :
    s.Requires (source.tokens classifier) BringsLexical kind strategy ∧
      simple.Requires (source.tokens Simple.classifier) (Brings source) kind₁ strategy ∧
      words.Requires (source.tokens WordList.classifier) (Brings source) kind₂ strategy :=
  ⟨hs.requires hkind, hsimple.requires_of_tiles Simple.tiles hkind₁,
    hwords.requires_of_tiles WordList.tiles hkind₂⟩

/-- Two runs on a source that fails behind its first line.  One skips over an invalid character to
an equals sign, the other looks in vain for a semicolon and meets the failure. -/
theorem mustBe_effect_failing :
    ∃ (simple : State Simple.Kind Simple.Ty Unit) (words : State WordList.Kind WordList.Ty Unit),
      simple.Reached Simple.classifier .recovering [.line "x ? = 1", .failure "lost"] ∧
      words.Reached WordList.classifier .recovering [.line "x ? = 1", .failure "lost"] ∧
      (∃ t, Recognizer.mustBe .assign .recovering simple =
          (.value (some ⟨.assign, "=", ⟨1, 5⟩⟩), t) ∧
        t.lookahead = ⟨.intLiteral, "1", ⟨1, 7⟩⟩ ∧
        t.sink = simple.sink ++ [.lexical ⟨.invalidChar, "?", ⟨1, 3⟩⟩]) ∧
      ∃ t, Recognizer.mustBe .semicolon .recovering words = (.value none, t) ∧
        t.lookahead.isEnd = true ∧
        t.sink = words.sink ++ [.lexical ⟨.invalid, "?", ⟨1, 3⟩⟩, .lexical ⟨.invalid, "=", ⟨1, 5⟩⟩,
          .lexical ⟨.invalid, "1", ⟨1, 7⟩⟩, .io ⟨1, 8⟩ "lost"] := by
  have hsimple := State.Reached.driven (.composed (.unexpected (.kind .kwProgram)))
    (State.Reached.initial (τ := Simple.Ty) (ω := Unit) Simple.classifier .recovering
      [.line "x ? = 1", .failure "lost"])
  have hwords := State.Reached.driven (.composed (.unexpected (.kind .word)))
    (State.Reached.initial (τ := WordList.Ty) (ω := Unit) WordList.classifier .recovering
      [.line "x ? = 1", .failure "lost"])
  have hassign : Simple.Kind.assign ≠ .endOfFile := by decide
  have hsemicolon : WordList.Kind.semicolon ≠ .endOfFile := by decide
  obtain ⟨-, hfound, hmissing⟩ :=
    mustBe_effect hwords hsimple hwords hsemicolon hassign hsemicolon
  refine ⟨_, _, hsimple, hwords, ?_, ?_⟩
  · obtain ⟨token, t, htoken, hmustBe, -, hmoves⟩ := hfound.found rfl 2 (by decide)
    obtain rfl := Option.some.inj htoken
    obtain ⟨faults, hsink, hfaults⟩ := hmoves.sink_eq
    have hinput := hmoves.input_eq
    refine ⟨t, hmustBe, (List.cons.inj hinput).1, ?_⟩
    rw [hsink, hfaults]
    rfl
  · obtain ⟨t, hmustBe, -, hend, hmoves⟩ := hmissing.missing rfl (by decide)
    obtain ⟨faults, hsink, hfaults⟩ := hmoves.sink_eq
    refine ⟨t, hmustBe, hend, ?_⟩
    rw [hsink, hfaults]
    rfl

end SinglePass
