import Mathlib.Data.List.Basic
import SinglePass.Proofs.Engine.Moves
import SinglePass.Proofs.Scanning.Lossless

/-!
# Nothing is lost behind the lookahead

A run looks at one token of its source.  What it has consumed so far are the tokens before that one,
in order and without a gap, and what the scanner has recorded so far are the faults of these tokens
and of the one that is looked at, each of them once.

* `State.Reads` says so in terms of what scanning the source gives, for every classifier.
  `Move.turn` is the step: a move consumes the token that is looked at, or none; at the end of the
  source its token is consumed again and again, which changes nothing.
* `State.Stands` says so in terms of the tokens of the source and of its failure, for the lexicons
  that tile their lines.
-/

namespace SinglePass

variable {κ τ ω ν : Type}

/-- Is the fault one of invalid characters? -/
def Diagnostic.isLexical : Diagnostic κ τ → Bool
  | .lexical _ => true
  | _ => false

variable [TokenKind κ]

/-! ## The place of a run in its source -/

/-- A run that looks at token `n` of a source: the tokens behind it are ahead, and of the faults of
the scanner exactly those are recorded that came with it and with the tokens before it. -/
structure State.Reads (classifier : Classifier κ) (source : Source) (n : Nat) (s : State κ τ ω) :
    Prop where
  lookahead_eq : (source.stream (τ := τ) classifier)[n]?.map Scanned.token = some s.lookahead
  ahead_eq : s.ahead.tokens = (source.stream classifier).drop (n + 1)
  scanning_eq : s.sink.filter Diagnostic.isScanning =
    (Cursor.start source).faults ++
      ((source.stream classifier).take (n + 1)).flatMap Scanned.faults

namespace State.Reads

variable {classifier : Classifier κ} {source : Source} {n : Nat} {s : State κ τ ω}

/-- There are no more tokens behind a run than the source has. -/
theorem lt_length (h : s.Reads classifier source n) :
    n < (source.stream (τ := τ) classifier).length := by
  have hsome := h.lookahead_eq
  by_cases hn : n < (source.stream (τ := τ) classifier).length
  · exact hn
  · rw [List.getElem?_eq_none (Nat.le_of_not_lt hn)] at hsome
    nomatch hsome

/-- The end of the source is the last of its tokens. -/
theorem isEnd_iff (h : s.Reads classifier source n) :
    s.lookahead.isEnd = true ↔ n + 1 = (source.stream (τ := τ) classifier).length := by
  obtain ⟨before, last, heq, hlast, hbefore⟩ :=
    Cursor.stream_eq_append (τ := τ) classifier (Cursor.start source).acknowledge
  have hstream : source.stream (τ := τ) classifier = before ++ [last] := heq
  have hlength : (source.stream (τ := τ) classifier).length = before.length + 1 := by
    rw [hstream, List.length_append, List.length_singleton]
  have hlt := h.lt_length
  have hlook := h.lookahead_eq
  rw [hlength] at hlt ⊢
  rw [hstream] at hlook
  by_cases hn : n < before.length
  · rw [List.getElem?_append_left hn, List.getElem?_eq_getElem hn] at hlook
    have hordinary := hbefore before[n] (List.getElem_mem hn)
    rw [Option.some.inj hlook] at hordinary
    rw [hordinary]
    exact ⟨fun h => (nomatch h), fun hlast => by omega⟩
  · obtain rfl : n = before.length := by omega
    rw [List.getElem?_concat_length] at hlook
    rw [← Option.some.inj hlook, hlast]
    exact ⟨fun _ => rfl, fun _ => rfl⟩

/-- Moving on goes to the next token. -/
theorem shift (h : s.Reads classifier source n) (hend : s.lookahead.isEnd = false) :
    s.shift.Reads classifier source (n + 1) := by
  have hmore : n + 1 < (source.stream (τ := τ) classifier).length := by
    refine Nat.lt_of_le_of_ne h.lt_length fun hlast => ?_
    rw [h.isEnd_iff.2 hlast] at hend
    nomatch hend
  have htokens : s.ahead.tokens =
      (source.stream (τ := τ) classifier)[n + 1] :: (source.stream classifier).drop (n + 2) := by
    rw [h.ahead_eq, List.drop_eq_getElem_cons hmore]
  have hall : (source.stream (τ := τ) classifier)[n + 1].faults.filter Diagnostic.isScanning =
      (source.stream (τ := τ) classifier)[n + 1].faults :=
    List.filter_eq_self.2 (Source.isScanning_of_mem_stream (List.getElem_mem hmore))
  rw [State.shift_of_cons htokens]
  refine ⟨?_, ?_, ?_⟩
  · rw [List.getElem?_eq_getElem hmore]
    rfl
  · show s.ahead.tokens.tail = (source.stream classifier).drop (n + 2)
    rw [htokens, List.tail_cons]
  · show (s.sink ++ (source.stream classifier)[n + 1].faults).filter Diagnostic.isScanning = _
    rw [List.filter_append, h.scanning_eq, hall, List.take_succ_eq_append_getElem hmore,
      List.flatMap_append, List.flatMap_singleton, List.append_assoc]

/-- At the end of the source there is nowhere to go. -/
theorem shift_of_end (h : s.Reads classifier source n) (hend : s.lookahead.isEnd = true) :
    s.shift = s := by
  apply State.shift_of_nil
  rw [h.ahead_eq, h.isEnd_iff.1 hend, List.drop_length]

/-- What leaves the tokens alone and records no fault of the scanner stays where it is. -/
theorem congr {t : State κ τ ν} (h : s.Reads classifier source n)
    (lookahead_eq : t.lookahead = s.lookahead) (ahead_eq : t.ahead = s.ahead)
    (scanning_eq : t.sink.filter Diagnostic.isScanning = s.sink.filter Diagnostic.isScanning) :
    t.Reads classifier source n := by
  constructor
  · rw [lookahead_eq, h.lookahead_eq]
  · rw [ahead_eq, h.ahead_eq]
  · rw [scanning_eq, h.scanning_eq]

/-- Recording a fault of grammar or meaning is such. -/
theorem record {d : Diagnostic κ τ} (h : s.Reads classifier source n)
    (fault : d.isScanning = false) : (s.record d).Reads classifier source n := by
  refine h.congr rfl rfl ?_
  have hnone : [d].filter Diagnostic.isScanning = [] := by simp [fault]
  show (s.sink ++ [d]).filter Diagnostic.isScanning = _
  rw [List.filter_append, hnone, List.append_nil]

/-- A place has one token. -/
theorem lookahead_unique {t : State κ τ ν} (h : s.Reads classifier source n)
    (h' : t.Reads classifier source n) : t.lookahead = s.lookahead :=
  Option.some.inj (h'.lookahead_eq.symm.trans h.lookahead_eq)

/-- The token that is looked at is the next one of the source. -/
theorem token_eq (h : s.Reads classifier source n) :
    (source.tokens classifier)[n]? = some s.lookahead := by
  rw [← Source.map_token_stream (τ := τ), List.getElem?_map, h.lookahead_eq]

/-- The tokens from the one that is looked at are those of the source from there. -/
theorem input_eq (h : s.Reads classifier source n) :
    s.input = (source.tokens classifier).drop n := by
  obtain ⟨hlt, htoken⟩ := List.getElem?_eq_some_iff.1 h.token_eq
  rw [List.drop_eq_getElem_cons hlt, htoken, State.input, h.ahead_eq,
    ← Source.map_token_stream (τ := τ), List.map_drop]

end State.Reads

/-- A run begins at the first token. -/
theorem State.reads_initial (classifier : Classifier κ) (source : Source) :
    (State.initial classifier source : State κ τ ω).Reads classifier source 0 := by
  obtain ⟨first, more, hstream, hinitial⟩ := State.initial_eq (τ := τ) (ω := ω) classifier source
  have hall : ((Cursor.start source).faults ++ first.faults).filter Diagnostic.isScanning =
      (Cursor.start source).faults ++ first.faults := by
    rw [List.filter_eq_self]
    intro d hd
    apply State.isScanning_of_mem_initial_sink (ω := ω) classifier source
    rwa [hinitial]
  rw [hinitial]
  refine ⟨?_, ?_, ?_⟩
  · rw [hstream]
    rfl
  · rw [hstream]
    rfl
  · show ((Cursor.start source).faults ++ first.faults).filter Diagnostic.isScanning = _
    rw [hall, hstream, List.take_succ_cons, List.take_zero, List.flatMap_singleton]

/-! ## What a move does to the place -/

/-- What a move consumes, and where it leaves the run. -/
inductive Move.Turn {strategy : Strategy} (classifier : Classifier κ) (source : Source) (n : Nat)
    (m : Move κ τ strategy) : Prop
  | stays (token_eq : m.token? = none) (reads : m.after.Reads classifier source n)
  | goesOn (token_eq : m.token? = some m.before.lookahead)
      (ordinary : m.before.lookahead.isEnd = false)
      (reads : m.after.Reads classifier source (n + 1))
  | again (token_eq : m.token? = some m.before.lookahead)
      (ends : m.before.lookahead.isEnd = true) (reads : m.after.Reads classifier source n)
      (after_eq : m.after = { m.before with recovering := m.after.recovering })

/-- A move stays where it is, goes on by one token, or takes the end once more. -/
theorem Move.turn {strategy : Strategy} {classifier : Classifier κ} {source : Source} {n : Nat}
    {m : Move κ τ strategy} (h : m.before.Reads classifier source n) :
    m.Turn classifier source n := by
  -- The two moves that consume differ in the flag they leave, which no token depends on.
  have consumes : ∀ flag, m.outcome = .value (some m.before.lookahead) →
      m.after = State.shift { m.before with recovering := flag } →
      m.Turn classifier source n := by
    intro flag outcome_eq after_eq
    have htoken : m.token? = some m.before.lookahead := by rw [token?, outcome_eq]
    have hsame : State.Reads classifier source n { m.before with recovering := flag } :=
      h.congr rfl rfl rfl
    by_cases hend : m.before.lookahead.isEnd = true
    · rw [hsame.shift_of_end hend] at after_eq
      exact .again htoken hend (by rwa [after_eq]) (by rw [after_eq])
    · rw [Bool.not_eq_true] at hend
      exact .goesOn htoken hend (by rw [after_eq]; exact hsame.shift hend)
  cases m.effect with
  | shifts outcome_eq after_eq => exact consumes m.before.recovering outcome_eq after_eq
  | resumes _ _ _ outcome_eq after_eq => exact consumes false outcome_eq after_eq
  | rejects expected _ _ outcome_eq after_eq =>
    refine .stays (by rw [token?, outcome_eq]) ?_
    have hrecord := h.record (d := .unexpected m.before.lookahead expected) rfl
    rw [after_eq]
    exact hrecord.congr rfl rfl rfl
  | reports d _ _ semantic outcome_eq after_eq =>
    refine .stays (by rw [token?, outcome_eq]) ?_
    rw [after_eq]
    exact h.record (Diagnostic.isScanning_of_isSemantic semantic)
  | givesUp d _ fault outcome_eq after_eq =>
    refine .stays (by rw [token?, outcome_eq]) ?_
    rw [after_eq]
    exact h.record fault
  | keeps scopes outcome_eq after_eq =>
    refine .stays (by rw [token?, outcome_eq]) ?_
    rw [after_eq]
    exact h.congr rfl rfl rfl

/-- A move leaves a run somewhere in its source. -/
theorem Move.exists_reads {strategy : Strategy} {classifier : Classifier κ} {source : Source}
    (m : Move κ τ strategy) (h : ∃ n, m.before.Reads classifier source n) :
    ∃ n, m.after.Reads classifier source n := by
  obtain ⟨n, hn⟩ := h
  cases Move.turn hn with
  | stays _ reads => exact ⟨n, reads⟩
  | goesOn _ _ reads => exact ⟨n + 1, reads⟩
  | again _ _ reads _ => exact ⟨n, reads⟩

/-! ## Moments of a run -/

/-- What every move carries on, together with the tokens consumed so far, holds at the end. -/
theorem Leads.carries {strategy : Strategy} {s t : State κ τ Unit} {ms : List (Move κ τ strategy)}
    {p : List (Token κ) → State κ τ Unit → Prop} (h : Leads s ms t)
    (step : ∀ taken (m : Move κ τ strategy), p taken m.before →
      p (taken ++ m.token?.toList) m.after)
    {taken : List (Token κ)} (hs : p taken s) : p (taken ++ ms.filterMap Move.token?) t := by
  induction ms generalizing s taken with
  | nil =>
    cases h
    rwa [List.filterMap_nil, List.append_nil]
  | cons m ms ih =>
    obtain ⟨rfl, h⟩ := h
    have hrest := ih h (step taken m hs)
    rw [List.append_assoc] at hrest
    cases htoken : m.token? with
    | none =>
      rw [htoken] at hrest
      rwa [List.filterMap_cons_none htoken]
    | some token =>
      rw [htoken] at hrest
      rwa [List.filterMap_cons_some htoken]

/-- What a run that looks at token `n` has consumed: the tokens before it, and then the end of the
source any number of times. -/
def State.Took (classifier : Classifier κ) (source : Source) (n : Nat) (taken : List (Token κ))
    (s : State κ τ ω) : Prop :=
  ∃ again, taken = (source.tokens classifier).take n ++ List.replicate again s.lookahead ∧
    (again ≠ 0 → s.lookahead.isEnd = true)

/-- A move hands out the tokens that it takes from the source, in order. -/
theorem Move.took {strategy : Strategy} {classifier : Classifier κ} {source : Source} {n : Nat}
    {taken : List (Token κ)} {m : Move κ τ strategy} (h : m.before.Reads classifier source n)
    (htook : m.before.Took classifier source n taken) :
    ∃ n', m.after.Reads classifier source n' ∧
      m.after.Took classifier source n' (taken ++ m.token?.toList) := by
  obtain ⟨again, htaken, hend⟩ := htook
  cases Move.turn h with
  | stays token_eq reads =>
    refine ⟨n, reads, again, ?_, ?_⟩
    · rw [token_eq, h.lookahead_unique reads, Option.toList_none, List.append_nil, htaken]
    · rwa [h.lookahead_unique reads]
  | goesOn token_eq ordinary reads =>
    obtain rfl : again = 0 := by
      by_cases h0 : again = 0
      · exact h0
      · rw [hend h0] at ordinary
        nomatch ordinary
    obtain ⟨hlt, htoken⟩ := List.getElem?_eq_some_iff.1 h.token_eq
    refine ⟨n + 1, reads, 0, ?_, fun h0 => absurd rfl h0⟩
    rw [token_eq, htaken, List.take_succ_eq_append_getElem hlt, htoken]
    simp only [List.replicate_zero, List.append_nil, Option.toList_some]
  | again token_eq ends reads after_eq =>
    refine ⟨n, reads, again + 1, ?_, fun _ => ?_⟩
    · rw [token_eq, htaken, h.lookahead_unique reads, List.replicate_succ', List.append_assoc,
        Option.toList_some]
    · rw [h.lookahead_unique reads]
      exact ends

/-- A run that has consumed the first `n` tokens of a source, and then the token that ends it any
number of times, and that looks at token `n`. -/
structure State.Stands (classifier : Classifier κ) (source : Source) (n : Nat)
    (taken : List (Token κ)) (s : State κ τ ω) : Prop where
  took : s.Took classifier source n taken
  lookahead_eq : (source.tokens classifier)[n]? = some s.lookahead
  input_eq : s.input = (source.tokens classifier).drop n
  /-- The lexical faults are those of the invalid tokens up to the one looked at, in order. -/
  lexical_eq : s.sink.filter Diagnostic.isLexical =
    (((source.tokens classifier).take (n + 1)).filter (TokenKind.isInvalid ·.kind)).map
      Diagnostic.lexical

/-- Such a run that has recorded the failure of the source if it looks at its end, and only then. -/
structure State.StandsTiled (classifier : Classifier κ) (source : Source) (n : Nat)
    (taken : List (Token κ)) (s : State κ τ ω) : Prop extends
    s.Stands classifier source n taken where
  scanning_eq : s.sink.filter Diagnostic.isScanning =
    ((((source.tokens classifier).take (n + 1)).filter (TokenKind.isInvalid ·.kind)).map
        Diagnostic.lexical) ++
      if s.lookahead.isEnd then (source.failure?.map (.io s.lookahead.position)).toList else []

/-! ### The faults of the scanner -/

/-- Reading a token brings its own lexical fault and no other. -/
theorem Cursor.filter_isLexical_scan (classifier : Classifier κ) (c : Cursor) :
    (c.scan (τ := τ) classifier).1.faults.filter Diagnostic.isLexical =
      lexicalFaults (c.scan (τ := τ) classifier).1.token := by
  show ((c.advance classifier).2.faults ++ lexicalFaults (c.advance classifier).1).filter
    Diagnostic.isLexical = lexicalFaults (c.advance classifier).1
  have hio : ((c.advance classifier).2.faults : List (Diagnostic κ τ)).filter
      Diagnostic.isLexical = [] := by
    unfold Cursor.faults
    split <;> rfl
  rw [List.filter_append, hio, List.nil_append, lexicalFaults]
  split <;> rfl

/-- The lexical faults that come with a token are those of this token. -/
theorem Cursor.filter_isLexical_of_mem_stream {classifier : Classifier κ} {c : Cursor}
    {scanned : Scanned κ τ} (h : scanned ∈ c.stream classifier) :
    scanned.faults.filter Diagnostic.isLexical = lexicalFaults scanned.token := by
  unfold Cursor.stream at h
  generalize c.remaining + 1 = n at h
  induction n generalizing c with
  | zero => simp [scanUpTo] at h
  | succ n ih =>
    rw [scanUpTo] at h
    split at h
    · rw [List.mem_singleton.1 h]
      exact filter_isLexical_scan classifier c
    · rcases List.mem_cons.1 h with rfl | h
      · exact filter_isLexical_scan classifier c
      · exact ih h

/-- Each invalid token has a lexical fault, and no other token has. -/
theorem flatMap_lexicalFaults (ts : List (Token κ)) :
    (ts.flatMap Cursor.lexicalFaults : List (Diagnostic κ τ)) =
      (ts.filter (TokenKind.isInvalid ·.kind)).map Diagnostic.lexical := by
  induction ts with
  | nil => rfl
  | cons t ts ih =>
    rw [List.flatMap_cons, ih, List.filter_cons, Cursor.lexicalFaults]
    split <;> rfl

/-- Whatever the classifier, the lexical faults can be told from the tokens. -/
theorem State.Reads.lexical_eq {classifier : Classifier κ} {source : Source} {n : Nat}
    {s : State κ τ ω} (h : s.Reads classifier source n) :
    s.sink.filter Diagnostic.isLexical =
      (((source.tokens classifier).take (n + 1)).filter (TokenKind.isInvalid ·.kind)).map
        Diagnostic.lexical := by
  have hsub : s.sink.filter Diagnostic.isLexical =
      (s.sink.filter Diagnostic.isScanning).filter Diagnostic.isLexical := by
    rw [List.filter_filter]
    refine List.filter_congr fun d _ => ?_
    cases d <;> rfl
  have hstart : ((Cursor.start source).faults : List (Diagnostic κ τ)).filter
      Diagnostic.isLexical = [] := by
    unfold Cursor.faults
    split <;> rfl
  have hfaults : ∀ scanned ∈ (source.stream (τ := τ) classifier).take (n + 1),
      scanned.faults.filter Diagnostic.isLexical = Cursor.lexicalFaults scanned.token :=
    fun scanned hmem => Cursor.filter_isLexical_of_mem_stream (List.mem_of_mem_take hmem)
  rw [hsub, h.scanning_eq, List.filter_append, hstart, List.nil_append, List.filter_flatMap,
    List.flatMap_congr hfaults, ← flatMap_lexicalFaults, ← Source.map_token_stream (τ := τ),
    ← List.map_take, List.flatMap_map]

/-- The faults of tokens that have no fault but their own. -/
theorem flatMap_faults_ofToken (ts : List (Token κ)) :
    ((ts.map Scanned.ofToken).flatMap Scanned.faults : List (Diagnostic κ τ)) =
      (ts.filter (TokenKind.isInvalid ·.kind)).map Diagnostic.lexical := by
  rw [List.flatMap_map, ← flatMap_lexicalFaults]
  rfl

/-- In a source that is tiled by its lexicon, the faults of the scanner can be told from the
tokens. -/
theorem State.Reads.scanning_eq_of_tiles {l : Lexicon κ} {gap tail : List Char → Prop}
    (htiles : l.Tiles gap tail) {source : Source} {n : Nat} {s : State κ τ ω}
    (h : s.Reads l.classifier source n) :
    s.sink.filter Diagnostic.isScanning =
      ((((source.tokens l.classifier).take (n + 1)).filter (TokenKind.isInvalid ·.kind)).map
          Diagnostic.lexical) ++
        if s.lookahead.isEnd then (source.failure?.map (.io s.lookahead.position)).toList
        else [] := by
  obtain ⟨ts, eof, failure?, htiled, hfailure, hstart⟩ := Source.tiled (τ := τ) htiles source
  have hlt := h.lt_length
  have hlook := h.lookahead_eq
  rw [h.scanning_eq, ← Source.map_token_stream (τ := τ), htiled.map_token]
  rw [htiled.stream_eq] at hlt hlook ⊢
  rw [List.length_append, List.length_map, List.length_singleton] at hlt
  -- In front of the end the lookahead is an ordinary token.  At the end every token has been
  -- read, and with them the failure of the source.
  by_cases hn : n < ts.length
  · have hle : n + 1 ≤ ts.length := hn
    have hordinary : s.lookahead.isEnd = false := by
      rw [List.getElem?_append_left (by rwa [List.length_map]), List.getElem?_map,
        List.getElem?_eq_getElem hn] at hlook
      rw [← Option.some.inj hlook]
      exact htiled.ordinary _ (List.getElem_mem hn)
    rw [hstart (List.ne_nil_of_length_pos (Nat.lt_of_le_of_lt (Nat.zero_le n) hn)),
      List.take_append_of_le_length (by rwa [List.length_map]), ← List.map_take,
      flatMap_faults_ofToken, List.take_append_of_le_length hle, hordinary,
      if_neg Bool.false_ne_true, List.nil_append, List.append_nil]
  · obtain rfl : n = ts.length := by omega
    have heof : s.lookahead = eof := by
      rw [← List.length_map (f := Scanned.ofToken (τ := τ)), List.getElem?_concat_length] at hlook
      exact (Option.some.inj hlook).symm
    have hvalid : TokenKind.isInvalid eof.kind = false := by
      rw [Token.isEnd_eq_true.1 htiled.ends]
      exact htiles.end_valid
    have hall : ∀ {α : Type} (xs : List α) (x : α), xs.length = ts.length →
        (xs ++ [x]).take (ts.length + 1) = xs ++ [x] := by
      intro α xs x hlength
      apply List.take_of_length_le
      rw [List.length_append, hlength, List.length_singleton]
    rw [hall _ _ (List.length_map _), hall _ _ rfl, List.flatMap_append, flatMap_faults_ofToken,
      List.flatMap_singleton, List.filter_append, heof, htiled.ends, if_pos rfl, ← hfailure]
    have hnone : [eof].filter (TokenKind.isInvalid ·.kind) = [] := by simp [hvalid]
    rw [hnone, List.append_nil]
    by_cases hts : ts = []
    · rw [hts]
      rfl
    · rw [hstart hts, List.nil_append, List.nil_append]

/-! ### Whole runs -/

/-- At every moment of a run of a source, `stands` holds of the number of the token that is looked
at, the tokens consumed so far, and the state.  To consume the token that ends the source changes
nothing. -/
def Conserves (stands : Nat → List (Token κ) → State κ τ Unit → Prop) (strategy : Strategy)
    (s t : State κ τ Unit) : Prop :=
  ∃ ms : List (Move κ τ strategy), Leads s ms t ∧
    (∀ m ∈ ms, m.before.lookahead.isEnd = true → ∀ token, m.token? = some token →
      token = m.before.lookahead ∧ m.after = { m.before with recovering := m.after.recovering }) ∧
    ∀ past future, ms = past ++ future → ∃ u n, Leads s past u ∧ Leads u future t ∧
      stands n (past.filterMap Move.token?) u

/-- What is conserved at every moment may be weakened. -/
theorem Conserves.imp {p q : Nat → List (Token κ) → State κ τ Unit → Prop} {strategy : Strategy}
    {s t : State κ τ Unit} (h : Conserves p strategy s t)
    (himp : ∀ n taken u, p n taken u → q n taken u) : Conserves q strategy s t := by
  obtain ⟨ms, hms, hend, hmoments⟩ := h
  refine ⟨ms, hms, hend, fun past future heq => ?_⟩
  obtain ⟨u, n, hpast, hfuture, hp⟩ := hmoments past future heq
  exact ⟨u, n, hpast, hfuture, himp n _ u hp⟩

/-- Whatever drives the engine, a run is somewhere in its source at every moment. -/
theorem Driven.conserves_reads {start : Recognizer κ τ ω Unit} (h : Driven start)
    (classifier : Classifier κ) (strategy : Strategy) (source : Source) :
    Conserves (fun n taken u => u.Reads classifier source n ∧ u.Took classifier source n taken)
      strategy (State.initial classifier source : State κ τ ω).engine
      (run classifier start strategy source).2.engine := by
  have hdriven : Driven start.toEnd := .bind h fun _ => .composed .mustEnd
  obtain ⟨ms, hms⟩ := hdriven.followed strategy (.initial classifier source)
  have hinitial :
      (State.initial classifier source : State κ τ ω).engine.Reads classifier source 0 :=
    (State.reads_initial (ω := ω) classifier source).congr rfl rfl rfl
  have hnothing : (State.initial classifier source : State κ τ ω).engine.Took classifier source 0
      [] := ⟨0, rfl, fun h0 => absurd rfl h0⟩
  refine ⟨ms, hms, ?_, ?_⟩
  · intro m hm hend token htoken
    obtain ⟨n, hreads⟩ := hms.before (p := fun s => ∃ n, s.Reads classifier source n)
      Move.exists_reads ⟨0, hinitial⟩ m hm
    cases Move.turn hreads with
    | stays token_eq _ =>
      rw [token_eq] at htoken
      nomatch htoken
    | goesOn _ ordinary _ =>
      rw [ordinary] at hend
      nomatch hend
    | again token_eq _ _ after_eq =>
      rw [token_eq] at htoken
      exact ⟨(Option.some.inj htoken).symm, after_eq⟩
  -- At every moment the moves so far have led somewhere in the source.
  · rintro past future rfl
    obtain ⟨u, hpast, hfuture⟩ := hms.split
    obtain ⟨n, hmoment⟩ := hpast.carries
      (p := fun taken s => ∃ n, s.Reads classifier source n ∧ s.Took classifier source n taken)
      (fun taken m ⟨n, hn, htook⟩ => Move.took hn htook) ⟨0, hinitial, hnothing⟩
    exact ⟨u, n, hpast, hfuture, hmoment⟩

/-- So it is when it is over. -/
theorem Driven.reads_run {start : Recognizer κ τ ω Unit} (h : Driven start)
    (classifier : Classifier κ) (strategy : Strategy) (source : Source) :
    ∃ n, (run classifier start strategy source).2.Reads classifier source n := by
  obtain ⟨ms, -, -, hmoments⟩ := h.conserves_reads classifier strategy source
  obtain ⟨u, n, -, hover, hreads, -⟩ := hmoments ms [] (List.append_nil ms).symm
  cases hover
  exact ⟨n, hreads.congr rfl rfl rfl⟩

/-- A source that can be read and has no invalid token brings no faults with it. -/
theorem State.Reads.scanning_eq_nil {classifier : Classifier κ} {source : Source} {n : Nat}
    {s : State κ τ ω} (h : s.Reads classifier source n) (hreadable : source.Readable)
    (hvalid : ∀ t ∈ source.tokens classifier, TokenKind.isInvalid t.kind = false) :
    s.sink.filter Diagnostic.isScanning = [] := by
  rw [h.scanning_eq, (Cursor.Sound.start hreadable).faults_eq, List.nil_append,
    List.flatMap_eq_nil_iff]
  intro scanned hmem
  have hstream := List.mem_of_mem_take hmem
  have htoken : scanned.token ∈ source.tokens classifier := by
    rw [← Source.map_token_stream (τ := τ)]
    exact List.mem_map_of_mem hstream
  rw [Source.faults_eq_lexicalFaults hreadable hstream, Cursor.lexicalFaults,
    if_neg (by simp [hvalid _ htoken])]

/-- On such a source a run that fails fast and ends with a value has recorded nothing, and neither
has the recovering run. -/
theorem Composed.sink_eq_nil_of_value {start : Recognizer κ τ ω Unit} (h : Composed start)
    {classifier : Classifier κ} {source : Source} (hreadable : source.Readable)
    (hvalid : ∀ t ∈ source.tokens classifier, TokenKind.isInvalid t.kind = false)
    (hvalue : (run classifier start .failFast source).1 = .value ()) :
    (run classifier start .recovering source).2.sink = [] := by
  have hstep := h.toEnd.lockstep (State.initial_recovering classifier source)
    (State.initial_scansOnly classifier source)
  obtain ⟨n, hreads⟩ := (Driven.composed h).reads_run classifier .recovering source
  have hnone := hreads.scanning_eq_nil hreadable hvalid
  unfold run at hvalue hnone ⊢
  generalize start.toEnd .failFast (.initial classifier source) = e at hstep hvalue
  generalize start.toEnd .recovering (.initial classifier source) = f at hstep hnone ⊢
  cases hstep with
  | together found _ _ sink_eq scanning =>
    rw [← hnone, sink_eq, eq_comm, List.filter_eq_self]
    intro d hd
    obtain hd | hd := List.mem_append.1 hd
    · exact State.isScanning_of_mem_initial_sink classifier source hd
    · exact scanning d hd
  | parted _ _ gaveUp =>
    rw [gaveUp] at hvalue
    nomatch hvalue

/-- A run that has taken tokens stands behind them in its source. -/
theorem State.Reads.stands {classifier : Classifier κ} {source : Source} {n : Nat}
    {taken : List (Token κ)} {s : State κ τ ω} (h : s.Reads classifier source n)
    (took : s.Took classifier source n taken) : s.Stands classifier source n taken :=
  ⟨took, h.token_eq, h.input_eq, h.lexical_eq⟩

/-- Whatever drives the engine, no token is lost on the way. -/
theorem Driven.conserves {start : Recognizer κ τ ω Unit} (h : Driven start)
    (classifier : Classifier κ) (strategy : Strategy) (source : Source) :
    Conserves (State.Stands classifier source) strategy
      (State.initial classifier source : State κ τ ω).engine
      (run classifier start strategy source).2.engine :=
  (h.conserves_reads classifier strategy source).imp fun _ _ _ hreads => hreads.1.stands hreads.2

/-- Nor is the failure of the source, if its lexicon tiles the lines. -/
theorem Driven.conserves_tiled {l : Lexicon κ} {gap tail : List Char → Prop}
    (htiles : l.Tiles gap tail) {start : Recognizer κ τ ω Unit} (h : Driven start)
    (strategy : Strategy) (source : Source) :
    Conserves (State.StandsTiled l.classifier source) strategy
      (State.initial l.classifier source : State κ τ ω).engine
      (run l.classifier start strategy source).2.engine :=
  (h.conserves_reads l.classifier strategy source).imp fun _ _ _ hreads =>
    ⟨hreads.1.stands hreads.2, hreads.1.scanning_eq_of_tiles htiles⟩

end SinglePass
