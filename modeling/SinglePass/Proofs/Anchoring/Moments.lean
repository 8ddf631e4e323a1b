import SinglePass.Proofs.Declaring
import SinglePass.Proofs.Engine.Conservation
import SinglePass.Proofs.Silence.Warrants

/-!
# Faults are anchored in what has been scanned

The faults that a run records, and the symbols that stand in its scopes, are bound to tokens of the
source that it has scanned by then.

* `Diagnostic.Anchored` says so of a fault: the token at fault has been scanned, and if it declares
  a name again, the first declaration of this name stands in front of it.
* `State.Anchored` is the invariant of the engine, and `Move.anchored` is the step: it is kept by
  every move that reports at tokens that have been scanned, and binds symbols whose tokens have been
  consumed.
* `AnchoredRun.moments`: a run by such moves is anchored at every moment.
-/

namespace SinglePass

variable {κ τ ω ν α β : Type}

/-! ## Tokens that have been scanned -/

section

variable (tokens : List (Token κ))

/-- The tokens of a source that a run has scanned: all but those that are still to come. -/
def State.scanned (s : State κ τ ω) : List (Token κ) :=
  tokens.take (tokens.length - s.ahead.count)

/-- The tokens in front of the one that is looked at. -/
def State.passed (s : State κ τ ω) : List (Token κ) :=
  tokens.take (tokens.length - s.ahead.count - 1)

variable {tokens} {s : State κ τ ω} {t : State κ τ ν}

/-- The fewer tokens are still to come, the more have been scanned. -/
theorem State.scanned_prefix (h : t.ahead.count ≤ s.ahead.count) :
    s.scanned tokens <+: t.scanned tokens :=
  List.take_prefix_take_left (Nat.sub_le_sub_left h _)

/-- What has been scanned stays so as tokens are consumed. -/
theorem State.subset_scanned {known : List (Token κ)} (hknown : known ⊆ s.scanned tokens)
    (hle : t.ahead.count ≤ s.ahead.count) : known ⊆ t.scanned tokens :=
  List.Subset.trans hknown (State.scanned_prefix hle).subset

/-- Tokens that have been passed stay in front of those that are passed later. -/
theorem State.passed_prefix (h : t.ahead.count ≤ s.ahead.count) :
    s.passed tokens <+: t.passed tokens :=
  List.take_prefix_take_left (Nat.sub_le_sub_right (Nat.sub_le_sub_left h _) 1)

/-- A token that has been passed has been scanned. -/
theorem State.passed_subset_scanned (s : State κ τ ω) : s.passed tokens ⊆ s.scanned tokens :=
  (List.take_prefix_take_left (Nat.sub_le _ 1)).subset

/-- Going on never brings tokens back. -/
theorem State.count_shift_le (s : State κ τ ω) : s.shift.ahead.count ≤ s.ahead.count := by
  rw [s.shift.ahead.count_eq, s.ahead.count_eq, State.shift_tokens, List.length_tail]
  exact Nat.sub_le _ _

end

namespace State.Reads

variable [TokenKind κ] {classifier : Classifier κ} {source : Source} {n : Nat} {s : State κ τ ω}

/-- A run that looks at token `n` has passed the tokens in front of it. -/
theorem count_add (h : s.Reads classifier source n) :
    s.ahead.count + (n + 1) = (source.tokens classifier).length := by
  have hlt := h.lt_length
  rw [s.ahead.count_eq, h.ahead_eq, List.length_drop, ← Source.map_token_stream (τ := τ),
    List.length_map]
  omega

/-- Behind `n` tokens, one more has been scanned. -/
theorem scanned_eq (h : s.Reads classifier source n) :
    s.scanned (source.tokens classifier) = (source.tokens classifier).take (n + 1) := by
  rw [State.scanned, ← h.count_add, Nat.add_sub_cancel_left]

/-- Behind `n` tokens, these have been passed. -/
theorem passed_eq (h : s.Reads classifier source n) :
    s.passed (source.tokens classifier) = (source.tokens classifier).take n := by
  rw [State.passed, ← h.count_add, Nat.add_sub_cancel_left, Nat.add_sub_cancel]

/-- What has been scanned is what has been passed, and the token that is looked at. -/
theorem scanned_eq_append (h : s.Reads classifier source n) :
    s.scanned (source.tokens classifier) =
      s.passed (source.tokens classifier) ++ [s.lookahead] := by
  rw [h.scanned_eq, h.passed_eq, List.take_add_one, h.token_eq, Option.toList_some]

/-- Where a run reads a source, reading brings faults of the scanner only. -/
theorem scansOnly (h : s.Reads classifier source n) : s.ScansOnly := by
  intro scanned hmem
  rw [h.ahead_eq] at hmem
  exact Source.isScanning_of_mem_stream (List.mem_of_mem_drop hmem)

end State.Reads

/-! ## Faults -/

section

variable [TokenKind κ]

/-- Is the fault anchored in some tokens?  The token at fault is one of them, and so is, in front of
it, the one that has declared a name first.  `ident` is the kind of names. -/
def Diagnostic.Anchored (ident : κ) (scanned : List (Token κ)) : Diagnostic κ τ → Prop
  | .io _ _ => True
  | .lexical token => token ∈ scanned ∧ TokenKind.isInvalid token.kind = true
  | .notDeclared token => token ∈ scanned ∧ token.kind = ident
  | .alreadyDeclared token first =>
    token.kind = ident ∧ first.name = token.text ∧ [first.token, token].Sublist scanned
  | .unexpected token _ | .typeConflict token _ _ | .custom token _ => token ∈ scanned

namespace Diagnostic.Anchored

variable {ident : κ} {scanned scanned' : List (Token κ)} {d : Diagnostic κ τ}

/-- It does no harm to scan more. -/
theorem mono (h : d.Anchored ident scanned) (hmore : scanned <+: scanned') :
    d.Anchored ident scanned' := by
  have hsub := hmore.subset
  cases d with
  | io => trivial
  | lexical => exact ⟨hsub h.1, h.2⟩
  | notDeclared => exact ⟨hsub h.1, h.2⟩
  | alreadyDeclared => exact ⟨h.1, h.2.1, h.2.2.trans hmore.sublist⟩
  | unexpected => exact hsub h
  | typeConflict => exact hsub h
  | custom => exact hsub h

/-- The token at fault has been scanned. -/
theorem mem {token : Token κ} (h : d.Anchored ident scanned) (htoken : d.token? = some token) :
    token ∈ scanned := by
  cases d with
  | io => cases htoken
  | lexical => cases htoken; exact h.1
  | notDeclared => cases htoken; exact h.1
  | alreadyDeclared => cases htoken; exact h.2.2.subset (by simp)
  | unexpected => cases htoken; exact h
  | typeConflict => cases htoken; exact h
  | custom => cases htoken; exact h

end Diagnostic.Anchored

/-- The faults of the scanner are, in every run. -/
theorem State.Reads.anchored {classifier : Classifier κ} {source : Source} {n : Nat}
    {s : State κ τ ω} (h : s.Reads classifier source n) (ident : κ) {d : Diagnostic κ τ}
    (hd : d ∈ s.sink) (hscanning : d.isScanning = true) :
    d.Anchored ident (s.scanned (source.tokens classifier)) := by
  cases d with
  | io => trivial
  | lexical token =>
    have hmem : .lexical token ∈ s.sink.filter Diagnostic.isLexical :=
      List.mem_filter.2 ⟨hd, rfl⟩
    rw [h.lexical_eq] at hmem
    obtain ⟨token', htoken', heq⟩ := List.mem_map.1 hmem
    cases heq
    rw [h.scanned_eq]
    exact List.mem_filter.1 htoken'
  | _ => cases hscanning

end

/-! ## Symbols in scopes -/

/-- The innermost table of a scope is one of its levels. -/
theorem Scope.table_mem_levels (scope : Scope κ τ) : scope.table ∈ scope.levels := by
  cases scope <;> exact List.mem_cons_self

namespace ScopeStack

variable {scopes : ScopeStack κ τ} {symbol first : Symbol κ τ} {name : String}

/-- A symbol of the innermost level is bound, and has the name that it was looked up by. -/
theorem binds_of_local? (h : scopes.local? name = some first) :
    scopes.Binds first ∧ first.name = name := by
  obtain ⟨_ | scope, level⟩ := scopes
  · cases h
  · have hfind : scope.table.symbols.find? (fun symbol => symbol.name = name) = some first := by
      rw [← Table.get?_eq_find?]
      exact h
    have hname := List.find?_some hfind
    exact ⟨⟨scope.table, scope.table_mem_levels, List.mem_of_find?_eq_some hfind⟩,
      of_decide_eq_true hname⟩

end ScopeStack

section

variable [TokenKind κ]

/-! ## States -/

/-- A run that stands at a token of its source, and whose faults and symbols are bound to tokens
that it has scanned. -/
structure State.Anchored (ident : κ) (classifier : Classifier κ) (source : Source)
    (s : State κ τ ω) : Prop where
  reads : ∃ n, s.Reads classifier source n
  recorded : ∀ d ∈ s.sink, d.Anchored ident (s.scanned (source.tokens classifier))
  /-- The token that has declared a name was consumed. -/
  bound : ∀ symbol, s.scopes.Binds symbol →
    symbol.token.kind = ident ∧ symbol.token ∈ s.passed (source.tokens classifier)

namespace State

variable {ident : κ} {classifier : Classifier κ} {source : Source} {s : State κ τ ω}

/-- Other scopes, with no other symbols, and another flag. -/
theorem Anchored.congr {t : State κ τ ν} (h : s.Anchored ident classifier source)
    (lookahead_eq : t.lookahead = s.lookahead) (ahead_eq : t.ahead = s.ahead)
    (sink_eq : t.sink = s.sink) (bound : ∀ symbol, t.scopes.Binds symbol → s.scopes.Binds symbol) :
    t.Anchored ident classifier source := by
  obtain ⟨n, hreads⟩ := h.reads
  refine ⟨⟨n, hreads.congr lookahead_eq ahead_eq (by rw [sink_eq])⟩, ?_, fun symbol hbinds => ?_⟩
  · rw [sink_eq, State.scanned, ahead_eq]
    exact h.recorded
  · rw [State.passed, ahead_eq]
    exact h.bound symbol (bound symbol hbinds)

/-- Being anchored is a matter of the engine, and not of the notes. -/
theorem Anchored.engine (h : s.Anchored ident classifier source) :
    s.engine.Anchored ident classifier source :=
  h.congr rfl rfl rfl fun _ => id

/-- A run is anchored if its engine is. -/
theorem Anchored.of_engine (h : s.engine.Anchored ident classifier source) :
    s.Anchored ident classifier source :=
  h.congr rfl rfl rfl fun _ => id

/-- The token that is looked at has been scanned. -/
theorem Anchored.lookahead_mem (h : s.Anchored ident classifier source) :
    s.lookahead ∈ s.scanned (source.tokens classifier) := by
  obtain ⟨n, hreads⟩ := h.reads
  rw [hreads.scanned_eq_append]
  exact List.mem_append_right _ (List.mem_singleton.2 rfl)

/-- A token that is consumed has been passed, unless it ends the source. -/
theorem Anchored.lookahead_mem_passed (h : s.Anchored ident classifier source)
    (ordinary : s.lookahead.isEnd = false) :
    s.lookahead ∈ s.shift.passed (source.tokens classifier) := by
  obtain ⟨n, hreads⟩ := h.reads
  rw [(hreads.shift ordinary).passed_eq, ← hreads.scanned_eq]
  exact h.lookahead_mem

/-- Going on anchors the faults that reading the next token brings. -/
theorem Anchored.shift (h : s.Anchored ident classifier source) :
    s.shift.Anchored ident classifier source := by
  obtain ⟨n, hreads⟩ := h.reads
  have hplaced : ∃ n, s.shift.Reads classifier source n := by
    by_cases hend : s.lookahead.isEnd = true
    · exact ⟨n, by rwa [hreads.shift_of_end hend]⟩
    · exact ⟨n + 1, hreads.shift (Bool.eq_false_iff.2 hend)⟩
  refine ⟨hplaced, fun d hd => ?_, fun symbol hbinds => ?_⟩
  · obtain ⟨m, hshifted⟩ := hplaced
    -- what is new comes from the scanner
    obtain ⟨found, hsink, hfound⟩ := hreads.scansOnly.addsScanning_shift
    have hmem := hd
    rw [hsink] at hmem
    obtain hmem | hmem := List.mem_append.1 hmem
    · exact (h.recorded d hmem).mono (State.scanned_prefix s.count_shift_le)
    · exact hshifted.anchored ident hd (hfound d hmem)
  · rw [State.shift_scopes] at hbinds
    exact (h.bound symbol hbinds).imp id
      fun hmem => (State.passed_prefix s.count_shift_le).subset hmem

/-- A fault may be recorded if it is anchored at tokens that have been scanned. -/
theorem Anchored.record {d : Diagnostic κ τ} (h : s.Anchored ident classifier source)
    (fault : d.isScanning = false)
    (anchored : d.Anchored ident (s.scanned (source.tokens classifier))) :
    (s.record d).Anchored ident classifier source := by
  obtain ⟨n, hreads⟩ := h.reads
  refine ⟨⟨n, hreads.record fault⟩, fun e he => ?_, h.bound⟩
  obtain he | he := List.mem_append.1 he
  · exact h.recorded e he
  · rwa [List.mem_singleton.1 he]

/-- A recovery may start and end anywhere. -/
theorem Anchored.recovering (h : s.Anchored ident classifier source) (flag : Bool) :
    State.Anchored ident classifier source { s with recovering := flag } :=
  h.congr rfl rfl rfl fun _ => id

/-- What was not expected is anchored at the token that is looked at. -/
theorem Anchored.rejected (h : s.Anchored ident classifier source) (expected : Expected κ) :
    (s.record (.unexpected s.lookahead expected)).Anchored ident classifier source :=
  h.record rfl h.lookahead_mem

/-- Requiring a token anchors what it records. -/
theorem Anchored.mustBe (h : s.Anchored ident classifier source) (kind : κ)
    (strategy : Strategy) :
    (Recognizer.mustBe kind strategy s).2.Anchored ident classifier source :=
  Recognizer.mustBe_preserves (p := fun t => t.Anchored ident classifier source)
    (fun _ ht => ht.shift) (fun _ expected ht => ht.rejected expected)
    (fun _ flag ht => ht.recovering flag) kind strategy h

/-- A token that was required was looked at by a run that was anchored, too. -/
theorem Anchored.mustBe_some {kind : κ} {strategy : Strategy} {t : State κ τ ω} {token : Token κ}
    (h : s.Anchored ident classifier source)
    (heq : Recognizer.mustBe kind strategy s = (.value (some token), t)) :
    ∃ u : State κ τ ω, u.Anchored ident classifier source ∧ u.lookahead = token ∧
      token.kind = kind ∧ t = u.shift :=
  Recognizer.mustBe_some (p := fun u => u.Anchored ident classifier source)
    (fun _ hu => hu.shift) (fun _ flag hu => hu.recovering flag) h heq

/-- An unexpected token anchors what it records. -/
theorem Anchored.unexpected (h : s.Anchored ident classifier source) (expected : Expected κ)
    (strategy : Strategy) :
    (Recognizer.unexpected expected strategy s).2.Anchored ident classifier source := by
  cases strategy with
  | failFast => exact h.rejected expected
  | recovering =>
    rw [Recognizer.unexpected]
    split
    · exact h.recovering true
    · exact (h.rejected expected).recovering true

/-- Reporting a fault that is anchored keeps a run anchored. -/
theorem Anchored.report {d : Diagnostic κ τ} (h : s.Anchored ident classifier source)
    (fault : d.isScanning = false)
    (anchored : d.Anchored ident (s.scanned (source.tokens classifier))) (strategy : Strategy) :
    (Recognizer.report d strategy s).2.Anchored ident classifier source := by
  cases strategy with
  | failFast => exact h.record fault anchored
  | recovering =>
    rw [Recognizer.report_recovering]
    split
    · exact h
    · exact h.record fault anchored

/-- A symbol may be bound if its name has been passed. -/
theorem Anchored.bindSymbol {symbol : Symbol κ τ} (h : s.Anchored ident classifier source)
    (bound : symbol.token.kind = ident ∧ symbol.token ∈ s.passed (source.tokens classifier))
    (strategy : Strategy) :
    (Recognizer.bindSymbol symbol strategy s).2.Anchored ident classifier source := by
  rw [Recognizer.bindSymbol]
  split
  · next added scopes hadd =>
    obtain ⟨n, hreads⟩ := h.reads
    refine ⟨⟨n, hreads.congr rfl rfl rfl⟩, h.recorded, fun other hbinds => ?_⟩
    obtain rfl | hbinds := hbinds.of_add? hadd
    · exact bound
    · exact h.bound other hbinds
  · exact h

end State

/-- Does the token stand behind those that have declared the symbols in the scopes? -/
def State.Newest (tokens : List (Token κ)) (s : State κ τ ω) (token : Token κ) : Prop :=
  ∀ symbol, s.scopes.Binds symbol → [symbol.token, token].Sublist (s.scanned tokens)

namespace State

variable {ident : κ} {classifier : Classifier κ} {source : Source} {s : State κ τ ω}

/-- The token that is looked at does. -/
theorem Anchored.newest (h : s.Anchored ident classifier source) :
    s.Newest (source.tokens classifier) s.lookahead := by
  intro symbol hbinds
  obtain ⟨n, hreads⟩ := h.reads
  have hfirst : [symbol.token].Sublist (s.passed (source.tokens classifier)) :=
    List.singleton_sublist.2 (h.bound symbol hbinds).2
  rw [hreads.scanned_eq_append]
  exact hfirst.append (List.Sublist.refl [s.lookahead])

omit [TokenKind κ] in
/-- It stays so as long as nothing is bound. -/
theorem Newest.mono {tokens : List (Token κ)} {t : State κ τ ν} {token : Token κ}
    (h : s.Newest tokens token) (scopes_eq : t.scopes = s.scopes)
    (hle : t.ahead.count ≤ s.ahead.count) : t.Newest tokens token := by
  intro symbol hbinds
  rw [scopes_eq] at hbinds
  exact (h symbol hbinds).trans (State.scanned_prefix hle).sublist

end State

/-! ## Moves -/

/-- An operation that keeps a run anchored: it reports at tokens that have been scanned, and binds
symbols whose tokens have been consumed. -/
def Operation.Anchored (ident : κ) (tokens : List (Token κ)) (s : State κ τ ω) :
    Operation κ τ → Prop
  | report d => d.Anchored ident (s.scanned tokens)
  | bindSymbol symbol => symbol.token.kind = ident ∧ symbol.token ∈ s.passed tokens
  | _ => True

variable {ident : κ} {classifier : Classifier κ} {source : Source} {strategy : Strategy}

/-- Such a move keeps the run anchored. -/
theorem Move.anchored {m : Move κ τ strategy} (h : m.before.Anchored ident classifier source)
    (anchored : m.operation.Anchored ident (source.tokens classifier) m.before) :
    m.after.Anchored ident classifier source := by
  obtain ⟨s, operation, allowed⟩ := m
  -- an operation without an answer of its own leaves the state that it leaves anyway
  have plain : ∀ {γ : Type} (r : Recognizer κ τ Unit γ),
      (r strategy s).2.Anchored ident classifier source →
      ((r >>= fun _ => (pure none : Recognizer κ τ Unit (Option (Token κ)))) strategy s).2.Anchored
        ident classifier source := by
    intro γ r hr
    rwa [Recognizer.state_bind_pure r fun _ => none]
  cases operation with
  | advance => exact h.shift
  | discard => exact h.shift
  | mustBe kind => exact h.mustBe kind strategy
  | unexpected expected => exact plain _ (h.unexpected expected strategy)
  | report d =>
    exact plain _ (h.report (Diagnostic.isScanning_of_isSemantic allowed) anchored strategy)
  | openScope => exact h.congr rfl rfl rfl fun _ hbinds => hbinds.of_openScope
  | closeScope => exact h.congr rfl rfl rfl fun _ hbinds => hbinds.of_closeScope
  | bindSymbol symbol => exact plain _ (h.bindSymbol anchored strategy)

/-- No move goes back. -/
theorem Move.count_after_le (m : Move κ τ strategy) :
    m.after.ahead.count ≤ m.before.ahead.count := by
  cases m.effect with
  | shifts _ after_eq =>
    rw [after_eq]
    exact m.before.count_shift_le
  | resumes _ _ _ _ after_eq =>
    rw [after_eq]
    exact State.count_shift_le { m.before with recovering := false }
  | rejects _ _ _ _ after_eq => exact after_eq ▸ Nat.le_refl _
  | reports _ _ _ _ _ after_eq => exact after_eq ▸ Nat.le_refl _
  | givesUp _ _ _ _ after_eq => exact after_eq ▸ Nat.le_refl _
  | keeps _ _ after_eq => exact after_eq ▸ Nat.le_refl _

/-- A fault of grammar or meaning is bound to tokens that had been scanned before the move that
records it. -/
theorem Move.anchored_before {m : Move κ τ strategy}
    (h : m.before.Anchored ident classifier source)
    (h' : m.after.Anchored ident classifier source) {d : Diagnostic κ τ} (hd : d ∈ m.after.sink)
    (hnew : d ∉ m.before.sink) (fault : d.isScanning = false) :
    d.Anchored ident (m.before.scanned (source.tokens classifier)) := by
  have hafter := h'.recorded d hd
  obtain ⟨n, hreads⟩ := h.reads
  -- moving on records what the scanner has found, and nothing else
  have moves : ∀ flag, m.after = State.shift { m.before with recovering := flag } → False := by
    intro flag after_eq
    obtain ⟨found, hsink, hfound⟩ := addsScanning_of_shift hreads.scansOnly after_eq
    rw [hsink] at hd
    have hscanning := hfound d ((List.mem_append.1 hd).resolve_left hnew)
    rw [fault] at hscanning
    cases hscanning
  cases m.effect with
  | shifts _ after_eq => exact (moves m.before.recovering after_eq).elim
  | resumes _ _ _ _ after_eq => exact (moves false after_eq).elim
  | rejects _ _ _ _ after_eq => rwa [after_eq] at hafter
  | reports _ _ _ _ _ after_eq => rwa [after_eq] at hafter
  | givesUp _ _ _ _ after_eq => rwa [after_eq] at hafter
  | keeps _ _ after_eq => rwa [after_eq] at hafter

/-- What is recorded at the end was there at the start, or a move has recorded it. -/
theorem Leads.recorded {s t : State κ τ Unit} {ms : List (Move κ τ strategy)} (h : Leads s ms t)
    {d : Diagnostic κ τ} (hd : d ∈ t.sink) :
    d ∈ s.sink ∨ ∃ m ∈ ms, d ∉ m.before.sink ∧ d ∈ m.after.sink := by
  induction ms generalizing s with
  | nil =>
    cases h
    exact .inl hd
  | cons m ms ih =>
    obtain ⟨rfl, h⟩ := h
    by_cases hbefore : d ∈ m.before.sink
    · exact .inl hbefore
    · obtain hafter | ⟨m', hm', hrecorded⟩ := ih h
      · exact .inr ⟨m, List.mem_cons_self, hbefore, hafter⟩
      · exact .inr ⟨m', List.mem_cons_of_mem _ hm', hrecorded⟩

/-! ## Runs -/

/-- A run from a state to another one by anchored moves. -/
abbrev AnchoredRun (ident : κ) (tokens : List (Token κ)) (strategy : Strategy)
    (s t : State κ τ ω) : Prop :=
  RunsBy (fun m : Move κ τ strategy => m.operation.Anchored ident tokens m.before) s t

namespace AnchoredRun

variable {s t : State κ τ ω}

/-- A run never has more tokens ahead than before. -/
theorem count_le {tokens : List (Token κ)} (h : AnchoredRun ident tokens strategy s t) :
    t.ahead.count ≤ s.ahead.count := by
  obtain ⟨ms, hleads, -⟩ := h
  exact hleads.preserves (p := fun u => u.ahead.count ≤ s.ahead.count)
    (fun m _ hbefore => Nat.le_trans m.count_after_le hbefore) (Nat.le_refl _)

/-- What goes on in anchored moves stays anchored. -/
theorem anchored (h : AnchoredRun ident (source.tokens classifier) strategy s t)
    (hs : s.Anchored ident classifier source) : t.Anchored ident classifier source := by
  obtain ⟨ms, hleads, hanchored⟩ := h
  exact (hleads.preserves (fun m hm hbefore => Move.anchored hbefore (hanchored m hm))
    hs.engine).of_engine

/-- Such a run is anchored at every moment, also right before it records a fault of grammar or
meaning. -/
theorem moments (h : AnchoredRun ident (source.tokens classifier) strategy s t)
    (hs : s.Anchored ident classifier source) :
    ∃ ms : List (Move κ τ strategy), Leads s.engine ms t.engine ∧
      (∀ m ∈ ms, m.before.Anchored ident classifier source ∧
        m.after.Anchored ident classifier source) ∧
      ∀ d ∈ t.sink, d ∈ s.sink ∨ ∃ m ∈ ms, d ∉ m.before.sink ∧ d ∈ m.after.sink ∧
        (d.isScanning = false →
          d.Anchored ident (m.before.scanned (source.tokens classifier))) := by
  obtain ⟨ms, hleads, hanchored⟩ := h
  have hmoments : ∀ m ∈ ms, m.before.Anchored ident classifier source ∧
      m.after.Anchored ident classifier source := by
    intro m hm
    obtain ⟨past, future, rfl⟩ := List.append_of_mem hm
    obtain ⟨u, hpast, rfl, -⟩ := hleads.split
    have hbefore : m.before.Anchored ident classifier source :=
      hpast.preserves (fun m' hm' h' => Move.anchored h'
        (hanchored m' (List.mem_append_left _ hm'))) hs.engine
    exact ⟨hbefore, Move.anchored hbefore (hanchored m hm)⟩
  refine ⟨ms, hleads, hmoments, fun d hd => ?_⟩
  obtain hd | ⟨m, hm, hnew, hd⟩ := hleads.recorded (d := d) hd
  · exact .inl hd
  · exact .inr ⟨m, hm, hnew, hd,
      Move.anchored_before (hmoments m hm).1 (hmoments m hm).2 hd hnew⟩

end AnchoredRun

end

end SinglePass
