import SinglePass.Proofs.Engine.Strategies
import SinglePass.Proofs.Scanning.Lossless

/-!
# Unexpected tokens come from left to right

A recovering run records an unexpected token and says nothing more about the grammar until `mustBe`
has consumed a token.  That token is not the end of the source, so the next unexpected token stands
behind it.

* `State.Orderly` is the invariant: what has been recorded, followed by the tokens that may still be
  recorded, is a sublist of the tokens of the source.  `Move.orderly` is the step.
* `Advances` draws the sum for a source, and `unexpected_advance` says that it holds of Simple and
  of word lists.
-/

namespace SinglePass

variable {κ τ ω α β : Type}

/-! ## Unexpected tokens -/

/-- The token that is unexpected. -/
def Diagnostic.unexpected? : Diagnostic κ τ → Option (Token κ)
  | .unexpected token _ => some token
  | _ => none

/-- The unexpected tokens that a run has recorded, in the order in which they were met. -/
def State.unexpected (s : State κ τ ω) : List (Token κ) := s.sink.filterMap Diagnostic.unexpected?

/-- The tokens that may still be recorded as unexpected: while a run is recovering, those behind the
one that is looked at. -/
def State.yet (s : State κ τ ω) : List (Token κ) :=
  if s.recovering then s.ahead.tokens.map Scanned.token else s.input

/-- No fault of the scanner is an unexpected token. -/
theorem Diagnostic.unexpected?_of_isScanning {d : Diagnostic κ τ} (h : d.isScanning = true) :
    d.unexpected? = none := by
  cases d <;> simp_all [isScanning, unexpected?]

/-- No fault of meaning is an unexpected token. -/
theorem Diagnostic.unexpected?_of_isSemantic {d : Diagnostic κ τ} (h : d.isSemantic = true) :
    d.unexpected? = none := by
  cases d <;> simp_all [isSemantic, unexpected?]

/-- Faults of the scanner add no unexpected token. -/
theorem AddsScanning.unexpected_eq {before after : List (Diagnostic κ τ)}
    (h : AddsScanning before after) :
    after.filterMap Diagnostic.unexpected? = before.filterMap Diagnostic.unexpected? := by
  obtain ⟨found, rfl, hfound⟩ := h
  have hnone : found.filterMap Diagnostic.unexpected? = [] :=
    List.filterMap_eq_nil_iff.2 fun d hd => Diagnostic.unexpected?_of_isScanning (hfound d hd)
  rw [List.filterMap_append, hnone, List.append_nil]

/-- A fault that is recorded adds its unexpected token, if it is one. -/
theorem State.unexpected_record (s : State κ τ ω) (d : Diagnostic κ τ) :
    (s.record d).unexpected = s.unexpected ++ d.unexpected?.toList := by
  rw [unexpected, record, List.filterMap_append]
  cases h : d.unexpected? <;> simp [h, unexpected]

namespace State

/-- Going on leaves the tokens that were ahead. -/
theorem input_shift_of_cons {s : State κ τ ω} {next : Scanned κ τ} {more : List (Scanned κ τ)}
    (h : s.ahead.tokens = next :: more) : s.shift.input = s.ahead.tokens.map Scanned.token := by
  rw [shift_of_cons h, input, Upcoming.tokens_tail, h]
  rfl

/-- Moving on drops the token that is looked at, if there is another one. -/
theorem input_shift_suffix (s : State κ τ ω) : s.shift.input <:+ s.input := by
  cases htokens : s.ahead.tokens with
  | nil =>
    have hshift : s.shift.input = s.input := by rw [shift_of_nil htokens]
    exact hshift ▸ List.suffix_refl _
  | cons next more =>
    rw [input_shift_of_cons htokens, input]
    exact List.suffix_cons _ _

/-- Going on leaves no more tokens that may yet be unexpected. -/
theorem yet_shift_sublist (s : State κ τ ω) : s.shift.yet.Sublist s.yet := by
  rw [yet, yet, shift_recovering, shift_tokens]
  split
  · exact (List.tail_sublist _).map _
  · exact s.input_shift_suffix.sublist

end State

variable [TokenKind κ]

namespace Move

variable {strategy : Strategy}

/-- A move stays at its token, or moves on by one. -/
theorem stays_or_shifts (m : Move κ τ strategy) :
    (m.after.lookahead = m.before.lookahead ∧ m.after.ahead = m.before.ahead) ∨
      (m.after.lookahead = m.before.shift.lookahead ∧ m.after.ahead = m.before.shift.ahead) := by
  cases m.effect with
  | shifts _ after_eq =>
    rw [after_eq]
    exact .inr ⟨rfl, rfl⟩
  | resumes _ _ _ _ after_eq =>
    rw [after_eq]
    refine .inr ?_
    cases htokens : m.before.ahead.tokens with
    | nil =>
      rw [State.shift_of_nil htokens,
        State.shift_of_nil (s := { m.before with recovering := false }) htokens]
      exact ⟨rfl, rfl⟩
    | cons next more =>
      rw [State.shift_of_cons htokens,
        State.shift_of_cons (s := { m.before with recovering := false }) htokens]
      exact ⟨rfl, rfl⟩
  | rejects _ _ _ _ after_eq =>
    rw [after_eq]
    exact .inl ⟨rfl, rfl⟩
  | reports _ _ _ _ _ after_eq =>
    rw [after_eq]
    exact .inl ⟨rfl, rfl⟩
  | givesUp _ _ _ _ after_eq =>
    rw [after_eq]
    exact .inl ⟨rfl, rfl⟩
  | keeps _ _ after_eq =>
    rw [after_eq]
    exact .inl ⟨rfl, rfl⟩

/-- A move keeps the rest of a source before a run. -/
theorem placed_after {m : Move κ τ strategy} (h : m.before.Placed) : m.after.Placed := by
  obtain ⟨hlook, hahead⟩ | ⟨hlook, hahead⟩ := m.stays_or_shifts
  · exact h.congr hlook hahead
  · exact h.shift.congr hlook hahead

/-- What is before a run after a move was before it already. -/
theorem input_suffix (m : Move κ τ strategy) : m.after.input <:+ m.before.input := by
  obtain ⟨hlook, hahead⟩ | ⟨hlook, hahead⟩ := m.stays_or_shifts
  · rw [State.input, hlook, hahead]
    exact List.suffix_refl _
  · rw [State.input, hlook, hahead]
    exact m.before.input_shift_suffix

/-- A token that `mustBe` consumes is the one that is looked at, and of the required kind. -/
theorem kind_eq_of_mustBe {m : Move κ τ strategy} {kind : κ} {token : Token κ}
    (operation_eq : m.operation = .mustBe kind) (outcome_eq : m.outcome = .value (some token)) :
    token = m.before.lookahead ∧ token.kind = kind := by
  obtain ⟨s, operation, allowed⟩ := m
  cases operation_eq
  have hperform : (Recognizer.mustBe kind strategy s).1 = .value (some token) := outcome_eq
  cases hr : s.recovering with
  | true =>
    rw [Recognizer.mustBe_of_recovering strategy hr, Recognizer.resynchronize,
      State.discardTo_of_over (allowed hr)] at hperform
    split at hperform
    · next hk =>
      cases hperform
      exact ⟨rfl, hk⟩
    · cases hperform
  | false =>
    by_cases hk : s.lookahead.kind = kind
    · rw [Recognizer.mustBe_of_kind_eq strategy hr hk] at hperform
      cases hperform
      exact ⟨rfl, hk⟩
    · cases strategy with
      | failFast =>
        rw [Recognizer.mustBe_failFast_of_kind_ne hr hk] at hperform
        cases hperform
      | recovering =>
        rw [Recognizer.mustBe_recovering_of_kind_ne hr hk] at hperform
        cases hperform

/-- Behind a token that `mustBe` has consumed there is another one, unless it ended the source. -/
theorem input_of_mustBe {m : Move κ τ strategy} {kind : κ} {token : Token κ}
    (placed : m.before.Placed) (operation_eq : m.operation = .mustBe kind)
    (outcome_eq : m.outcome = .value (some token))
    (hend : m.operation ≠ .mustBe TokenKind.endOfFile) :
    m.after.input = m.before.ahead.tokens.map Scanned.token := by
  obtain ⟨htoken, hkind⟩ := kind_eq_of_mustBe operation_eq outcome_eq
  have hne : m.before.ahead.tokens ≠ [] := placed.tokens_ne_nil fun hk =>
    hend (by rw [operation_eq, ← hkind, htoken, hk])
  obtain ⟨next, more, htokens⟩ := List.exists_cons_of_ne_nil hne
  cases m.effect with
  | shifts _ after_eq =>
    rw [after_eq]
    exact State.input_shift_of_cons htokens
  | resumes _ _ _ _ after_eq =>
    rw [after_eq]
    exact State.input_shift_of_cons (s := { m.before with recovering := false }) htokens
  | rejects _ _ _ outcome_none => nomatch outcome_eq.symm.trans outcome_none
  | reports _ _ _ _ outcome_none => nomatch outcome_eq.symm.trans outcome_none
  | givesUp _ _ _ outcome_abort => nomatch outcome_eq.symm.trans outcome_abort
  | keeps _ outcome_none => nomatch outcome_eq.symm.trans outcome_none

/-- The unexpected token that a move records. -/
def rejected? (m : Move κ τ strategy) : Option (Token κ) :=
  if m.turnsOn then some m.before.lookahead else none

end Move

/-! ## The order in which they are recorded -/

/-- What has been recorded as unexpected, and what may still be, stands in the order of the
tokens. -/
structure State.Orderly (tokens : List (Token κ)) (s : State κ τ ω) : Prop where
  placed : s.Placed
  scansOnly : s.ScansOnly
  sublist : (s.unexpected ++ s.yet).Sublist tokens

/-- A move records no unexpected token that would be out of order, unless it requires the end of the
source. -/
theorem Move.orderly {m : Move κ τ .recovering} {tokens : List (Token κ)}
    (h : m.before.Orderly tokens) (hend : m.operation ≠ .mustBe TokenKind.endOfFile) :
    m.after.Orderly tokens := by
  refine ⟨placed_after h.placed, scansOnly_after h.scansOnly, ?_⟩
  cases m.effect with
  | shifts _ after_eq =>
    have hsame : m.after.unexpected = m.before.unexpected :=
      (addsScanning_of_shift h.scansOnly after_eq).unexpected_eq
    rw [hsame, after_eq]
    exact ((List.Sublist.refl _).append m.before.yet_shift_sublist).trans h.sublist
  | resumes kind operation_eq recovers outcome_eq after_eq =>
    have hsame : m.after.unexpected = m.before.unexpected :=
      (addsScanning_of_shift h.scansOnly after_eq).unexpected_eq
    -- what may be recorded from here on are the tokens behind the one that is consumed
    have hyet : m.after.yet = m.before.yet := by
      rw [State.yet, State.yet, recovers,
        input_of_mustBe h.placed operation_eq outcome_eq hend, after_eq, State.shift_recovering]
      rfl
    rw [hsame, hyet]
    exact h.sublist
  | rejects expected _ calm _ after_eq =>
    have hmore : m.after.unexpected = m.before.unexpected ++ [m.before.lookahead] := by
      rw [after_eq]
      exact m.before.unexpected_record (.unexpected m.before.lookahead expected)
    have hyet : m.before.yet = m.before.lookahead :: m.after.yet := by
      rw [State.yet, State.yet, calm, after_eq]
      rfl
    rw [hmore, List.append_assoc]
    have hsublist := h.sublist
    rwa [hyet] at hsublist
  | reports d _ _ semantic _ after_eq =>
    have hsame : m.after.unexpected = m.before.unexpected := by
      rw [after_eq, State.unexpected_record, Diagnostic.unexpected?_of_isSemantic semantic,
        Option.toList_none, List.append_nil]
    rw [hsame, after_eq]
    exact h.sublist
  | givesUp _ strategy_eq => nomatch strategy_eq
  | keeps scopes _ after_eq =>
    rw [after_eq]
    exact h.sublist

/-- The moves of a disciplined recognizer do not require the end of the source. -/
theorem Disciplined.runsBy {binds : Bool} {r : Recognizer κ τ ω α} (h : Disciplined binds r)
    (strategy : Strategy) (s : State κ τ ω) :
    RunsBy (fun m : Move κ τ strategy => m.operation ≠ .mustBe TokenKind.endOfFile) s
      (r strategy s).2 := by
  induction h generalizing s with
  | pure a => exact .of_engine_eq rfl
  | bind _ _ ihr ihf => exact .bind (ihr s) fun a t _ => ihf a t
  | withFuel _ ih => exact ih _ s
  | outOfFuel => exact .of_engine_eq rfl
  | read f => exact .of_engine_eq rfl
  | note w => exact .of_engine_eq rfl
  | advance =>
    exact .operation .advance trivial some rfl fun m _ hm heq => nomatch hm.symm.trans heq
  -- No other operation can require the end, and this one asks for another kind.
  | mustBe kind hkind =>
    refine .mustBe kind fun m hm heq => ?_
    obtain hm | hm := hm
    · nomatch hm.symm.trans heq
    · exact hkind (Operation.mustBe.inj (hm.symm.trans heq))
  | unexpected expected =>
    exact .operation (.unexpected expected) trivial (fun _ => none) rfl
      fun m _ hm heq => nomatch hm.symm.trans heq
  | report d hd =>
    exact .operation (.report d) hd (fun _ => none) rfl fun m _ hm heq => nomatch hm.symm.trans heq
  | bindSymbol symbol =>
    exact .operation (.bindSymbol symbol) trivial (fun _ => none) rfl
      fun m _ hm heq => nomatch hm.symm.trans heq
  | inScope _ ih =>
    refine .bind (.operation .openScope trivial (fun _ => none) rfl ?_) fun _ t _ =>
      .bind (ih t) fun a u _ =>
        .bind (.operation .closeScope trivial (fun _ => none) rfl ?_) fun _ _ _ => .of_engine_eq rfl
    · exact fun m _ hm heq => nomatch hm.symm.trans heq
    · exact fun m _ hm heq => nomatch hm.symm.trans heq

/-! ## Between two unexpected tokens -/

/-- A move rejects the token that it looks at if it starts a recovery. -/
theorem Move.rejected?_of_turnsOn {strategy : Strategy} {m : Move κ τ strategy} {flag : Bool}
    (h : m.turnsOn = flag) : m.rejected? = if flag then some m.before.lookahead else none := by
  rw [rejected?, h]

/-- The unexpected token that a move records is the one that is looked at. -/
theorem Move.unexpected_after {m : Move κ τ .recovering} (h : m.before.ScansOnly) :
    m.after.unexpected = m.before.unexpected ++ m.rejected?.toList := by
  -- Every move is quiet but the one that rejects a token.
  have quiet : m.turnsOn = false → m.after.unexpected = m.before.unexpected →
      m.after.unexpected = m.before.unexpected ++ m.rejected?.toList := by
    intro hflag hsame
    rw [hsame, rejected?_of_turnsOn hflag]
    exact (List.append_nil _).symm
  cases m.effect with
  | shifts _ after_eq =>
    refine quiet ?_ (addsScanning_of_shift h after_eq).unexpected_eq
    rw [turnsOn, after_eq, State.shift_recovering, Bool.not_and_self]
  | resumes _ _ _ _ after_eq =>
    refine quiet ?_ (addsScanning_of_shift h after_eq).unexpected_eq
    rw [turnsOn, after_eq, State.shift_recovering, Bool.and_false]
  | rejects expected _ calm _ after_eq =>
    have hflag : m.turnsOn = true := by
      rw [turnsOn, calm, after_eq]
      rfl
    rw [rejected?_of_turnsOn hflag, after_eq]
    exact m.before.unexpected_record (.unexpected m.before.lookahead expected)
  | reports d _ calm semantic _ after_eq =>
    refine quiet ?_ ?_
    · rw [turnsOn, after_eq]
      exact Bool.not_and_self _
    · rw [after_eq, State.unexpected_record, Diagnostic.unexpected?_of_isSemantic semantic]
      exact List.append_nil _
  | givesUp _ strategy_eq => cases strategy_eq
  | keeps scopes _ after_eq =>
    refine quiet ?_ ?_
    · rw [turnsOn, after_eq]
      exact Bool.not_and_self _
    · rw [after_eq]
      rfl

namespace Leads

variable {s t : State κ τ Unit} {ms : List (Move κ τ .recovering)}

/-- The unexpected tokens are those that the moves record. -/
theorem unexpected_eq (h : Leads s ms t) (scansOnly : s.ScansOnly) :
    t.unexpected = s.unexpected ++ ms.filterMap Move.rejected? := by
  induction ms generalizing s with
  | nil =>
    cases h
    exact (List.append_nil _).symm
  | cons m ms ih =>
    obtain ⟨rfl, h⟩ := h
    rw [ih h (Move.scansOnly_after scansOnly), Move.unexpected_after scansOnly, List.append_assoc]
    cases hm : m.rejected? <;> simp [hm]

/-- What is left at the end was left before. -/
theorem input_suffix (h : Leads s ms t) : t.input <:+ s.input :=
  h.preserves (p := fun u => u.input <:+ s.input) (fun m _ hm => m.input_suffix.trans hm)
    (List.suffix_refl _)

/-- Where a recovery comes to its end, a move ends it. -/
theorem turnsOff (h : Leads s ms t) (hon : s.recovering = true) (hoff : t.recovering = false) :
    ∃ past m future, ms = past ++ m :: future ∧ Leads s past m.before ∧ Leads m.after future t ∧
      m.before.recovering = true ∧ m.after.recovering = false := by
  induction ms generalizing s with
  | nil =>
    cases h
    rw [hon] at hoff
    nomatch hoff
  | cons m ms ih =>
    obtain ⟨rfl, h⟩ := h
    cases hm : m.after.recovering with
    | false => exact ⟨[], m, ms, rfl, rfl, h, hon, hm⟩
    | true =>
      obtain ⟨past, last, future, rfl, hpast, hfuture, hlast⟩ := ih h hm
      exact ⟨m :: past, last, future, rfl, ⟨rfl, hpast⟩, hfuture, hlast⟩

end Leads

/-- Between two moves that record unexpected tokens, `mustBe` consumes a token, which is the first
of the two or one behind it, and stands before the second. -/
def Move.RequiredBetween (first : Move κ τ .recovering) (between : List (Move κ τ .recovering))
    (second : Move κ τ .recovering) : Prop :=
  ∀ t u, first.rejected? = some t → second.rejected? = some u →
    ∃ m ∈ between, ∃ kind token, m.operation = .mustBe kind ∧ m.outcome = .value (some token) ∧
      t.position ≤ token.position ∧ token.position < u.position

/-- A recovering run rejects a token by starting to recover at it. -/
theorem Move.eq_of_rejected? {m : Move κ τ .recovering} {t : Token κ}
    (h : m.rejected? = some t) :
    t = m.before.lookahead ∧ m.before.recovering = false ∧ m.after.recovering = true := by
  rw [rejected?] at h
  split at h
  · next hflag =>
    rw [turnsOn, Bool.and_eq_true, Bool.not_eq_true'] at hflag
    exact ⟨(Option.some.inj h).symm, hflag⟩
  · cases h

omit [TokenKind κ] in
/-- A token that is looked at further on stands at or behind the one that is looked at now. -/
theorem State.position_le_of_suffix {s t : State κ τ ω} (h : t.input <:+ s.input)
    (increasing : s.input.Pairwise fun t u => t.position < u.position) :
    s.lookahead.position ≤ t.lookahead.position := by
  have hmem : t.lookahead ∈ s.input := h.mem (List.mem_cons_self)
  obtain heq | hmem := List.mem_cons.1 hmem
  · rw [heq]
    exact Position.le_refl _
  · exact Position.le_of_lt ((List.pairwise_cons.1 increasing).1 _ hmem)

/-- **Between two tokens that are rejected, a required one has been consumed.** -/
theorem Leads.requiredBetween {s t : State κ τ Unit} {first second : Move κ τ .recovering}
    {between future : List (Move κ τ .recovering)}
    (h : Leads s (first :: (between ++ second :: future)) t) (placed : s.Placed)
    (scansOnly : s.ScansOnly) (increasing : s.input.Pairwise fun t u => t.position < u.position)
    (hend : ∀ m ∈ between, m.operation ≠ .mustBe TokenKind.endOfFile) :
    first.RequiredBetween between second := by
  intro t u ht hu
  obtain ⟨rfl, -, hon⟩ := Move.eq_of_rejected? ht
  obtain ⟨rfl, hoff, -⟩ := Move.eq_of_rejected? hu
  obtain ⟨rfl, h⟩ := h
  obtain ⟨middle, hbetween, rfl, -⟩ := h.split
  obtain ⟨past, m, future', rfl, hpast, hfuture, hm⟩ := hbetween.turnsOff hon hoff
  have hplaced : m.before.Placed := hpast.preserves (p := State.Placed)
    (fun _ _ => Move.placed_after) (Move.placed_after placed)
  have hscans : m.before.ScansOnly := hpast.preserves (p := State.ScansOnly)
    (fun _ _ => Move.scansOnly_after) (Move.scansOnly_after scansOnly)
  have hsuffix : m.before.input <:+ first.before.input :=
    hpast.input_suffix.trans first.input_suffix
  obtain ⟨kind, token, hoperation, houtcome⟩ := (Move.lenient hscans).turnsOff hm.1 hm.2
  obtain ⟨rfl, hkind⟩ := Move.kind_eq_of_mustBe hoperation houtcome
  have hmem : m ∈ past ++ m :: future' := by simp
  refine ⟨m, hmem, kind, _, hoperation, houtcome, ?_, ?_⟩
  · exact State.position_le_of_suffix hsuffix increasing
  · have hinput := Move.input_of_mustBe hplaced hoperation houtcome (hend m hmem)
    have hbehind : second.before.lookahead ∈ m.before.ahead.tokens.map Scanned.token := by
      rw [← hinput]
      exact hfuture.input_suffix.mem List.mem_cons_self
    exact (List.pairwise_cons.1 (increasing.sublist hsuffix.sublist)).1 _ hbehind

/-! ## Whole runs -/

/-- The unexpected tokens of a recovering run, from the first to the last that it records. -/
structure Advances (classifier : Classifier κ) (start : Recognizer κ τ ω Unit) (source : Source) :
    Prop where
  /-- They are tokens of the source, in its order. -/
  sublist : (run classifier start .recovering source).2.unexpected.Sublist
    (source.tokens classifier)
  increasing : (run classifier start .recovering source).2.unexpected.Pairwise fun t u =>
    t.position < u.position
  /-- No token is recorded twice. -/
  nodup : (run classifier start .recovering source).2.unexpected.Nodup
  /-- The end of the source is recorded at most once. -/
  end_once : (run classifier start .recovering source).2.unexpected.countP Token.isEnd ≤ 1
  /-- They are recorded by the moves of the run, and between any two of these `mustBe` consumes a
  token. -/
  required : ∃ ms : List (Move κ τ .recovering),
    Leads (State.initial classifier source : State κ τ ω).engine ms
      (run classifier start .recovering source).2.engine ∧
    (run classifier start .recovering source).2.unexpected = ms.filterMap Move.rejected? ∧
    ∀ past first between second future, ms = past ++ first :: (between ++ second :: future) →
      first.RequiredBetween between second

/-- A run begins without an unexpected token. -/
theorem State.initial_unexpected (classifier : Classifier κ) (source : Source) :
    (State.initial classifier source : State κ τ ω).unexpected = [] :=
  List.filterMap_eq_nil_iff.2 fun _ hd =>
    Diagnostic.unexpected?_of_isScanning (State.isScanning_of_mem_initial_sink classifier source hd)

/-- A run begins in order. -/
theorem State.orderly_initial (classifier : Classifier κ) (source : Source) :
    (State.initial classifier source : State κ τ ω).Orderly (source.tokens classifier) := by
  refine ⟨State.placed_initial classifier source, State.initial_scansOnly classifier source, ?_⟩
  rw [initial_unexpected, yet, initial_recovering, List.nil_append, initial_input]
  exact List.Sublist.refl _

/-- Notes do not matter for it. -/
theorem State.Orderly.engine {s : State κ τ ω} {tokens : List (Token κ)} (h : s.Orderly tokens) :
    s.engine.Orderly tokens := ⟨h.placed, h.scansOnly, h.sublist⟩

/-- The token that ends a source stands in it once. -/
theorem Source.countP_isEnd (classifier : Classifier κ) (source : Source) :
    (source.tokens classifier).countP Token.isEnd = 1 := by
  obtain ⟨before, last, heq, hlast, hbefore⟩ := source.tokens_eq_append classifier
  have hnone : before.countP Token.isEnd = 0 := by
    rw [List.countP_eq_zero]
    intro t ht hend
    rw [hbefore t ht] at hend
    nomatch hend
  rw [heq, List.countP_append, hnone, List.countP_singleton, hlast]
  rfl

/-- In a source that is tiled by its lexicon, a disciplined start rule meets its unexpected tokens
from left to right. -/
theorem Disciplined.advances {l : Lexicon κ} {gap tail : List Char → Prop}
    (htiles : l.Tiles gap tail) {start : Recognizer κ τ ω Unit} (h : Disciplined false start)
    (source : Source) : Advances l.classifier start source := by
  have hincreasing := htiles.positions_increase source
  obtain ⟨ms, hms, hend⟩ := h.toEnd.runsBy .recovering (.initial l.classifier source)
  have hinitial := (State.orderly_initial (τ := τ) (ω := ω) l.classifier source).engine
  have horderly : (run l.classifier start .recovering source).2.engine.Orderly
      (source.tokens l.classifier) :=
    hms.preserves (p := State.Orderly (source.tokens l.classifier))
      (fun m hm hs => Move.orderly hs (hend m hm)) hinitial
  -- The order is that of the source, as the unexpected tokens are some of its tokens.
  have hsublist : (run l.classifier start .recovering source).2.unexpected.Sublist
      (source.tokens l.classifier) :=
    (List.sublist_append_left _ _).trans horderly.sublist
  refine ⟨hsublist, hincreasing.sublist hsublist, ?_, ?_, ms, hms, ?_, ?_⟩
  · refine (hincreasing.sublist hsublist).imp fun {t u} hlt heq => ?_
    rw [heq] at hlt
    exact Position.lt_irrefl hlt
  · rw [← source.countP_isEnd l.classifier]
    exact hsublist.countP_le
  · have hunexpected := hms.unexpected_eq hinitial.scansOnly
    have hnone : (State.initial l.classifier source : State κ τ ω).engine.unexpected = [] :=
      State.initial_unexpected (ω := ω) l.classifier source
    rwa [hnone, List.nil_append] at hunexpected
  · rintro past first between second future rfl
    obtain ⟨u, hpast, hrest⟩ := hms.split
    have hu : u.Orderly (source.tokens l.classifier) := hpast.preserves
      (p := State.Orderly (source.tokens l.classifier))
      (fun m hm hs => Move.orderly hs (hend m (by simp [hm]))) hinitial
    have hinput : u.input <:+ source.tokens l.classifier := by
      rw [← State.initial_input (τ := τ) (ω := ω)]
      exact hpast.input_suffix
    exact hrest.requiredBetween hu.placed hu.scansOnly (hincreasing.sublist hinput.sublist)
      fun m hm => hend m (by simp [hm])

/-- In recovering runs of Simple and of word lists, the unexpected tokens come from left to right,
each of them behind a token that `mustBe` has consumed since the one before. -/
theorem unexpected_advance (source : Source) :
    Advances Simple.classifier Simple.program source ∧
      Advances WordList.classifier WordList.wordList source :=
  ⟨Simple.disciplined_program.advances Simple.tiles source,
    WordList.disciplined_wordList.advances WordList.tiles source⟩

end SinglePass
