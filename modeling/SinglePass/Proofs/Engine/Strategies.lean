import SinglePass.Simple.Script
import SinglePass.Proofs.Engine.Moves
import SinglePass.Proofs.Termination.Grammars

/-!
# What the two strategies allow

The engine is a state machine with one flag, which says whether a run is recovering.

* Recovering, no operation gives up.  A fault of grammar or meaning is recorded only while the flag
  is off; the flag goes on exactly when an unexpected token is recorded; and it goes off only where
  `mustBe` consumes a token.
* Failing fast, the flag is never on, and an operation gives up exactly if it has recorded a fault
  of grammar or meaning, which is then the only one and the last thing recorded.

Both are facts about single moves (`Move.lenient`, `Move.strict`), which hold of whatever drives the
engine.  `Simple.script_obeys` draws the sum for every script of operations.
-/

namespace SinglePass

variable {κ τ ω α : Type}

/-- Of the faults that were added, the last one is of grammar or meaning, and no other. -/
def EndsInFault (before after : List (Diagnostic κ τ)) : Prop :=
  ∃ found d, after = before ++ (found ++ [d]) ∧ (∀ e ∈ found, e.isScanning = true) ∧
    d.isScanning = false

/-- Only faults of the scanner were added. -/
def AddsScanning (before after : List (Diagnostic κ τ)) : Prop :=
  ∃ found, after = before ++ found ∧ ∀ e ∈ found, e.isScanning = true

namespace AddsScanning

variable {before between after : List (Diagnostic κ τ)}

/-- Nothing may be added. -/
theorem refl (faults : List (Diagnostic κ τ)) : AddsScanning faults faults :=
  ⟨[], (List.append_nil _).symm, by simp⟩

/-- What is added in two steps is added. -/
theorem trans (h : AddsScanning before between) (h' : AddsScanning between after) :
    AddsScanning before after := by
  obtain ⟨found, rfl, hfound⟩ := h
  obtain ⟨more, rfl, hmore⟩ := h'
  refine ⟨found ++ more, List.append_assoc _ _ _, fun e he => ?_⟩
  exact (List.mem_append.1 he).elim (hfound e) (hmore e)

/-- Faults of the scanner may come before the fault at the end. -/
theorem trans_endsInFault (h : AddsScanning before between) (h' : EndsInFault between after) :
    EndsInFault before after := by
  obtain ⟨found, rfl, hfound⟩ := h
  obtain ⟨more, d, rfl, hmore, hd⟩ := h'
  refine ⟨found ++ more, d, by simp only [List.append_assoc], fun e he => ?_, hd⟩
  exact (List.mem_append.1 he).elim (hfound e) (hmore e)

/-- What adds faults of the scanner only does not end in a fault. -/
theorem not_endsInFault (h : AddsScanning before after) : ¬ EndsInFault before after := by
  rintro ⟨found, d, hfound, -, hd⟩
  obtain ⟨scanned, hscanned, hall⟩ := h
  rw [hscanned] at hfound
  have hmem : d ∈ scanned := by
    rw [List.append_cancel_left hfound]
    exact List.mem_append_right _ (List.mem_singleton.2 rfl)
  rw [hall d hmem] at hd
  nomatch hd

/-- No unexpected token is among the faults of the scanner. -/
theorem countP_eq (h : AddsScanning before after) :
    after.countP Diagnostic.isUnexpected = before.countP Diagnostic.isUnexpected := by
  obtain ⟨found, rfl, hfound⟩ := h
  rw [List.countP_append, (List.countP_eq_zero (l := found)).2, Nat.add_zero]
  intro e he
  have hscanning := hfound e he
  cases e <;> simp_all [Diagnostic.isScanning, Diagnostic.isUnexpected]

end AddsScanning

/-- Moving on adds what comes with the next token. -/
theorem State.ScansOnly.addsScanning_shift {s : State κ τ ω} (h : s.ScansOnly) :
    AddsScanning s.sink s.shift.sink := by
  cases htokens : s.ahead.tokens with
  | nil =>
    rw [State.shift_of_nil htokens]
    exact .refl _
  | cons next more =>
    rw [State.shift_of_cons htokens]
    exact ⟨next.faults, rfl, h next (by rw [htokens]; exact List.mem_cons_self)⟩

section

variable [TokenKind κ]

/-! ## Single moves -/

/-- What a move of a recovering run may do. -/
structure Move.Lenient (m : Move κ τ .recovering) : Prop where
  goesOn : ∃ token?, m.outcome = .value token?
  /-- While the flag is on, only faults of the scanner are added. -/
  suppresses : m.before.recovering = true → AddsScanning m.before.sink m.after.sink
  /-- The flag goes on with an unexpected token. -/
  turnsOn : m.after.sink.countP Diagnostic.isUnexpected =
    m.before.sink.countP Diagnostic.isUnexpected + if m.turnsOn then 1 else 0
  /-- The flag goes off with a required token. -/
  turnsOff : m.before.recovering = true → m.after.recovering = false →
    ∃ kind token, m.operation = .mustBe kind ∧ m.outcome = .value (some token)

/-- What a move of a run that fails fast may do. -/
structure Move.Strict (m : Move κ τ .failFast) : Prop where
  calm : m.before.recovering = false → m.after.recovering = false
  givesUp_iff : m.outcome = .abort ↔ EndsInFault m.before.sink m.after.sink
  goesOn : m.outcome ≠ .abort → AddsScanning m.before.sink m.after.sink

namespace Move

variable {strategy : Strategy}

/-- The faults of the tokens to come stay faults of the scanner. -/
theorem scansOnly_after {m : Move κ τ strategy} (h : m.before.ScansOnly) : m.after.ScansOnly := by
  cases m.effect with
  | shifts _ after_eq =>
    rw [after_eq]
    exact h.shift
  | resumes _ _ _ _ after_eq =>
    rw [after_eq]
    exact State.ScansOnly.shift (show State.ScansOnly { m.before with recovering := false } from h)
  | rejects _ _ _ _ after_eq =>
    rw [after_eq]
    exact h
  | reports _ _ _ _ _ after_eq =>
    rw [after_eq]
    exact h
  | givesUp _ _ _ _ after_eq =>
    rw [after_eq]
    exact h
  | keeps _ _ after_eq =>
    rw [after_eq]
    exact h

/-- A move that consumes a token adds what comes with the next one. -/
theorem addsScanning_of_shift {m : Move κ τ strategy} {flag : Bool} (h : m.before.ScansOnly)
    (after_eq : m.after = State.shift { m.before with recovering := flag }) :
    AddsScanning m.before.sink m.after.sink := by
  have hflagged : State.ScansOnly { m.before with recovering := flag } := h
  rw [after_eq]
  exact hflagged.addsScanning_shift

/-- A move that changes the scopes at most adds nothing. -/
theorem addsScanning_of_keeps {m : Move κ τ strategy} {scopes : ScopeStack κ τ}
    (after_eq : m.after = { m.before with scopes }) : AddsScanning m.before.sink m.after.sink := by
  rw [after_eq]
  exact .refl _

/-- Every move of a recovering run keeps to the strategy. -/
theorem lenient {m : Move κ τ .recovering} (h : m.before.ScansOnly) : m.Lenient := by
  -- While the flag stays and only the scanner adds faults, no unexpected token is counted.
  have quiet : m.after.recovering = m.before.recovering →
      AddsScanning m.before.sink m.after.sink →
      m.after.sink.countP Diagnostic.isUnexpected =
        m.before.sink.countP Diagnostic.isUnexpected + if m.turnsOn then 1 else 0 := by
    intro hflag hadds
    rw [hadds.countP_eq, turnsOn, hflag, Bool.not_and_self, if_neg Bool.false_ne_true, Nat.add_zero]
  cases m.effect with
  | shifts outcome_eq after_eq =>
    have hflag : m.after.recovering = m.before.recovering := by
      rw [after_eq, State.shift_recovering]
    have hadds := addsScanning_of_shift h after_eq
    refine ⟨⟨_, outcome_eq⟩, fun _ => hadds, quiet hflag hadds, fun hon hoff => ?_⟩
    rw [hflag, hon] at hoff
    nomatch hoff
  | resumes kind operation_eq recovers outcome_eq after_eq =>
    have hflag : m.after.recovering = false := by rw [after_eq, State.shift_recovering]
    have hadds := addsScanning_of_shift h after_eq
    refine ⟨⟨_, outcome_eq⟩, fun _ => hadds, ?_, fun _ _ => ⟨kind, _, operation_eq, outcome_eq⟩⟩
    rw [hadds.countP_eq, turnsOn, hflag, Bool.and_false, if_neg Bool.false_ne_true, Nat.add_zero]
  | rejects expected _ calm outcome_eq after_eq =>
    have hoff : m.before.recovering ≠ true := Bool.eq_false_iff.1 calm
    refine ⟨⟨_, outcome_eq⟩, fun hon => absurd hon hoff, ?_, fun hon => absurd hon hoff⟩
    rw [turnsOn, calm, after_eq]
    exact List.countP_append
  | reports d _ calm semantic outcome_eq after_eq =>
    have hunexpected : d.isUnexpected = false := Diagnostic.isUnexpected_of_isSemantic semantic
    have hoff : m.before.recovering ≠ true := Bool.eq_false_iff.1 calm
    refine ⟨⟨_, outcome_eq⟩, fun hon => absurd hon hoff, ?_, fun hon => absurd hon hoff⟩
    rw [turnsOn, calm, after_eq]
    show (m.before.sink ++ [d]).countP _ = _
    rw [List.countP_append, List.countP_singleton, hunexpected]
    simp [State.record, calm]
  | givesUp _ strategy_eq => nomatch strategy_eq
  | keeps scopes outcome_eq after_eq =>
    have hflag : m.after.recovering = m.before.recovering := by rw [after_eq]
    have hadds := addsScanning_of_keeps after_eq
    refine ⟨⟨_, outcome_eq⟩, fun _ => hadds, quiet hflag hadds, fun hon hoff => ?_⟩
    rw [hflag, hon] at hoff
    nomatch hoff

/-- Every move of a run that fails fast keeps to the strategy. -/
theorem strict {m : Move κ τ .failFast} (h : m.before.ScansOnly) : m.Strict := by
  have quiet : ∀ {token?}, m.outcome = .value token? →
      AddsScanning m.before.sink m.after.sink →
      (m.outcome = .abort ↔ EndsInFault m.before.sink m.after.sink) := by
    intro token? houtcome hadds
    constructor
    · intro habort
      rw [houtcome] at habort
      nomatch habort
    · exact fun hends => absurd hends hadds.not_endsInFault
  cases m.effect with
  | shifts outcome_eq after_eq =>
    have hadds := addsScanning_of_shift h after_eq
    refine ⟨fun hcalm => ?_, quiet outcome_eq hadds, fun _ => hadds⟩
    rw [after_eq, State.shift_recovering, hcalm]
  | resumes kind _ _ outcome_eq after_eq =>
    have hadds := addsScanning_of_shift h after_eq
    refine ⟨fun _ => ?_, quiet outcome_eq hadds, fun _ => hadds⟩
    rw [after_eq, State.shift_recovering]
  | rejects _ strategy_eq => nomatch strategy_eq
  | reports _ strategy_eq => nomatch strategy_eq
  | givesUp d _ fault outcome_eq after_eq =>
    refine ⟨fun hcalm => ?_, ⟨fun _ => ⟨[], d, ?_, by simp, fault⟩, fun _ => outcome_eq⟩,
      fun hne => absurd outcome_eq hne⟩
    · rw [after_eq]
      exact hcalm
    · rw [after_eq]
      rfl
  | keeps scopes outcome_eq after_eq =>
    have hadds := addsScanning_of_keeps after_eq
    refine ⟨fun hcalm => ?_, quiet outcome_eq hadds, fun _ => hadds⟩
    rw [after_eq]
    exact hcalm

end Move

/-! ## Sequences of moves -/

namespace Leads

variable {strategy : Strategy} {s t : State κ τ Unit}

/-- As many unexpected tokens are recorded as the flag goes on. -/
theorem countP_unexpected {ms : List (Move κ τ .recovering)} (h : Leads s ms t)
    (hms : ∀ m ∈ ms, m.Lenient) : t.sink.countP Diagnostic.isUnexpected =
      s.sink.countP Diagnostic.isUnexpected + ms.countP Move.turnsOn := by
  induction ms generalizing s with
  | nil =>
    cases h
    rfl
  | cons m ms ih =>
    obtain ⟨rfl, h⟩ := h
    rw [ih h fun m' hm' => hms m' (List.mem_cons_of_mem _ hm'),
      (hms m List.mem_cons_self).turnsOn, List.countP_cons, Nat.add_assoc, Nat.add_comm (ite _ _ _)]

/-- Moves of which none gives up add only faults of the scanner. -/
theorem addsScanning {ms : List (Move κ τ .failFast)} (h : Leads s ms t)
    (hms : ∀ m ∈ ms, m.Strict) (hall : ∀ m ∈ ms, m.outcome ≠ .abort) :
    AddsScanning s.sink t.sink := by
  induction ms generalizing s with
  | nil =>
    cases h
    exact .refl _
  | cons m ms ih =>
    obtain ⟨rfl, h⟩ := h
    exact ((hms m List.mem_cons_self).goesOn (hall m List.mem_cons_self)).trans
      (ih h (fun m' hm' => hms m' (List.mem_cons_of_mem _ hm'))
        fun m' hm' => hall m' (List.mem_cons_of_mem _ hm'))

end Leads

/-- From a state before which the scanner has found all that is to come, a recovering run keeps to
its strategy at every moment. -/
structure RunsLenient (s t : State κ τ ω) : Prop where
  /-- Every single move keeps to the strategy, and as many unexpected tokens are recorded as the
  flag goes on. -/
  moves : ∃ ms : List (Move κ τ .recovering), Leads s.engine ms t.engine ∧ (∀ m ∈ ms, m.Lenient) ∧
    t.sink.countP Diagnostic.isUnexpected =
      s.sink.countP Diagnostic.isUnexpected + ms.countP Move.turnsOn

/-- A run that fails fast keeps to its strategy at every moment. -/
structure RunsStrict (s t : State κ τ ω) : Prop where
  /-- Every single move keeps to the strategy, and the flag is off. -/
  moves : ∃ ms : List (Move κ τ .failFast), Leads s.engine ms t.engine ∧
    ∀ m ∈ ms, m.Strict ∧ m.before.recovering = false
  calm : t.recovering = false

/-- A recovering run keeps to its strategy in every move. -/
theorem Driven.runsLenient {r : Recognizer κ τ ω α} (h : Driven r) {s : State κ τ ω}
    (scansOnly : s.ScansOnly) : RunsLenient s (r .recovering s).2 := by
  obtain ⟨ms, hms⟩ := h.followed .recovering s
  have hlenient : ∀ m ∈ ms, m.Lenient := fun m hm =>
    Move.lenient (hms.before (fun _ => Move.scansOnly_after) scansOnly m hm)
  exact ⟨ms, hms, hlenient, hms.countP_unexpected hlenient⟩

/-- A run that fails fast keeps to its strategy in every move. -/
theorem Driven.runsStrict {r : Recognizer κ τ ω α} (h : Driven r) {s : State κ τ ω}
    (scansOnly : s.ScansOnly) (calm : s.recovering = false) :
    RunsStrict s (r .failFast s).2 := by
  obtain ⟨ms, hms⟩ := h.followed .failFast s
  have hstrict : ∀ m ∈ ms, m.Strict := fun m hm =>
    Move.strict (hms.before (fun _ => Move.scansOnly_after) scansOnly m hm)
  have hcalm := hms.before (p := fun s => s.ScansOnly ∧ s.recovering = false)
    (fun m hm => ⟨Move.scansOnly_after hm.1, (Move.strict hm.1).calm hm.2⟩) ⟨scansOnly, calm⟩
  refine ⟨⟨ms, hms, fun m hm => ⟨hstrict m hm, (hcalm m hm).2⟩⟩, ?_⟩
  exact hms.preserves (p := fun s => s.recovering = false)
    (fun m hm => (hstrict m hm).calm) calm

/-- A run keeps to faults of the scanner in what it has ahead. -/
theorem Driven.scansOnly {r : Recognizer κ τ ω α} (h : Driven r) (strategy : Strategy)
    {s : State κ τ ω} (scansOnly : s.ScansOnly) : (r strategy s).2.ScansOnly := by
  obtain ⟨ms, hms⟩ := h.followed strategy s
  exact hms.preserves (p := State.ScansOnly) (fun _ _ => Move.scansOnly_after) scansOnly

/-- A recovering operation does not give up, however many moves it takes. -/
theorem Traced.ne_abort {r : Recognizer κ τ ω α} (h : Traced r) {s : State κ τ ω}
    (scansOnly : s.ScansOnly) : (r .recovering s).1 ≠ .abort := by
  obtain ⟨ms, hms, hconcludes⟩ := h .recovering s
  have hlenient : ∀ m ∈ ms, m.Lenient := fun m hm =>
    Move.lenient (hms.before (fun _ => Move.scansOnly_after) scansOnly m hm)
  generalize (r .recovering s).1 = o at hconcludes ⊢
  cases hconcludes with
  | goesOn outcome_ne _ => exact outcome_ne
  | @givesUp ms m last _ =>
    obtain ⟨token?, houtcome⟩ := (hlenient m (by simp)).goesOn
    rw [houtcome] at last
    nomatch last

/-- A recovering run of a start rule that comes to an end ends with a value. -/
theorem Composed.recovering_run_value {start : Recognizer κ τ ω Unit} (composed : Composed start)
    (ends : ∀ m, Alike 0 m start start) (classifier : Classifier κ) (source : Source) :
    (run classifier start .recovering source).1 = .value () := by
  have hgoesOn : (run classifier start .recovering source).1 ≠ .abort :=
    composed.toEnd.traced.ne_abort (State.initial_scansOnly classifier source)
  have hfuel := run_ne_outOfFuel ends classifier .recovering source
  generalize (run classifier start .recovering source).1 = o at hgoesOn hfuel ⊢
  cases o with
  | value => rfl
  | abort => exact absurd rfl hgoesOn
  | outOfFuel => exact absurd rfl hfuel

/-- An operation that fails fast gives up exactly if it has recorded one fault of grammar or
meaning, and nothing behind it, however many moves it takes. -/
theorem Traced.abort_iff {r : Recognizer κ τ ω α} (h : Traced r) {s : State κ τ ω}
    (scansOnly : s.ScansOnly) :
    (r .failFast s).1 = .abort ↔ EndsInFault s.sink (r .failFast s).2.sink := by
  obtain ⟨ms, hms, hconcludes⟩ := h .failFast s
  have hstrict : ∀ m ∈ ms, m.Strict := fun m hm =>
    Move.strict (hms.before (fun _ => Move.scansOnly_after) scansOnly m hm)
  generalize (r .failFast s).2 = t at hms ⊢
  generalize (r .failFast s).1 = o at hconcludes ⊢
  cases hconcludes with
  | goesOn outcome_ne all =>
    have hadds : AddsScanning s.sink t.sink := hms.addsScanning hstrict all
    exact ⟨fun habort => absurd habort outcome_ne, fun hends => absurd hends hadds.not_endsInFault⟩
  | @givesUp ms m last others =>
    obtain ⟨u, hbefore, hlast⟩ := hms.split
    obtain ⟨rfl, hafter⟩ := hlast
    have hadds :=
      hbefore.addsScanning (fun m' hm' => hstrict m' (List.mem_append_left _ hm')) others
    have hends := (hstrict m (by simp)).givesUp_iff.1 last
    have htotal : EndsInFault s.engine.sink t.engine.sink := by
      rw [← show m.after = t.engine from hafter]
      exact hadds.trans_endsInFault hends
    exact ⟨fun _ => htotal, fun _ => rfl⟩

/-- Requiring a token while recovering: if none is found, the recovery goes on. -/
theorem Recognizer.mustBe_cases (kind : κ) {s : State κ τ ω} (strategy : Strategy)
    (hr : s.recovering = true) :
    (∃ token t, mustBe kind strategy s = (.value (some token), t)) ∨
      ∃ t, mustBe kind strategy s = (.value none, t) ∧ t.recovering = true := by
  rw [mustBe_of_recovering strategy hr, resynchronize]
  split
  · exact .inl ⟨_, _, rfl⟩
  · exact .inr ⟨_, rfl, (State.discardTo_recovering kind s).trans hr⟩

end

/-! ## Scripts -/

namespace Simple

open Recognizer

/-- Does the step report faults of meaning only? -/
def Step.Semantic : Step → Prop
  | .report _ fault => ∀ token, (fault token).isSemantic = true
  | _ => True

/-- Does the step leave the tokens and the flag alone? -/
def Step.isSilent : Step → Bool
  | .advance | .mustBe _ | .unexpected _ | .strategy | .program => false
  | _ => true

variable {ω : Type}

/-- Taking a token of the script, or the one that is looked at, is silent. -/
theorem silent_orLookahead (token? : Option (Token Kind)) :
    Silent (orLookahead token? : Rule ω (Token Kind)) := by
  cases token? with
  | none => exact .read _
  | some token => exact .pure _

/-- A step of a script that consumes nothing is silent. -/
theorem Step.silent {step : Step} (h : step.isSilent = true) (semantic : step.Semantic) :
    Silent (step.perform : Rule ω Reply) := by
  cases step with
  | advance => nomatch h
  | mustBe kind => nomatch h
  | unexpected expected => nomatch h
  | strategy => nomatch h
  | program => nomatch h
  -- Whatever is left only looks at tokens, changes scopes and reports.
  | current => exact .bind (.read _) fun _ => .pure _
  | sees kind => exact .bind (.read _) fun _ => .pure _
  | seesAny kinds => exact .bind (.read _) fun _ => .pure _
  | atEnd => exact .bind (.read _) fun _ => .pure _
  | report token? fault =>
    exact .bind (silent_orLookahead _) fun token => .bind (.report _ (semantic token)) fun _ =>
      .pure _
  | openScope => exact .bind .openScope fun _ => .pure _
  | closeScope => exact .bind .closeScope fun _ => .pure _
  | declare symbol => exact .bind (.declare _) fun _ => .pure _
  | resolve token? =>
    exact .bind (silent_orLookahead _) fun _ =>
      .bind (Reporting.resolve _).silent fun _ => .pure _
  | expectType token? found expected =>
    exact .bind (silent_orLookahead _) fun _ =>
      .bind (Reporting.expectType _ _ _).silent fun _ => .pure _
  | checkTarget token? symbol? =>
    exact .bind (silent_orLookahead _) fun _ =>
      .bind (reporting_reportFaultIf _ _ _).silent fun _ => .pure _
  | unindexed token? symbol? =>
    exact .bind (silent_orLookahead _) fun _ =>
      .bind (reporting_unindexed _ _).silent fun _ => .pure _
  | indexed token? symbol? indices =>
    exact .bind (silent_orLookahead _) fun _ =>
      .bind (reporting_indexed _ _ _).silent fun _ => .pure _
  | arithmetic token? left right =>
    exact .bind (silent_orLookahead _) fun _ =>
      .bind (reporting_arithmetic _ _ _).silent fun _ => .pure _
  | relational token? left right =>
    exact .bind (silent_orLookahead _) fun _ =>
      .bind (reporting_relational _ _ _).silent fun _ => .pure _
  | logical left right => exact .bind (reporting_logical _ _).silent fun _ => .pure _
  | negation token? operand =>
    exact .bind (silent_orLookahead _) fun _ =>
      .bind (reporting_negation _ _).silent fun _ => .pure _
  | complement operand => exact .bind (reporting_complement _).silent fun _ => .pure _
  | condition operand => exact .bind (reporting_condition _).silent fun _ => .pure _
  | assignable target value => exact .bind (reporting_assignable _ _).silent fun _ => .pure _

/-- A step of a script is driven by the operations of the engine. -/
theorem Step.driven {step : Step} (semantic : step.Semantic) :
    Driven (step.perform : Rule ω Reply) := by
  by_cases h : step.isSilent = true
  · exact .composed (step.silent h semantic).composed
  · cases step with
    | advance => exact .composed (.bind .advance fun _ => .pure _)
    | mustBe kind => exact .composed (.bind (.mustBe kind) fun _ => .pure _)
    | unexpected expected => exact .composed (.bind (.unexpected expected) fun _ => .pure _)
    | strategy => exact .bind .strategy fun _ => .composed (.pure _)
    | program =>
      exact .bind (.collecting (.composed composed_program)) fun _ => .composed (.pure _)
    | _ => exact absurd rfl h

/-- A step of a script leaves a trace. -/
theorem Step.traced {step : Step} (semantic : step.Semantic) :
    Traced (step.perform : Rule ω Reply) := by
  by_cases h : step.isSilent = true
  · exact (step.silent h semantic).composed.traced
  · cases step with
    | advance => exact (Composed.bind .advance fun _ => .pure _).traced
    | mustBe kind => exact (Composed.bind (.mustBe kind) fun _ => .pure _).traced
    | unexpected expected => exact (Composed.bind (.unexpected expected) fun _ => .pure _).traced
    | strategy => exact .bind .strategy fun _ => .pure _
    | program => exact .bind (.collecting composed_program.traced) fun _ => .pure _
    | _ => exact absurd rfl h

/-- A step of a script comes to an end. -/
theorem Step.alike {step : Step} {m : Nat} (semantic : step.Semantic) :
    Alike 0 m (step.perform : Rule ω Reply) step.perform := by
  by_cases h : step.isSilent = true
  · exact .silent (step.silent h semantic)
  · cases step with
    | advance => exact .mono (.bind .advance fun _ => .pure _) (Nat.zero_le 1)
    | mustBe kind => exact .bind (.mustBe kind) fun _ => .pure _
    | unexpected expected => exact .bind (.unexpected expected) fun _ => .pure _
    | strategy => exact .bind .strategy fun _ => .pure _
    | program => exact .bind (.collecting alike_program) fun _ => .pure _
    | _ => exact absurd rfl h

/-- While recovering, a step ends the recovery only if it requires a token and gets it, or is a
whole program. -/
theorem Step.turnsOff {step : Step} (semantic : step.Semantic) {s : State Kind Ty ω}
    (hon : s.recovering = true) (hoff : (step.perform .recovering s).2.recovering = false) :
    step = .program ∨ ∃ kind token, step = .mustBe kind ∧
      (step.perform .recovering s).1 = .value (.token token) := by
  by_cases h : step.isSilent = true
  · obtain ⟨a, t, found, hrun, -, -, hflag, -, -⟩ :=
      (Step.silent (ω := ω) h semantic).run s
    rw [hrun, hflag, hon] at hoff
    nomatch hoff
  · cases step with
    | program => exact .inl rfl
    | mustBe kind =>
      right
      obtain ⟨token, t, hrun⟩ | ⟨t, hrun, hflag⟩ := mustBe_cases kind .recovering hon
      · exact ⟨kind, token, rfl, congrArg Prod.fst (bind_of_value hrun _)⟩
      · have hperform : (Step.mustBe kind).perform .recovering s =
            (.value (.ofToken? none), t) := bind_of_value hrun _
        rw [hperform, hflag] at hoff
        nomatch hoff
    | advance =>
      have hshift : s.shift.recovering = false := hoff
      rw [State.shift_recovering, hon] at hshift
      nomatch hshift
    | unexpected expected => nomatch hoff
    | strategy =>
      have hsame : s.recovering = false := hoff
      rw [hon] at hsame
      nomatch hsame
    | _ => exact absurd rfl h

/-- A script is something that drives the engine. -/
theorem script_driven {keepGoing : Bool} {steps : List Step}
    (semantic : ∀ step ∈ steps, step.Semantic) : Driven (script keepGoing steps) := by
  induction steps with
  | nil => exact .composed (.pure _)
  | cons step rest ih =>
    have hrest := ih fun step hstep => semantic step (List.mem_cons_of_mem _ hstep)
    refine .bind (.bind (.attempt (Step.driven (semantic step List.mem_cons_self))) fun _ =>
      .bind (.composed (.read _)) fun _ => .bind (.composed (.note _)) fun _ => .composed (.pure _))
      fun outcome => ?_
    cases outcome with
    | value reply => exact hrest
    | abort =>
      show Driven (if keepGoing = true then script keepGoing rest else Recognizer.abort)
      split
      · exact hrest
      · exact .abort
    | outOfFuel => exact .composed .outOfFuel

/-- A script that keeps going performs all of its steps. -/
theorem script_completes {steps : List Step} (semantic : ∀ step ∈ steps, step.Semantic)
    (strategy : Strategy) {s : State Kind Ty Entry} (placed : s.Placed) :
    (script true steps strategy s).1 = .value () ∧ (script true steps strategy s).2.Placed := by
  induction steps generalizing s with
  | nil => exact ⟨rfl, placed⟩
  | cons step rest ih =>
    have hends := Step.alike (semantic step List.mem_cons_self) strategy s placed
      (Nat.lt_succ_self _)
    have hnoted : step.performNoted strategy s = (.value (step.perform strategy s).1,
        { (step.perform strategy s).2 with
          notes := (step.perform strategy s).2.notes ++ [⟨(step.perform strategy s).1,
            (step.perform strategy s).2.recovering, (step.perform strategy s).2.lookahead,
            (step.perform strategy s).2.scopes⟩] }) := rfl
    have hplaced := hends.placed
    have hfuel := hends.fuel
    rw [script, bind_of_value hnoted]
    generalize step.perform strategy s = e at hplaced hfuel
    have hrest : ∀ step ∈ rest, step.Semantic := fun step hstep =>
      semantic step (List.mem_cons_of_mem _ hstep)
    obtain ⟨reply | _ | _, t⟩ := e
    · exact ih hrest (hplaced.congr rfl rfl)
    · exact ih hrest (hplaced.congr rfl rfl)
    · exact absurd rfl hfuel

/-- What the strategies allow a script that keeps going on a source, and the step that comes
next. -/
structure Obeys (classifier : Classifier Kind) (source : Source) (steps : List Step) (next : Step) :
    Prop where
  /-- The script performs all of its steps. -/
  completes : ∀ strategy, (script true steps strategy (.initial classifier source)).1 = .value ()
  /-- It begins with the flag off and no unexpected token. -/
  begins : (State.initial classifier source : State Kind Ty Entry).recovering = false ∧
    (State.initial classifier source : State Kind Ty Entry).sink.countP Diagnostic.isUnexpected = 0
  lenient : RunsLenient (.initial classifier source)
    (script true steps .recovering (.initial classifier source)).2
  strict : RunsStrict (.initial classifier source)
    (script true steps .failFast (.initial classifier source)).2
  /-- Recovering, the next step does not give up. -/
  next_goesOn : ∀ s, (script true steps .recovering (.initial classifier source)).2 = s →
    ∃ reply, (next.perform .recovering s).1 = .value reply
  /-- It turns the flag off only by requiring a token, if it is not a whole program. -/
  next_turnsOff : ∀ s, (script true steps .recovering (.initial classifier source)).2 = s →
    s.recovering = true → (next.perform .recovering s).2.recovering = false →
      next = .program ∨ ∃ kind token, next = .mustBe kind ∧
        (next.perform .recovering s).1 = .value (.token token)
  /-- Failing fast, it gives up exactly if it has recorded one fault of grammar or meaning, as the
  last. -/
  next_givesUp_iff : ∀ s, (script true steps .failFast (.initial classifier source)).2 = s →
    ((next.perform .failFast s).1 = .abort ↔
      EndsInFault s.sink (next.perform .failFast s).2.sink)

/-- Under both strategies, every script of operations keeps to the strategy at every moment, and so
does the step that comes next, whatever the classifier and the source. -/
theorem script_obeys (classifier : Classifier Kind) (source : Source) (steps : List Step)
    (next : Step) (semantic : ∀ step ∈ next :: steps, step.Semantic) :
    Obeys classifier source steps next := by
  have hnext : next.Semantic := semantic next List.mem_cons_self
  have hsteps : ∀ step ∈ steps, step.Semantic := fun step hstep =>
    semantic step (List.mem_cons_of_mem _ hstep)
  have hplaced := State.placed_initial (τ := Ty) (ω := Entry) classifier source
  have hscans := State.initial_scansOnly (τ := Ty) (ω := Entry) classifier source
  have hcalm := State.initial_recovering (τ := Ty) (ω := Entry) classifier source
  have hdriven : Driven (script true steps) := script_driven hsteps
  refine ⟨fun strategy => (script_completes hsteps strategy hplaced).1, ⟨hcalm, ?_⟩,
    hdriven.runsLenient hscans, hdriven.runsStrict hscans hcalm, ?_, ?_, ?_⟩
  · rw [List.countP_eq_zero]
    intro d hd
    have hscanning := State.isScanning_of_mem_initial_sink classifier source hd
    cases d <;> simp_all [Diagnostic.isScanning, Diagnostic.isUnexpected]
  · rintro s rfl
    have habort := (Step.traced hnext).ne_abort (hdriven.scansOnly .recovering hscans)
    have hfuel := (Step.alike hnext .recovering _
      (script_completes hsteps .recovering hplaced).2 (Nat.lt_succ_self _)).fuel
    generalize (next.perform .recovering _).1 = o at habort hfuel ⊢
    cases o with
    | value reply => exact ⟨reply, rfl⟩
    | abort => exact absurd rfl habort
    | outOfFuel => exact absurd rfl hfuel
  · rintro s rfl hon hoff
    exact Step.turnsOff hnext hon hoff
  · rintro s rfl
    exact (Step.traced hnext).abort_iff (hdriven.scansOnly .failFast hscans)

/-- A script that meets an unexpected token, skips, and then reports a name. -/
theorem skipping_script_obeys :
    (∀ step ∈ [Step.report none .notDeclared, .unexpected (.kind .ident), .mustBe .assign],
        step.Semantic) ∧
      Obeys classifier [.line "1 x = y"] [.unexpected (.kind .ident), .mustBe .assign]
        (.report none .notDeclared) := by
  have semantic : ∀ step ∈ [Step.report none .notDeclared, .unexpected (.kind .ident),
      .mustBe .assign], step.Semantic := by
    simp [Step.Semantic, Diagnostic.isSemantic]
  exact ⟨semantic, script_obeys _ _ _ _ semantic⟩

end Simple

end SinglePass
