import SinglePass.Proofs.Acceptance
import SinglePass.Proofs.Engine.Conservation
import SinglePass.Proofs.Silence.Rules

/-!
# Silence is justified

The type `undefined` keeps a fault from being reported twice.  It never keeps a first fault from
being reported (`silence_justified`):

* `TruthfulRules`: wherever a rule of expressions starts in a justified run, if it yields the type
  `undefined`, a fault of grammar or meaning has been recorded by then; and so it is with every
  symbol of that type that a declaration notes down.
* `SilenceJustified`: on every source the recovering run is justified at every moment, and a symbol
  of the type `undefined` is bound only after such a fault.  A source without faults has been
  checked in full, and a conflict of types is always one between two known types.
-/

namespace SinglePass

/-! ## Runs without faults -/

section

variable {κ τ ω : Type}

/-- A run at fault has recorded something. -/
theorem State.Faulty.sink_ne_nil {s : State κ τ ω} (h : s.Faulty) : s.sink ≠ [] := by
  obtain ⟨d, hd, -⟩ := h
  exact List.ne_nil_of_mem hd

/-- A source without a failure can be read. -/
theorem Source.readable_of_failure?_eq_none {source : Source} (h : source.failure? = none) :
    source.Readable := by
  induction source with
  | nil => exact fun _ => List.not_mem_nil
  | cons reading more ih =>
    cases reading with
    | line text =>
      intro cause hmem
      obtain heq | hmem := List.mem_cons.1 hmem
      · cases heq
      · exact ih h cause hmem
    | failure cause => cases h

variable [TokenKind κ]

/-- A recovering run that has recorded no fault looks at the end of the source. -/
theorem Warrants.isEnd_of_sink_eq_nil [TypeTag τ] {start : Recognizer κ τ (Symbol κ τ) Unit}
    (h : Warrants True anything start) {s : State κ τ (Symbol κ τ)} (justified : s.Justified)
    (value : (start.toEnd .recovering s).1 = .value ())
    (hsink : (start.toEnd .recovering s).2.sink = []) :
    (start.toEnd .recovering s).2.lookahead.isEnd = true := by
  have hstart := h s justified (.inr trivial)
  rw [Recognizer.toEnd, Recognizer.bind_apply] at value hsink ⊢
  generalize start .recovering s = e at hstart value hsink ⊢
  obtain ⟨a | _ | _, t⟩ := e
  · have ht := hstart.moves.justified justified
    have hend : Warrants True anything (Recognizer.mustEnd : Recognizer κ τ (Symbol κ τ) Unit) :=
      .mustEnd
    have hquiet : ¬ t.Faulty := fun hfaulty =>
      (hend t ht (.inr trivial)).moves.faulty hfaulty |>.sink_ne_nil hsink
    have hcalm : t.recovering = false := Bool.eq_false_iff.2 fun hr => hquiet (ht.recovers hr)
    show (Recognizer.mustEnd .recovering t).2.lookahead.isEnd = true
    have hsink : (Recognizer.mustEnd .recovering t).2.sink = [] := hsink
    rw [mustEnd_of_calm hcalm] at hsink ⊢
    split
    · next hlook => exact hlook
    · next hlook =>
      rw [if_neg hlook] at hsink
      have hfaulty := (ht.unexpected (.kind TokenKind.endOfFile)).recovers (by
        rw [Recognizer.unexpected])
      exact absurd hsink hfaulty.sink_ne_nil
  · cases value
  · cases value

/-- A run begins justified, as it has said nothing yet. -/
theorem State.initial_justified [TypeTag τ] (classifier : Classifier κ) (source : Source) :
    (State.initial classifier source : State κ τ ω).Justified := by
  refine ⟨State.initial_scansOnly classifier source, fun hr => ?_, fun symbol hbinds => ?_,
    fun d hd => ?_⟩
  · rw [State.initial_recovering] at hr
    cases hr
  · rw [State.initial_scopes] at hbinds
    exact absurd hbinds ScopeStack.not_binds_empty
  · exact Diagnostic.proper_of_isScanning
      (State.isScanning_of_mem_initial_sink classifier source hd)

end

namespace Simple

/-! ## Rules -/

/-- Wherever the rule starts in a justified run, it goes on by proper moves; and if the type that
it yields is not known, a fault of grammar or meaning has been recorded by then. -/
def Truthful {α : Type} (type : α → Ty) (r : GrammarRule α) : Prop :=
  ∀ s, s.Justified → ProperRun s (r .recovering s).2 ∧
    ∀ a, (r .recovering s).1 = .value a → type a = .undefined → (r .recovering s).2.Faulty

/-- A rule that warrants a known type is truthful. -/
theorem Truthful.of_warrants {α : Type} {type : α → Ty} {r : GrammarRule α}
    (h : Warrants True (fun a => type a ≠ .undefined) r) : Truthful type r := fun s justified =>
  have hr := h s justified (.inr trivial)
  ⟨hr.moves, fun a ha hty => (hr.value a ha).resolve_right fun hknown => hknown hty⟩

/-- The rules of expressions, and of declarations. -/
structure TruthfulRules : Prop where
  factor : ∀ n, Truthful Operand.type (factor n)
  term : ∀ n, Truthful Operand.type (term (Simple.factor n))
  simpleExpression : ∀ n, Truthful Operand.type (simpleExpression (Simple.factor n))
  nestedExpression : ∀ n, Truthful Operand.type (expressionOf (Simple.factor n))
  expression : Truthful Operand.type expression
  /-- A name in an expression, with its indices. -/
  designator : ∀ n name, Truthful id (do
    let symbol? ← Recognizer.resolve name
    designator (expressionOf (Simple.factor n)) name symbol?)
  /-- The target of an assignment. -/
  target : ∀ name, Truthful id (do
    let symbol? ← Recognizer.resolve name
    checkTarget name symbol?
    Simple.designator Simple.expression name symbol?)
  /-- What is noted down of a symbol without a known type follows from a fault. -/
  declaration : ∀ s : State Kind Ty (Symbol Kind Ty), s.Justified →
    s.Noted (declaration .recovering s).2

/-- **Every rule of Simple is truthful.** -/
theorem truthfulRules : TruthfulRules where
  factor n := .of_warrants (warrants_factor n)
  term n := .of_warrants (warrants_term (warrants_factor n))
  simpleExpression n := .of_warrants (warrants_simpleExpression (warrants_factor n))
  nestedExpression n := .of_warrants (warrants_expressionOf (warrants_factor n))
  expression := .of_warrants warrants_expression
  designator n name := .of_warrants (.bind (.resolve name) fun _ =>
    warrants_designator (warrants_expressionOf (warrants_factor n)) name And.right)
  target name := .of_warrants (.bind (.resolve name) fun _ =>
    .bind (warrants_checkTarget name _) fun _ =>
      warrants_designator warrants_expression name fun hgiven => hgiven.1.2)
  declaration s justified := (warrants_declaration s justified (.inr trivial)).noted

/-! ## Sources -/

/-- What silence means on a source.  `final` is the state in which the recovering run ends. -/
structure SilenceJustified (source : Source) (final : State Kind Ty (Symbol Kind Ty)) : Prop where
  /-- At every moment the run is justified; a symbol without a known type is bound only in a faulty
  run (`Operation.Proper`), and a run stays faulty. -/
  moments : ∃ ms : List (Move Kind Ty .recovering),
    Leads (State.initial classifier source : State Kind Ty (Symbol Kind Ty)).engine ms
      final.engine ∧
    ∀ m ∈ ms, m.before.Justified ∧ m.operation.Proper m.before ∧ m.after.Justified ∧
      (m.before.Faulty → m.after.Faulty) ∧ (m.after.Faulty → final.Faulty)
  /-- A symbol without a known type is noted down only in a faulty run. -/
  noted : ∀ symbol ∈ final.notes, symbol.type = .undefined → final.Faulty
  /-- If either strategy reports no fault, the run was never faulty, so every rule has yielded known
  types; it is the same under both strategies, all symbols have known types, and the tokens are
  those of a program that keeps the static rules. -/
  clean : ∀ strategy, (check strategy source).errors = [] → ¬ final.Faulty ∧
    (run classifier program strategy source).2 = final ∧
    (∀ symbol ∈ (check strategy source).notes, symbol.type ≠ .undefined) ∧
    ∃ p, Sentence (source.tokens classifier) p ∧ p.WellFormed
  conflicts : ∀ strategy token found expected,
    .typeConflict token found expected ∈ (check strategy source).errors →
      found ≠ expected ∧ found ≠ .undefined ∧ expected ≠ .undefined

variable {source : Source}

/-- A source on which no fault is recorded can be read. -/
theorem readable_of_sink_eq_nil
    (hsink : (run classifier program .recovering source).2.sink = []) : source.Readable := by
  have hend : (run classifier program .recovering source).2.lookahead.isEnd = true :=
    Warrants.isEnd_of_sink_eq_nil warrants_program (State.initial_justified classifier source)
      (composed_program.recovering_run_value (fun _ => alike_program) classifier source) hsink
  obtain ⟨ms, hms, -, hmoments⟩ :=
    (Driven.composed composed_program).conserves_tiled tiles .recovering source
  obtain ⟨u, n, hpast, hfuture, hstands⟩ := hmoments ms [] (List.append_nil ms).symm
  obtain rfl : u = (run classifier program .recovering source).2.engine := hfuture
  have hscanning := hstands.scanning_eq
  have hnone : (run classifier program .recovering source).2.engine.sink = [] := hsink
  have hlook : (run classifier program .recovering source).2.engine.lookahead.isEnd = true := hend
  rw [hnone, hlook, if_pos rfl] at hscanning
  have hfailure := (List.append_eq_nil_iff.1 hscanning.symm).2
  exact Source.readable_of_failure?_eq_none
    (Option.map_eq_none_iff.1 (Option.toList_eq_nil_iff.1 hfailure))

/-- Silence is justified in Simple: a rule that meets the type `undefined` keeps silent only about
what follows from a fault that has been recorded before. -/
theorem silence_justified : TruthfulRules ∧
    ∀ source, SilenceJustified source (run classifier program .recovering source).2 := by
  refine ⟨truthfulRules, fun source => ?_⟩
  have hinitial : (State.initial classifier source : State Kind Ty (Symbol Kind Ty)).Justified :=
    State.initial_justified classifier source
  have hprogram : Warrants True anything program.toEnd := .toEnd warrants_program
  have hrun : WarrantedAt anything (State.initial classifier source)
      (run classifier program .recovering source) := hprogram _ hinitial (.inr trivial)
  have hnoted : ∀ symbol ∈ (run classifier program .recovering source).2.notes,
      symbol.type = .undefined → (run classifier program .recovering source).2.Faulty := by
    obtain ⟨added, hnotes, hknown⟩ := hrun.noted
    have hnone : (State.initial classifier source : State Kind Ty (Symbol Kind Ty)).notes = [] :=
      State.shift_notes _
    rw [hnotes, hnone]
    exact hknown
  refine ⟨hrun.moves.moments hinitial, hnoted, ?_, ?_⟩
  -- Without errors the strategy makes no difference, and the run has recorded no fault.
  · intro strategy hclean
    have hsink := (errors_eq_nil_iff strategy source).1 hclean
    have hquiet : ¬ (run classifier program .recovering source).2.Faulty := fun hfaulty =>
      hfaulty.sink_ne_nil hsink
    have hsame : run classifier program strategy source =
        run classifier program .recovering source := by
      cases strategy with
      | recovering => rfl
      | failFast => exact composed_program.run_failFast_of_sink_eq_nil classifier source hsink
    have hnotes : (check strategy source).notes =
        (run classifier program .recovering source).2.notes := by
      rw [← hsame]
      rfl
    obtain ⟨p, hp⟩ := sentence_of_errors_eq_nil hclean
    refine ⟨hquiet, congrArg Prod.snd hsame, ?_, p, hp, ?_⟩
    · rw [hnotes]
      exact fun symbol hmem hty => hquiet (hnoted symbol hmem hty)
    · exact (accepts_sentence_iff (readable_of_sink_eq_nil hsink) hp strategy).1 hclean
  -- A run that fails fast reports only what the recovering one does.
  · intro strategy token found expected hmem
    have hrecovering : .typeConflict token found expected ∈ (check .recovering source).errors := by
      cases strategy with
      | recovering => exact hmem
      | failFast =>
        exact (composed_program.failFastIsCut classifier source).errors_subset hmem
    exact (hrun.moves.justified hinitial).proper _ (Report.mem_errors_ofState.1 hrecovering)

end Simple

end SinglePass
