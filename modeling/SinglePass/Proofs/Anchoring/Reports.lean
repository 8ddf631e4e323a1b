import Mathlib.Data.List.NodupEquivFin
import SinglePass.Proofs.Anchoring.Rules

/-!
# Every fault is anchored in its source

Whatever the source and the strategy, a fault that Simple reports is bound to a token of the source
that had been scanned when the fault was recorded (`faults_anchored`).  The only exception is a
failure to read, which has no token.  A name that is declared again is compared with a symbol that
was declared by an earlier token, and this symbol is among those that the report lists.
-/

namespace SinglePass

variable {κ τ ω : Type} [TokenKind κ]

/-- A run begins with nothing but what the scanner has found. -/
theorem State.initial_anchored (ident : κ) (classifier : Classifier κ) (source : Source) :
    (State.initial classifier source : State κ τ ω).Anchored ident classifier source := by
  have hreads := State.reads_initial (τ := τ) (ω := ω) classifier source
  refine ⟨⟨0, hreads⟩, fun d hd => ?_, fun symbol hbinds => ?_⟩
  · exact hreads.anchored ident hd (State.isScanning_of_mem_initial_sink classifier source hd)
  · rw [State.initial_scopes] at hbinds
    exact absurd hbinds ScopeStack.not_binds_empty

/-- A run begins with nothing to list. -/
theorem State.initial_listed (classifier : Classifier κ) (source : Source) :
    (State.initial classifier source : State κ τ (Symbol κ τ)).Listed := by
  refine ⟨fun symbol hbinds => ?_, fun token first hmem => ?_⟩
  · rw [State.initial_scopes] at hbinds
    exact absurd hbinds ScopeStack.not_binds_empty
  · exact nomatch State.isScanning_of_mem_initial_sink classifier source hmem

namespace Simple

/-- What it means that the faults found in a source are anchored in it.  `begun` and `ended` are the
states in which the run begins and ends. -/
structure FaultsAnchored (strategy : Strategy) (source : Source)
    (begun ended : State Kind Ty (Symbol Kind Ty)) : Prop where
  /-- At every moment of the run, whatever has been recorded is bound to tokens that have been
  scanned.  A fault is there when the run begins, or it is recorded by a move; and if it is a fault
  of grammar or meaning, its tokens had been scanned before this move. -/
  moments : begun.Anchored .ident classifier source ∧
    ∃ ms : List (Move Kind Ty strategy), Leads begun.engine ms ended.engine ∧
      (∀ m ∈ ms, m.before.Anchored .ident classifier source ∧
        m.after.Anchored .ident classifier source) ∧
      ∀ d ∈ (check strategy source).errors, d ∈ begun.sink ∨
        ∃ m ∈ ms, d ∉ m.before.sink ∧ d ∈ m.after.sink ∧ (d.isScanning = false →
          d.Anchored .ident (m.before.scanned (source.tokens classifier)))
  /-- Every fault but a failure to read is bound to a token of the source. -/
  occurs : ∀ d ∈ (check strategy source).errors, d.isIo = false →
    ∃ token ∈ source.tokens classifier, d.token? = some token
  /-- A lexical fault is bound to a token that is none of the language. -/
  lexical : ∀ token, .lexical token ∈ (check strategy source).errors → token.kind.isInvalid = true
  notDeclared : ∀ token, .notDeclared token ∈ (check strategy source).errors → token.kind = .ident
  /-- A name that is declared again was declared by an earlier token, and its first symbol is among
  those that were accepted into a scope. -/
  alreadyDeclared : ∀ (token : Token Kind) (first : Symbol Kind Ty),
    .alreadyDeclared token first ∈ (check strategy source).errors →
      token.kind = .ident ∧ first.name = token.text ∧
      (∃ i j : Nat, i < j ∧ (source.tokens classifier)[i]? = some first.token ∧
        (source.tokens classifier)[j]? = some token) ∧
      first.token.position < token.position ∧ first ∈ (check strategy source).notes

/-- Every fault of Simple is anchored in its source. -/
theorem faults_anchored (strategy : Strategy) (source : Source) :
    FaultsAnchored strategy source (.initial classifier source)
      (run classifier program strategy source).2 := by
  have hinitial : (State.initial classifier source : State Kind Ty (Symbol Kind Ty)).Anchored
      .ident classifier source := State.initial_anchored .ident classifier source
  have hprogram : AnchorsIn source [] noTokens program.toEnd := .toEnd anchors_program
  have hrun : AnchorsAt Kind.ident classifier source strategy noTokens
      (State.initial classifier source) (run classifier program strategy source) :=
    hprogram strategy _ hinitial (State.initial_listed classifier source) (List.nil_subset _)
  have hsink : ∀ {d}, d ∈ (check strategy source).errors →
      d ∈ (run classifier program strategy source).2.sink := Report.mem_errors_ofState.1
  have htokens : (run classifier program strategy source).2.scanned (source.tokens classifier) <+:
      source.tokens classifier := List.take_prefix _ _
  -- what is anchored in the tokens scanned at the end is anchored in the source
  have hanchored : ∀ {d}, d ∈ (check strategy source).errors →
      d.Anchored .ident (source.tokens classifier) := fun hd =>
    ((hrun.moves.anchored hinitial).recorded _ (hsink hd)).mono htokens
  refine ⟨⟨hinitial, ?_⟩, fun d hd hio => ?_, fun token hd => (hanchored hd).2,
    fun token hd => (hanchored hd).2, fun token first hd => ?_⟩
  · obtain ⟨ms, hleads, hmoments, hrecorded⟩ := hrun.moves.moments hinitial
    exact ⟨ms, hleads, hmoments, fun d hd => hrecorded d (hsink hd)⟩
  · obtain ⟨token, htoken⟩ : ∃ token, d.token? = some token := by
      cases d with
      | io => cases hio
      | _ => exact ⟨_, rfl⟩
    exact ⟨token, (hanchored hd).mem htoken, htoken⟩
  · obtain ⟨hkind, hname, hsub⟩ := hanchored hd
    have hposition := (tiles.positions_increase source).sublist hsub
    refine ⟨hkind, hname, ?_, List.rel_of_pairwise_cons hposition (List.mem_singleton.2 rfl),
      hrun.listed.firsts token first (hsink hd)⟩
    obtain ⟨place, hplace⟩ := List.sublist_iff_exists_orderEmbedding_getElem?_eq.1 hsub
    exact ⟨place 0, place 1, place.strictMono Nat.zero_lt_one, (hplace 0).symm, (hplace 1).symm⟩

end Simple

end SinglePass
