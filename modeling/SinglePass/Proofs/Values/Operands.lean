import SinglePass.Proofs.Discipline
import SinglePass.Proofs.Dispatch
import SinglePass.Proofs.Values.Integers
import SinglePass.Proofs.Values.Takes

/-!
# What the rules of expressions take

Each rule of expressions takes the tokens of an expression, as the grammar derives it, and its
operand has the first token and the constant of this expression (`Summarizes`).  Integer literals
that are too large are among the faults, also those inside of indices.

Two rules drop constants, `chain` and the comparison in `expressionOf`; one changes the sign,
`signedTerm`; and parentheses hand an operand through.  One lemma for each rule, and the recursion
is on the fuel of `factor` (`takes_factor`).
-/

namespace SinglePass.Simple

open Recognizer

/-! ## Reported literals -/

/-- Is every integer literal among the tokens that is too large among the faults? -/
def LiteralsReported (ts : List (Token Kind)) (faults : Faults) : Prop :=
  ∀ t ∈ ts, t.kind = .intLiteral → Expr.literalFaults t ⊆ faults

namespace LiteralsReported

variable {t : Token Kind} {ts us : List (Token Kind)} {faults more : Faults}

/-- Without tokens there is no literal to report. -/
theorem nil (faults : Faults) : LiteralsReported [] faults := fun _ ht => nomatch ht

/-- A literal is reported if it is too large. -/
theorem literal (t : Token Kind) : LiteralsReported [t] (Expr.literalFaults t) := by
  intro u hu _
  rw [List.mem_singleton.mp hu]
  exact List.Subset.refl _

/-- Literals are reported in both parts. -/
theorem append (h : LiteralsReported ts faults) (hmore : LiteralsReported us more) :
    LiteralsReported (ts ++ us) (faults ++ more) := by
  intro t ht hkind
  rcases List.mem_append.mp ht with ht | ht
  · exact List.subset_append_of_subset_left _ (h t ht hkind)
  · exact List.subset_append_of_subset_right _ (hmore t ht hkind)

/-- More faults do not take away those of literals. -/
theorem of_more (h : LiteralsReported ts faults) (more : Faults) :
    LiteralsReported ts (faults ++ more) :=
  fun t ht hkind => List.subset_append_of_subset_left _ (h t ht hkind)

/-- What is no literal asks for no report. -/
theorem other (h : t.kind ≠ .intLiteral) : LiteralsReported [t] [] := by
  intro u hu hkind
  rw [List.mem_singleton.mp hu] at hkind
  exact absurd hkind h

/-- A token that is no literal may come first. -/
theorem cons (h : t.kind ≠ .intLiteral) (hmore : LiteralsReported ts faults) :
    LiteralsReported (t :: ts) faults := (other h).append hmore

/-- A token that is no literal may come last. -/
theorem concat (h : LiteralsReported ts faults) (hlast : t.kind ≠ .intLiteral) :
    LiteralsReported (ts ++ [t]) faults := by
  have happend := h.append (other hlast)
  rwa [List.append_nil] at happend

end LiteralsReported

/-! ## Summaries -/

/-- The tokens make up an expression, of which the operand has the token and the constant, and the
faults have its literals. -/
def Summarizes (strength : Strength) (ts : List (Token Kind)) (faults : Faults) (a : Operand) :
    Prop :=
  ∃ e, Expr.Derives strength ts e ∧ a.token = e.first ∧ a.constant = e.constant ∧
    LiteralsReported ts faults

/-- What summarizes a phrase summarizes it as a weaker one, too. -/
theorem Summarizes.mono {strength strength' : Strength} {ts : List (Token Kind)} {faults : Faults}
    {a : Operand} (h : Summarizes strength ts faults a)
    (hderives : ∀ e, Expr.Derives strength ts e → Expr.Derives strength' ts e) :
    Summarizes strength' ts faults a := by
  obtain ⟨e, he, hrest⟩ := h
  exact ⟨e, hderives e he, hrest⟩

variable {pre : Token Kind → Prop}

/-- A fault that is reported on a condition takes no token. -/
theorem takes_reportFaultIf (p : Prop) [Decidable p] (token : Token Kind) (fault : Fault) :
    Takes pre (reportFaultIf p token fault : GrammarRule Unit) fun ts faults _ =>
      ts = [] ∧ faults = faultIf p token fault := by
  unfold faultIf
  refine .ite (fun h => ?_) fun h => ?_
  · exact (Takes.report rfl).imp fun ts faults _ hreport => by rwa [if_pos h]
  · exact .pure ⟨rfl, by rw [if_neg h]⟩

/-- A literal that is too large is reported and counts as 0. -/
theorem takes_intValue (token : Token Kind) :
    Takes pre (intValue token) fun ts faults v =>
      ts = [] ∧ faults = Expr.literalFaults token ∧ v = Expr.literalValue token := by
  unfold intValue Expr.literalFaults Expr.literalValue
  split
  · next value hvalue => exact .pure ⟨rfl, by simp [faultIf, hvalue], by rw [hvalue]; rfl⟩
  · next hvalue =>
    refine .bind (Takes.report rfl) fun _ => .pure ?_
    rintro ts faults ⟨rfl, rfl⟩
    exact ⟨rfl, by simp [faultIf, hvalue], by rw [hvalue]; rfl⟩

/-- What two operands have in common with the one that combines them. -/
theorem takes_combine (op : Token Kind) (left right : Operand) :
    Takes pre (combine op left right) fun ts _ a =>
      ts = [] ∧ a.token = left.token ∧ a.constant = none := by
  refine .ite (fun _ => .bind (.reporting (reporting_logical left right)) fun type => .pure ?_)
    fun _ => .bind (.reporting (reporting_arithmetic op left right)) fun type => .pure ?_
  · rintro ts faults rfl
    exact ⟨rfl, rfl, rfl⟩
  · rintro ts faults rfl
    exact ⟨rfl, rfl, rfl⟩

/-! ## Operators -/

section

variable {nested : GrammarRule Operand}

/-- A chain takes its operands and the operators between them. -/
theorem takes_chain {operators : List Kind} {strength inner : Strength}
    (ordinary : .endOfFile ∉ operators) (literal : .intLiteral ∉ operators)
    (round : ∀ {op : Token Kind} {ts us : List (Token Kind)} {l r : Expr},
      Expr.Derives strength ts l → op.kind ∈ operators → Expr.Derives inner us r →
        Expr.Derives strength (ts ++ op :: us) (.binary op l r))
    (h : Takes (fun _ => True) nested (Summarizes inner)) (left : Operand) :
    Takes pre (chain operators nested left) fun us more a => ∀ ts faults,
      Summarizes strength ts faults left → Summarizes strength (ts ++ us) (faults ++ more) a := by
  refine .whileSees (fun left => .bind (.advance fun token htoken => ?_) fun op =>
    .bind h fun right => (takes_combine op left right).imp ?_) left
  · have htoken : token.kind ∈ operators := of_decide_eq_true htoken
    exact fun hend => ordinary (by rwa [hend] at htoken)
  · rintro _ more a ⟨rfl, htoken, hconstant⟩ us found ⟨r, hr, -, -, hreported⟩ _ _
      ⟨hop, rfl, rfl⟩ ts faults ⟨l, hl, hleft, -, hreported'⟩
    have hop : op.kind ∈ operators := of_decide_eq_true hop
    have hliteral : op.kind ≠ .intLiteral := fun heq => literal (heq ▸ hop)
    rw [List.append_nil, List.nil_append]
    exact ⟨.binary op l r, round hl hop hr, htoken.trans hleft, hconstant,
      hreported'.append (.cons hliteral (hreported.of_more more))⟩

/-- A term takes factors and the operators between them. -/
theorem takes_term (h : Takes (fun _ => True) nested (Summarizes .factor)) :
    Takes pre (term nested) (Summarizes .term) := by
  refine .bind (h.of_pre fun _ _ => trivial) fun left => ?_
  refine (takes_chain (by decide) (by decide) .product h left).imp ?_
  exact fun us more a hchain ts faults hfirst => hchain ts faults (hfirst.mono fun _ => .ofFactor)

/-- A sign counts as the first token, and turns the sign of a constant around. -/
theorem takes_signedTerm (h : Takes (fun _ => True) nested (Summarizes .factor)) :
    Takes pre (signedTerm nested) (Summarizes .simple) := by
  refine .sees (.ite (fun _ => ?sign) fun hne => absurd rfl hne)
    (.ite (fun heq => nomatch heq) fun _ => ?plain)
  case sign =>
    refine .bind (.advance fun token htoken => htoken.2 ▸ by decide) fun op =>
      .bind (takes_term h) fun operand => .bind (.reporting (reporting_negation op operand))
        fun type => .pure ?_
    rintro _ more rfl ts faults ⟨e, he, -, hconstant, hreported⟩ _ _ ⟨⟨-, hop⟩, rfl, rfl⟩
    have hliteral : op.kind ≠ .intLiteral := by rw [hop]; decide
    rw [List.append_nil, List.append_nil, List.append_nil]
    refine ⟨.negation op e, .negation hop he, rfl, ?_, .cons hliteral (hreported.of_more more)⟩
    rw [hconstant]
    rfl
  case plain =>
    exact (takes_term h).imp fun ts faults a hplain => hplain.mono fun _ => .ofTerm

/-- A simple expression takes terms and the operators between them. -/
theorem takes_simpleExpression (h : Takes (fun _ => True) nested (Summarizes .factor)) :
    Takes pre (simpleExpression nested) (Summarizes .simple) := by
  refine .bind (takes_signedTerm h) fun left => ?_
  refine (takes_chain (by decide) (by decide) .sum (takes_term h) left).imp ?_
  exact fun us more a hchain ts faults hfirst => hchain ts faults hfirst

/-- An expression takes one simple expression, or two and a comparison. -/
theorem takes_expressionOf (h : Takes (fun _ => True) nested (Summarizes .factor)) :
    Takes pre (expressionOf nested) (Summarizes .full) := by
  refine .bind (takes_simpleExpression h) fun left => .lookahead fun token => .ite
    (fun hrelational => ?comparison) fun _ => .pure ?plain
  case comparison =>
    refine .bind (.advance ?_) fun op => .bind (takes_simpleExpression h) fun right =>
      .bind (.reporting (reporting_relational op left right)) fun type => .pure ?_
    · rintro _ rfl hend
      rw [hend] at hrelational
      nomatch hrelational
    · rintro _ more rfl us found ⟨r, hr, -, -, hreported⟩ _ _ ⟨rfl, rfl, rfl⟩ ts faults
        ⟨l, hl, hleft, -, hreported'⟩
      have hliteral : op.kind ≠ .intLiteral := fun heq => by
        rw [heq] at hrelational
        nomatch hrelational
      rw [List.append_nil, List.append_nil, List.append_nil]
      exact ⟨.comparison op l r, .comparison hl hrelational hr, hleft, rfl,
        hreported'.append (.cons hliteral (hreported.of_more more))⟩
  case plain =>
    intro ts faults hfirst
    rw [List.append_nil, List.append_nil]
    exact hfirst.mono fun _ => .ofSimple

/-- Phrases behind commas, one after the other: the values of all of them behind those that were
there before, and the faults in their order. -/
inductive Commas {α : Type} (Phrase : List (Token Kind) → Faults → α → Prop) (start : List α) :
    List (Token Kind) → Faults → List α → Prop
  | nil : Commas Phrase start [] [] start
  | concat {comma : Token Kind} {ts us : List (Token Kind)} {faults more : Faults} {as : List α}
      {a : α} :
      Commas Phrase start us more as → comma.kind = .comma → Phrase ts faults a →
      Commas Phrase start (us ++ comma :: ts) (more ++ faults) (as ++ [a])

/-- A loop over commas takes phrases with a comma in front of each. -/
theorem takes_commas {α : Type} {phrase : GrammarRule α}
    {Phrase : List (Token Kind) → Faults → α → Prop} (h : Takes (fun _ => True) phrase Phrase)
    (start : List α) :
    Takes pre (whileSees (· = Kind.comma) (fun as => do
      let _ ← advance
      return as ++ [← phrase]) start) (Commas Phrase start) := by
  have hround : ∀ as, Takes (fun token => decide (token.kind = Kind.comma) = true)
      (do
        let _ ← advance
        return as ++ [← phrase] : GrammarRule (List α))
      fun us more bs => ∀ ts faults, Commas Phrase start ts faults as →
        Commas Phrase start (ts ++ us) (faults ++ more) bs := by
    refine fun as => .bind (.advance fun token htoken => ?_) fun comma => .bind h fun a => .pure ?_
    · rw [of_decide_eq_true htoken]
      decide
    · rintro ts faults hphrase _ _ ⟨hcomma, rfl, rfl⟩ us more hcommas
      rw [List.append_nil, List.append_nil]
      exact .concat hcommas (of_decide_eq_true hcomma) hphrase
  exact (Takes.whileSees hround start).imp fun us more as hloop => hloop [] [] .nil

/-- The indices of a designator are expressions between brackets. -/
theorem takes_designator (h : Takes (fun _ => True) nested (Summarizes .full))
    (name : Token Kind) (symbol? : Option (Symbol Kind Ty)) :
    Takes pre (designator nested name symbol?) fun ts faults _ => name.kind = .ident →
      ∃ es, Expr.Derives .factor (name :: ts) (.designator name es) ∧
        LiteralsReported ts faults := by
  refine .accept (by decide) (.ite (fun _ => ?element) fun hne => absurd rfl hne)
    (.ite (fun heq => nomatch heq) fun _ => ?name)
  case name =>
    refine (Takes.reporting (reporting_unindexed name symbol?)).imp ?_
    rintro _ faults _ rfl hname
    exact ⟨[], .name hname, .nil faults⟩
  case element =>
    have hmore : ∀ indices, Takes (fun _ => True) (whileSees (· = Kind.comma) (fun indices => do
        let _ ← advance
        return indices ++ [← nested]) indices) fun us more _ =>
          (∃ es, CommaRepeated (Expr.Derives .full) us es) ∧ LiteralsReported us more :=
      fun indices => (takes_commas h indices).imp fun us more _ hcommas => by
        induction hcommas with
        | nil => exact ⟨⟨[], .nil⟩, .nil []⟩
        | concat _ hcomma hindex ih =>
          obtain ⟨⟨es, hes⟩, hreported⟩ := ih
          obtain ⟨e, he, -, -, hreported'⟩ := hindex
          exact ⟨⟨_, hes.concat hcomma he⟩,
            hreported.append (.cons (by rw [hcomma]; decide) hreported')⟩
    refine .bind h fun first => .bind (hmore _) fun indices => .bind (.mustBe (by decide)) fun _ =>
      (Takes.reporting (reporting_indexed name symbol? indices)).imp ?_
    rintro _ found _ rfl _ _ ⟨closing, -, hclosing, rfl, rfl⟩ us more ⟨⟨es, hes⟩, hreported'⟩
      ts faults ⟨e, he, -, -, hreported⟩ opening - hopening hname
    have hliteral : opening.kind ≠ .intLiteral := by rw [hopening]; decide
    have hliteral' : closing.kind ≠ .intLiteral := by rw [hclosing]; decide
    refine ⟨e :: es, ?_, .cons hliteral ?_⟩
    · rw [List.append_nil, ← List.append_assoc]
      exact .element hname hopening he hes hclosing
    · have hindices := ((hreported.append hreported').of_more []).concat hliteral'
      simpa only [List.append_assoc, List.append_nil, List.nil_append] using hindices.of_more found

end

/-! ## Factors -/

/-- A factor of one token that has no constant. -/
theorem takes_atom {kind : Kind} {type : Ty} {atom : Token Kind → Expr}
    (ordinary : kind ≠ .endOfFile) (literal : kind ≠ .intLiteral)
    (h : ∀ token, token.kind = kind → Expr.Derives .factor [token] (atom token) ∧
      (atom token).first = token ∧ (atom token).constant = none) :
    Takes (fun token => token.kind = kind)
      (do
        let token ← advance
        return ⟨type, token, none⟩ : GrammarRule Operand) (Summarizes .factor) := by
  refine .bind (.advance fun _ hkind => hkind ▸ ordinary) fun token => .pure ?_
  rintro _ _ ⟨hkind, rfl, rfl⟩
  obtain ⟨hderives, hfirst, hconstant⟩ := h token hkind
  exact ⟨atom token, hderives, hfirst.symm, hconstant.symm, .other (hkind ▸ literal)⟩

/-- A factor takes what its first token asks for. -/
theorem takes_factorAt {n : Nat} (h : Takes (fun _ => True) (factor n) (Summarizes .factor))
    (kind : Kind) :
    Takes (fun token => token.kind = kind) (factorAt n kind) (Summarizes .factor) := by
  unfold factorAt
  split
  -- One case for each token that a factor begins with; anything else is unexpected.
  case h_1 =>
    refine .bind (.advance fun _ hkind => hkind ▸ by decide) fun name =>
      .bind (.reporting (Reporting.resolve name)) fun symbol? =>
        .bind ((takes_designator (takes_expressionOf h) name symbol?).of_pre fun _ _ => trivial)
          fun type => .pure ?_
    rintro us faults hdesignator _ more rfl _ _ ⟨hname, rfl, rfl⟩
    obtain ⟨es, hes, hreported⟩ := hdesignator hname
    rw [List.append_nil, List.append_nil]
    exact ⟨_, hes, rfl, rfl, .cons (by rw [hname]; decide) ((LiteralsReported.nil more).append
      hreported)⟩
  case h_2 =>
    refine .bind (.advance fun _ hkind => hkind ▸ by decide) fun token =>
      .bind (takes_intValue token) fun value => .pure ?_
    rintro _ _ ⟨rfl, rfl, rfl⟩ _ _ ⟨hkind, rfl, rfl⟩
    exact ⟨.integer token, .integer hkind, rfl, rfl, (LiteralsReported.literal token).of_more []⟩
  case h_3 => exact takes_atom (by decide) (by decide) fun _ hkind => ⟨.real hkind, rfl, rfl⟩
  case h_4 =>
    exact takes_atom (by decide) (by decide) fun _ hkind => ⟨.boolean (.inl hkind), rfl, rfl⟩
  case h_5 =>
    exact takes_atom (by decide) (by decide) fun _ hkind => ⟨.boolean (.inr hkind), rfl, rfl⟩
  case h_6 =>
    refine .bind (.advance fun _ hkind => hkind ▸ by decide) fun op => .bind h fun operand =>
      .bind (.reporting (reporting_complement operand)) fun type => .pure ?_
    rintro _ more rfl us faults ⟨e, he, -, -, hreported⟩ _ _ ⟨hop, rfl, rfl⟩
    rw [List.append_nil, List.append_nil]
    exact ⟨.complement op e, .complement hop he, rfl, rfl,
      .cons (by rw [hop]; decide) (hreported.of_more _)⟩
  case h_7 =>
    refine .bind (.advance fun _ hkind => hkind ▸ by decide) fun opening =>
      .bind (takes_expressionOf h) fun inner => .bind (.mustBe (by decide)) fun _ => .pure ?_
    rintro _ _ ⟨closing, -, hclosing, rfl, rfl⟩ ts faults ⟨e, he, htoken, hconstant, hreported⟩
      _ _ ⟨hopening, rfl, rfl⟩
    rw [List.append_nil, List.append_nil]
    exact ⟨e, .parentheses hopening he hclosing, htoken, hconstant,
      .cons (by rw [hopening]; decide) ((hreported.concat (by rw [hclosing]; decide)).of_more [])⟩
  case h_8 =>
    refine .bind (.reporting (.read State.lookahead)) fun token => .bind (.unexpected _) fun _ =>
      .pure ?_
    exact fun _ _ hfalse => hfalse.elim

/-- **A factor takes the tokens that its operand summarizes**, by induction on how deep it nests. -/
theorem takes_factor (n : Nat) : Takes (fun _ => True) (factor n) (Summarizes .factor) := by
  induction n with
  | zero => exact .outOfFuel
  | succ n ih =>
    refine ⟨composed_factor _, fun strategy s t a found hs _ hrun => ?_⟩
    rw [factor_succ] at hrun
    exact (takes_factorAt ih s.lookahead.kind).takes strategy s t a found hs rfl hrun

/-- `Expression`. -/
theorem takes_expression : Takes pre expression (Summarizes .full) :=
  .withFuel fun n => (takes_expressionOf (takes_factor n)).of_pre fun _ _ => trivial

end SinglePass.Simple
