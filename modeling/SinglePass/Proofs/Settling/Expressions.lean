import SinglePass.Proofs.Dispatch
import SinglePass.Proofs.Settling.Settles
import SinglePass.Proofs.Syntax

/-!
# Expressions settle

Wherever an expression is read, the tokens up to the first that it cannot use settle what happens:
they form an expression, or they can be continued to one.  The rules of expressions are treated in
the order of their strength, each for any recognizer of nested factors that settles;
`factor_settles` closes the recursion by induction on the number of tokens.
-/

namespace SinglePass.Simple

open Recognizer Settles

/-- The token lists that a relation of the grammar derives, whatever the tree. -/
def phrases {α : Type} (Derives : List (Token Kind) → α → Prop) : Language (Token Kind) :=
  {ts | ∃ a, Derives ts a}

/-- The phrases that make up expressions of the given strength. -/
abbrev expressions (strength : Strength) : Language (Token Kind) :=
  phrases (Expr.Derives strength)

/-- What keeps every word of a language in the language when it comes behind it. -/
def suffixes (T : Language (Token Kind)) : Language (Token Kind) := {us | ∀ ts ∈ T, ts ++ us ∈ T}

/-- Nothing at all keeps every word in its language. -/
theorem nil_mem_suffixes (T : Language (Token Kind)) : [] ∈ suffixes T := by
  intro ts hts
  rw [List.append_nil]
  exact hts

/-- What comes behind a word may grow at its front. -/
theorem append_mem_suffixes {T : Language (Token Kind)} {ts us : List (Token Kind)}
    (hts : ts ∈ suffixes T) (hus : us ∈ suffixes T) : ts ++ us ∈ suffixes T := by
  intro first hfirst
  rw [← List.append_assoc]
  exact hus _ (hts first hfirst)

variable {ι : Type} {m : Nat} {heads : Kind → Prop}

/-! ## Operators -/

section

variable {nested : GrammarRule Operand}

/-- A chain is put together from the operations of the engine if its operands are. -/
theorem composed_chain (h : Composed nested) (operators : List Kind) (left : Operand) :
    Composed (chain operators nested left) :=
  .whileSees (fun _ => .bind .advance fun _ => .bind h fun _ =>
    (reporting_combine _ _ _).silent.composed) _

/-- A term is put together from the operations of the engine if its factors are. -/
theorem composed_term (h : Composed nested) : Composed (term nested) :=
  .bind h fun _ => composed_chain h _ _

/-- A signed term is put together from the operations of the engine if its factors are. -/
theorem composed_signedTerm (h : Composed nested) : Composed (signedTerm nested) :=
  .bind (.sees _) fun _ => .ite
    (.bind .advance fun _ => .bind (composed_term h) fun _ =>
      .bind (reporting_negation _ _).silent.composed fun _ => .pure _)
    (composed_term h)

/-- A simple expression is put together from the operations of the engine if its factors are. -/
theorem composed_simpleExpression (h : Composed nested) : Composed (simpleExpression nested) :=
  .bind (composed_signedTerm h) fun _ => composed_chain (composed_term h) _ _

end

section

variable {operators : List Kind} {operand : Nat → ι → GrammarRule Operand}
  {L T : Language (Token Kind)}

/-- A chain settles for what keeps words in their language, if its operands settle. -/
theorem chain_settles (hend : .endOfFile ∉ operators)
    (hoperand : Settles m (fun _ => True) operand L)
    (hround : ∀ left ∈ T, ∀ op : Token Kind, op.kind ∈ operators → ∀ right ∈ L,
      left ++ op :: right ∈ T) (hop : ∃ kind, kind ∈ operators) :
    Settles m heads (fun n (p : ι × Operand) => chain operators (operand n p.1) p.2)
      (suffixes T) := by
  -- a round: an operator and an operand
  have hbody : Settles m (fun kind => decide (kind ∈ operators) = true)
      (fun n (p : (ι × Operand) × Operand) => advance >>= fun op =>
        operand n p.1.1 >>= fun right => combine op p.2 right)
      (tokens (fun kind => decide (kind ∈ operators) = true) * L) := by
    obtain ⟨kind, hkind⟩ := hop
    have hright : Settles m (fun _ => True)
        (fun n (p : ((ι × Operand) × Operand) × Token Kind) => operand n p.1.1.1) L :=
      hoperand.reindex fun p : ((ι × Operand) × Operand) × Token Kind => p.1.1.1
    refine advance (thenSilent hright ?_) ⟨kind, decide_eq_true hkind⟩ ?_
    · intro n p right
      exact (reporting_combine p.2 p.1.2 right).silent
    · intro h
      exact hend (of_decide_eq_true h)
  refine whileSees (fun n (p : ι × Operand) left => advance >>= fun op =>
    operand n p.1 >>= fun right => combine op left right) hbody (nil_mem_suffixes T) ?_ ?_
  · intro ts hts us hus
    obtain ⟨_, ⟨op, hkind, rfl⟩, right, hright, rfl⟩ := Language.mem_mul.1 hts
    refine append_mem_suffixes ?_ hus
    intro left hleft
    exact hround left hleft op (of_decide_eq_true hkind) right hright
  · intro hnil
    obtain ⟨_, ⟨op, -, rfl⟩, right, -, heq⟩ := Language.mem_mul.1 hnil
    simp at heq

end

/-! ## The strengths of binding -/

section

variable {nested : Nat → ι → GrammarRule Operand}

/-- A term settles if its factors do. -/
theorem term_settles (h : Settles m (fun _ => True) nested (expressions .factor)) :
    Settles m (fun _ => True) (fun n i => term (nested n i)) (expressions .term) := by
  have hchain : Settles m (fun _ => True)
      (fun n (p : ι × Operand) => chain factorOperators (nested n p.1) p.2)
      (suffixes (expressions .term)) := by
    refine chain_settles (by decide) h ?_ ⟨.star, by decide⟩
    rintro left ⟨l, hl⟩ op hop right ⟨r, hr⟩
    exact ⟨_, .product hl hop hr⟩
  refine (h.bind hchain).mono ?_
  intro ts hts
  obtain ⟨us, ⟨e, he⟩, vs, hvs, rfl⟩ := Language.mem_mul.1 hts
  exact hvs us ⟨e, .ofFactor he⟩

/-- A signed term settles if its factors do. -/
theorem signedTerm_settles (h : Settles m (fun _ => True) nested (expressions .factor)) :
    Settles m (fun _ => True) (fun n i => signedTerm (nested n i)) (expressions .simple) := by
  have hcomposed : ∀ n i, Composed (signedTerm (nested n i)) :=
    fun n i => composed_signedTerm (h.composed n i)
  have hsigned : Settles m (· = Kind.minus) (fun n i => advance >>= fun op =>
      term (nested n i) >>= fun operand => negation op operand >>= fun type =>
        pure (⟨type, op, operand.constant.map fun value => -value⟩ : Operand))
      (tokens (· = Kind.minus) * expressions .term) := by
    refine advance (thenSilent ((term_settles h).reindex Prod.fst) ?_) ⟨.minus, rfl⟩ (by decide)
    intro n p operand
    exact .bind (reporting_negation _ _).silent fun _ => .pure _
  have hplain : Settles m (fun kind => True ∧ kind ≠ .minus) (fun n i => term (nested n i))
      (expressions .term) := (term_settles h).restrict fun _ _ => trivial
  refine select (· = Kind.minus) (hsigned.mono ?_) ((hplain.congr hcomposed ?_).mono ?_) ?_
  · intro ts hts
    obtain ⟨_, ⟨op, hop, rfl⟩, us, ⟨e, he⟩, rfl⟩ := Language.mem_mul.1 hts
    exact ⟨_, .negation hop he⟩
  · rintro n i s - ⟨-, hk⟩ -
    unfold signedTerm
    rw [bind_of_value (sees_apply .minus s), if_neg (by simpa using hk)]
  · rintro ts ⟨e, he⟩
    exact ⟨e, .ofTerm he⟩
  · intro n i s hk
    unfold signedTerm
    rw [bind_of_value (sees_apply .minus s), if_pos (decide_eq_true hk)]

/-- A simple expression settles if its factors do. -/
theorem simpleExpression_settles
    (h : Settles m (fun _ => True) nested (expressions .factor)) :
    Settles m (fun _ => True) (fun n i => simpleExpression (nested n i))
      (expressions .simple) := by
  have hchain : Settles m (fun _ => True)
      (fun n (p : ι × Operand) => chain termOperators (term (nested n p.1)) p.2)
      (suffixes (expressions .simple)) := by
    refine chain_settles (by decide) (term_settles h) ?_ ⟨.plus, by decide⟩
    rintro left ⟨l, hl⟩ op hop right ⟨r, hr⟩
    exact ⟨_, .sum hl hop hr⟩
  refine ((signedTerm_settles h).bind hchain).mono ?_
  intro ts hts
  obtain ⟨us, hus, vs, hvs, rfl⟩ := Language.mem_mul.1 hts
  exact hvs us hus

/-- What `Expression` does behind its first part. -/
def comparisonAfter (nested : GrammarRule Operand) (left : Operand) : GrammarRule Operand := do
  if (← lookahead).kind.isRelational then
    let op ← advance
    let right ← simpleExpression nested
    return ⟨← relational op left right, left.token, none⟩
  else
    return left

/-- A comparison, or nothing, settles behind a simple expression. -/
theorem comparisonAfter_settles
    (h : Settles m (fun _ => True) nested (expressions .factor)) :
    Settles m (fun _ => True) (fun n (p : ι × Operand) => comparisonAfter (nested n p.1) p.2)
      (tokens (fun kind : Kind => kind.isRelational = true) * expressions .simple + 1) := by
  have hcomposed : ∀ n (p : ι × Operand), Composed (comparisonAfter (nested n p.1) p.2) := by
    intro n p
    refine .bind .lookahead fun _ => .ite ?_ (.pure _)
    exact .bind .advance fun _ => .bind (composed_simpleExpression (h.composed n p.1)) fun _ =>
      .bind (reporting_relational _ _ _).silent.composed fun _ => .pure _
  have hmore : Settles m (fun kind : Kind => kind.isRelational = true)
      (fun n (p : ι × Operand) => advance >>= fun op => simpleExpression (nested n p.1) >>=
        fun right => relational op p.2 right >>= fun type =>
          pure (⟨type, p.2.token, none⟩ : Operand))
      (tokens (fun kind : Kind => kind.isRelational = true) * expressions .simple) := by
    refine advance (thenSilent ((simpleExpression_settles h).reindex
      fun p : (ι × Operand) × Token Kind => p.1.1) ?_) ⟨.less, rfl⟩ (by decide)
    intro n p right
    exact .bind (reporting_relational _ _ _).silent fun _ => .pure _
  have hnone : Settles m (fun kind => True ∧ ¬ kind.isRelational = true)
      (fun _ (p : ι × Operand) => (pure p.2 : GrammarRule Operand)) 1 :=
    silent fun _ _ => .pure _
  refine select (fun kind : Kind => kind.isRelational = true) (hmore.mono fun ts hts => .inl hts)
    ((hnone.congr hcomposed ?_).mono fun ts hts => .inr hts) ?_
  · rintro n p s - ⟨-, hk⟩ -
    unfold comparisonAfter
    rw [lookahead_bind, if_neg hk]
  · intro n p s hk
    unfold comparisonAfter
    rw [lookahead_bind, if_pos hk]

/-- An expression settles if its factors do. -/
theorem expressionOf_settles (h : Settles m (fun _ => True) nested (expressions .factor)) :
    Settles m (fun _ => True) (fun n i => expressionOf (nested n i)) (expressions .full) := by
  refine ((simpleExpression_settles h).bind (comparisonAfter_settles h)).mono ?_
  intro ts hts
  obtain ⟨us, ⟨l, hl⟩, vs, hvs, rfl⟩ := Language.mem_mul.1 hts
  rcases hvs with hvs | hvs
  · obtain ⟨_, ⟨op, hop, rfl⟩, ws, ⟨r, hr⟩, rfl⟩ := Language.mem_mul.1 hvs
    exact ⟨_, .comparison hl hop hr⟩
  · rw [(Language.mem_one _).1 hvs, List.append_nil]
    exact ⟨l, .ofSimple hl⟩

end

/-! ## Lists with commas -/

/-- Phrases behind commas settle if each of them does. -/
theorem commas_settles {α β : Type} {Derives : List (Token Kind) → β → Prop}
    {item : Nat → ι × α → GrammarRule α} (hitem : Settles m (fun _ => True) item (phrases Derives))
    (start : Nat → ι → α) :
    Settles m heads (fun n i => whileSees (· = Kind.comma)
      (fun a => advance >>= fun _ => item n (i, a)) (start n i))
      (phrases (CommaRepeated Derives)) := by
  have hbody : Settles m (fun kind => decide (kind = Kind.comma) = true)
      (fun n (p : ι × α) => advance >>= fun _ => item n p)
      (tokens (fun kind => decide (kind = Kind.comma) = true) * phrases Derives) :=
    advance (hitem.reindex Prod.fst) ⟨.comma, rfl⟩ (by decide)
  refine whileSees (fun n i a => advance >>= fun _ => item n (i, a)) hbody ⟨[], .nil⟩ ?_ ?_
  · rintro ts hts us ⟨as, has⟩
    obtain ⟨_, ⟨comma, hcomma, rfl⟩, vs, ⟨a, ha⟩, rfl⟩ := Language.mem_mul.1 hts
    refine ⟨a :: as, ?_⟩
    rw [List.append_assoc]
    show CommaRepeated Derives (comma :: (vs ++ us)) (a :: as)
    exact .cons (of_decide_eq_true hcomma) ha has
  · intro hnil
    obtain ⟨_, ⟨comma, -, rfl⟩, vs, -, heq⟩ := Language.mem_mul.1 hnil
    simp at heq

/-- What may stand behind the name of a designator. -/
def indexLists : Language (Token Kind) :=
  {ts | ∀ name : Token Kind, name.kind = .ident → ∃ indices, Designates (name :: ts) name indices}

/-- What stands behind a name settles if nested expressions do. -/
theorem designator_settles {nested : Nat → ι → GrammarRule Operand}
    (h : Settles m (fun _ => True) nested (expressions .full)) (name : ι → Token Kind)
    (symbol? : ι → Option (Symbol Kind Ty)) :
    Settles m (fun _ => True) (fun n i => designator (nested n i) (name i) (symbol? i))
      indexLists := by
  have hitem : Settles m (fun _ => True)
      (fun n (p : (ι × Operand) × List Operand) => nested n p.1.1 >>= fun index =>
        (pure (p.2 ++ [index]) : GrammarRule (List Operand))) (expressions .full) :=
    thenSilent (h.reindex fun p : (ι × Operand) × List Operand => p.1.1) fun _ _ _ => .pure _
  have hmore : Settles m (fun _ => True)
      (fun n (p : ι × Operand) => whileSees (· = Kind.comma) (fun indices => advance >>= fun _ =>
        nested n p.1 >>= fun index => (pure (indices ++ [index]) : GrammarRule (List Operand)))
        [p.2])
      (phrases (CommaRepeated (Expr.Derives .full))) :=
    commas_settles hitem fun _ p => [p.2]
  have hclosing : Settles m (fun _ => True)
      (fun _ (p : (ι × Operand) × List Operand) => mustBe Kind.rightBracket >>= fun _ =>
        (indexed (name p.1.1) (symbol? p.1.1) p.2 : GrammarRule Ty))
      (tokens (· = Kind.rightBracket) * 1) :=
    require (by decide) (silent fun _ _ => (reporting_indexed _ _ _).silent)
  have hindices : Settles m (fun _ => True)
      (fun n i => nested n i >>= fun first => whileSees (· = Kind.comma) (fun indices =>
        advance >>= fun _ => nested n i >>= fun index =>
          (pure (indices ++ [index]) : GrammarRule (List Operand))) [first] >>= fun indices =>
        mustBe Kind.rightBracket >>= fun _ => indexed (name i) (symbol? i) indices) _ :=
    h.bind (hmore.bind hclosing)
  -- A bracket opens the indices; without one the name stands alone.
  refine (accept (by decide) hindices (silent fun _ _ => (reporting_unindexed _ _).silent)).mono ?_
  intro ts hts name hname
  rcases hts with hts | hts
  · obtain ⟨_, ⟨opening, hopening, rfl⟩, us, hus, rfl⟩ := Language.mem_mul.1 hts
    obtain ⟨first, ⟨e, he⟩, vs, hvs, rfl⟩ := Language.mem_mul.1 hus
    obtain ⟨more, ⟨es, hes⟩, ws, hws, rfl⟩ := Language.mem_mul.1 hvs
    obtain ⟨_, ⟨closing, hclosing, rfl⟩, _, rfl, rfl⟩ := Language.mem_mul.1 hws
    refine ⟨e :: es, ?_⟩
    show Designates (name :: opening :: (first ++ (more ++ [closing]))) name (e :: es)
    rw [← List.append_assoc]
    exact .element hname hopening (.intro he hes) hclosing
  · rw [(Language.mem_one _).1 hts]
    exact ⟨[], .name hname⟩

/-! ## Factors -/

/-- A factor that is a single token settles. -/
theorem literalFactor_settles {p : Kind → Prop} {f : Token Kind → GrammarRule Operand}
    (hf : ∀ t, Silent (f t)) (hsome : ∃ kind, p kind) (hend : ¬ p .endOfFile)
    (hword : ∀ t : Token Kind, p t.kind → [t] ∈ expressions .factor) :
    Settles m p (fun _ (_ : ι) => advance >>= f) (expressions .factor) := by
  have hone : Settles m p (fun _ (_ : ι) => advance >>= f) (tokens p * 1) :=
    advance (silent fun _ p => hf p.2) hsome hend
  refine hone.mono ?_
  intro ts hts
  rw [mul_one] at hts
  obtain ⟨t, ht, rfl⟩ := hts
  exact hword t ht

section

variable (h : Settles m (fun _ => True) (fun n (_ : Unit) => factor n) (expressions .factor))

include h

/-- A factor that begins with a name settles, as its indices nest less deep. -/
theorem nameFactor_settles : Settles (m + 1) (· = Kind.ident)
    (fun n (_ : Unit) => advance >>= fun name => resolve name >>= fun symbol? =>
      designator (expressionOf (factor (n - 1))) name symbol? >>= fun type =>
        (pure ⟨type, name, none⟩ : GrammarRule Operand)) (expressions .factor) := by
  have hrest : Settles m (fun _ => True)
      (fun n (p : Unit × Token Kind) => resolve p.2 >>= fun symbol? =>
        designator (expressionOf (factor n)) p.2 symbol? >>= fun type =>
          (pure ⟨type, p.2, none⟩ : GrammarRule Operand)) indexLists := by
    refine afterSilent (fun _ p => (Reporting.resolve p.2).silent)
      (thenSilent ?_ fun _ _ _ => .pure _)
    exact designator_settles ((expressionOf_settles h).reindex fun _ => ())
      (fun p : (Unit × Token Kind) × Option (Symbol Kind Ty) => p.1.2) Prod.snd
  have hname : Settles (m + 1) (· = Kind.ident) _ (tokens (· = Kind.ident) * indexLists) :=
    advance_pred (f := fun n i name => resolve name >>= fun symbol? =>
      designator (expressionOf (factor n)) name symbol? >>= fun type =>
        (pure ⟨type, name, none⟩ : GrammarRule Operand)) hrest ⟨.ident, rfl⟩ (by decide)
  refine hname.mono ?_
  intro ts hts
  obtain ⟨_, ⟨name, hkind, rfl⟩, us, hus, rfl⟩ := Language.mem_mul.1 hts
  obtain ⟨indices, hindices⟩ := hus name hkind
  refine ⟨.designator name indices, ?_⟩
  cases hindices with
  | name _ => exact .name hkind
  | element _ hopening hlist hclosing =>
    obtain ⟨hfirst, hmore⟩ := hlist
    exact .element hkind hopening hfirst hmore hclosing

/-- A factor behind `NOT` settles, as it nests less deep. -/
theorem complementFactor_settles : Settles (m + 1) (· = Kind.kwNot)
    (fun n (_ : Unit) => advance >>= fun op => factor (n - 1) >>= fun operand =>
      complement operand >>= fun type => (pure ⟨type, op, none⟩ : GrammarRule Operand))
    (expressions .factor) := by
  have hrest : Settles m (fun _ => True)
      (fun n (p : Unit × Token Kind) => factor n >>= fun operand =>
        complement operand >>= fun type => (pure ⟨type, p.2, none⟩ : GrammarRule Operand))
      (expressions .factor) :=
    thenSilent (h.reindex fun _ => ()) fun _ _ _ =>
      .bind (reporting_complement _).silent fun _ => .pure _
  have hnot : Settles (m + 1) (· = Kind.kwNot) _ (tokens (· = Kind.kwNot) * expressions .factor) :=
    advance_pred (f := fun n _ op => factor n >>= fun operand =>
      complement operand >>= fun type => (pure ⟨type, op, none⟩ : GrammarRule Operand)) hrest
      ⟨.kwNot, rfl⟩ (by decide)
  refine hnot.mono ?_
  intro ts hts
  obtain ⟨_, ⟨op, hop, rfl⟩, us, ⟨e, he⟩, rfl⟩ := Language.mem_mul.1 hts
  exact ⟨_, .complement hop he⟩

/-- An expression in parentheses settles, as it nests less deep. -/
theorem parenthesesFactor_settles : Settles (m + 1) (· = Kind.leftParen)
    (fun n (_ : Unit) => advance >>= fun _ => expressionOf (factor (n - 1)) >>= fun inner =>
      mustBe Kind.rightParen >>= fun _ => (pure inner : GrammarRule Operand))
    (expressions .factor) := by
  have hrest : Settles m (fun _ => True)
      (fun n (_ : Unit × Token Kind) => expressionOf (factor n) >>= fun inner =>
        mustBe Kind.rightParen >>= fun _ => (pure inner : GrammarRule Operand))
      (expressions .full * (tokens (· = Kind.rightParen) * 1)) :=
    ((expressionOf_settles h).reindex fun _ => ()).bind
      (require (by decide) (silent fun _ _ => .pure _))
  have hparentheses : Settles (m + 1) (· = Kind.leftParen) _
      (tokens (· = Kind.leftParen) * (expressions .full * (tokens (· = Kind.rightParen) * 1))) :=
    advance_pred (f := fun n _ _ => expressionOf (factor n) >>= fun inner =>
      mustBe Kind.rightParen >>= fun _ => (pure inner : GrammarRule Operand)) hrest
      ⟨.leftParen, rfl⟩ (by decide)
  refine hparentheses.mono ?_
  intro ts hts
  rw [mul_one] at hts
  obtain ⟨_, ⟨opening, hopening, rfl⟩, us, hus, rfl⟩ := Language.mem_mul.1 hts
  obtain ⟨vs, ⟨e, he⟩, _, ⟨closing, hclosing, rfl⟩, rfl⟩ := Language.mem_mul.1 hus
  exact ⟨e, .parentheses hopening he hclosing⟩

end

/-- **Factors settle**, by induction on the number of tokens. -/
theorem factor_settles (m : Nat) : Settles m (fun _ => True) (fun n (_ : Unit) => factor n)
    (expressions .factor) := by
  have hsome : ∃ ts, ts ∈ expressions .factor := ⟨[⟨.ident, "", ⟨1, 1⟩⟩], _, .name rfl⟩
  refine Settles.recursive (fun n _ => composed_factor n) hsome ?_ m
  intro m ih
  refine select (· = Kind.ident) (nameFactor_settles ih) ?_ fun _ _ _ h => factor_of_ident h
  refine select (· = Kind.intLiteral) (literalFactor_settles (fun _ => ?_) ⟨_, rfl⟩ (by decide)
    fun _ h => ⟨_, .integer h⟩) ?_ fun _ _ _ h => factor_of_intLiteral h
  · exact .bind (reporting_intValue _).silent fun _ => .pure _
  refine select (· = Kind.realLiteral) (literalFactor_settles (fun _ => .pure _) ⟨_, rfl⟩
    (by decide) fun _ h => ⟨_, .real h⟩) ?_ fun _ _ _ h => factor_of_realLiteral h
  refine select (fun kind => kind = .kwTrue ∨ kind = .kwFalse) (literalFactor_settles
    (fun _ => .pure _) ⟨_, .inl rfl⟩ (by decide) fun _ h => ⟨_, .boolean h⟩) ?_
    fun _ _ _ h => factor_of_boolean h
  refine select (· = Kind.kwNot) (complementFactor_settles ih) ?_ fun _ _ _ h => factor_of_kwNot h
  refine select (· = Kind.leftParen) (parenthesesFactor_settles ih) ?_
    fun _ _ _ h => factor_of_leftParen h
  have hother : Settles (m + 1) (fun kind => kind ∉ factorStarts)
      (fun _ (_ : Unit) => lookahead >>= fun token =>
        unexpected (.description "an expression") >>= fun _ =>
          (pure ⟨.undefined, token, none⟩ : GrammarRule Operand)) (expressions .factor) :=
    afterSilent (fun _ _ => .read _) (Settles.unexpected _ hsome fun _ _ => .pure _)
  refine (hother.congr (fun n _ => composed_factor (n - 1 + 1)) ?_).restrict ?_
  · intro n _ s _ hk _
    exact factor_of_notMem hk
  · intro kind hkind
    simp only [factorStarts, List.mem_cons, List.not_mem_nil, or_false]
    tauto

/-- Wherever an expression is read, what happens is settled. -/
theorem expression_settles :
    Settles m heads (fun _ (_ : ι) => expression) (expressions .full) := by
  have h : Settles m heads (fun n (_ : Unit) => expressionOf (factor n)) (expressions .full) :=
    (expressionOf_settles (factor_settles m)).restrict fun _ _ => trivial
  exact h.withFuel.reindex fun _ => ()

end SinglePass.Simple
