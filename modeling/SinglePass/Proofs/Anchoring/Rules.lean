import SinglePass.Proofs.Dispatch
import SinglePass.Proofs.Anchoring.Anchors

/-!
# The rules of Simple anchor what they report

One lemma for each rule, and `anchors_program` is the last one.

The order of the source counts in a declaration.  Its name stands behind those of all symbols in the
scopes when it is consumed, and still does when its symbol is declared, because type specifications
and literals leave the scopes alone.
-/

namespace SinglePass.Simple

open Recognizer

variable {source : Source} {known : List (Token Kind)} {name op token : Token Kind}
  {left right operand value : Operand}

/-- A recognizer of Simple that anchors what it reports in a source. -/
abbrev AnchorsIn {α : Type} (source : Source) (known : List (Token Kind))
    (carried : α → List (Token Kind)) (r : GrammarRule α) : Prop :=
  Anchors .ident classifier source known carried r

/-! ## Type rules -/

/-- A fault is anchored at the token that it is reported at. -/
theorem anchors_reportFault (h : token ∈ known) (fault : Fault) :
    AnchorsIn source known noTokens (reportFault token fault) :=
  .report rfl (fun _ hsub => hsub h) (by simp)

/-- A fault that is reported on a condition is anchored like any other. -/
theorem anchors_reportFaultIf {p : Prop} [Decidable p] (h : token ∈ known) (fault : Fault) :
    AnchorsIn source known noTokens (reportFaultIf p token fault) :=
  .ite (anchors_reportFault h fault) (.plain _)

/-- An array that is used as a whole is reported at its name. -/
theorem anchors_unindexed (h : name ∈ known) (symbol? : Option (Symbol Kind Ty)) :
    AnchorsIn source known noTokens (unindexed name symbol?) := by
  cases symbol? with
  | none => exact .plain _
  | some symbol =>
    rw [unindexed]
    split
    · exact .bind (anchors_reportFault h _) fun _ => .plain _
    · exact .plain _

/-- A fault of an index is anchored at the token of this index. -/
theorem anchors_checkIndex {index : Operand} (h : index.token ∈ known) (name : Token Kind)
    (shape : Shape) (d : Nat) :
    AnchorsIn source known noTokens (checkIndex name shape d index) := by
  refine .bind (.expectType h _ _) fun _ => ?_
  split
  · exact anchors_reportFaultIf h _
  · exact .plain _

/-- Each index has a token of its own to anchor its faults. -/
theorem anchors_checkIndices {indices : List Operand} (h : indices.flatMap Operand.tokens ⊆ known)
    (name : Token Kind) (shape : Shape) (d : Nat) :
    AnchorsIn source known noTokens (checkIndices name shape d indices) := by
  induction indices generalizing d with
  | nil => exact .plain _
  | cons index rest ih =>
    obtain ⟨hindex, hrest⟩ := List.append_subset.1 h
    exact .bind (anchors_checkIndex (hindex (List.mem_singleton.2 rfl)) _ _ _) fun _ => ih hrest _

/-- Faults of an indexed name are anchored at the name or at an index. -/
theorem anchors_indexed {indices : List Operand} (hname : name ∈ known)
    (h : indices.flatMap Operand.tokens ⊆ known) (symbol? : Option (Symbol Kind Ty)) :
    AnchorsIn source known noTokens (indexed name symbol? indices) := by
  unfold indexed
  split
  · exact .plain _
  · split
    · exact .bind (anchors_reportFault hname _) fun _ => .plain _
    · exact .bind (anchors_reportFaultIf hname _) fun _ =>
        .bind (anchors_checkIndices h _ _ _) fun _ => .plain _

/-- Faults of an arithmetic operator are anchored at it, or at its right operand. -/
theorem anchors_arithmetic (hop : op ∈ known) (hright : right.token ∈ known) :
    AnchorsIn source known noTokens (arithmetic op left right) :=
  .ite (.plain _) (.ite (.bind (.expectType hright _ _) fun _ => .ite (.plain _) (.plain _))
    (.bind (anchors_reportFault hop _) fun _ => .plain _))

/-- Faults of a logical operator are anchored at its operands. -/
theorem anchors_logical (hleft : left.token ∈ known) (hright : right.token ∈ known) :
    AnchorsIn source known noTokens (logical left right) :=
  .bind (.expectType hleft _ _) fun _ => .bind (.expectType hright _ _) fun _ => .plain _

/-- Faults of a comparison are anchored at its operator, or at its right operand. -/
theorem anchors_relational (hop : op ∈ known) (hright : right.token ∈ known) :
    AnchorsIn source known noTokens (relational op left right) :=
  .ite (.plain _) (.ite (.bind (.expectType hright _ _) fun _ => .plain _)
    (.bind (anchors_reportFault hop _) fun _ => .plain _))

/-- A sign before something that has none is reported at the sign. -/
theorem anchors_negation (hop : op ∈ known) :
    AnchorsIn source known noTokens (negation op operand) :=
  .ite (.plain _) (.ite (.plain _) (.bind (anchors_reportFault hop _) fun _ => .plain _))

/-- A negated operand that is no truth value is reported at its token. -/
theorem anchors_complement (h : operand.token ∈ known) :
    AnchorsIn source known noTokens (complement operand) :=
  .bind (.expectType h _ _) fun _ => .plain _

/-- A condition that is no truth value is reported at its token. -/
theorem anchors_condition (h : operand.token ∈ known) :
    AnchorsIn source known noTokens (condition operand) :=
  .bind (.expectType h _ _) fun _ => .plain _

/-- A value of another type than its target is reported at its own token. -/
theorem anchors_assignable (target : Ty) (h : value.token ∈ known) :
    AnchorsIn source known noTokens (assignable target value) :=
  .bind (.expectType h _ _) fun _ => .plain _

/-! ## Types and literals -/

/-- A literal that is too large is reported where it stands. -/
theorem anchors_intValue (h : token ∈ known) :
    AnchorsIn source known noTokens (intValue token) := by
  rw [intValue]
  split
  · exact .plain _
  · exact .bind (anchors_reportFault h _) fun _ => .plain _

/-- The literal of a constant is consumed before it is looked at. -/
theorem anchors_intConstant : AnchorsIn source known noTokens intConstant := by
  refine .bind (.accept _) fun negative => .bind (.mustBe _) fun token? => ?_
  cases token? with
  | none => exact .plain _
  | some token => exact .bind (anchors_intValue (by simp)) fun _ => .plain _

/-- A dimension is reported at its first token. -/
theorem anchors_dimension : AnchorsIn source known noTokens dimension :=
  .bind .lookahead fun _ => .bind anchors_intConstant fun _ => .bind (.accept _) fun _ =>
    .ite
      (.bind anchors_intConstant fun _ =>
        .bind (anchors_reportFaultIf (by simp [noTokens]) _) fun _ => .plain _)
      (.bind (anchors_reportFaultIf (by simp [noTokens]) _) fun _ => .plain _)

/-- Each further dimension has a first token of its own. -/
theorem anchors_moreDimensions (dims : List Bounds) :
    AnchorsIn source known noTokens (moreDimensions dims) :=
  .whileSees (fun _ => .bind .advance fun _ => .bind anchors_dimension fun _ => .plain _)
    (List.nil_subset _)

/-- A base type that is missing is reported at what stands there instead. -/
theorem anchors_baseType : AnchorsIn source known noTokens baseType := by
  refine .bind .lookahead fun token => ?_
  split
  · exact .bind .advance fun _ => .plain _
  · exact .bind (.unexpected _) fun _ => .plain _

/-- A type reports nothing at the name that it is given. -/
theorem anchors_typeSpec (name : Token Kind) :
    AnchorsIn source known noTokens (typeSpec name) :=
  .bind (.accept _) fun _ => .ite
    (.bind (.mustBe _) fun _ => .bind anchors_dimension fun _ =>
      .bind (anchors_moreDimensions _) fun _ => .bind (.mustBe _) fun _ =>
        .bind (.mustBe _) fun _ => .bind anchors_baseType fun _ => .plain _)
    (.bind anchors_baseType fun _ => .plain _)

/-- What a type specification makes of a name is a symbol of this name. -/
theorem gives_typeSpec (name : Token Kind) :
    Gives (fun symbol : Symbol Kind Ty => symbol.token = name) (typeSpec name) :=
  .bind fun _ => .ite
    (.bind fun _ => .bind fun _ => .bind fun _ => .bind fun _ => .bind fun _ => .bind fun _ =>
      .pure rfl)
    (.bind fun _ => .pure rfl)

/-- A literal of another type is reported where it stands. -/
theorem anchors_checkLiteral (type : Ty) (h : token ∈ known) :
    AnchorsIn source known noTokens (checkLiteral type token) :=
  .ite (.bind (anchors_intValue h) fun _ => .plain _) (.plain _)

/-- A literal is consumed before it is checked. -/
theorem anchors_literal : AnchorsIn source known noTokens literal := by
  refine .bind (.accept _) fun negative => .bind .lookahead fun token => ?_
  split
  · exact .bind (.unexpected _) fun _ => .plain _
  · exact .bind .advance fun _ => .bind (anchors_checkLiteral _ (by simp)) fun _ => .plain _

/-! ## Declarations -/

/-- A name that the innermost level binds is reported. -/
theorem declareNoted_of_local?_eq_some {symbol first : Symbol Kind Ty} {strategy : Strategy}
    {s : State Kind Ty (Symbol Kind Ty)} (h : s.scopes.local? symbol.name = some first) :
    declareNoted symbol strategy s = report (.alreadyDeclared symbol.token first) strategy s := by
  unfold declareNoted
  rw [bind_apply, declare_of_local?_eq_some h, bind_apply]
  generalize (report (.alreadyDeclared symbol.token first) : GrammarRule Unit) strategy s = e
  obtain ⟨_ | _ | _, t⟩ := e <;> rfl

/-- Any other name is bound and noted down. -/
theorem declareNoted_of_local?_eq_none {symbol : Symbol Kind Ty} (strategy : Strategy)
    {s : State Kind Ty (Symbol Kind Ty)} (h : s.scopes.local? symbol.name = none) :
    ∃ scopes, (scopesForDeclaration s.scopes).add? symbol = some (true, scopes) ∧
      bindSymbol symbol strategy s = (.value true, { s with scopes }) ∧
      declareNoted symbol strategy s =
        (.value (), { s with scopes, notes := s.notes ++ [symbol] }) := by
  obtain ⟨scopes, hadd, -⟩ := ScopeStack.add?_of_local?_eq_none h
  have hbind : bindSymbol symbol strategy s = (.value true, { s with scopes }) := by
    simp only [bindSymbol, hadd]
  refine ⟨scopes, hadd, hbind, ?_⟩
  unfold declareNoted
  rw [bind_of_value ((declare_of_local?_eq_none h).trans hbind), if_pos rfl]
  rfl

/-- The symbol that a redeclaration is compared with was declared in front of it and is noted down,
and so is every symbol that is bound. -/
theorem declares_declareNoted {symbol : Symbol Kind Ty} (htoken : symbol.token = name)
    (hkind : name.kind = .ident) :
    Declares .ident classifier source name (declareNoted symbol) := by
  rintro strategy s - listed passed newest
  -- Either the fault names the first symbol, which is listed, or the symbol joins the list.
  cases hlocal : s.scopes.local? symbol.name with
  | some first =>
    obtain ⟨hbinds, hname⟩ := ScopeStack.binds_of_local? hlocal
    have hlisted := listed.report (d := .alreadyDeclared symbol.token first)
      (fun _ _ heq => by cases heq; exact listed.bound first hbinds) strategy
    rw [declareNoted_of_local?_eq_some hlocal]
    exact .operation (.report (.alreadyDeclared symbol.token first)) rfl (fun _ => none) rfl
      ⟨htoken ▸ hkind, hname, htoken ▸ newest first hbinds⟩ hlisted fun _ _ => List.nil_subset _
  | none =>
    obtain ⟨scopes, hadd, hbind, hdeclare⟩ := declareNoted_of_local?_eq_none strategy hlocal
    have hmoves : AnchoredRun Kind.ident (source.tokens classifier) strategy s
        (bindSymbol symbol strategy s).2 := by
      refine .operation (.bindSymbol symbol) trivial (fun _ => none) rfl
        fun m hbefore hoperation => ?_
      rw [hbefore, hoperation]
      exact ⟨htoken ▸ hkind, htoken ▸ passed⟩
    rw [hbind] at hmoves
    rw [hdeclare]
    refine ⟨hmoves.trans (.of_engine_eq rfl), ⟨fun other hother => ?_, fun token first hmem => ?_⟩,
      fun _ _ => List.nil_subset _⟩
    · obtain rfl | hother := hother.of_add? hadd
      · exact List.mem_append_right _ (List.mem_singleton.2 rfl)
      · exact List.mem_append_left _ (listed.bound other hother)
    · exact List.mem_append_left _ (listed.firsts token first hmem)

/-- A name is declared behind all names that are in scope. -/
theorem anchors_declaration : AnchorsIn source known noTokens declaration := by
  refine Declares.of_mustBe (by decide) (.plain _) fun name hkind => ?_
  have anything : ∀ {α : Type} (r : GrammarRule α), Gives (fun _ => True) r :=
    fun _ _ _ _ _ _ => trivial
  refine .bind (.accept _) (.accept _) (anything _) fun _ _ => .ite ?typed
    (.bind (.accept _) (.accept _) (anything _) fun _ _ => .ite ?const ?other)
  case typed =>
    exact .bind (anchors_typeSpec name) (disciplined_typeSpec name) (gives_typeSpec name)
      fun _ htoken => declares_declareNoted htoken hkind
  case const =>
    exact .bind anchors_literal disciplined_literal (anything _)
      fun _ _ => declares_declareNoted rfl hkind
  case other => exact .of_anchors (.unexpected _)

/-- Each declaration stands behind those before it. -/
theorem anchors_declarations : AnchorsIn source known noTokens declarations :=
  .bind anchors_declaration fun _ =>
    .whileSees (fun _ => .bind .advance fun _ => anchors_declaration) (List.nil_subset _)

/-! ## Expressions -/

section

variable {nested : GrammarRule Operand}

/-- A designator anchors its faults at its name and at its indices. -/
theorem anchors_designator (h : ∀ known, AnchorsIn source known Operand.tokens nested)
    (hname : name ∈ known) (symbol? : Option (Symbol Kind Ty)) :
    AnchorsIn source known noTokens (designator nested name symbol?) := by
  refine .bind (.accept _) fun _ => .ite (.bind (h _) fun first => ?_) (anchors_unindexed hname _)
  refine .bind
    (show AnchorsIn source _ (List.flatMap Operand.tokens) _ from .whileSees (fun indices => ?_) ?_)
    fun indices => .bind (.mustBe _) fun _ => anchors_indexed (by simp [hname]) (by simp) _
  · refine .bind .advance fun comma => .bind (h _) fun index => .pure ?_
    rw [List.flatMap_append, List.flatMap_singleton]
    exact List.append_subset.2 ⟨List.subset_append_of_subset_right _
      (List.subset_cons_of_subset _ (List.subset_append_left _ _)), List.subset_append_left _ _⟩
  · simp

/-- Operands carry their tokens to the operator that combines them. -/
theorem anchors_combine (hop : op ∈ known) (hleft : left.token ∈ known)
    (hright : right.token ∈ known) :
    AnchorsIn source known Operand.tokens (combine op left right) :=
  .ite (.bind (anchors_logical hleft hright) fun _ => .pure (by simp [Operand.tokens, hleft]))
    (.bind (anchors_arithmetic hop hright) fun _ => .pure (by simp [Operand.tokens, hleft]))

/-- A chain carries the first token of what it has put together. -/
theorem anchors_chain (h : ∀ known, AnchorsIn source known Operand.tokens nested)
    (operators : List Kind) (hleft : left.token ∈ known) :
    AnchorsIn source known Operand.tokens (chain operators nested left) := by
  refine .whileSees (fun left => .bind .advance fun op => .bind (h _) fun right => ?_) ?_
  · exact anchors_combine (by simp) (by simp [Operand.tokens]) (by simp [Operand.tokens])
  · simp [Operand.tokens, hleft]

/-- A term carries the first token of its factors. -/
theorem anchors_term (h : ∀ known, AnchorsIn source known Operand.tokens nested)
    (known : List (Token Kind)) : AnchorsIn source known Operand.tokens (term nested) :=
  .bind (h _) fun _ => anchors_chain h _ (by simp [Operand.tokens])

/-- A signed term carries its sign as its first token. -/
theorem anchors_signedTerm (h : ∀ known, AnchorsIn source known Operand.tokens nested) :
    AnchorsIn source known Operand.tokens (signedTerm nested) := by
  refine .bind (.sees _) fun _ => .ite ?_ (anchors_term h _)
  exact .bind .advance fun op => .bind (anchors_term h _) fun _ =>
    .bind (anchors_negation (by simp)) fun _ => .pure (by simp [Operand.tokens])

/-- A simple expression carries the first token of its terms. -/
theorem anchors_simpleExpression (h : ∀ known, AnchorsIn source known Operand.tokens nested) :
    AnchorsIn source known Operand.tokens (simpleExpression nested) :=
  .bind (anchors_signedTerm h) fun _ => anchors_chain (anchors_term h) _ (by simp [Operand.tokens])

/-- A comparison carries the first token of its left side. -/
theorem anchors_expressionOf (h : ∀ known, AnchorsIn source known Operand.tokens nested)
    (known : List (Token Kind)) :
    AnchorsIn source known Operand.tokens (expressionOf nested) := by
  refine .bind (anchors_simpleExpression h) fun left => .bind .lookahead fun _ => .ite ?_ ?_
  · exact .bind .advance fun _ => .bind (anchors_simpleExpression h) fun _ =>
      .bind (anchors_relational (by simp) (by simp [Operand.tokens])) fun _ =>
        .pure (by simp [Operand.tokens])
  · exact .pure (by simp)

end

/-- A factor anchors its faults, by induction on how deep it nests. -/
theorem anchors_factor (n : Nat) (known : List (Token Kind)) :
    AnchorsIn source known Operand.tokens (factor n) := by
  induction n generalizing known with
  | zero => exact .outOfFuel
  | succ n ih =>
    refine .bind .lookahead fun token => ?_
    split
    · next hkind =>
      exact .bind .advance fun _ => .bind (.resolve (by simp) hkind) fun _ =>
        .bind (anchors_designator (anchors_expressionOf ih) (by simp) _) fun _ =>
          .pure (by simp [Operand.tokens])
    · exact .bind .advance fun _ => .bind (anchors_intValue (by simp)) fun _ =>
        .pure (by simp [Operand.tokens])
    · exact .bind .advance fun _ => .pure (by simp [Operand.tokens])
    · exact .bind .advance fun _ => .pure (by simp [Operand.tokens])
    · exact .bind .advance fun _ => .pure (by simp [Operand.tokens])
    · exact .bind .advance fun _ => .bind (ih _) fun _ =>
        .bind (anchors_complement (by simp [Operand.tokens])) fun _ =>
          .pure (by simp [Operand.tokens])
    · exact .bind .advance fun _ => .bind (anchors_expressionOf ih _) fun _ =>
        .bind (.mustBe _) fun _ => .pure (by simp)
    · exact .bind (.unexpected _) fun _ => .pure (by simp [Operand.tokens])

/-- An expression anchors its faults, however deep it nests. -/
theorem anchors_expression (known : List (Token Kind)) :
    AnchorsIn source known Operand.tokens expression :=
  .withFuel fun n => anchors_expressionOf (anchors_factor n) _

/-! ## Statements and programs -/

/-- An assignment starts at a name. -/
theorem anchors_assignment {strategy : Strategy} {s : State Kind Ty (Symbol Kind Ty)}
    (hkind : s.lookahead.kind = .ident) (anchored : s.Anchored .ident classifier source)
    (listed : s.Listed) :
    AnchorsAt .ident classifier source strategy noTokens s (assignment strategy s) := by
  have hadvance : AnchorsIn source [] (fun t => [t]) advance := .advance
  refine .bind anchored (hadvance strategy s anchored listed (List.nil_subset _))
    fun name t heq anchored' listed' _ hname => ?_
  cases heq
  have hrest : AnchorsIn source [s.lookahead] noTokens (do
      let symbol? ← resolve s.lookahead
      checkTarget s.lookahead symbol?
      let target ← designator expression s.lookahead symbol?
      let _ ← mustBe .assign
      assignable target (← expression)) :=
    .bind (.resolve (by simp) hkind) fun _ => .bind (anchors_reportFaultIf (by simp) _) fun _ =>
      .bind (anchors_designator anchors_expression (by simp) _) fun _ => .bind (.mustBe _) fun _ =>
        .bind (anchors_expression _) fun _ => anchors_assignable _ (by simp [Operand.tokens])
  exact hrest strategy _ anchored' listed' hname

/-- What is read into is anchored at its name. -/
theorem anchors_readStatement : AnchorsIn source known noTokens readStatement := by
  refine .bind .advance fun _ => .bind_of_gives (.mustBe _) (.mustBe _) fun name? hkind => ?_
  cases name? with
  | none => exact .plain _
  | some name =>
    exact .bind (.resolve (by simp) (hkind name rfl)) fun _ =>
      .bind (anchors_reportFaultIf (by simp) _) fun _ =>
        .bind (anchors_unindexed (by simp) _) fun _ => .plain _

/-- What is written out anchors its own faults. -/
theorem anchors_writeStatement : AnchorsIn source known noTokens writeStatement :=
  .bind .advance fun _ => .bind (anchors_expression _) fun _ => .plain _

section

variable {nested : GrammarRule Unit}

/-- Statements in a row anchor their faults each for itself. -/
theorem anchors_statementsOf (h : ∀ known, AnchorsIn source known noTokens nested) :
    AnchorsIn source known noTokens (statementsOf nested) :=
  .whileSees (fun _ => h _) (List.nil_subset _)

/-- What stands behind `ELSE` anchors its faults as statements do. -/
theorem anchors_elsePart (h : ∀ known, AnchorsIn source known noTokens nested) :
    AnchorsIn source known noTokens (elsePart nested) :=
  .bind (.accept _) fun _ => .ite (anchors_statementsOf h) (.plain _)

/-- A choice anchors a fault of its condition at the condition. -/
theorem anchors_ifStatement (h : ∀ known, AnchorsIn source known noTokens nested) :
    AnchorsIn source known noTokens (ifStatement nested) :=
  .bind .advance fun _ => .bind (anchors_expression _) fun _ =>
    .bind (anchors_condition (by simp [Operand.tokens])) fun _ => .bind (.mustBe _) fun _ =>
      .bind (anchors_statementsOf h) fun _ => .bind (anchors_elsePart h) fun _ =>
        .bind (.mustBe _) fun _ => .plain _

/-- A loop anchors a fault of its condition at the condition. -/
theorem anchors_whileStatement (h : ∀ known, AnchorsIn source known noTokens nested) :
    AnchorsIn source known noTokens (whileStatement nested) :=
  .bind .advance fun _ => .bind (anchors_expression _) fun _ =>
    .bind (anchors_condition (by simp [Operand.tokens])) fun _ => .bind (.mustBe _) fun _ =>
      .bind (anchors_statementsOf h) fun _ => .bind (.mustBe _) fun _ => .plain _

/-- A block keeps the names that were declared before it where they are. -/
theorem anchors_block (h : ∀ known, AnchorsIn source known noTokens nested) :
    AnchorsIn source known noTokens (block nested) :=
  .bind .advance fun _ => .bind .openScope fun _ => .bind anchors_declarations fun _ =>
    .bind (.mustBe _) fun _ => .bind (anchors_statementsOf h) fun _ => .bind (.mustBe _) fun _ =>
      .bind .closeScope fun _ => .plain _

end

/-- Statements anchor their faults, by induction on how deep they nest. -/
theorem anchors_statement (n : Nat) (known : List (Token Kind)) :
    AnchorsIn source known noTokens (statement n) := by
  induction n generalizing known with
  | zero => exact .outOfFuel
  | succ n ih =>
    have others : ∀ kind, kind ≠ .ident →
        AnchorsIn source known noTokens (statementAt n kind) := by
      intro kind hother
      unfold statementAt
      split
      · exact absurd rfl hother
      · exact anchors_ifStatement ih
      · exact anchors_whileStatement ih
      · exact anchors_readStatement
      · exact anchors_writeStatement
      · exact anchors_block ih
      · exact .bind (.unexpected _) fun _ => .bind .advance fun _ => .plain _
    -- Only an assignment is told by a token that has been seen when it begins.
    intro strategy s anchored listed hknown
    by_cases hkind : s.lookahead.kind = .ident
    · rw [statement_of_ident hkind]
      exact anchors_assignment hkind anchored listed
    · rw [statement_succ]
      exact others _ hkind strategy s anchored listed hknown

/-- Statements in a row anchor their faults, however deep they nest. -/
theorem anchors_statements : AnchorsIn source known noTokens statements :=
  .withFuel fun n => anchors_statementsOf (anchors_statement n)

/-- Declarations in front of a program are declared in the order in which they stand. -/
theorem anchors_optionalDeclarations : AnchorsIn source known noTokens optionalDeclarations :=
  .bind (.accept _) fun _ => .ite anchors_declarations (.plain _)

/-- **A program anchors all that it reports**, from a start at which nothing is known. -/
theorem anchors_program : AnchorsIn source known noTokens program :=
  .bind (.mustBe _) fun _ => .bind (.mustBe _) fun _ => .bind .openScope fun _ =>
    .bind anchors_optionalDeclarations fun _ => .bind (.mustBe _) fun _ =>
      .bind anchors_statements fun _ => .bind (.mustBe _) fun _ => .bind .closeScope fun _ =>
        .plain _

end SinglePass.Simple
