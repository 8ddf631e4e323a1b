import SinglePass.Proofs.Termination.Progress

/-!
# The grammars come to an end

Every rule of Simple and of word lists comes to an end from every state that has the rest of a
source before it, whatever its tokens, under both strategies.

* `Simple.Progress`, `WordList.Progress`: what there is to say about each loop and each recursion of
  the two grammars, and about the fuel of the recursive rules.
* `grammars_progress`: all of it holds.
-/

namespace SinglePass

namespace Simple

open Recognizer

variable {m : Nat}

/-! ## Declarations -/

/-- A constant comes to an end without recursion. -/
theorem alike_intConstant : Alike 0 m intConstant intConstant := by
  refine .bind (.accept _) fun negative => .bind (.mustBe _) fun token? => ?_
  cases token? with
  | none => exact .pure _
  | some token => exact .bind (.silent (reporting_intValue token).silent) fun _ => .pure _

/-- A dimension has at most two constants. -/
theorem alike_dimension : Alike 0 m dimension dimension :=
  .bind (.silent (.read _)) fun _ => .bind alike_intConstant fun _ => .bind (.accept _) fun _ =>
    .ite
      (.bind alike_intConstant fun _ =>
        .bind (.silent (reporting_reportFaultIf _ _ _).silent) fun _ => .pure _)
      (.bind (.silent (reporting_reportFaultIf _ _ _).silent) fun _ => .pure _)

/-- A round of the loop over dimensions. -/
def dimensionRound (dims : List Bounds) : GrammarRule (List Bounds) := do
  let _ ← advance
  return dims ++ [← dimension]

/-- A round of the loop over dimensions consumes its comma. -/
theorem alike_dimensionRound (dims : List Bounds) :
    Alike 1 m (dimensionRound dims) (dimensionRound dims) :=
  .bind .advance fun _ => .bind alike_dimension fun _ => .pure _

/-- The loop over dimensions comes to an end, because each round consumes a token. -/
theorem alike_moreDimensions (dims : List Bounds) :
    Alike 0 m (moreDimensions dims) (moreDimensions dims) :=
  .whileSees (by decide) alike_dimensionRound dims

/-- A base type comes to an end without recursion. -/
theorem alike_baseType : Alike 0 m baseType baseType := by
  refine .bind (.silent (.read _)) fun token => ?_
  split
  · exact .mono (.bind .advance fun _ => .pure _) (Nat.zero_le 1)
  · exact .bind (.unexpected _) fun _ => .pure _

/-- A type comes to an end with its dimensions. -/
theorem alike_typeSpec (name : Token Kind) : Alike 0 m (typeSpec name) (typeSpec name) :=
  .bind (.accept _) fun _ => .ite
    (.bind (.mustBe _) fun _ => .bind alike_dimension fun _ =>
      .bind (alike_moreDimensions _) fun _ => .bind (.mustBe _) fun _ =>
        .bind (.mustBe _) fun _ => .bind alike_baseType fun _ => .pure _)
    (.bind alike_baseType fun _ => .pure _)

/-- A literal comes to an end without recursion. -/
theorem alike_literal : Alike 0 m literal literal := by
  refine .bind (.accept _) fun negative => .bind (.silent (.read _)) fun token => ?_
  split
  · exact .bind (.unexpected _) fun _ => .pure _
  · exact .mono (.bind .advance fun _ =>
      .bind (.silent (reporting_checkLiteral _ _).silent) fun _ => .pure _) (Nat.zero_le 1)

/-- A declaration comes to an end with its type or its literal. -/
theorem alike_declaration : Alike 0 m declaration declaration := by
  refine .bind (.mustBe _) fun name? => ?_
  cases name? with
  | none => exact .pure _
  | some name =>
    refine .bind (.accept _) fun _ => .ite ?typed (.bind (.accept _) fun _ => .ite ?const ?other)
    case typed =>
      exact .bind (alike_typeSpec name) fun _ => .silent (silent_declareNoted _)
    case const => exact .bind alike_literal fun _ => .silent (silent_declareNoted _)
    case other => exact .unexpected _

/-- A round of the loop over declarations. -/
def declarationRound (_ : Unit) : GrammarRule Unit := do
  let _ ← advance
  declaration

/-- A round of the loop over declarations consumes its comma. -/
theorem alike_declarationRound (a : Unit) :
    Alike 1 m (declarationRound a) (declarationRound a) :=
  .bind .advance fun _ => alike_declaration

/-- The loop over declarations comes to an end, because each round consumes a token. -/
theorem alike_declarations : Alike 0 m declarations declarations :=
  .bind alike_declaration fun _ => .whileSees (by decide) alike_declarationRound ()

/-! ## Expressions -/

section

variable {nested nested' : GrammarRule Operand}

/-- A round of the loop over indices. -/
def indexRound (nestedExpression : GrammarRule Operand) (indices : List Operand) :
    GrammarRule (List Operand) := do
  let _ ← advance
  return indices ++ [← nestedExpression]

/-- A round of the loop over indices consumes its comma. -/
theorem alike_indexRound (h : Alike 0 m nested nested') (indices : List Operand) :
    Alike 1 m (indexRound nested indices) (indexRound nested' indices) :=
  .bind .advance fun _ => .bind h fun _ => .pure _

/-- A designator comes to an end if nested expressions do. -/
theorem alike_designator (h : Alike 0 m nested nested') (name : Token Kind)
    (symbol? : Option (Symbol Kind Ty)) :
    Alike 0 m (designator nested name symbol?) (designator nested' name symbol?) :=
  .bind (.accept _) fun _ => .ite
    (.bind h fun first => .bind (.whileSees (by decide) (alike_indexRound h) [first]) fun _ =>
      .bind (.mustBe _) fun _ => .silent (reporting_indexed _ _ _).silent)
    (.silent (reporting_unindexed _ _).silent)

/-- A round of the loop over operators. -/
def operatorRound (operand : GrammarRule Operand) (left : Operand) : GrammarRule Operand := do
  let op ← advance
  combine op left (← operand)

/-- A round of a chain consumes its operator. -/
theorem alike_operatorRound (h : Alike 0 m nested nested') (left : Operand) :
    Alike 1 m (operatorRound nested left) (operatorRound nested' left) :=
  .bind .advance fun _ => .bind h fun _ => .silent (reporting_combine _ _ _).silent

/-- A chain comes to an end, as no operator is the end of the source. -/
theorem alike_chain (h : Alike 0 m nested nested') {operators : List Kind}
    (hend : Kind.endOfFile ∉ operators) (left : Operand) :
    Alike 0 m (chain operators nested left) (chain operators nested' left) :=
  have none_at_end : decide (TokenKind.endOfFile ∈ operators) = false := decide_eq_false hend
  .whileSees none_at_end (alike_operatorRound h) left

/-- A term comes to an end if factors do. -/
theorem alike_term (h : Alike 0 m nested nested') : Alike 0 m (term nested) (term nested') :=
  .bind h fun left => alike_chain h (by decide) left

/-- A signed term comes to an end if factors do. -/
theorem alike_signedTerm (h : Alike 0 m nested nested') :
    Alike 0 m (signedTerm nested) (signedTerm nested') :=
  .bind (.silent (.read _)) fun _ => .ite
    (.mono (.bind .advance fun _ => .bind (alike_term h) fun _ =>
      .bind (.silent (reporting_negation _ _).silent) fun _ => .pure _) (Nat.zero_le 1))
    (alike_term h)

/-- A simple expression comes to an end if factors do. -/
theorem alike_simpleExpression (h : Alike 0 m nested nested') :
    Alike 0 m (simpleExpression nested) (simpleExpression nested') :=
  .bind (alike_signedTerm h) fun left => alike_chain (alike_term h) (by decide) left

/-- An expression comes to an end if factors do. -/
theorem alike_expressionOf (h : Alike 0 m nested nested') :
    Alike 0 m (expressionOf nested) (expressionOf nested') :=
  .bind (alike_simpleExpression h) fun _ => .bind (.silent (.read _)) fun _ => .ite
    (.mono (.bind .advance fun _ => .bind (alike_simpleExpression h) fun _ =>
      .bind (.silent (reporting_relational _ _ _).silent) fun _ => .pure _) (Nat.zero_le 1))
    (.pure _)

end

/-- `Factor`, given the recognizers of the factors and expressions in it. -/
def factorOf (nestedFactor nestedExpression : GrammarRule Operand) : GrammarRule Operand := do
  let token ← lookahead
  match token.kind with
  | .ident =>
    let _ ← advance
    let symbol? ← resolve token
    return ⟨← designator nestedExpression token symbol?, token, none⟩
  | .intLiteral =>
    let _ ← advance
    return ⟨.integer, token, some (← intValue token)⟩
  | .realLiteral =>
    let _ ← advance
    return ⟨.real, token, none⟩
  | .kwTrue | .kwFalse =>
    let _ ← advance
    return ⟨.boolean, token, none⟩
  | .kwNot =>
    let _ ← advance
    return ⟨← complement (← nestedFactor), token, none⟩
  | .leftParen =>
    let _ ← advance
    let inner ← nestedExpression
    let _ ← mustBe .rightParen
    return inner
  | _ =>
    unexpected (.description "an expression")
    return ⟨.undefined, token, none⟩

/-- The factors and expressions in a factor stand behind a token. -/
theorem alike_factorOf {factor factor' expression expression' : GrammarRule Operand}
    (hf : Alike 0 m factor factor') (he : Alike 0 m expression expression') :
    Alike 0 (m + 1) (factorOf factor expression) (factorOf factor' expression') := by
  intro strategy s placed hm
  refine .read ?_
  have behind : ∀ {f f' : Token Kind → GrammarRule Operand},
      s.lookahead.kind ≠ TokenKind.endOfFile → (∀ a, Alike 0 m (f a) (f' a)) →
      Ends 0 strategy s (advance >>= f) (advance >>= f') := fun hk h =>
    (Ends.behind placed hm hk h).mono (Nat.zero_le 1)
  generalize s.lookahead.kind = kind at behind ⊢
  split
  · exact behind (by decide) fun _ => .bind (.silent (Reporting.resolve _).silent) fun _ =>
      .bind (alike_designator he _ _) fun _ => .pure _
  · exact behind (by decide) fun _ => .bind (.silent (reporting_intValue _).silent) fun _ => .pure _
  · exact behind (by decide) fun _ => .pure _
  · exact behind (by decide) fun _ => .pure _
  · exact behind (by decide) fun _ => .pure _
  · exact behind (by decide) fun _ => .bind hf fun _ =>
      .bind (.silent (reporting_complement _).silent) fun _ => .pure _
  · exact behind (by decide) fun _ => .bind he fun _ => .bind (.mustBe _) fun _ => .pure _
  · exact (Ends.unexpected _ placed).bind_add fun _ _ ht _ => .silent (.pure _) ht

/-- A factor is one round of the recursion over nested factors. -/
theorem factor_recurs : Recurs 0 factor fun nested => factorOf nested (expressionOf nested) :=
  ⟨fun _ => rfl, fun _ _ _ h => alike_factorOf h (alike_expressionOf h)⟩

/-- Factors come to an end with as much fuel as there are tokens. -/
theorem alike_factor (n : Nat) : Alike 0 n (factor n) (factor n) :=
  factor_recurs.alike (Nat.le_refl n) (Nat.le_refl n)

/-- Expressions come to an end. -/
theorem alike_expression : Alike 0 m expression expression :=
  .withFuel fun n => alike_expressionOf (alike_factor n)

/-! ## Statements -/

/-- An assignment consumes its name at least. -/
theorem alike_assignment : Alike 1 m assignment assignment :=
  .bind .advance fun _ => .bind (.silent (Reporting.resolve _).silent) fun _ =>
    .bind (.silent (reporting_reportFaultIf _ _ _).silent) fun _ =>
    .bind (alike_designator alike_expression _ _) fun _ => .bind (.mustBe _) fun _ =>
      .bind alike_expression fun _ => .silent (reporting_assignable _ _).silent

/-- What reads consumes its keyword at least. -/
theorem alike_readStatement : Alike 1 m readStatement readStatement := by
  refine .bind .advance fun _ => .bind (.mustBe _) fun name? => ?_
  cases name? with
  | none => exact .pure _
  | some name =>
    exact .bind (.silent (Reporting.resolve _).silent) fun _ =>
      .bind (.silent (reporting_reportFaultIf _ _ _).silent) fun _ =>
      .bind (.silent (reporting_unindexed _ _).silent) fun _ => .pure _

/-- What writes consumes its keyword at least. -/
theorem alike_writeStatement : Alike 1 m writeStatement writeStatement :=
  .bind .advance fun _ => .bind alike_expression fun _ => .pure _

section

variable {nested nested' : GrammarRule Unit} {strategy : Strategy}
  {s : State Kind Ty (Symbol Kind Ty)}

/-- Statements in a row come to an end, because each consumes a token. -/
theorem alike_statementsOf (h : Alike 1 m nested nested') :
    Alike 0 m (statementsOf nested) (statementsOf nested') :=
  .whileSees (by decide) (fun _ => h) ()

/-- What stands behind `ELSE` comes to an end if statements do. -/
theorem alike_elsePart (h : Alike 1 m nested nested') :
    Alike 0 m (elsePart nested) (elsePart nested') :=
  .bind (.accept _) fun _ => .ite (alike_statementsOf h) (.pure _)

/-- A choice comes to an end if its branches do, and consumes its keyword at least. -/
theorem ends_ifStatement (h : Alike 1 m nested nested') (placed : s.Placed)
    (hm : s.ahead.count < m + 1) (hk : s.lookahead.kind ≠ TokenKind.endOfFile) :
    Ends 1 strategy s (ifStatement nested) (ifStatement nested') :=
  .behind placed hm hk fun _ => .bind alike_expression fun _ =>
    .bind (.silent (reporting_condition _).silent) fun _ => .bind (.mustBe _) fun _ =>
      .bind (alike_statementsOf h) fun _ => .bind (alike_elsePart h) fun _ =>
        .bind (.mustBe _) fun _ => .pure _

/-- A loop comes to an end if its body does, and consumes its keyword at least. -/
theorem ends_whileStatement (h : Alike 1 m nested nested') (placed : s.Placed)
    (hm : s.ahead.count < m + 1) (hk : s.lookahead.kind ≠ TokenKind.endOfFile) :
    Ends 1 strategy s (whileStatement nested) (whileStatement nested') :=
  .behind placed hm hk fun _ => .bind alike_expression fun _ =>
    .bind (.silent (reporting_condition _).silent) fun _ => .bind (.mustBe _) fun _ =>
      .bind (alike_statementsOf h) fun _ => .bind (.mustBe _) fun _ => .pure _

/-- A block consumes its keyword at least. -/
theorem alike_block (h : Alike 1 m nested nested') : Alike 1 m (block nested) (block nested') :=
  .bind .advance fun _ => .bind (.silent .openScope) fun _ => .bind alike_declarations fun _ =>
    .bind (.mustBe _) fun _ => .bind (alike_statementsOf h) fun _ => .bind (.mustBe _) fun _ =>
      .bind (.silent .closeScope) fun _ => .pure _

/-- The statements in a block stand behind a token. -/
theorem ends_block (h : Alike 1 m nested nested') (placed : s.Placed)
    (hm : s.ahead.count < m + 1) (hk : s.lookahead.kind ≠ TokenKind.endOfFile) :
    Ends 1 strategy s (block nested) (block nested') :=
  .behind placed hm hk fun _ => .bind (.silent .openScope) fun _ =>
    .bind alike_declarations fun _ => .bind (.mustBe _) fun _ =>
      .bind (alike_statementsOf h) fun _ => .bind (.mustBe _) fun _ =>
        .bind (.silent .closeScope) fun _ => .pure _

end

/-- `Statement`, given the recognizer of the statements in it. -/
def statementOf (nestedStatement : GrammarRule Unit) : GrammarRule Unit := do
  match (← lookahead).kind with
  | .ident => assignment
  | .kwIf => ifStatement nestedStatement
  | .kwWhile => whileStatement nestedStatement
  | .kwRead => readStatement
  | .kwWrite => writeStatement
  | .kwWith => block nestedStatement
  | _ =>
    unexpected (.description "a statement")
    let _ ← advance

/-- The statements in a statement stand behind a token, and a statement consumes one. -/
theorem alike_statementOf {nested nested' : GrammarRule Unit} (h : Alike 1 m nested nested') :
    Alike 1 (m + 1) (statementOf nested) (statementOf nested') := by
  intro strategy s placed hm
  refine .read ?_
  split
  · exact alike_assignment strategy s placed hm
  · next hk => exact ends_ifStatement h placed hm (by rw [hk]; decide)
  · next hk => exact ends_whileStatement h placed hm (by rw [hk]; decide)
  · exact alike_readStatement strategy s placed hm
  · exact alike_writeStatement strategy s placed hm
  · next hk => exact ends_block h placed hm (by rw [hk]; decide)
  · exact (Ends.unexpected _ placed).bind_add fun _ _ ht _ => (Ends.advance ht).bind_add
      fun _ _ hu _ => .silent (.pure _) hu

/-- A statement is one round of the recursion over nested statements. -/
theorem statement_recurs : Recurs 1 statement statementOf :=
  ⟨fun _ => rfl, fun _ _ _ h => alike_statementOf h⟩

/-- Statements come to an end with as much fuel as there are tokens, and each consumes one. -/
theorem alike_statement (n : Nat) : Alike 1 n (statement n) (statement n) :=
  statement_recurs.alike (Nat.le_refl n) (Nat.le_refl n)

/-- Statements in a row come to an end. -/
theorem alike_statements : Alike 0 m statements statements :=
  .withFuel fun n => alike_statementsOf (alike_statement n)

/-! ## Programs -/

/-- Declarations in front of a program come to an end. -/
theorem alike_optionalDeclarations : Alike 0 m optionalDeclarations optionalDeclarations :=
  .bind (.accept _) fun _ => .ite alike_declarations (.pure _)

/-- Programs come to an end. -/
theorem alike_program : Alike 0 m program program :=
  .bind (.mustBe _) fun _ => .bind (.mustBe _) fun _ => .bind (.silent .openScope) fun _ =>
    .bind alike_optionalDeclarations fun _ => .bind (.mustBe _) fun _ =>
      .bind alike_statements fun _ => .bind (.mustBe _) fun _ =>
        .bind (.silent .closeScope) fun _ => .pure _

/-! ## What holds of Simple -/

/-- Simple makes progress in all that it repeats and in all that it nests. -/
structure Progress : Prop where
  /-- Runs come to an end. -/
  run_ends : ∀ strategy source, (run classifier program strategy source).1 ≠ .outOfFuel
  /-- Runs begin with a whole source before them. -/
  run_placed : ∀ source, (State.initial classifier source : State Kind Ty (Symbol Kind Ty)).Placed
  /-- Skipping to a token comes to an end. -/
  skips : ∀ kind (s : State Kind Ty (Symbol Kind Ty)), s.Placed → Skips kind s
  /-- Factors are entered again only behind a token. -/
  factor_recurs : Recurs 0 factor fun nested => factorOf nested (expressionOf nested)
  /-- So are expressions. -/
  expression_nests : ∀ m factor factor' expression expression', Alike 0 m factor factor' →
    Alike 0 m expression expression' →
      Alike 0 (m + 1) (factorOf factor expression) (factorOf factor' expression')
  /-- Statements are entered again only behind a token, and consume one. -/
  statement_recurs : Recurs 1 statement statementOf
  /-- So are the statements in a block. -/
  block_nests : ∀ m nested nested', Alike 1 m nested nested' →
    ∀ strategy (s : State Kind Ty (Symbol Kind Ty)), s.Placed → s.ahead.count < m + 1 →
      s.lookahead.kind = .kwWith → Ends 1 strategy s (block nested) (block nested')
  /-- The tokens left are fuel enough for factors, and more makes no difference. -/
  factor_fuel : ∀ m n n', m ≤ n → m ≤ n' → Alike 0 m (factor n) (factor n')
  /-- The tokens left are fuel enough for statements, and more makes no difference. -/
  statement_fuel : ∀ m n n', m ≤ n → m ≤ n' → Alike 1 m (statement n) (statement n')
  /-- The loop over statements. -/
  statements_loop : ∀ n, statementsOf (statement n) =
      whileSees (fun kind => kind ∉ [Kind.kwEnd, .kwElse, .endOfFile]) (fun _ => statement n) () ∧
    Rounds n (fun kind => kind ∉ [Kind.kwEnd, .kwElse, .endOfFile]) fun _ : Unit => statement n
  /-- The loop over declarations. -/
  declarations_loop : declarations =
      (declaration >>= fun _ => whileSees (· = .comma) declarationRound ()) ∧
    ∀ m, Rounds m (· = .comma) declarationRound
  /-- The loop over dimensions. -/
  dimensions_loop : moreDimensions = whileSees (· = .comma) dimensionRound ∧
    ∀ m, Rounds m (· = .comma) dimensionRound
  /-- The loop over indices, of the target of an assignment and in a factor. -/
  indices_loop : (∀ nested name symbol?, designator nested name symbol? = do
      if ← accept .leftBracket then
        let first ← nested
        let indices ← whileSees (· = .comma) (indexRound nested) [first]
        let _ ← mustBe .rightBracket
        indexed name symbol? indices
      else
        unindexed name symbol?) ∧
    (∀ m, Rounds m (· = .comma) (indexRound expression)) ∧
    ∀ n, Rounds n (· = .comma) (indexRound (expressionOf (factor n)))
  /-- The loop over the operators of a term. -/
  term_loop : ∀ n, term (factor n) = (factor n >>=
      whileSees (· ∈ [Kind.star, .slash, .kwAnd]) (operatorRound (factor n))) ∧
    Rounds n (· ∈ [Kind.star, .slash, .kwAnd]) (operatorRound (factor n))
  /-- The loop over the operators of a simple expression. -/
  simpleExpression_loop : ∀ n, simpleExpression (factor n) = (signedTerm (factor n) >>=
      whileSees (· ∈ [Kind.plus, .minus, .kwOr]) (operatorRound (term (factor n)))) ∧
    Rounds n (· ∈ [Kind.plus, .minus, .kwOr]) (operatorRound (term (factor n)))

/-- All that there is to say of the loops and recursions of Simple holds. -/
theorem progress : Progress where
  run_ends := run_ne_outOfFuel (fun _ => alike_program) classifier
  run_placed := State.placed_initial classifier
  skips kind _ h := h.skips kind
  factor_recurs := factor_recurs
  expression_nests _ _ _ _ _ := alike_factorOf
  statement_recurs := statement_recurs
  block_nests _ _ _ h _ _ placed hm hk := ends_block h placed hm (by rw [hk]; decide)
  factor_fuel _ _ _ := factor_recurs.alike
  statement_fuel _ _ _ := statement_recurs.alike
  statements_loop n := ⟨rfl, .of_alike (by decide) fun _ => alike_statement n⟩
  declarations_loop := ⟨rfl, fun _ => .of_alike (by decide) alike_declarationRound⟩
  dimensions_loop := ⟨rfl, fun _ => .of_alike (by decide) alike_dimensionRound⟩
  indices_loop :=
    ⟨fun _ _ _ => rfl, fun _ => .of_alike (by decide) (alike_indexRound alike_expression),
      fun n => .of_alike (by decide) (alike_indexRound (alike_expressionOf (alike_factor n)))⟩
  term_loop n := ⟨rfl, .of_alike (by decide) (alike_operatorRound (alike_factor n))⟩
  simpleExpression_loop n :=
    ⟨rfl, .of_alike (by decide) (alike_operatorRound (alike_term (alike_factor n)))⟩

end Simple

/-! ## Word lists -/

namespace WordList

open Recognizer

variable {m : Nat}

/-- `item`, given the recognizer of the list in it. -/
def itemOf (nestedList : Rule Unit) : Rule Unit := do
  if ← sees .word then
    let word ← advance
    note word.text
    let _ ← declare (.var word .int)
  else if ← accept .leftParen then
    openScope
    nestedList
    let _ ← mustBe .rightParen
    let _ ← closeScope
  else
    unexpected (.description "a word or '('")

section

variable {list list' : Rule Unit} {s : State Kind Ty String}

/-- An item consumes a token, or none is as it should be and nothing is consumed.  The list in it
stands behind a token. -/
theorem itemOf_cases (strategy : Strategy) (h : Alike 0 m list list') (placed : s.Placed)
    (hm : s.ahead.count < m + 1) :
    Ends 1 strategy s (itemOf list) (itemOf list') ∨
      ∀ list, itemOf list strategy s =
        unexpected (.description "a word or '('") strategy s := by
  by_cases hword : s.lookahead.kind = .word
  · left
    refine .read (.ite (fun _ => ?_) fun hsees => absurd (decide_eq_true hword) hsees)
    exact .behind placed hm (by rw [hword]; decide) fun _ => .bind (.silent (.note _)) fun _ =>
      .bind (.silent (.declare _)) fun _ => .pure _
  · by_cases hparen : s.lookahead.kind = .leftParen
    · left
      refine .read (.ite (fun hsees => absurd (of_decide_eq_true hsees) hword) fun _ => ?_)
      refine .accept_bind (fun _ => ?_) fun hother => absurd hparen hother
      exact .behind placed hm (by rw [hparen]; decide) fun _ =>
        .ite (.bind (.silent .openScope) fun _ => .bind h fun _ => .bind (.mustBe _) fun _ =>
          .bind (.silent .closeScope) fun _ => .pure _) (.unexpected _)
    · right
      intro list
      have hsees : (sees .word : Rule Bool) strategy s = (.value false, s) := by
        simp [sees, Recognizer.read, hword]
      rw [itemOf, bind_of_value hsees, if_neg (by simp),
        bind_of_value (accept_of_kind_ne strategy hparen), if_neg (by simp)]

/-- An item comes to an end if the list in it does, with a token less. -/
theorem alike_itemOf (h : Alike 0 m list list') : Alike 0 (m + 1) (itemOf list) (itemOf list') := by
  intro strategy s placed hm
  obtain hends | hrun := itemOf_cases strategy h placed hm
  · exact hends.mono (Nat.zero_le 1)
  · exact (Ends.unexpected _ placed).of_eq (hrun list) (hrun list') (Nat.le_refl _)

/-- The semicolon behind an item is what makes sure that something is consumed: an item that is not
as it should be sets the run to recovering. -/
theorem alike_terminatedItem (h : Alike 0 m list list') :
    Alike 1 (m + 1) (terminatedItem (itemOf list)) (terminatedItem (itemOf list')) := by
  intro strategy s placed hm
  obtain hends | hrun := itemOf_cases strategy h placed hm
  · exact hends.bind_add fun _ _ ht _ => (Ends.mustBe _ ht).bind_add fun _ _ hu _ =>
      .silent (.pure _) hu
  · refine (alike_itemOf h strategy s placed hm).bind_of fun a t hvalue ht hcount => ?_
    have hrecovering : t.recovering = true := by
      rw [hrun] at hvalue
      cases strategy with
      | failFast => nomatch hvalue
      | recovering =>
        rw [← (Prod.mk.inj hvalue).2]
    have hrequired : Ends 1 strategy t (mustBe Kind.semicolon) (mustBe Kind.semicolon) :=
      .mustBe_of_recovering Kind.semicolon ht hrecovering
    have hrest := hrequired.bind_add fun _ _ hu _ => Ends.silent (.pure ()) hu
    exact ⟨hrest.mono (Nat.zero_le _), fun b hb => Nat.le_trans (hrest.count_le b hb) (by omega)⟩

/-- A list comes to an end if the lists in it do. -/
theorem alike_listOf (h : Alike 0 m list list') :
    Alike 0 (m + 1) (listOf (itemOf list)) (listOf (itemOf list')) :=
  .mono (.bind (alike_terminatedItem h) fun _ =>
    .whileSees (by decide) (fun _ => alike_terminatedItem h) ()) (Nat.zero_le 1)

end

/-- A list of items is one round of the recursion over nested lists. -/
theorem list_recurs : Recurs 0 (fun n => listOf (item n)) fun list => listOf (itemOf list) :=
  ⟨fun _ => rfl, fun _ _ _ => alike_listOf⟩

/-- An item with its end mark consumes a token at least. -/
theorem alike_terminatedItem_item (n : Nat) :
    Alike 1 n (terminatedItem (item n)) (terminatedItem (item n)) := by
  cases n with
  | zero => exact .zero
  | succ n => exact alike_terminatedItem (list_recurs.alike (Nat.le_refl n) (Nat.le_refl n))

/-- Word lists come to an end. -/
theorem alike_wordList : Alike 0 m wordList wordList :=
  .bind (.silent .openScope) fun _ =>
    .bind (.withFuel fun n => list_recurs.alike (Nat.le_refl n) (Nat.le_refl n)) fun _ =>
      .bind (.silent .closeScope) fun _ => .pure _

/-- Word lists make progress in all that they repeat and in all that they nest. -/
structure Progress : Prop where
  /-- Runs come to an end. -/
  run_ends : ∀ strategy source, (run classifier wordList strategy source).1 ≠ .outOfFuel
  /-- Runs begin with a whole source before them. -/
  run_placed : ∀ source, (State.initial classifier source : State Kind Ty String).Placed
  /-- Skipping to a token comes to an end. -/
  skips : ∀ kind (s : State Kind Ty String), s.Placed → Skips kind s
  /-- Lists are entered again only behind a token. -/
  list_recurs : Recurs 0 (fun n => listOf (item n)) fun list => listOf (itemOf list)
  /-- The tokens left are fuel enough for lists, and more makes no difference. -/
  list_fuel : ∀ m n n', m ≤ n → m ≤ n' → Alike 0 m (listOf (item n)) (listOf (item n'))
  /-- The loop over items. -/
  items_loop : ∀ n, listOf (item n) = (terminatedItem (item n) >>= fun _ =>
      whileSees (fun kind => kind ≠ .rightParen && kind ≠ .endOfFile)
        (fun _ => terminatedItem (item n)) ()) ∧
    Rounds n (fun kind => kind ≠ .rightParen && kind ≠ .endOfFile)
      fun _ : Unit => terminatedItem (item n)

/-- All that there is to say of the loops and recursions of word lists holds. -/
theorem progress : Progress where
  run_ends := run_ne_outOfFuel (fun _ => alike_wordList) classifier
  run_placed := State.placed_initial classifier
  skips kind _ h := h.skips kind
  list_recurs := list_recurs
  list_fuel _ _ _ := list_recurs.alike
  items_loop n := ⟨rfl, .of_alike (by decide) fun _ => alike_terminatedItem_item n⟩

end WordList

/-- The runs of Simple and of word lists come to an end on every source, since every loop and every
recursion of the two grammars consumes tokens, and so does skipping to a token. -/
theorem grammars_progress : Simple.Progress ∧ WordList.Progress :=
  ⟨Simple.progress, WordList.progress⟩

end SinglePass
