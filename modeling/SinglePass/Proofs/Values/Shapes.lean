import SinglePass.Proofs.Dispatch
import SinglePass.Proofs.Values.Confines
import SinglePass.Proofs.Values.Integers

/-!
# The values of the rules of Simple

Whatever a run meets, its constants are those of literals with and without a sign
(`confines_intConstant`, `confines_factor`), the dimensions that it reads are ranges between such
constants and not empty (`confines_dimension`), and an array that it declares has at least one
dimension (`confines_typeSpec`).  None of this needs a source without faults: where a literal is
missing, a recovering run goes on with 0.

One lemma for each rule; `confines_program` is the last one.
-/

namespace SinglePass.Simple

open Recognizer

/-- A constant of an operand is the value of a literal, with a sign or without. -/
def Operand.HasSmall (a : Operand) : Prop := ∀ v ∈ a.constant, Small v

/-- An array has dimensions, and none of them is empty or has an end that no literal has. -/
def Shaped (symbol : Symbol Kind Ty) : Prop :=
  ∀ shape ∈ symbol.shape?, shape.dims ≠ [] ∧ ∀ b ∈ shape.dims, SmallRange b

/-- An operand without a constant has no constant that could be too large. -/
theorem Operand.hasSmall_of_none {a : Operand} (h : a.constant = none) : a.HasSmall := by
  intro v hv
  rw [h] at hv
  nomatch hv

/-- A symbol that is no array has no dimensions to be confined. -/
theorem shaped_of_none {symbol : Symbol Kind Ty} (h : symbol.shape? = none) : Shaped symbol := by
  intro shape hshape
  rw [h] at hshape
  nomatch hshape

/-- An array has the shape that its dimensions give it. -/
theorem shaped_array (name : Token Kind) (element : Ty) {dims : List Bounds} (hne : dims ≠ [])
    (hdims : ∀ b ∈ dims, SmallRange b) : Shaped (.array name element dims) := by
  intro shape hshape
  obtain rfl := Option.some.inj hshape
  exact ⟨hne, hdims⟩

variable {q : Symbol Kind Ty → Prop}

/-! ## Literals and dimensions -/

/-- The value of a literal is that of its digits, or 0 if these do not fit. -/
theorem confines_intValue (token : Token Kind) : Confines q Small (intValue token) := by
  have hvalue := small_literalValue token
  unfold Expr.literalValue at hvalue
  unfold intValue
  split
  · next value heq =>
    rw [heq] at hvalue
    exact .pure hvalue
  · exact .bind (.report rfl) fun _ _ => .pure small_zero

/-- A constant is a literal, possibly negated, or 0 if there is none. -/
theorem confines_intConstant : Confines q Small intConstant := by
  refine .bind (.accept _) fun negative _ => .bind (.mustBe _) fun token? _ => ?_
  cases token? with
  | none => exact .pure small_zero
  | some token =>
    refine .bind (confines_intValue token) fun value hvalue => .pure ?_
    cases negative
    · exact hvalue
    · exact hvalue.neg

/-- A dimension that is no range is one index wide. -/
theorem confines_dimension : Confines q SmallRange dimension :=
  .bind .lookahead fun _ _ => .bind confines_intConstant fun _ hlower =>
    .bind (.accept _) fun _ _ => .ite
      (.bind confines_intConstant fun _ hupper => .bind (.reporting (reporting_reportFaultIf _ _ _))
        fun _ _ => .pure (smallRange_ofEnds hlower hupper))
      (.bind (.reporting (reporting_reportFaultIf _ _ _))
        fun _ _ => .pure (smallRange_ofSize hlower))

/-- Each further dimension is a range between constants. -/
theorem confines_moreDimensions {dims : List Bounds} (hne : dims ≠ [])
    (hdims : ∀ b ∈ dims, SmallRange b) :
    Confines q (fun dims => dims ≠ [] ∧ ∀ b ∈ dims, SmallRange b) (moreDimensions dims) := by
  refine .whileSees (fun dims hdims => .bind .advance fun _ _ => .bind confines_dimension
    fun dim hdim => .pure ?_) ⟨hne, hdims⟩
  exact ⟨List.append_ne_nil_of_right_ne_nil _ (List.cons_ne_nil _ _),
    List.forall_mem_append.mpr ⟨hdims.2, List.forall_mem_singleton.mpr hdim⟩⟩

/-- A base type is none of the values that are confined. -/
theorem confines_baseType : Confines q anything baseType := by
  refine .bind .lookahead fun token _ => ?_
  split
  · exact .bind .advance fun _ _ => .plain _
  · exact .bind (.unexpected _) fun _ _ => .plain _

/-- An array type has at least one dimension, and all of them are ranges. -/
theorem confines_typeSpec (name : Token Kind) : Confines q Shaped (typeSpec name) := by
  refine .bind (.accept _) fun _ _ => .ite ?array ?base
  case array =>
    refine .bind (.mustBe _) fun _ _ => .bind confines_dimension fun first hfirst =>
      .bind (confines_moreDimensions (List.cons_ne_nil _ _) (List.forall_mem_singleton.mpr hfirst))
        fun dims hdims => .bind (.mustBe _) fun _ _ => .bind (.mustBe _) fun _ _ =>
          .bind confines_baseType fun element _ => .pure ?_
    exact shaped_array name element hdims.1 hdims.2
  case base => exact .bind confines_baseType fun _ _ => .pure (shaped_of_none rfl)

/-! ## Declarations -/

/-- The type of a literal is none of the values that are confined. -/
theorem confines_literal : Confines q anything literal := by
  refine .bind (.accept _) fun negative _ => .bind .lookahead fun token _ => ?_
  split
  · exact .bind (.unexpected _) fun _ _ => .plain _
  · exact .bind .advance fun _ _ => .bind (.reporting (reporting_checkLiteral _ _))
      fun _ _ => .plain _

/-- A symbol is noted and bound as it was made. -/
theorem confines_declareNoted {symbol : Symbol Kind Ty} (h : q symbol) :
    Confines q anything (declareNoted symbol) :=
  .bind (.declare h) fun _ _ => .ite (.note h) (.plain _)

/-- A declaration binds symbols with a shape only. -/
theorem confines_declaration : Confines Shaped anything declaration := by
  refine .bind (.mustBe _) fun name? _ => ?_
  cases name? with
  | none => exact .plain _
  | some name =>
    refine .bind (.accept _) fun _ _ => .ite ?typed
      (.bind (.accept _) fun _ _ => .ite ?const ?other)
    case typed =>
      exact .bind (confines_typeSpec name) fun _ hshaped => confines_declareNoted hshaped
    case const =>
      exact .bind confines_literal fun _ _ => confines_declareNoted (shaped_of_none rfl)
    case other => exact .unexpected _

/-- Declarations bind symbols with a shape only. -/
theorem confines_declarations : Confines Shaped anything declarations :=
  .bind confines_declaration fun _ _ =>
    .whileSees (fun _ _ => .bind .advance fun _ _ => confines_declaration) trivial

/-! ## Expressions -/

section

variable {nested : GrammarRule Operand}

/-- A designator binds nothing, and answers a type. -/
theorem confines_designator (h : Confines q Operand.HasSmall nested) (name : Token Kind)
    (symbol? : Option (Symbol Kind Ty)) :
    Confines q anything (designator nested name symbol?) := by
  refine .bind (.accept _) fun _ _ => .ite ?element (.reporting (reporting_unindexed _ _))
  have hmore : ∀ indices, Confines q anything (whileSees (· = Kind.comma) (fun indices => do
      let _ ← advance
      return indices ++ [← nested]) indices) := fun indices =>
    .whileSees (fun _ _ => .bind .advance fun _ _ => .bind h fun _ _ => .plain _) trivial
  exact .bind h fun _ _ => .bind (hmore _) fun _ _ => .bind (.mustBe _) fun _ _ =>
    .reporting (reporting_indexed _ _ _)

/-- What combines two operands has no constant. -/
theorem confines_combine (op : Token Kind) (left right : Operand) :
    Confines q Operand.HasSmall (combine op left right) :=
  .ite (.bind (.reporting (reporting_logical _ _)) fun _ _ => .pure (Operand.hasSmall_of_none rfl))
    (.bind (.reporting (reporting_arithmetic _ _ _)) fun _ _ =>
      .pure (Operand.hasSmall_of_none rfl))

/-- A chain has a constant only if it is a single operand. -/
theorem confines_chain (h : Confines q Operand.HasSmall nested) (operators : List Kind)
    {left : Operand} (hleft : left.HasSmall) :
    Confines q Operand.HasSmall (chain operators nested left) :=
  .whileSees (fun _ _ => .bind .advance fun _ _ => .bind h fun _ _ => confines_combine _ _ _) hleft

/-- A term has a constant only if it is a single factor. -/
theorem confines_term (h : Confines q Operand.HasSmall nested) :
    Confines q Operand.HasSmall (term nested) :=
  .bind h fun _ hleft => confines_chain h _ hleft

/-- A sign negates the constant behind it, which stays within its bounds. -/
theorem confines_signedTerm (h : Confines q Operand.HasSmall nested) :
    Confines q Operand.HasSmall (signedTerm nested) := by
  refine .bind (.sees _) fun _ _ => .ite ?_ (confines_term h)
  refine .bind .advance fun op _ => .bind (confines_term h) fun operand hoperand =>
    .bind (.reporting (reporting_negation _ _)) fun type _ => .pure fun v hv => ?_
  obtain ⟨value, hvalue, rfl⟩ := Option.mem_map.mp hv
  exact (hoperand value hvalue).neg

/-- A simple expression has a constant only if it is a single term. -/
theorem confines_simpleExpression (h : Confines q Operand.HasSmall nested) :
    Confines q Operand.HasSmall (simpleExpression nested) :=
  .bind (confines_signedTerm h) fun _ hleft => confines_chain (confines_term h) _ hleft

/-- An expression has a constant only if it compares nothing. -/
theorem confines_expressionOf (h : Confines q Operand.HasSmall nested) :
    Confines q Operand.HasSmall (expressionOf nested) :=
  .bind (confines_simpleExpression h) fun _ hleft => .bind .lookahead fun _ _ => .ite
    (.bind .advance fun _ _ => .bind (confines_simpleExpression h) fun _ _ =>
      .bind (.reporting (reporting_relational _ _ _)) fun _ _ =>
        .pure (Operand.hasSmall_of_none rfl))
    (.pure hleft)

end

/-- The constant of a factor is that of a literal, by induction on how deep it nests. -/
theorem confines_factor (n : Nat) : Confines q Operand.HasSmall (factor n) := by
  induction n with
  | zero => exact .outOfFuel
  | succ n ih =>
    refine .bind .lookahead fun token _ => ?_
    split
    · exact .bind .advance fun _ _ => .bind (.reporting (.resolve token)) fun _ _ =>
        .bind (confines_designator (confines_expressionOf ih) _ _) fun _ _ =>
          .pure (Operand.hasSmall_of_none rfl)
    · refine .bind .advance fun _ _ => .bind (confines_intValue token) fun value hvalue =>
        .pure fun v hv => ?_
      obtain rfl := Option.some.inj hv
      exact hvalue
    · exact .bind .advance fun _ _ => .pure (Operand.hasSmall_of_none rfl)
    · exact .bind .advance fun _ _ => .pure (Operand.hasSmall_of_none rfl)
    · exact .bind .advance fun _ _ => .pure (Operand.hasSmall_of_none rfl)
    · exact .bind .advance fun _ _ => .bind ih fun _ _ =>
        .bind (.reporting (reporting_complement _)) fun _ _ => .pure (Operand.hasSmall_of_none rfl)
    · exact .bind .advance fun _ _ => .bind (confines_expressionOf ih) fun _ hinner =>
        .bind (.mustBe _) fun _ _ => .pure hinner
    · exact .bind (.unexpected _) fun _ _ => .pure (Operand.hasSmall_of_none rfl)

/-- The constant of an expression is that of a literal, with a sign or without. -/
theorem confines_expression : Confines q Operand.HasSmall expression :=
  .withFuel fun n => confines_expressionOf (confines_factor n)

/-! ## Statements and programs -/

/-- An assignment binds nothing. -/
theorem confines_assignment : Confines q anything assignment :=
  .bind .advance fun _ _ => .bind (.reporting (.resolve _)) fun _ _ =>
    .bind (.reporting (reporting_reportFaultIf _ _ _)) fun _ _ =>
      .bind (confines_designator confines_expression _ _) fun _ _ => .bind (.mustBe _) fun _ _ =>
        .bind confines_expression fun _ _ => .reporting (reporting_assignable _ _)

/-- What reads binds nothing. -/
theorem confines_readStatement : Confines q anything readStatement := by
  refine .bind .advance fun _ _ => .bind (.mustBe _) fun name? _ => ?_
  cases name? with
  | none => exact .plain _
  | some name =>
    exact .bind (.reporting (.resolve _)) fun _ _ =>
      .bind (.reporting (reporting_reportFaultIf _ _ _)) fun _ _ =>
        .bind (.reporting (reporting_unindexed _ _)) fun _ _ => .plain _

/-- What writes binds nothing. -/
theorem confines_writeStatement : Confines q anything writeStatement :=
  .bind .advance fun _ _ => .bind confines_expression fun _ _ => .plain _

section

variable {nested : GrammarRule Unit}

/-- Statements in a row bind what each of them binds. -/
theorem confines_statementsOf (h : Confines q anything nested) :
    Confines q anything (statementsOf nested) := .whileSees (fun _ _ => h) trivial

/-- What stands behind `ELSE` binds what statements bind. -/
theorem confines_elsePart (h : Confines q anything nested) :
    Confines q anything (elsePart nested) :=
  .bind (.accept _) fun _ _ => .ite (confines_statementsOf h) (.plain _)

/-- A choice binds what its branches bind. -/
theorem confines_ifStatement (h : Confines q anything nested) :
    Confines q anything (ifStatement nested) :=
  .bind .advance fun _ _ => .bind confines_expression fun _ _ =>
    .bind (.reporting (reporting_condition _)) fun _ _ => .bind (.mustBe _) fun _ _ =>
      .bind (confines_statementsOf h) fun _ _ => .bind (confines_elsePart h) fun _ _ =>
        .bind (.mustBe _) fun _ _ => .plain _

/-- A loop binds what its body binds. -/
theorem confines_whileStatement (h : Confines q anything nested) :
    Confines q anything (whileStatement nested) :=
  .bind .advance fun _ _ => .bind confines_expression fun _ _ =>
    .bind (.reporting (reporting_condition _)) fun _ _ => .bind (.mustBe _) fun _ _ =>
      .bind (confines_statementsOf h) fun _ _ => .bind (.mustBe _) fun _ _ => .plain _

/-- A block binds symbols with a shape only. -/
theorem confines_block (h : Confines Shaped anything nested) :
    Confines Shaped anything (block nested) :=
  .bind .advance fun _ _ => .bind .openScope fun _ _ => .bind confines_declarations fun _ _ =>
    .bind (.mustBe _) fun _ _ => .bind (confines_statementsOf h) fun _ _ =>
      .bind (.mustBe _) fun _ _ => .bind .closeScope fun _ _ => .plain _

end

/-- Statements bind symbols with a shape only, by induction on how deep they nest. -/
theorem confines_statement (n : Nat) : Confines Shaped anything (statement n) := by
  induction n with
  | zero => exact .outOfFuel
  | succ n ih =>
    refine .bind .lookahead fun token _ => ?_
    split
    · exact confines_assignment
    · exact confines_ifStatement ih
    · exact confines_whileStatement ih
    · exact confines_readStatement
    · exact confines_writeStatement
    · exact confines_block ih
    · exact .bind (.unexpected _) fun _ _ => .bind .advance fun _ _ => .plain _

/-- Statements in a row bind symbols with a shape only, however deep they nest. -/
theorem confines_statements : Confines Shaped anything statements :=
  .withFuel fun n => confines_statementsOf (confines_statement n)

/-- **A program binds and notes symbols with a shape only**, whatever it meets. -/
theorem confines_program : Confines Shaped anything program :=
  .bind (.mustBe _) fun _ _ => .bind (.mustBe _) fun _ _ => .bind .openScope fun _ _ =>
    .bind (.bind (.accept _) fun _ _ => .ite confines_declarations (.plain _)) fun _ _ =>
      .bind (.mustBe _) fun _ _ => .bind confines_statements fun _ _ =>
        .bind (.mustBe _) fun _ _ => .bind .closeScope fun _ _ => .plain _

end SinglePass.Simple
