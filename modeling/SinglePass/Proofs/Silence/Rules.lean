import SinglePass.Proofs.Silence.Warrants
import SinglePass.Proofs.Discipline

/-!
# Silence in Simple

Each rule of Simple hands out operands and types that are known, as long as nothing has gone wrong:
one lemma a rule, with what the rule is given on the left and what it answers on the right.  Where
a rule answers `undefined`, it has reported a fault, or it was given an operand, a symbol or a type
that was not known.
-/

namespace SinglePass.Simple

open Recognizer Warrants

variable {given : Prop}

/-- The type of the operand is known. -/
def Operand.Known (operand : Operand) : Prop := operand.type ≠ .undefined

/-- The type of the symbol is known. -/
def KnownSymbol (symbol : Symbol Kind Ty) : Prop := symbol.type ≠ .undefined

/-! ## Type rules -/

/-- Behind a reported fault everything is warranted. -/
theorem warrants_reportFault (token : Token Kind) (fault : Fault) :
    Warrants given nothing (reportFault token fault : GrammarRule Unit) := .report rfl trivial

/-- A fault that is reported on a condition leaves nothing to answer. -/
theorem warrants_reportFaultIf (p : Prop) [Decidable p] (token : Token Kind) (fault : Fault) :
    Warrants given anything (reportFaultIf p token fault : GrammarRule Unit) :=
  .ite (fun _ => (warrants_reportFault token fault).of_nothing) fun _ => .pure fun _ => trivial

/-- The check of a target answers nothing. -/
theorem warrants_checkTarget (name : Token Kind) (symbol? : Option (Symbol Kind Ty)) :
    Warrants given anything (checkTarget name symbol? : GrammarRule Unit) :=
  warrants_reportFaultIf _ _ _

/-- A name without indices has the type of its symbol. -/
theorem warrants_unindexed (name : Token Kind) {symbol? : Option (Symbol Kind Ty)}
    (h : given → Resolved symbol?) :
    Warrants given (· ≠ .undefined) (unindexed name symbol? : GrammarRule Ty) := by
  cases symbol? with
  | none => exact .pure fun hgiven => by simpa [Resolved] using h hgiven
  | some symbol =>
    rw [unindexed]
    split
    · exact .bind (warrants_reportFault _ _) fun _ => .pure fun hfault => hfault.2.elim
    · refine .pure fun hgiven => ?_
      obtain ⟨_, heq, hty⟩ := h hgiven
      cases heq
      exact hty

/-- The check of an index answers nothing. -/
theorem warrants_checkIndex (name : Token Kind) (shape : Shape) (d : Nat) (index : Operand) :
    Warrants given anything (checkIndex name shape d index : GrammarRule Unit) := by
  refine .bind (.expectType _ _ _) fun _ => ?_
  split
  · exact warrants_reportFaultIf _ _ _
  · exact .pure fun _ => trivial

/-- The check of all indices answers nothing. -/
theorem warrants_checkIndices (name : Token Kind) (shape : Shape) (d : Nat)
    (indices : List Operand) :
    Warrants given anything (checkIndices name shape d indices : GrammarRule Unit) := by
  induction indices generalizing d given with
  | nil => exact .pure fun _ => trivial
  | cons index rest ih => exact .bind (warrants_checkIndex _ _ _ _) fun _ => ih (d + 1)

/-- A name with indices has the type of the elements. -/
theorem warrants_indexed (name : Token Kind) {symbol? : Option (Symbol Kind Ty)}
    (indices : List Operand) (h : given → Resolved symbol?) :
    Warrants given (· ≠ .undefined) (indexed name symbol? indices : GrammarRule Ty) := by
  cases symbol? with
  | none => exact .pure fun hgiven => by simpa [Resolved] using h hgiven
  | some symbol =>
    simp only [indexed]
    split
    · exact .bind (warrants_reportFault _ _) fun _ => .pure fun hfault => hfault.2.elim
    · refine .bind (warrants_reportFaultIf _ _ _) fun _ =>
        .bind (warrants_checkIndices _ _ _ _) fun _ => .pure fun hgiven => ?_
      obtain ⟨_, heq, hty⟩ := h hgiven.1.1
      cases heq
      exact hty

/-- Numbers of one type give that type. -/
theorem warrants_arithmetic (op : Token Kind) {left right : Operand}
    (h : given → left.Known ∧ right.Known) :
    Warrants given (· ≠ .undefined) (arithmetic op left right : GrammarRule Ty) := by
  refine .ite (fun hunknown => .pure fun hgiven => ?_) fun hknown => .ite (fun _ => ?_) fun _ => ?_
  · exact (hunknown.elim (h hgiven).1 (h hgiven).2).elim
  · exact .bind (.expectType _ _ _) fun _ => .ite
      (fun _ => .pure fun _ hty => hknown (.inl hty))
      fun hconflict => .pure fun hgiven => absurd hgiven.2 hconflict
  · exact .bind (warrants_reportFault _ _) fun _ => .pure fun hfault => hfault.2.elim

/-- A logical operator answers a truth value in any case. -/
theorem warrants_logical (left right : Operand) :
    Warrants given (· ≠ .undefined) (logical left right : GrammarRule Ty) :=
  .bind (.expectType _ _ _) fun _ => .bind (.expectType _ _ _) fun _ => .pure fun _ => by decide

/-- A comparison answers a truth value in any case. -/
theorem warrants_relational (op : Token Kind) (left right : Operand) :
    Warrants given (· ≠ .undefined) (relational op left right : GrammarRule Ty) :=
  .ite (fun _ => .pure fun _ => by decide) fun _ =>
    .ite (fun _ => .bind (.expectType _ _ _) fun _ => .pure fun _ => by decide) fun _ =>
      .bind (warrants_reportFault _ _) fun _ => .pure fun _ => by decide

/-- A sign answers a known type if its operand is known. -/
theorem warrants_negation (op : Token Kind) {operand : Operand} (h : given → operand.Known) :
    Warrants given (· ≠ .undefined) (negation op operand : GrammarRule Ty) :=
  .ite (fun hunknown => .pure fun hgiven => absurd hunknown (h hgiven)) fun hknown =>
    .ite (fun _ => .pure fun _ => hknown) fun _ =>
      .bind (warrants_reportFault _ _) fun _ => .pure fun hfault => hfault.2.elim

/-- A negation answers a truth value in any case. -/
theorem warrants_complement (operand : Operand) :
    Warrants given (· ≠ .undefined) (complement operand : GrammarRule Ty) :=
  .bind (.expectType _ _ _) fun _ => .pure fun _ => by decide

/-- The check of a condition answers nothing. -/
theorem warrants_condition (operand : Operand) :
    Warrants given anything (condition operand : GrammarRule Unit) :=
  .bind (.expectType _ _ _) fun _ => .pure fun _ => trivial

/-- The check of an assignment answers nothing. -/
theorem warrants_assignable (target : Ty) (value : Operand) :
    Warrants given anything (assignable target value : GrammarRule Unit) :=
  .bind (.expectType _ _ _) fun _ => .pure fun _ => trivial

/-! ## Declarations -/

/-- The value of a literal is none of the types. -/
theorem warrants_intValue (token : Token Kind) : Warrants given anything (intValue token) := by
  rw [intValue]
  split
  · exact .pure fun _ => trivial
  · exact .bind (warrants_reportFault _ _) fun _ => .pure fun _ => trivial

/-- The value of a constant is none of the types. -/
theorem warrants_intConstant : Warrants given anything intConstant := by
  refine .bind (.accept _) fun _ => .bind (.mustBe _) fun token? => ?_
  cases token? with
  | none => exact .pure fun _ => trivial
  | some token => exact .bind (warrants_intValue _) fun _ => .pure fun _ => trivial

/-- The bounds of a dimension are none of the types. -/
theorem warrants_dimension : Warrants given anything dimension :=
  .bind .lookahead fun _ => .bind warrants_intConstant fun _ => .bind (.accept _) fun _ => .ite
    (fun _ => .bind warrants_intConstant fun _ => .bind (warrants_reportFaultIf _ _ _) fun _ =>
      .pure fun _ => trivial)
    fun _ => .bind (warrants_reportFaultIf _ _ _) fun _ => .pure fun _ => trivial

/-- The bounds of further dimensions are none of the types. -/
theorem warrants_moreDimensions (dims : List Bounds) :
    Warrants given anything (moreDimensions dims) :=
  .whileSees (fun _ => .bind .advance fun _ => .bind warrants_dimension fun _ =>
    .pure fun _ => trivial) fun _ => trivial

/-- A base type is known, or it is unexpected that there is none. -/
theorem warrants_baseType : Warrants given (· ≠ .undefined) baseType := by
  refine .bind .lookahead fun token => ?_
  cases htype : Ty.ofKeyword? token.kind with
  | none => exact .bind (.unexpected _) fun _ => .pure fun hfault => hfault.2.elim
  | some type =>
    refine .bind .advance fun _ => .pure fun _ hty => ?_
    subst hty
    cases hkind : token.kind <;> simp [Ty.ofKeyword?, hkind] at htype

/-- A type makes a symbol whose type is known. -/
theorem warrants_typeSpec (name : Token Kind) : Warrants given KnownSymbol (typeSpec name) :=
  .bind (.accept _) fun _ => .ite
    (fun _ => .bind (.mustBe _) fun _ => .bind warrants_dimension fun _ =>
      .bind (warrants_moreDimensions _) fun _ => .bind (.mustBe _) fun _ =>
        .bind (.mustBe _) fun _ => .bind warrants_baseType fun _ => .pure And.right)
    fun _ => .bind warrants_baseType fun _ => .pure And.right

/-- The check of a literal answers nothing. -/
theorem warrants_checkLiteral (type : Ty) (token : Token Kind) :
    Warrants given anything (checkLiteral type token) :=
  .ite (fun _ => .bind (warrants_intValue _) fun _ => .pure fun _ => trivial)
    fun _ => .pure fun _ => trivial

/-- No literal has an unknown type. -/
theorem literalType?_ne_undefined {negative : Bool} {kind : Kind} {type : Ty}
    (h : literalType? negative kind = some type) : type ≠ .undefined := by
  rintro rfl
  unfold literalType? at h
  split at h <;> simp at h

/-- The type of a literal is known, or it is unexpected that there is none. -/
theorem warrants_literal : Warrants given (· ≠ .undefined) literal := by
  refine .bind (.accept _) fun negative => .bind .lookahead fun token => ?_
  cases htype : literalType? negative token.kind with
  | none => exact .bind (.unexpected _) fun _ => .pure fun hfault => hfault.2.elim
  | some type =>
    exact .bind .advance fun _ => .bind (warrants_checkLiteral _ _) fun _ =>
      .pure fun _ => literalType?_ne_undefined htype

/-- A symbol that is declared and noted down has a known type, or there is a fault. -/
theorem warrants_declareNoted {symbol : Symbol Kind Ty} (h : given → KnownSymbol symbol) :
    Warrants given anything (declareNoted symbol) :=
  .bind (.declare h) fun _ =>
    .ite (fun _ => .note fun hgiven => h hgiven.1) fun _ => .pure fun _ => trivial

/-- A declaration binds a symbol of known type, or a fault was reported. -/
theorem warrants_declaration : Warrants given anything declaration := by
  refine .bind (.mustBe _) fun name? => ?_
  cases name? with
  | none => exact .pure fun _ => trivial
  | some name =>
    refine .bind (.accept _) fun _ => .ite (fun _ => ?_) fun _ => .bind (.accept _) fun _ =>
      .ite (fun _ => ?_) fun _ => (Warrants.unexpected _).of_nothing
    · exact .bind (warrants_typeSpec name) fun _ => warrants_declareNoted And.right
    · exact .bind warrants_literal fun _ => warrants_declareNoted And.right

/-- Declarations answer nothing. -/
theorem warrants_declarations : Warrants given anything declarations :=
  .bind warrants_declaration fun _ =>
    .whileSees (fun _ => .bind .advance fun _ => warrants_declaration) fun _ => trivial

/-! ## Expressions -/

section Expressions

variable {nestedFactor nestedExpression : GrammarRule Operand}

/-- A designator answers a known type if its symbol is known. -/
theorem warrants_designator (h : Warrants True Operand.Known nestedExpression) (name : Token Kind)
    {symbol? : Option (Symbol Kind Ty)} (hsymbol : given → Resolved symbol?) :
    Warrants given (· ≠ .undefined) (designator nestedExpression name symbol?) := by
  refine .bind (.accept _) fun _ => .ite (fun _ => ?_) fun _ =>
    warrants_unindexed name fun hgiven => hsymbol hgiven.1
  have hround : ∀ indices : List Operand, Warrants True anything (do
      let _ ← advance
      return indices ++ [← nestedExpression]) := fun _ =>
    .bind .advance fun _ => .bind (h.mono fun _ => trivial) fun _ => .pure fun _ => trivial
  exact .bind (h.mono fun _ => trivial) fun _ => .bind (.whileSees hround fun _ => trivial) fun _ =>
    .bind (.mustBe _) fun _ => warrants_indexed name _ fun hgiven => hsymbol hgiven.1.1.1.1

/-- Two known operands are combined into a known one, or a fault was reported. -/
theorem warrants_combine (op : Token Kind) {left right : Operand}
    (h : given → left.Known ∧ right.Known) :
    Warrants given Operand.Known (combine op left right) :=
  .ite (fun _ => .bind (warrants_logical _ _) fun _ => .pure And.right)
    fun _ => .bind (warrants_arithmetic op h) fun _ => .pure And.right

/-- A chain of known operands is known. -/
theorem warrants_chain (operators : List Kind) {operand : GrammarRule Operand}
    (h : Warrants True Operand.Known operand) {left : Operand} (hleft : given → left.Known) :
    Warrants given Operand.Known (chain operators operand left) :=
  .whileSees (fun _ => .bind .advance fun op => .bind (h.mono fun _ => trivial) fun _ =>
    warrants_combine op fun hgiven => ⟨hgiven.1.1, hgiven.2⟩) hleft

/-- A term of known factors is known. -/
theorem warrants_term (h : Warrants True Operand.Known nestedFactor) :
    Warrants given Operand.Known (term nestedFactor) :=
  .bind (h.mono fun _ => trivial) fun _ => warrants_chain _ h And.right

/-- A signed term of known factors is known. -/
theorem warrants_signedTerm (h : Warrants True Operand.Known nestedFactor) :
    Warrants given Operand.Known (signedTerm nestedFactor) :=
  .bind (.sees _) fun _ => .ite
    (fun _ => .bind .advance fun op => .bind (warrants_term h) fun _ =>
      .bind (warrants_negation op And.right) fun _ => .pure And.right)
    fun _ => warrants_term h

/-- A simple expression of known factors is known. -/
theorem warrants_simpleExpression (h : Warrants True Operand.Known nestedFactor) :
    Warrants given Operand.Known (simpleExpression nestedFactor) :=
  .bind (warrants_signedTerm h) fun _ => warrants_chain _ (warrants_term h) And.right

/-- An expression of known factors is known. -/
theorem warrants_expressionOf (h : Warrants True Operand.Known nestedFactor) :
    Warrants given Operand.Known (expressionOf nestedFactor) :=
  .bind (warrants_simpleExpression h) fun _ => .bind .lookahead fun _ => .ite
    (fun _ => .bind .advance fun op => .bind (warrants_simpleExpression h) fun _ =>
      .bind (warrants_relational op _ _) fun _ => .pure And.right)
    fun _ => .pure fun hgiven => hgiven.1.2

end Expressions

/-- A factor is known, by induction on how deep it nests. -/
theorem warrants_factor (n : Nat) : Warrants given Operand.Known (factor n) := by
  induction n generalizing given with
  | zero => exact .outOfFuel
  | succ n ih =>
    refine .bind .lookahead fun token => ?_
    split
    · exact .bind .advance fun _ => .bind (.resolve _) fun _ =>
        .bind (warrants_designator (warrants_expressionOf ih) _ And.right) fun _ => .pure And.right
    · exact .bind .advance fun _ => .bind (warrants_intValue _) fun _ =>
        .pure fun _ => (by decide : Ty.integer ≠ .undefined)
    · exact .bind .advance fun _ => .pure fun _ => (by decide : Ty.real ≠ .undefined)
    · exact .bind .advance fun _ => .pure fun _ => (by decide : Ty.boolean ≠ .undefined)
    · exact .bind .advance fun _ => .pure fun _ => (by decide : Ty.boolean ≠ .undefined)
    · exact .bind .advance fun _ => .bind ih fun _ =>
        .bind (warrants_complement _) fun _ => .pure And.right
    · exact .bind .advance fun _ => .bind (warrants_expressionOf ih) fun _ =>
        .bind (.mustBe _) fun _ => .pure fun hgiven => hgiven.1.2
    · exact .bind (.unexpected _) fun _ => .pure fun hfault => hfault.2.elim

/-- An expression is known, however deep it nests. -/
theorem warrants_expression : Warrants given Operand.Known expression :=
  .withFuel fun n => warrants_expressionOf (warrants_factor n)

/-! ## Statements and programs -/

/-- An assignment answers nothing. -/
theorem warrants_assignment : Warrants given anything assignment :=
  .bind .advance fun _ => .bind (.resolve _) fun _ => .bind (warrants_checkTarget _ _) fun _ =>
    .bind (warrants_designator warrants_expression _ fun hgiven => hgiven.1.2) fun _ =>
      .bind (.mustBe _) fun _ => .bind warrants_expression fun _ => warrants_assignable _ _

/-- What is read into answers nothing. -/
theorem warrants_readStatement : Warrants given anything readStatement := by
  refine .bind .advance fun _ => .bind (.mustBe _) fun name? => ?_
  cases name? with
  | none => exact .pure fun _ => trivial
  | some name =>
    exact .bind (.resolve _) fun _ => .bind (warrants_checkTarget _ _) fun _ =>
      .bind (warrants_unindexed name fun hgiven => hgiven.1.2) fun _ => .pure fun _ => trivial

/-- What is written out answers nothing. -/
theorem warrants_writeStatement : Warrants given anything writeStatement :=
  .bind .advance fun _ => .bind warrants_expression fun _ => .pure fun _ => trivial

section Statements

variable {nestedStatement : GrammarRule Unit}

/-- Statements in a row answer nothing. -/
theorem warrants_statementsOf (h : Warrants True anything nestedStatement) :
    Warrants given anything (statementsOf nestedStatement) :=
  .whileSees (fun _ => h) fun _ => trivial

/-- What stands behind `ELSE` answers nothing. -/
theorem warrants_elsePart (h : Warrants True anything nestedStatement) :
    Warrants given anything (elsePart nestedStatement) :=
  .bind (.accept _) fun _ =>
    .ite (fun _ => warrants_statementsOf h) fun _ => .pure fun _ => trivial

/-- A choice relies on its condition being known, and answers nothing. -/
theorem warrants_ifStatement (h : Warrants True anything nestedStatement) :
    Warrants given anything (ifStatement nestedStatement) :=
  .bind .advance fun _ => .bind warrants_expression fun _ => .bind (warrants_condition _) fun _ =>
    .bind (.mustBe _) fun _ => .bind (warrants_statementsOf h) fun _ =>
      .bind (warrants_elsePart h) fun _ => .bind (.mustBe _) fun _ => .pure fun _ => trivial

/-- A loop relies on its condition being known, and answers nothing. -/
theorem warrants_whileStatement (h : Warrants True anything nestedStatement) :
    Warrants given anything (whileStatement nestedStatement) :=
  .bind .advance fun _ => .bind warrants_expression fun _ => .bind (warrants_condition _) fun _ =>
    .bind (.mustBe _) fun _ => .bind (warrants_statementsOf h) fun _ =>
      .bind (.mustBe _) fun _ => .pure fun _ => trivial

/-- A block answers nothing. -/
theorem warrants_block (h : Warrants True anything nestedStatement) :
    Warrants given anything (block nestedStatement) :=
  .bind .advance fun _ => .bind .openScope fun _ => .bind warrants_declarations fun _ =>
    .bind (.mustBe _) fun _ => .bind (warrants_statementsOf h) fun _ =>
      .bind (.mustBe _) fun _ => .bind .closeScope fun _ => .pure fun _ => trivial

end Statements

/-- Statements are warranted, by induction on how deep they nest. -/
theorem warrants_statement (n : Nat) : Warrants given anything (statement n) := by
  induction n generalizing given with
  | zero => exact .outOfFuel
  | succ n ih =>
    refine .bind .lookahead fun token => ?_
    split
    · exact warrants_assignment
    · exact warrants_ifStatement ih
    · exact warrants_whileStatement ih
    · exact warrants_readStatement
    · exact warrants_writeStatement
    · exact warrants_block ih
    · exact .bind (.unexpected _) fun _ => .bind .advance fun _ => .pure fun _ => trivial

/-- Statements in a row are warranted, however deep they nest. -/
theorem warrants_statements : Warrants given anything statements :=
  .withFuel fun n => warrants_statementsOf (warrants_statement n)

/-- Declarations in front of a program answer nothing. -/
theorem warrants_optionalDeclarations : Warrants given anything optionalDeclarations :=
  .bind (.accept _) fun _ => .ite (fun _ => warrants_declarations) fun _ => .pure fun _ => trivial

/-- **A program is silent only about what follows from a fault that it has reported.** -/
theorem warrants_program : Warrants given anything program :=
  .bind (.mustBe _) fun _ => .bind (.mustBe _) fun _ => .bind .openScope fun _ =>
    .bind warrants_optionalDeclarations fun _ => .bind (.mustBe _) fun _ =>
      .bind warrants_statements fun _ => .bind (.mustBe _) fun _ => .bind .closeScope fun _ =>
        .pure fun _ => trivial

end SinglePass.Simple
