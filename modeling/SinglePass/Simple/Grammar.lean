import SinglePass.Simple.Typing

/-!
# The grammar of Simple

```text
Program    = "PROGRAM" Ident [ "WITH" DeclList ] "IN" StmtList "END" .
DeclList   = Decl { "," Decl } .
Decl       = Ident ( "AS" TypeSpec | "=" Literal ) .
Literal    = [ "-" ] ( IntLit | RealLit ) | "TRUE" | "FALSE" .
TypeSpec   = BaseType | "ARRAY" "[" Dim { "," Dim } "]" "OF" BaseType .
Dim        = IntConst [ ":" IntConst ] .
IntConst   = [ "-" ] IntLit .
StmtList   = { Statement } .
Statement  = Assignment | If | While | Read | Write | Block .
Assignment = Designator "=" Expression .
If         = "IF" Expression "THEN" StmtList [ "ELSE" StmtList ] "END" .
While      = "WHILE" Expression "DO" StmtList "END" .
Read       = "READ" Ident .
Write      = "WRITE" Expression .
Block      = "WITH" DeclList "IN" StmtList "END" .
Expression = SimpleExpr [ RelOp SimpleExpr ] .
SimpleExpr = [ "-" ] Term { ( "+" | "-" | "OR" ) Term } .
Term       = Factor { ( "*" | "/" | "AND" ) Factor } .
Factor     = Designator | IntLit | RealLit | "TRUE" | "FALSE" | "NOT" Factor
           | "(" Expression ")" .
Designator = Ident [ "[" Expression { "," Expression } "]" ] .
```

There is one recognizer for each rule, and it applies the type rules as soon as it knows the
operands.  Two rules are truly recursive, `factor` and `statement`, and these take fuel for
their nesting; every other rule is given the recognizer of the nested constructs as an
argument.  The run notes down every symbol that was accepted into a scope.
-/

namespace SinglePass.Simple

open Recognizer

/-- A rule of the grammar, which notes down symbols. -/
abbrev GrammarRule (α : Type) := Rule (Symbol Kind Ty) α

/-! ## Literals -/

/-- The value of a text of decimal digits, however long. -/
def decimalValue (text : String) : Nat :=
  text.toList.foldl (fun value c => value * 10 + (c.toNat - '0'.toNat)) 0

/-- The largest value of an integer literal. -/
def maxLiteral : Nat := 9223372036854775807

/-- The value of an integer literal, if it fits into 64 bits. -/
def intValue? (text : String) : Option Int64 :=
  if decimalValue text ≤ maxLiteral then some (.ofNat (decimalValue text)) else none

/-- The value of an integer literal; one that does not fit is a fault and counts as 0. -/
def intValue (token : Token Kind) : GrammarRule Int64 :=
  match intValue? token.text with
  | some value => return value
  | none => do
    reportFault token (.literalTooLarge token.text)
    return 0

/-! ## Declarations -/

/-- `IntConst`: an integer literal with an optional sign; 0 stands in for a missing one. -/
def intConstant : GrammarRule Int64 := do
  let negative ← accept .minus
  match ← mustBe .intLiteral with
  | none => return 0
  | some token =>
    let value ← intValue token
    return if negative then -value else value

/-- `Dim`: a size, for the indices from 0, or a range of indices. -/
def dimension : GrammarRule Bounds := do
  let first ← lookahead
  let lower ← intConstant
  if ← accept .colon then
    let upper ← intConstant
    reportFaultIf (upper < lower) first (.boundsReversed lower upper)
    return .ofEnds lower upper
  else
    reportFaultIf (lower ≤ 0) first (.sizeNotPositive lower)
    return .ofSize lower

/-- The dimensions after the ones already recognised. -/
def moreDimensions (dims : List Bounds) : GrammarRule (List Bounds) :=
  whileSees (· = .comma) (fun dims => do
    let _ ← advance
    return dims ++ [← dimension]) dims

/-- A base type. -/
def baseType : GrammarRule Ty := do
  match Ty.ofKeyword? (← lookahead).kind with
  | some type =>
    let _ ← advance
    return type
  | none =>
    unexpected (.description "a type")
    return .undefined

/-- `TypeSpec`: the symbol that a name of the given type stands for. -/
def typeSpec (name : Token Kind) : GrammarRule (Symbol Kind Ty) := do
  if ← accept .kwArray then
    let _ ← mustBe .leftBracket
    let dims ← moreDimensions [← dimension]
    let _ ← mustBe .rightBracket
    let _ ← mustBe .kwOf
    return .array name (← baseType) dims
  else
    return .var name (← baseType)

/-- The type of the literal that a token is. -/
def literalType? (negative : Bool) : Kind → Option Ty
  | .intLiteral => some .integer
  | .realLiteral => some .real
  | .kwTrue | .kwFalse => if negative then none else some .boolean
  | _ => none

/-- Check the value of a literal: an integer has to fit into 64 bits. -/
def checkLiteral (type : Ty) (token : Token Kind) : GrammarRule Unit := do
  if type = .integer then
    let _ ← intValue token
  else
    return

/-- `Literal`: the type of the value of a constant. -/
def literal : GrammarRule Ty := do
  let negative ← accept .minus
  match literalType? negative (← lookahead).kind with
  | none =>
    unexpected (.description "a literal")
    return .undefined
  | some type =>
    checkLiteral type (← advance)
    return type

/-- Declare a symbol and note it down if it is accepted. -/
def declareNoted (symbol : Symbol Kind Ty) : GrammarRule Unit := do
  if ← declare symbol then
    note symbol
  else
    return

/-- `Decl`: the declaration of one name. -/
def declaration : GrammarRule Unit := do
  match ← mustBe .ident with
  | none => return
  | some name =>
    if ← accept .kwAs then
      declareNoted (← typeSpec name)
    else if ← accept .assign then
      declareNoted (.const name (← literal))
    else
      unexpected (.description "'AS' or '='")

/-- `DeclList`. -/
def declarations : GrammarRule Unit := do
  declaration
  whileSees (· = .comma) (fun _ => do
    let _ ← advance
    declaration) ()

/-! ## Expressions -/

section Expressions

/- The recognizer of nested factors, and of nested expressions. -/
variable (nestedFactor nestedExpression : GrammarRule Operand)

/-- `Designator` after its name: the type that the name denotes. -/
def designator (name : Token Kind) (symbol? : Option (Symbol Kind Ty)) : GrammarRule Ty := do
  if ← accept .leftBracket then
    let indices ← whileSees (· = .comma) (fun indices => do
      let _ ← advance
      return indices ++ [← nestedExpression]) [← nestedExpression]
    let _ ← mustBe .rightBracket
    indexed name symbol? indices
  else
    unindexed name symbol?

/-- The operand that combines two by an operator of `Term` or `SimpleExpr`. -/
def combine (op : Token Kind) (left right : Operand) : GrammarRule Operand := do
  if op.kind = .kwAnd ∨ op.kind = .kwOr then
    return ⟨← logical left right, left.token, none⟩
  else
    return ⟨← arithmetic op left right, left.token, none⟩

/-- Operands joined by operators, from left to right, after the first operand. -/
def chain (operators : List Kind) (operand : GrammarRule Operand) (left : Operand) :
    GrammarRule Operand :=
  whileSees (· ∈ operators) (fun left => do
    let op ← advance
    combine op left (← operand)) left

/-- `Term`. -/
def term : GrammarRule Operand := do
  chain [.star, .slash, .kwAnd] nestedFactor (← nestedFactor)

/-- A term with an optional sign. -/
def signedTerm : GrammarRule Operand := do
  if ← sees .minus then
    let op ← advance
    let operand ← term nestedFactor
    let type ← negation op operand
    return ⟨type, op, operand.constant.map fun value => -value⟩
  else
    term nestedFactor

/-- `SimpleExpr`. -/
def simpleExpression : GrammarRule Operand := do
  chain [.plus, .minus, .kwOr] (term nestedFactor) (← signedTerm nestedFactor)

/-- `Expression`, given the recognizer of its factors. -/
def expressionOf : GrammarRule Operand := do
  let left ← simpleExpression nestedFactor
  if (← lookahead).kind.isRelational then
    let op ← advance
    let right ← simpleExpression nestedFactor
    return ⟨← relational op left right, left.token, none⟩
  else
    return left

end Expressions

/-- `Factor`, for factors that nest less than `n` deep. -/
def factor : Nat → GrammarRule Operand
  | 0 => outOfFuel
  | n + 1 => do
    let token ← lookahead
    match token.kind with
    | .ident =>
      let _ ← advance
      let symbol? ← resolve token
      return ⟨← designator (expressionOf (factor n)) token symbol?, token, none⟩
    | .intLiteral =>
      let _ ← advance
      return ⟨.integer, token, some (← intValue token)⟩
    | .realLiteral =>
      let _ ← advance
      return ⟨.real, token, none⟩
    | .kwTrue | .kwFalse =>
      let _ ← advance
      return ⟨.boolean, token, none⟩
    | .kwNot =>
      let _ ← advance
      return ⟨← complement (← factor n), token, none⟩
    | .leftParen =>
      let _ ← advance
      let inner ← expressionOf (factor n)
      let _ ← mustBe .rightParen
      return inner
    | _ =>
      unexpected (.description "an expression")
      return ⟨.undefined, token, none⟩

/-- `Expression`. -/
def expression : GrammarRule Operand := withFuel fun n => expressionOf (factor n)

/-! ## Statements -/

/-- `Assignment`: its target is the name that is looked at. -/
def assignment : GrammarRule Unit := do
  let name ← advance
  let symbol? ← resolve name
  checkTarget name symbol?
  let target ← designator expression name symbol?
  let _ ← mustBe .assign
  assignable target (← expression)

/-- `Read`. -/
def readStatement : GrammarRule Unit := do
  let _ ← advance
  match ← mustBe .ident with
  | none => return
  | some name =>
    let symbol? ← resolve name
    checkTarget name symbol?
    let _ ← unindexed name symbol?

/-- `Write`. -/
def writeStatement : GrammarRule Unit := do
  let _ ← advance
  let _ ← expression

section Statements

/- The recognizer of nested statements. -/
variable (nestedStatement : GrammarRule Unit)

/-- `StmtList`: statements up to a token that ends every list of statements. -/
def statementsOf : GrammarRule Unit :=
  whileSees (fun kind => kind ∉ [Kind.kwEnd, .kwElse, .endOfFile]) (fun _ => nestedStatement) ()

/-- The part of `If` from `ELSE` on, which may be missing. -/
def elsePart : GrammarRule Unit := do
  if ← accept .kwElse then
    statementsOf nestedStatement
  else
    return

/-- `If`. -/
def ifStatement : GrammarRule Unit := do
  let _ ← advance
  condition (← expression)
  let _ ← mustBe .kwThen
  statementsOf nestedStatement
  elsePart nestedStatement
  let _ ← mustBe .kwEnd

/-- `While`. -/
def whileStatement : GrammarRule Unit := do
  let _ ← advance
  condition (← expression)
  let _ ← mustBe .kwDo
  statementsOf nestedStatement
  let _ ← mustBe .kwEnd

/-- `Block`: its declarations hold up to its end. -/
def block : GrammarRule Unit := do
  let _ ← advance
  openScope
  declarations
  let _ ← mustBe .kwIn
  statementsOf nestedStatement
  let _ ← mustBe .kwEnd
  let _ ← closeScope

end Statements

/-- `Statement`, for statements that nest less than `n` deep.  A token that begins no statement
is skipped, so that a list of statements always moves on. -/
def statement : Nat → GrammarRule Unit
  | 0 => outOfFuel
  | n + 1 => do
    match (← lookahead).kind with
    | .ident => assignment
    | .kwIf => ifStatement (statement n)
    | .kwWhile => whileStatement (statement n)
    | .kwRead => readStatement
    | .kwWrite => writeStatement
    | .kwWith => block (statement n)
    | _ =>
      unexpected (.description "a statement")
      let _ ← advance

/-- `StmtList`. -/
def statements : GrammarRule Unit := withFuel fun n => statementsOf (statement n)

/-! ## Programs -/

/-- The declarations of a program, which may be missing. -/
def optionalDeclarations : GrammarRule Unit := do
  if ← accept .kwWith then
    declarations
  else
    return

/-- `Program`. -/
def program : GrammarRule Unit := do
  let _ ← mustBe .kwProgram
  let _ ← mustBe .ident
  openScope
  optionalDeclarations
  let _ ← mustBe .kwIn
  statements
  let _ ← mustBe .kwEnd
  let _ ← closeScope

end SinglePass.Simple
