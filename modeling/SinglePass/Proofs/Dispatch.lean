import SinglePass.Simple.Grammar

/-!
# Which alternative a token selects

The two rules of Simple with alternatives, `factor` and `statement`, choose by the kind of the
token that is looked at.  One equation for each kind that selects an alternative, and one for the
other kinds; nothing else has to open the two rules.
-/

namespace SinglePass.Simple

open Recognizer

variable {strategy : Strategy} {s : State Kind Ty (Symbol Kind Ty)} {n : Nat}

/-! ## Factors -/

/-- The kinds of tokens that begin a factor. -/
def factorStarts : List Kind :=
  [.ident, .intLiteral, .realLiteral, .kwTrue, .kwFalse, .kwNot, .leftParen]

/-- A rule that begins with a look goes on with the token looked at. -/
theorem lookahead_bind {α : Type} (f : Token Kind → GrammarRule α) :
    (lookahead >>= f) strategy s = f s.lookahead strategy s := rfl

/-- The alternative of a factor that a kind selects. -/
def factorAt (n : Nat) : Kind → GrammarRule Operand
  | .ident => do
    let name ← advance
    let symbol? ← resolve name
    return ⟨← designator (expressionOf (factor n)) name symbol?, name, none⟩
  | .intLiteral => do
    let token ← advance
    return ⟨.integer, token, some (← intValue token)⟩
  | .realLiteral => do
    let token ← advance
    return ⟨.real, token, none⟩
  | .kwTrue | .kwFalse => do
    let token ← advance
    return ⟨.boolean, token, none⟩
  | .kwNot => do
    let op ← advance
    return ⟨← complement (← factor n), op, none⟩
  | .leftParen => do
    let _ ← advance
    let inner ← expressionOf (factor n)
    let _ ← mustBe .rightParen
    return inner
  | _ => do
    let token ← lookahead
    unexpected (.description "an expression")
    return ⟨.undefined, token, none⟩

/-- A factor is the alternative of the kind that is looked at. -/
theorem factor_succ :
    factor (n + 1) strategy s = factorAt n s.lookahead.kind strategy s := by
  rw [factor, lookahead_bind]
  generalize hkind : s.lookahead.kind = kind
  cases kind <;> rfl

/-- At a name, a factor is a designator. -/
theorem factor_of_ident (h : s.lookahead.kind = .ident) :
    factor (n + 1) strategy s = (do
      let name ← advance
      let symbol? ← resolve name
      return ⟨← designator (expressionOf (factor n)) name symbol?, name, none⟩ :
        GrammarRule Operand) strategy s := by
  rw [factor_succ, h]
  rfl

/-- At an integer literal, a factor is this literal with its value. -/
theorem factor_of_intLiteral (h : s.lookahead.kind = .intLiteral) :
    factor (n + 1) strategy s = (do
      let token ← advance
      return ⟨.integer, token, some (← intValue token)⟩ : GrammarRule Operand) strategy s := by
  rw [factor_succ, h]
  rfl

/-- At a real literal, a factor is this literal. -/
theorem factor_of_realLiteral (h : s.lookahead.kind = .realLiteral) :
    factor (n + 1) strategy s = (do
      let token ← advance
      return ⟨.real, token, none⟩ : GrammarRule Operand) strategy s := by
  rw [factor_succ, h]
  rfl

/-- At a truth value, a factor is this value. -/
theorem factor_of_boolean (h : s.lookahead.kind = .kwTrue ∨ s.lookahead.kind = .kwFalse) :
    factor (n + 1) strategy s = (do
      let token ← advance
      return ⟨.boolean, token, none⟩ : GrammarRule Operand) strategy s := by
  rcases h with h | h
  · rw [factor_succ, h]
    rfl
  · rw [factor_succ, h]
    rfl

/-- At `NOT`, a factor is the complement of the factor behind it. -/
theorem factor_of_kwNot (h : s.lookahead.kind = .kwNot) :
    factor (n + 1) strategy s = (do
      let op ← advance
      return ⟨← complement (← factor n), op, none⟩ : GrammarRule Operand) strategy s := by
  rw [factor_succ, h]
  rfl

/-- At a parenthesis, a factor is the expression in it. -/
theorem factor_of_leftParen (h : s.lookahead.kind = .leftParen) :
    factor (n + 1) strategy s = (do
      let _ ← advance
      let inner ← expressionOf (factor n)
      let _ ← mustBe .rightParen
      return inner : GrammarRule Operand) strategy s := by
  rw [factor_succ, h]
  rfl

/-- Every other token is unexpected. -/
theorem factor_of_notMem (h : s.lookahead.kind ∉ factorStarts) :
    factor (n + 1) strategy s = (do
      let token ← lookahead
      unexpected (.description "an expression")
      return ⟨.undefined, token, none⟩ : GrammarRule Operand) strategy s := by
  rw [factor_succ]
  generalize s.lookahead.kind = kind at h
  cases kind <;> first | rfl | simp [factorStarts] at h

/-! ## Statements -/

/-- The kinds of tokens that begin a statement. -/
def statementStarts : List Kind := [.ident, .kwIf, .kwWhile, .kwRead, .kwWrite, .kwWith]

/-- The alternative of a statement that a kind selects. -/
def statementAt (n : Nat) : Kind → GrammarRule Unit
  | .ident => assignment
  | .kwIf => ifStatement (statement n)
  | .kwWhile => whileStatement (statement n)
  | .kwRead => readStatement
  | .kwWrite => writeStatement
  | .kwWith => block (statement n)
  | _ => do
    unexpected (.description "a statement")
    let _ ← advance

/-- A statement is the alternative of the kind that is looked at. -/
theorem statement_succ :
    statement (n + 1) strategy s = statementAt n s.lookahead.kind strategy s := by
  rw [statement, lookahead_bind]
  generalize hkind : s.lookahead.kind = kind
  cases kind <;> rfl

/-- At a name, a statement is an assignment. -/
theorem statement_of_ident (h : s.lookahead.kind = .ident) :
    statement (n + 1) strategy s = assignment strategy s := by
  rw [statement_succ, h]
  rfl

/-- At `IF`, a statement is a choice. -/
theorem statement_of_kwIf (h : s.lookahead.kind = .kwIf) :
    statement (n + 1) strategy s = ifStatement (statement n) strategy s := by
  rw [statement_succ, h]
  rfl

/-- At `WHILE`, a statement is a loop. -/
theorem statement_of_kwWhile (h : s.lookahead.kind = .kwWhile) :
    statement (n + 1) strategy s = whileStatement (statement n) strategy s := by
  rw [statement_succ, h]
  rfl

/-- At `READ`, a statement reads. -/
theorem statement_of_kwRead (h : s.lookahead.kind = .kwRead) :
    statement (n + 1) strategy s = readStatement strategy s := by
  rw [statement_succ, h]
  rfl

/-- At `WRITE`, a statement writes. -/
theorem statement_of_kwWrite (h : s.lookahead.kind = .kwWrite) :
    statement (n + 1) strategy s = writeStatement strategy s := by
  rw [statement_succ, h]
  rfl

/-- At `WITH`, a statement is a block. -/
theorem statement_of_kwWith (h : s.lookahead.kind = .kwWith) :
    statement (n + 1) strategy s = block (statement n) strategy s := by
  rw [statement_succ, h]
  rfl

/-- Every other token is unexpected, and skipped. -/
theorem statement_of_notMem (h : s.lookahead.kind ∉ statementStarts) :
    statement (n + 1) strategy s = (do
      unexpected (.description "a statement")
      let _ ← advance : GrammarRule Unit) strategy s := by
  rw [statement_succ]
  generalize s.lookahead.kind = kind at h
  cases kind <;> first | rfl | simp [statementStarts] at h

end SinglePass.Simple
