import SinglePass.WordList
import SinglePass.Simple.Check
import SinglePass.Proofs.Composed

/-!
# What the rules of the two grammars keep to

The rules of Simple and of word lists are put together from the operations of the engine with more
care than `Composed` asks for.

* A scope is opened and closed by one rule, with everything in between: `Recognizer.inScope`.
* A name is bound only inside such a scope.
* `mustBe` is never asked for the end of the source, which is the one token that is still there
  when it has been consumed.

`Disciplined` is the closure with these three restrictions; its index says whether the rule stands
inside a scope and so may bind names.  There is one lemma for each rule, and the start rules of the
two grammars, `disciplined_program` and `disciplined_wordList`, come last.
-/

namespace SinglePass

variable {κ τ ω α β : Type}

/-! ## The laws of sequencing -/

instance : LawfulMonad (Recognizer κ τ ω) := LawfulMonad.mk' _
  (fun r => by
    funext strategy s
    show (r >>= fun a => pure a) strategy s = r strategy s
    rw [Recognizer.bind_apply]
    split <;> simp_all [Recognizer.pure_apply])
  (fun _ _ => rfl)
  (fun r f g => by
    funext strategy s
    simp only [Recognizer.bind_apply]
    generalize r strategy s = e
    obtain ⟨a | _ | _, t⟩ := e <;> rfl)

/-- Run a rule in a scope of its own. -/
def Recognizer.inScope (r : Recognizer κ τ ω α) : Recognizer κ τ ω α := do
  openScope
  let a ← r
  let _ ← closeScope
  return a

/-! ## The closure -/

/-- A recognizer that is put together from the operations of the engine, opens a scope only around
a part of itself, and never requires the end of the source.  It binds names in the scopes that it
opens, and outside of these only if it `binds`. -/
inductive Disciplined [TokenKind κ] : (binds : Bool) → {α : Type} → Recognizer κ τ ω α → Prop
  | pure {binds : Bool} {α : Type} (a : α) : Disciplined binds (Pure.pure a)
  | bind {binds : Bool} {α β : Type} {r : Recognizer κ τ ω α} {f : α → Recognizer κ τ ω β} :
      Disciplined binds r → (∀ a, Disciplined binds (f a)) → Disciplined binds (r >>= f)
  | withFuel {binds : Bool} {α : Type} {r : Nat → Recognizer κ τ ω α} :
      (∀ n, Disciplined binds (r n)) → Disciplined binds (Recognizer.withFuel r)
  | outOfFuel {binds : Bool} {α : Type} : Disciplined binds (Recognizer.outOfFuel (α := α))
  | read {binds : Bool} {α : Type} (f : State κ τ ω → α) : Disciplined binds (Recognizer.read f)
  | note {binds : Bool} (w : ω) : Disciplined binds (Recognizer.note w)
  | advance {binds : Bool} : Disciplined binds Recognizer.advance
  | mustBe {binds : Bool} (kind : κ) :
      kind ≠ TokenKind.endOfFile → Disciplined binds (Recognizer.mustBe kind)
  | unexpected {binds : Bool} (expected : Expected κ) :
      Disciplined binds (Recognizer.unexpected expected)
  | report {binds : Bool} (d : Diagnostic κ τ) :
      d.isSemantic = true → Disciplined binds (Recognizer.report d)
  | bindSymbol (symbol : Symbol κ τ) : Disciplined true (Recognizer.bindSymbol symbol)
  | inScope {binds : Bool} {α : Type} {r : Recognizer κ τ ω α} :
      Disciplined true r → Disciplined binds r.inScope

variable [TokenKind κ]

/-- The restrictions only leave out some ways to put operations together. -/
theorem Disciplined.composed {binds : Bool} {r : Recognizer κ τ ω α} (h : Disciplined binds r) :
    Composed r := by
  induction h with
  | pure a => exact .pure a
  | bind _ _ ihr ihf => exact .bind ihr ihf
  | withFuel _ ih => exact .withFuel ih
  | outOfFuel => exact .outOfFuel
  | read f => exact .read f
  | note w => exact .note w
  | advance => exact .advance
  | mustBe kind _ => exact .mustBe kind
  | unexpected expected => exact .unexpected expected
  | report d hd => exact .report d hd
  | bindSymbol symbol => exact .bindSymbol symbol
  | inScope _ ih =>
    exact .bind .openScope fun _ => .bind ih fun _ => .bind .closeScope fun _ => .pure _

/-- What only reports keeps to every restriction. -/
theorem Reporting.disciplined {binds : Bool} {r : Recognizer κ τ ω α} (h : Reporting r) :
    Disciplined binds r := by
  induction h with
  | pure a => exact .pure a
  | bind _ _ ihr ihf => exact .bind ihr ihf
  | read f => exact .read f
  | report d hd => exact .report d hd

namespace Disciplined

open Recognizer

variable {binds : Bool}

/-- Both branches of a choice keep to the restrictions if it does. -/
theorem ite {p : Prop} [Decidable p] {r t : Recognizer κ τ ω α} (hr : Disciplined binds r)
    (ht : Disciplined binds t) : Disciplined binds (if p then r else t) := by
  split
  · exact hr
  · exact ht

/-- A loop is put together from its rounds. -/
theorem iterate {test : κ → Bool} {body : α → Recognizer κ τ ω α}
    (h : ∀ a, Disciplined binds (body a)) (n : Nat) (a : α) :
    Disciplined binds (Recognizer.iterate test body n a) := by
  induction n generalizing a with
  | zero => exact .outOfFuel
  | succ n ih => exact .bind (.read _) fun _ => .ite (.bind (h a) ih) (.pure _)

/-- A loop over a kind of tokens is put together from its rounds. -/
theorem whileSees {test : κ → Bool} {body : α → Recognizer κ τ ω α}
    (h : ∀ a, Disciplined binds (body a)) (a : α) :
    Disciplined binds (Recognizer.whileSees test body a) :=
  .withFuel fun n => .iterate h n a

/-- Looking at a token reads the state. -/
theorem lookahead : Disciplined binds (Recognizer.lookahead : Recognizer κ τ ω _) := .read _

/-- Looking for a kind reads the state. -/
theorem sees (kind : κ) : Disciplined binds (Recognizer.sees kind : Recognizer κ τ ω _) := .read _

/-- Taking a token if it has a kind is a choice of advancing. -/
theorem accept (kind : κ) : Disciplined binds (Recognizer.accept kind : Recognizer κ τ ω _) :=
  .bind (.sees kind) fun _ => .ite (.bind .advance fun _ => .pure _) (.pure _)

/-- A declaration binds its name, and so stands in a scope. -/
theorem declare (symbol : Symbol κ τ) :
    Disciplined true (Recognizer.declare symbol : Recognizer κ τ ω _) := by
  refine .bind (.read _) fun first? => ?_
  cases first? with
  | none => exact .bindSymbol symbol
  | some first => exact .bind (.report _ rfl) fun _ => .pure _

/-- The end of the source is only looked at, never required like a token. -/
theorem mustEnd : Disciplined binds (Recognizer.mustEnd : Recognizer κ τ ω _) :=
  .bind (.read _) fun _ => .bind (.read _) fun _ => .ite (.pure _) (.unexpected _)

/-- A rule that goes to the end of the source adds a look at this end. -/
theorem toEnd {start : Recognizer κ τ ω Unit} (h : Disciplined binds start) :
    Disciplined binds start.toEnd :=
  .bind h fun _ => .mustEnd

end Disciplined

/-! ## Simple -/

namespace Simple

open Recognizer

variable {ω : Type} {binds : Bool}

/-! ### Type rules -/

/-- Reporting a fault is all that is done. -/
theorem reporting_reportFault (token : Token Kind) (fault : Fault) :
    Reporting (reportFault token fault : Rule ω Unit) := .report _ rfl

/-- Reporting a fault on a condition is all that is done. -/
theorem reporting_reportFaultIf (p : Prop) [Decidable p] (token : Token Kind) (fault : Fault) :
    Reporting (reportFaultIf p token fault : Rule ω Unit) :=
  .ite (reporting_reportFault token fault) (.pure _)

/-- Looking at an array as a whole only reports. -/
theorem reporting_unindexed (name : Token Kind) (symbol? : Option (Symbol Kind Ty)) :
    Reporting (unindexed name symbol? : Rule ω Ty) := by
  cases symbol? with
  | none => exact .pure _
  | some symbol =>
    rw [unindexed]
    split
    · exact .bind (reporting_reportFault _ _) fun _ => .pure _
    · exact .pure _

/-- The check of an index only reports. -/
theorem reporting_checkIndex (name : Token Kind) (shape : Shape) (d : Nat) (index : Operand) :
    Reporting (checkIndex name shape d index : Rule ω Unit) := by
  refine .bind (.expectType _ _ _) fun _ => ?_
  split
  · exact reporting_reportFaultIf _ _ _
  · exact .pure _

/-- The check of all indices only reports. -/
theorem reporting_checkIndices (name : Token Kind) (shape : Shape) (d : Nat)
    (indices : List Operand) : Reporting (checkIndices name shape d indices : Rule ω Unit) := by
  induction indices generalizing d with
  | nil => exact .pure _
  | cons index rest ih => exact .bind (reporting_checkIndex _ _ _ _) fun _ => ih _

/-- The check of an indexed name only reports. -/
theorem reporting_indexed (name : Token Kind) (symbol? : Option (Symbol Kind Ty))
    (indices : List Operand) : Reporting (indexed name symbol? indices : Rule ω Ty) := by
  unfold indexed
  split
  · exact .pure _
  · split
    · exact .bind (reporting_reportFault _ _) fun _ => .pure _
    · exact .bind (reporting_reportFaultIf _ _ _) fun _ =>
        .bind (reporting_checkIndices _ _ _ _) fun _ => .pure _

/-- The typing of an arithmetic operator only reports. -/
theorem reporting_arithmetic (op : Token Kind) (left right : Operand) :
    Reporting (arithmetic op left right : Rule ω Ty) :=
  .ite (.pure _) (.ite (.bind (.expectType _ _ _) fun _ => .ite (.pure _) (.pure _))
    (.bind (reporting_reportFault _ _) fun _ => .pure _))

/-- The typing of a logical operator only reports. -/
theorem reporting_logical (left right : Operand) :
    Reporting (logical left right : Rule ω Ty) :=
  .bind (.expectType _ _ _) fun _ => .bind (.expectType _ _ _) fun _ => .pure _

/-- The typing of a comparison only reports. -/
theorem reporting_relational (op : Token Kind) (left right : Operand) :
    Reporting (relational op left right : Rule ω Ty) :=
  .ite (.pure _) (.ite (.bind (.expectType _ _ _) fun _ => .pure _)
    (.bind (reporting_reportFault _ _) fun _ => .pure _))

/-- The typing of a sign only reports. -/
theorem reporting_negation (op : Token Kind) (operand : Operand) :
    Reporting (negation op operand : Rule ω Ty) :=
  .ite (.pure _) (.ite (.pure _) (.bind (reporting_reportFault _ _) fun _ => .pure _))

/-- The typing of a negation only reports. -/
theorem reporting_complement (operand : Operand) :
    Reporting (complement operand : Rule ω Ty) :=
  .bind (.expectType _ _ _) fun _ => .pure _

/-- The check of a condition only reports. -/
theorem reporting_condition (operand : Operand) :
    Reporting (condition operand : Rule ω Unit) :=
  .bind (.expectType _ _ _) fun _ => .pure _

/-- The check of an assignment only reports. -/
theorem reporting_assignable (target : Ty) (value : Operand) :
    Reporting (assignable target value : Rule ω Unit) :=
  .bind (.expectType _ _ _) fun _ => .pure _

/-! ### Declarations -/

/-- The value of a literal only reports, if it is too large. -/
theorem reporting_intValue (token : Token Kind) : Reporting (intValue token) := by
  rw [intValue]
  split
  · exact .pure _
  · exact .bind (reporting_reportFault _ _) fun _ => .pure _

/-- A constant requires its literal, and binds nothing. -/
theorem disciplined_intConstant : Disciplined binds intConstant := by
  refine .bind (.accept _) fun negative => .bind (.mustBe _ (by decide)) fun token? => ?_
  cases token? with
  | none => exact .pure _
  | some token => exact .bind (reporting_intValue token).disciplined fun _ => .pure _

/-- A dimension has its constants, and binds nothing. -/
theorem disciplined_dimension : Disciplined binds dimension :=
  .bind .lookahead fun _ => .bind disciplined_intConstant fun _ => .bind (.accept _) fun _ =>
    .ite
      (.bind disciplined_intConstant fun _ =>
        .bind (reporting_reportFaultIf _ _ _).disciplined fun _ => .pure _)
      (.bind (reporting_reportFaultIf _ _ _).disciplined fun _ => .pure _)

/-- Further dimensions bind nothing. -/
theorem disciplined_moreDimensions (dims : List Bounds) :
    Disciplined binds (moreDimensions dims) :=
  .whileSees (fun _ => .bind .advance fun _ => .bind disciplined_dimension fun _ => .pure _) _

/-- A base type is taken, or it is unexpected that there is none. -/
theorem disciplined_baseType : Disciplined binds baseType := by
  refine .bind .lookahead fun token => ?_
  split
  · exact .bind .advance fun _ => .pure _
  · exact .bind (.unexpected _) fun _ => .pure _

/-- A type binds nothing: it makes the symbol that is to be bound. -/
theorem disciplined_typeSpec (name : Token Kind) : Disciplined binds (typeSpec name) :=
  .bind (.accept _) fun _ => .ite
    (.bind (.mustBe _ (by decide)) fun _ => .bind disciplined_dimension fun _ =>
      .bind (disciplined_moreDimensions _) fun _ => .bind (.mustBe _ (by decide)) fun _ =>
        .bind (.mustBe _ (by decide)) fun _ => .bind disciplined_baseType fun _ => .pure _)
    (.bind disciplined_baseType fun _ => .pure _)

/-- The check of a literal only reports. -/
theorem reporting_checkLiteral (type : Ty) (token : Token Kind) :
    Reporting (checkLiteral type token) :=
  .ite (.bind (reporting_intValue token) fun _ => .pure _) (.pure _)

/-- A literal is taken before it is checked. -/
theorem disciplined_literal : Disciplined binds literal := by
  refine .bind (.accept _) fun negative => .bind .lookahead fun token => ?_
  split
  · exact .bind (.unexpected _) fun _ => .pure _
  · exact .bind .advance fun _ => .bind (reporting_checkLiteral _ _).disciplined fun _ => .pure _

/-- Declaring and noting a symbol consumes no token. -/
theorem silent_declareNoted (symbol : Symbol Kind Ty) : Silent (declareNoted symbol) :=
  .bind (.declare symbol) fun _ => .ite (.note _) (.pure _)

/-- A symbol is noted where it is bound, inside a scope. -/
theorem disciplined_declareNoted (symbol : Symbol Kind Ty) :
    Disciplined true (declareNoted symbol) :=
  .bind (.declare symbol) fun _ => .ite (.note _) (.pure _)

/-- A declaration stands inside a scope. -/
theorem disciplined_declaration : Disciplined true declaration := by
  refine .bind (.mustBe _ (by decide)) fun name? => ?_
  cases name? with
  | none => exact .pure _
  | some name =>
    refine .bind (.accept _) fun _ => .ite ?typed (.bind (.accept _) fun _ => .ite ?const ?other)
    case typed => exact .bind (disciplined_typeSpec name) fun _ => disciplined_declareNoted _
    case const => exact .bind disciplined_literal fun _ => disciplined_declareNoted _
    case other => exact .unexpected _

/-- Declarations bind names, and so stand in a scope. -/
theorem disciplined_declarations : Disciplined true declarations :=
  .bind disciplined_declaration fun _ =>
    .whileSees (fun _ => .bind .advance fun _ => disciplined_declaration) _

/-! ### Expressions -/

/-- A designator reads expressions as its indices. -/
theorem disciplined_designator {nested : GrammarRule Operand} (h : Disciplined binds nested)
    (name : Token Kind) (symbol? : Option (Symbol Kind Ty)) :
    Disciplined binds (designator nested name symbol?) :=
  .bind (.accept _) fun _ => .ite
    (.bind h fun _ =>
      .bind (.whileSees (fun _ => .bind .advance fun _ => .bind h fun _ => .pure _) _) fun _ =>
        .bind (.mustBe _ (by decide)) fun _ => (reporting_indexed _ _ _).disciplined)
    (reporting_unindexed _ _).disciplined

/-- The typing of an operator between two operands only reports. -/
theorem reporting_combine (op : Token Kind) (left right : Operand) :
    Reporting (combine op left right) :=
  .ite (.bind (reporting_logical _ _) fun _ => .pure _)
    (.bind (reporting_arithmetic _ _ _) fun _ => .pure _)

/-- A chain of operands keeps to what its operands keep to. -/
theorem disciplined_chain {operand : GrammarRule Operand} (h : Disciplined binds operand)
    (operators : List Kind) (left : Operand) : Disciplined binds (chain operators operand left) :=
  .whileSees (fun _ => .bind .advance fun _ => .bind h fun _ =>
    (reporting_combine _ _ _).disciplined) _

/-- A term keeps to what nested expressions keep to. -/
theorem disciplined_term {nested : GrammarRule Operand} (h : Disciplined binds nested) :
    Disciplined binds (term nested) :=
  .bind h fun _ => disciplined_chain h _ _

/-- A signed term keeps to what nested expressions keep to. -/
theorem disciplined_signedTerm {nested : GrammarRule Operand} (h : Disciplined binds nested) :
    Disciplined binds (signedTerm nested) :=
  .bind (.sees _) fun _ => .ite
    (.bind .advance fun _ => .bind (disciplined_term h) fun _ =>
      .bind (reporting_negation _ _).disciplined fun _ => .pure _)
    (disciplined_term h)

/-- A simple expression keeps to what nested expressions keep to. -/
theorem disciplined_simpleExpression {nested : GrammarRule Operand} (h : Disciplined binds nested) :
    Disciplined binds (simpleExpression nested) :=
  .bind (disciplined_signedTerm h) fun _ => disciplined_chain (disciplined_term h) _ _

/-- An expression keeps to what nested expressions keep to. -/
theorem disciplined_expressionOf {nested : GrammarRule Operand} (h : Disciplined binds nested) :
    Disciplined binds (expressionOf nested) :=
  .bind (disciplined_simpleExpression h) fun _ => .bind .lookahead fun _ => .ite
    (.bind .advance fun _ => .bind (disciplined_simpleExpression h) fun _ =>
      .bind (reporting_relational _ _ _).disciplined fun _ => .pure _)
    (.pure _)

/-- Factors keep to the restrictions, by induction on how deep they nest. -/
theorem disciplined_factor (n : Nat) : Disciplined binds (factor n) := by
  induction n with
  | zero => exact .outOfFuel
  | succ n ih =>
    refine .bind .lookahead fun token => ?_
    split
    · exact .bind .advance fun _ => .bind (Reporting.resolve _).disciplined fun _ =>
        .bind (disciplined_designator (disciplined_expressionOf ih) _ _) fun _ => .pure _
    · exact .bind .advance fun _ => .bind (reporting_intValue _).disciplined fun _ => .pure _
    · exact .bind .advance fun _ => .pure _
    · exact .bind .advance fun _ => .pure _
    · exact .bind .advance fun _ => .pure _
    · exact .bind .advance fun _ => .bind ih fun _ =>
        .bind (reporting_complement _).disciplined fun _ => .pure _
    · exact .bind .advance fun _ => .bind (disciplined_expressionOf ih) fun _ =>
        .bind (.mustBe _ (by decide)) fun _ => .pure _
    · exact .bind (.unexpected _) fun _ => .pure _

/-- So a factor is put together from the operations of the engine. -/
theorem composed_factor (n : Nat) : Composed (factor n) :=
  (disciplined_factor n : Disciplined false _).composed

/-- Expressions keep to the restrictions without a bound on how deep they nest. -/
theorem disciplined_expression : Disciplined binds expression :=
  .withFuel fun n => disciplined_expressionOf (disciplined_factor n)

/-! ### Statements and programs -/

/-- An assignment binds nothing: its name is only resolved. -/
theorem disciplined_assignment : Disciplined binds assignment :=
  .bind .advance fun _ => .bind (Reporting.resolve _).disciplined fun _ =>
    .bind (reporting_reportFaultIf _ _ _).disciplined fun _ =>
    .bind (disciplined_designator disciplined_expression _ _) fun _ =>
    .bind (.mustBe _ (by decide)) fun _ =>
    .bind disciplined_expression fun _ => (reporting_assignable _ _).disciplined

/-- What is read into is only resolved. -/
theorem disciplined_readStatement : Disciplined binds readStatement := by
  refine .bind .advance fun _ => .bind (.mustBe _ (by decide)) fun name? => ?_
  cases name? with
  | none => exact .pure _
  | some name =>
    exact .bind (Reporting.resolve _).disciplined fun _ =>
      .bind (reporting_reportFaultIf _ _ _).disciplined fun _ =>
      .bind (reporting_unindexed _ _).disciplined fun _ => .pure _

/-- What is written out are expressions. -/
theorem disciplined_writeStatement : Disciplined binds writeStatement :=
  .bind .advance fun _ => .bind disciplined_expression fun _ => .pure _

section

variable {nested : GrammarRule Unit}

/-- Statements in a row keep to what each of them keeps to. -/
theorem disciplined_statementsOf (h : Disciplined binds nested) :
    Disciplined binds (statementsOf nested) :=
  .whileSees (fun _ => h) _

/-- What stands behind `ELSE` keeps to what a statement keeps to. -/
theorem disciplined_elsePart (h : Disciplined binds nested) : Disciplined binds (elsePart nested) :=
  .bind (.accept _) fun _ => .ite (disciplined_statementsOf h) (.pure _)

/-- A choice keeps to what its branches keep to. -/
theorem disciplined_ifStatement (h : Disciplined binds nested) :
    Disciplined binds (ifStatement nested) :=
  .bind .advance fun _ => .bind disciplined_expression fun _ =>
    .bind (reporting_condition _).disciplined fun _ =>
    .bind (.mustBe _ (by decide)) fun _ => .bind (disciplined_statementsOf h) fun _ =>
      .bind (disciplined_elsePart h) fun _ => .bind (.mustBe _ (by decide)) fun _ => .pure _

/-- A loop keeps to what its body keeps to. -/
theorem disciplined_whileStatement (h : Disciplined binds nested) :
    Disciplined binds (whileStatement nested) :=
  .bind .advance fun _ => .bind disciplined_expression fun _ =>
    .bind (reporting_condition _).disciplined fun _ =>
    .bind (.mustBe _ (by decide)) fun _ => .bind (disciplined_statementsOf h) fun _ =>
      .bind (.mustBe _ (by decide)) fun _ => .pure _

/-- What follows the first token of a block stands in the scope of the block. -/
theorem block_eq (nested : GrammarRule Unit) : block nested = (do
    let _ ← advance
    inScope (do
      declarations
      let _ ← mustBe .kwIn
      statementsOf nested
      let _ ← mustBe .kwEnd)) := by
  simp only [block, inScope, bind_assoc, pure_bind]

/-- A block opens a scope around its declarations and statements, so it may stand outside of one. -/
theorem disciplined_block (h : Disciplined true nested) : Disciplined binds (block nested) := by
  rw [block_eq]
  exact .bind .advance fun _ => .inScope <| .bind disciplined_declarations fun _ =>
    .bind (.mustBe _ (by decide)) fun _ => .bind (disciplined_statementsOf h) fun _ =>
      .bind (.mustBe _ (by decide)) fun _ => .pure _

end

/-- Statements keep to the restrictions, by induction on how deep they nest. -/
theorem disciplined_statement (n : Nat) : Disciplined binds (statement n) := by
  induction n generalizing binds with
  | zero => exact .outOfFuel
  | succ n ih =>
    refine .bind .lookahead fun token => ?_
    split
    · exact disciplined_assignment
    · exact disciplined_ifStatement ih
    · exact disciplined_whileStatement ih
    · exact disciplined_readStatement
    · exact disciplined_writeStatement
    · exact disciplined_block ih
    · exact .bind (.unexpected _) fun _ => .bind .advance fun _ => .pure _

/-- So a statement is put together from the operations of the engine. -/
theorem composed_statement (n : Nat) : Composed (statement n) :=
  (disciplined_statement n : Disciplined false _).composed

/-- Statements in a row keep to the restrictions without a bound on how deep they nest. -/
theorem disciplined_statements : Disciplined binds statements :=
  .withFuel fun n => disciplined_statementsOf (disciplined_statement n)

/-- Declarations in front of a program bind names in its scope. -/
theorem disciplined_optionalDeclarations : Disciplined true optionalDeclarations :=
  .bind (.accept _) fun _ => .ite disciplined_declarations (.pure _)

/-- What follows the name of a program stands in the scope of the program. -/
theorem program_eq : program = (do
    let _ ← mustBe .kwProgram
    let _ ← mustBe .ident
    inScope (do
      optionalDeclarations
      let _ ← mustBe .kwIn
      statements
      let _ ← mustBe .kwEnd)) := by
  simp only [program, inScope, bind_assoc, pure_bind]

/-- **Programs keep to the restrictions**, and bind names in scopes of their own only. -/
theorem disciplined_program : Disciplined binds program := by
  rw [program_eq]
  exact .bind (.mustBe _ (by decide)) fun _ => .bind (.mustBe _ (by decide)) fun _ =>
    .inScope <| .bind disciplined_optionalDeclarations fun _ =>
      .bind (.mustBe _ (by decide)) fun _ => .bind disciplined_statements fun _ =>
        .bind (.mustBe _ (by decide)) fun _ => .pure _

/-- The start rule of Simple is put together from the operations of the engine. -/
theorem composed_program : Composed program := (disciplined_program : Disciplined false _).composed

end Simple

/-! ## Word lists -/

namespace WordList

open Recognizer

variable {binds : Bool}

/-- An item keeps to what it is made of, its end mark included. -/
theorem disciplined_terminatedItem {item : Rule Unit} (h : Disciplined binds item) :
    Disciplined binds (terminatedItem item) :=
  .bind h fun _ => .bind (.mustBe _ (by decide)) fun _ => .pure _

/-- A list keeps to what its items keep to. -/
theorem disciplined_listOf {item : Rule Unit} (h : Disciplined binds item) :
    Disciplined binds (listOf item) :=
  .bind (disciplined_terminatedItem h) fun _ =>
    .whileSees (fun _ => disciplined_terminatedItem h) _

/-- What follows an opening parenthesis stands in a scope of its own. -/
theorem item_succ_eq (n : Nat) : item (n + 1) = (do
    if ← sees .word then
      let word ← advance
      note word.text
      let _ ← declare (.var word .int)
    else if ← accept .leftParen then
      inScope (do
        listOf (item n)
        let _ ← mustBe .rightParen)
    else
      unexpected (.description "a word or '('")) := by
  simp only [item, inScope, bind_assoc, pure_bind]

/-- Items bind words, by induction on how deep they nest. -/
theorem disciplined_item (n : Nat) : Disciplined true (item n) := by
  induction n with
  | zero => exact .outOfFuel
  | succ n ih =>
    rw [item_succ_eq]
    refine .bind (.sees _) fun _ => .ite ?word (.bind (.accept _) fun _ => .ite ?nested ?other)
    case word =>
      exact .bind .advance fun _ => .bind (.note _) fun _ => .bind (.declare _) fun _ => .pure _
    case nested =>
      exact .inScope <| .bind (disciplined_listOf ih) fun _ =>
        .bind (.mustBe _ (by decide)) fun _ => .pure _
    case other => exact .unexpected _

/-- A word list is a list of items in a scope of its own. -/
theorem wordList_eq : wordList = inScope (withFuel fun n => listOf (item n)) := by
  simp only [wordList, inScope]

/-- **Word lists keep to the restrictions**, and bind words in their own scope only. -/
theorem disciplined_wordList : Disciplined binds wordList := by
  rw [wordList_eq]
  exact .inScope (.withFuel fun n => disciplined_listOf (disciplined_item n))

/-- The start rule of word lists is put together from the operations of the engine. -/
theorem composed_wordList : Composed wordList :=
  (disciplined_wordList : Disciplined false _).composed

end WordList

end SinglePass
