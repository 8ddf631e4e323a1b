import SinglePass.Simple.Check

/-!
# Scripts of engine operations

A script is a sequence of the operations that a grammar of Simple is made of, in any order.  It
is itself a start rule, so a script can be run on a source like a grammar; its notes say how
each step ended and what the state was after it.  Whatever holds of every script holds of every
way to combine the operations one after the other.
-/

namespace SinglePass.Simple

open Recognizer

/-- One operation.  A step that concerns a token takes the token looked at if it names none. -/
inductive Step where
  | current
  | advance
  | sees (kind : Kind)
  | seesAny (kinds : List Kind)
  | atEnd
  | mustBe (kind : Kind)
  | unexpected (expected : Expected Kind)
  | report (token? : Option (Token Kind)) (fault : Token Kind → Diagnostic Kind Ty)
  | openScope
  | closeScope
  | declare (symbol : Symbol Kind Ty)
  | resolve (token? : Option (Token Kind))
  | expectType (token? : Option (Token Kind)) (found expected : Ty)
  | strategy
  | program
  | checkTarget (token? : Option (Token Kind)) (symbol? : Option (Symbol Kind Ty))
  | unindexed (token? : Option (Token Kind)) (symbol? : Option (Symbol Kind Ty))
  | indexed (token? : Option (Token Kind)) (symbol? : Option (Symbol Kind Ty))
      (indices : List Operand)
  | arithmetic (token? : Option (Token Kind)) (left right : Operand)
  | relational (token? : Option (Token Kind)) (left right : Operand)
  | logical (left right : Operand)
  | negation (token? : Option (Token Kind)) (operand : Operand)
  | complement (operand : Operand)
  | condition (operand : Operand)
  | assignable (target : Ty) (value : Operand)

/-- What a step answers. -/
inductive Reply where
  | nothing
  | token (token : Token Kind)
  | flag (flag : Bool)
  | symbol (symbol : Symbol Kind Ty)
  | type (type : Ty)
  | strategy (strategy : Strategy)
  | declarations (symbols : List (Symbol Kind Ty))

/-- The reply that is a token or nothing. -/
def Reply.ofToken? : Option (Token Kind) → Reply
  | some t => .token t
  | none => .nothing

/-- The reply that is a symbol or nothing. -/
def Reply.ofSymbol? : Option (Symbol Kind Ty) → Reply
  | some s => .symbol s
  | none => .nothing

variable {ω : Type}

/-- The given token, or else the one looked at. -/
def orLookahead : Option (Token Kind) → Rule ω (Token Kind)
  | some token => return token
  | none => lookahead

/-- Perform one step. -/
def Step.perform : Step → Rule ω Reply
  | .current => return .token (← lookahead)
  | .advance => return .token (← Recognizer.advance)
  | .sees kind => return .flag (← Recognizer.sees kind)
  | .seesAny kinds => return .flag (← Recognizer.seesAny kinds)
  | .atEnd => return .flag (← Recognizer.atEnd)
  | .mustBe kind => return .ofToken? (← Recognizer.mustBe kind)
  | .unexpected expected => do
    Recognizer.unexpected expected
    return .nothing
  | .report token? fault => do
    Recognizer.report (fault (← orLookahead token?))
    return .nothing
  | .openScope => do
    Recognizer.openScope
    return .nothing
  | .closeScope => return .flag (← Recognizer.closeScope)
  | .declare symbol => return .flag (← Recognizer.declare symbol)
  | .resolve token? => return .ofSymbol? (← Recognizer.resolve (← orLookahead token?))
  | .expectType token? found expected =>
    return .flag (← Recognizer.expectType (← orLookahead token?) found expected)
  | .strategy => return .strategy (← Recognizer.strategy)
  | .program => return .declarations (← collecting Simple.program)
  | .checkTarget token? symbol? => do
    Simple.checkTarget (← orLookahead token?) symbol?
    return .nothing
  | .unindexed token? symbol? =>
    return .type (← Simple.unindexed (← orLookahead token?) symbol?)
  | .indexed token? symbol? indices =>
    return .type (← Simple.indexed (← orLookahead token?) symbol? indices)
  | .arithmetic token? left right =>
    return .type (← Simple.arithmetic (← orLookahead token?) left right)
  | .relational token? left right =>
    return .type (← Simple.relational (← orLookahead token?) left right)
  | .logical left right => return .type (← Simple.logical left right)
  | .negation token? operand => return .type (← Simple.negation (← orLookahead token?) operand)
  | .complement operand => return .type (← Simple.complement operand)
  | .condition operand => do
    Simple.condition operand
    return .nothing
  | .assignable target value => do
    Simple.assignable target value
    return .nothing

/-- What is noted down of a step: how it ended, and the state after it. -/
structure Entry where
  outcome : Outcome Reply
  recovering : Bool
  lookahead : Token Kind
  scopes : ScopeStack Kind Ty

/-- Perform a step and note it down, whether or not it gave up. -/
def Step.performNoted (step : Step) : Rule Entry (Outcome Reply) := do
  let outcome ← attempt step.perform
  note (← read fun s => ⟨outcome, s.recovering, s.lookahead, s.scopes⟩)
  return outcome

/-- Perform steps in order.  A step that gives up ends the script, unless it is to keep going. -/
def script (keepGoing : Bool) : List Step → Rule Entry Unit
  | [] => return
  | step :: rest => do
    match ← step.performNoted with
    | .value _ => script keepGoing rest
    | .abort => if keepGoing then script keepGoing rest else abort
    | .outOfFuel => outOfFuel

end SinglePass.Simple
