import SinglePass.Recognizer

/-!
# Declaring and using names

The rules of meaning that every language shares: opening and closing scopes, declaring a name,
looking a name up, and comparing two types.  Each hands its fault to the strategy of the run,
which decides whether it is recorded, suppressed, or the end of the run.
-/

namespace SinglePass.Recognizer

variable {κ τ ω : Type}

/-! ## Scopes -/

/-- Open a scope inside the current one. -/
def openScope : Recognizer κ τ ω Unit := change fun s => { s with scopes := s.scopes.openScope }

/-- Close the innermost scope; `false` if none is open. -/
def closeScope : Recognizer κ τ ω Bool := fun _ s =>
  (.value s.scopes.closeScope.1, { s with scopes := s.scopes.closeScope.2 })

/-! ## Names -/

/-- The scopes as they are before a declaration: if none is open, an outermost one is opened. -/
def scopesForDeclaration (scopes : ScopeStack κ τ) : ScopeStack κ τ :=
  if scopes.isEmpty then scopes.openScope else scopes

/-- Bind a symbol in the innermost scope, which must not bind its name, and say whether it was
bound. -/
def bindSymbol (symbol : Symbol κ τ) : Recognizer κ τ ω Bool := fun _ s =>
  match (scopesForDeclaration s.scopes).add? symbol with
  | some (added, scopes) => (.value added, { s with scopes })
  | none => (.value false, s)

/-- Declare a symbol in the innermost scope.  A name that this scope already binds keeps its
first symbol, which is a fault. -/
def declare (symbol : Symbol κ τ) : Recognizer κ τ ω Bool := do
  match ← read (·.scopes.local? symbol.name) with
  | some first =>
    report (.alreadyDeclared symbol.token first)
    return false
  | none => bindSymbol symbol

section

variable {symbol : Symbol κ τ} {strategy : Strategy} {s : State κ τ ω}

/-- A name that the innermost scope binds is a fault. -/
theorem declare_of_local?_eq_some {first : Symbol κ τ}
    (h : s.scopes.local? symbol.name = some first) :
    declare symbol strategy s = (do
      report (.alreadyDeclared symbol.token first)
      return false) strategy s := by
  have hlocal : (read (·.scopes.local? symbol.name) : Recognizer κ τ ω _) strategy s =
      (.value (some first), s) := by
    rw [read, h]
  unfold declare
  rw [bind_of_value hlocal]

/-- Any other name is bound. -/
theorem declare_of_local?_eq_none (h : s.scopes.local? symbol.name = none) :
    declare symbol strategy s = bindSymbol symbol strategy s := by
  have hlocal : (read (·.scopes.local? symbol.name) : Recognizer κ τ ω _) strategy s =
      (.value none, s) := by
    rw [read, h]
  unfold declare
  rw [bind_of_value hlocal]

end

/-- Look up the symbol that a token names; using a name that is not declared is a fault. -/
def resolve (token : Token κ) : Recognizer κ τ ω (Option (Symbol κ τ)) := do
  match ← read (·.scopes.get? token.text) with
  | some symbol => return some symbol
  | none =>
    report (.notDeclared token)
    return none

section

variable {token : Token κ} {s : State κ τ ω}

/-- A name that is bound is resolved to its symbol, under either strategy. -/
theorem resolve_of_get?_eq_some {symbol : Symbol κ τ} (strategy : Strategy)
    (h : s.scopes.get? token.text = some symbol) :
    resolve token strategy s = (.value (some symbol), s) := by
  have hread : (read (·.scopes.get? token.text) : Recognizer κ τ ω _) strategy s =
      (.value (some symbol), s) := by
    rw [read, h]
  unfold resolve
  rw [bind_of_value hread]
  rfl

/-- A name that stands for nothing is a fault. -/
theorem resolve_of_get?_eq_none (strategy : Strategy) (h : s.scopes.get? token.text = none) :
    resolve token strategy s =
      match strategy with
      | .failFast => (.abort, s.record (.notDeclared token))
      | .recovering =>
        (.value none, if s.recovering then s else s.record (.notDeclared token)) := by
  have hread : (read (·.scopes.get? token.text) : Recognizer κ τ ω _) strategy s =
      (.value none, s) := by
    rw [read, h]
  unfold resolve
  rw [bind_of_value hread]
  cases strategy with
  | failFast => exact bind_of_abort (report_failFast _ s) _
  | recovering => exact bind_of_value (report_recovering _ s) _

end

/-! ## Types -/

/-- Check the type of a construct against the one required.  An unknown type agrees with every
type: whatever is wrong with it has been reported where it arose. -/
def expectType [TypeTag τ] (token : Token κ) (found expected : τ) : Recognizer κ τ ω Bool :=
  if found = expected ∨ TypeTag.isUndefined found ∨ TypeTag.isUndefined expected then
    return true
  else do
    report (.typeConflict token found expected)
    return false

end SinglePass.Recognizer
