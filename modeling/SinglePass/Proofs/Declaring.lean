import SinglePass.Binding
import SinglePass.Proofs.ScopeRefinement

/-!
# Declaring a name

Whether a name is taken is asked twice: `declare` looks it up on the innermost level, and the level
itself refuses a name that it has.  Both go by the same index, so a declaration is either a fault
that changes no scope, or it binds the symbol as the last one of the innermost level.

* `Levels.get?_extend`: a symbol with a new name is what its name stands for from then on, and all
  other names stand for what they stood for.
* `ScopeStack.add?_of_local?_eq_none`: a name that the innermost level does not have is accepted
  there.
* `declare_effect` draws the sum, for every state of a run and both strategies.
-/

namespace SinglePass

variable {κ τ ω : Type}

/-! ## A symbol more on the innermost level -/

namespace Levels

variable {symbol : Symbol κ τ} {level : List (Symbol κ τ)}

/-- The symbol of a name on the innermost level. -/
def innermost? (levels : Levels κ τ) (name : String) : Option (Symbol κ τ) :=
  levels.head?.bind (onLevel? name)

/-- The levels with a symbol at the end of the innermost one, or on a level of its own. -/
def extend (symbol : Symbol κ τ) : Levels κ τ → Levels κ τ
  | [] => [[symbol]]
  | level :: outer => (level ++ [symbol]) :: outer

/-- A symbol with a new name is found under it, and the others as before. -/
theorem onLevel?_append (h : onLevel? symbol.name level = none) (name : String) :
    onLevel? name (level ++ [symbol]) =
      if name = symbol.name then some symbol else onLevel? name level := by
  unfold onLevel? at h ⊢
  rw [List.find?_append]
  split
  · next heq => simp [heq, h]
  · next hne => simp [Ne.symm hne]

/-- The new symbol is found by its name, also if an outer level has that name. -/
theorem get?_extend {levels : Levels κ τ} (h : levels.innermost? symbol.name = none)
    (name : String) :
    (levels.extend symbol).get? name =
      if name = symbol.name then some symbol else levels.get? name := by
  have hlevel : ∀ (level : List (Symbol κ τ)) outer, onLevel? symbol.name level = none →
      get? ((level ++ [symbol]) :: outer) name =
        if name = symbol.name then some symbol else get? (level :: outer) name := by
    intro level outer hfree
    unfold get?
    rw [List.findSome?_cons, List.findSome?_cons, onLevel?_append hfree]
    by_cases hname : name = symbol.name
    · rw [if_pos hname, if_pos hname]
    · rw [if_neg hname, if_neg hname]
  cases levels with
  | nil => exact hlevel [] [] rfl
  | cons level outer => exact hlevel level outer h

/-- A new symbol on the innermost level is found under its name, and the others as before. -/
theorem innermost?_extend {levels : Levels κ τ} (h : levels.innermost? symbol.name = none)
    (name : String) :
    (levels.extend symbol).innermost? name =
      if name = symbol.name then some symbol else levels.innermost? name := by
  cases levels with
  | nil =>
    have hnone : onLevel? symbol.name ([] : List (Symbol κ τ)) = none := rfl
    exact onLevel?_append hnone name
  | cons level outer => exact onLevel?_append h name

end Levels

namespace ScopeStack

variable {s : ScopeStack κ τ} {symbol : Symbol κ τ}

/-- A name is found in a stack as it is in the list of its bindings. -/
theorem get?_eq_bindings (name : String) : s.get? name = s.bindings.get? name := by
  rcases s with ⟨_ | scope, level⟩
  · rfl
  · exact scope.get?_eq_levels name

/-- A name is found on the innermost level as it is in the first of the bindings. -/
theorem local?_eq_bindings (name : String) : s.local? name = s.bindings.innermost? name := by
  rcases s with ⟨_ | scope, level⟩
  · rfl
  · show scope.table.get? name = scope.bindings.innermost? name
    rw [Scope.bindings_eq_cons, Table.get?_eq_find?]
    rfl

/-- A name that the innermost level does not bind is accepted there. -/
theorem add?_of_local?_eq_none (h : s.local? symbol.name = none) :
    ∃ t, (Recognizer.scopesForDeclaration s).add? symbol = some (true, t) ∧
      t.bindings = s.bindings.extend symbol ∧
      t.level = if s.isEmpty then s.level + 1 else s.level := by
  rcases s with ⟨_ | scope, level⟩
  · exact ⟨_, rfl, rfl, rfl⟩
  · have hfree : scope.table.isDefined symbol.name = false :=
      Option.isSome_eq_false_iff.2 (Option.isNone_iff_eq_none.2 h)
    have hadd : scope.add symbol = (true, scope.setTable (scope.table.push symbol)) := by
      rw [Scope.add, Table.add_of_not_isDefined hfree]
    refine ⟨⟨some (scope.setTable (scope.table.push symbol)), level⟩, ?_, ?_, rfl⟩
    · show some ((scope.add symbol).1, (⟨some (scope.add symbol).2, level⟩ : ScopeStack κ τ)) = _
      rw [hadd]
    · show (scope.setTable (scope.table.push symbol)).bindings = scope.bindings.extend symbol
      rw [Scope.bindings_eq_cons, Scope.bindings_eq_cons, Scope.table_setTable, Scope.around,
        Scope.outer?_setTable]
      rfl

end ScopeStack

/-! ## Looking names up -/

namespace Recognizer

variable {token : Token κ} {s : State κ τ ω}

/-- What a name stands for is all that looking it up takes from the scopes. -/
theorem resolve_withScopes {scopes : ScopeStack κ τ} (strategy : Strategy)
    (h : scopes.get? token.text = s.scopes.get? token.text) :
    resolve token strategy { s with scopes } =
      ((resolve token strategy s).1, { (resolve token strategy s).2 with scopes }) := by
  cases hfound : s.scopes.get? token.text with
  | some symbol =>
    rw [resolve_of_get?_eq_some strategy hfound,
      resolve_of_get?_eq_some (s := { s with scopes }) strategy (h.trans hfound)]
  | none =>
    rw [resolve_of_get?_eq_none strategy hfound,
      resolve_of_get?_eq_none (s := { s with scopes }) strategy (h.trans hfound)]
    cases strategy with
    | failFast => rfl
    | recovering => cases hr : s.recovering <;> simp [State.record, hr]

end Recognizer

/-! ## Declaring -/

/-- A run that has bound a symbol: the scopes have changed, and nothing else. -/
structure State.Bound (symbol : Symbol κ τ) (s t : State κ τ ω) : Prop where
  state_eq : t = { s with scopes := t.scopes }
  /-- The symbol is the last one of the innermost level; the other levels are as before. -/
  bindings_eq : t.scopes.bindings = s.scopes.bindings.extend symbol
  level_eq : t.scopes.level = if s.scopes.isEmpty then s.scopes.level + 1 else s.scopes.level
  /-- Its name stands for it. -/
  resolve_eq : ∀ (token : Token κ) (strategy : Strategy), token.text = symbol.name →
    Recognizer.resolve token strategy t = (.value (some symbol), t)
  /-- Every other name is found where it was, or is not found as before. -/
  others : ∀ name, name ≠ symbol.name → t.scopes.get? name = s.scopes.get? name ∧
    t.scopes.local? name = s.scopes.local? name
  resolve_others : ∀ (token : Token κ) (strategy : Strategy), token.text ≠ symbol.name →
    Recognizer.resolve token strategy t =
      ((Recognizer.resolve token strategy s).1,
        { (Recognizer.resolve token strategy s).2 with scopes := t.scopes })

/-- All that declaring a symbol does to a run. -/
structure State.Declares (symbol : Symbol κ τ) (strategy : Strategy) (s : State κ τ ω) : Prop where
  /-- A name that the innermost level has is a fault, which is handed to the strategy. -/
  duplicate : ∀ first, s.scopes.bindings.innermost? symbol.name = some first →
    Recognizer.declare symbol strategy s =
      match strategy with
      | .failFast => (.abort, s.record (.alreadyDeclared symbol.token first))
      | .recovering =>
        (.value false,
          if s.recovering then s else s.record (.alreadyDeclared symbol.token first))
  /-- Any other name is bound, and there is no fault. -/
  fresh : s.scopes.bindings.innermost? symbol.name = none →
    ∃ t, Recognizer.declare symbol strategy s = (.value true, t) ∧ s.Bound symbol t

/-- A symbol with a free name is bound once it stands on the innermost level. -/
theorem State.bound_of_bindings {symbol : Symbol κ τ} {s : State κ τ ω} {scopes : ScopeStack κ τ}
    (hfree : s.scopes.bindings.innermost? symbol.name = none)
    (hbindings : scopes.bindings = s.scopes.bindings.extend symbol)
    (hlevel : scopes.level = if s.scopes.isEmpty then s.scopes.level + 1 else s.scopes.level) :
    s.Bound symbol { s with scopes } := by
  have hget : ∀ name, scopes.get? name =
      if name = symbol.name then some symbol else s.scopes.get? name := by
    intro name
    rw [ScopeStack.get?_eq_bindings, ScopeStack.get?_eq_bindings, hbindings,
      Levels.get?_extend hfree]
  have hlocal : ∀ name, scopes.local? name =
      if name = symbol.name then some symbol else s.scopes.local? name := by
    intro name
    rw [ScopeStack.local?_eq_bindings, ScopeStack.local?_eq_bindings, hbindings,
      Levels.innermost?_extend hfree]
  refine ⟨rfl, hbindings, hlevel, ?_, ?_, ?_⟩
  · intro token strategy htext
    apply Recognizer.resolve_of_get?_eq_some
    exact (hget token.text).trans (if_pos htext)
  · intro name hname
    exact ⟨(hget name).trans (if_neg hname), (hlocal name).trans (if_neg hname)⟩
  · intro token strategy htext
    apply Recognizer.resolve_withScopes
    exact (hget token.text).trans (if_neg htext)

/-- In every state and under both strategies, declaring a symbol does this and nothing else. -/
theorem declare_effect (symbol : Symbol κ τ) (strategy : Strategy) (s : State κ τ ω) :
    s.Declares symbol strategy := by
  constructor
  · intro first hfirst
    rw [← ScopeStack.local?_eq_bindings] at hfirst
    rw [Recognizer.declare_of_local?_eq_some hfirst]
    cases strategy with
    | failFast => exact Recognizer.bind_of_abort (Recognizer.report_failFast _ s) _
    | recovering => exact Recognizer.bind_of_value (Recognizer.report_recovering _ s) _
  · intro hfree
    have hlocal := hfree
    rw [← ScopeStack.local?_eq_bindings] at hlocal
    obtain ⟨scopes, hadd, hbindings, hlevel⟩ := ScopeStack.add?_of_local?_eq_none hlocal
    refine ⟨{ s with scopes }, ?_, State.bound_of_bindings hfree hbindings hlevel⟩
    rw [Recognizer.declare_of_local?_eq_none hlocal, Recognizer.bindSymbol, hadd]

end SinglePass
