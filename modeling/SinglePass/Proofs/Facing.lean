import SinglePass.Proofs.Rules
import SinglePass.Proofs.Discipline

/-!
# Runs that face given tokens

The states of a run that is not recovering and whose tokens bring no faults with them are given
by the tokens that it faces, what names stand for, and what it has recorded and noted down.  For
such states (`facing`) every operation of the engine is an equation.

The scopes are given as lists of symbols, innermost scope first; `ScopeStack.ofLevels` makes the
stack of them.
-/

namespace SinglePass

variable {κ τ : Type}

/-! ## Scopes by their symbols -/

/-- The level of the given symbols. -/
def Table.ofSymbols (symbols : List (Symbol κ τ)) : Table κ τ :=
  ⟨symbols, (symbols.map Symbol.name).zipIdx, rfl⟩

namespace Table

variable {symbols : List (Symbol κ τ)}

/-- A name stands for the first of the symbols that has it. -/
theorem get?_ofSymbols (name : String) :
    (ofSymbols symbols).get? name = symbols.find? fun symbol => symbol.name = name :=
  (ofSymbols symbols).get?_eq_find? name

/-- A symbol whose name is new goes to the end. -/
theorem add_ofSymbols {symbol : Symbol κ τ}
    (h : (symbols.find? fun other => other.name = symbol.name) = none) :
    (ofSymbols symbols).add symbol = (true, ofSymbols (symbols ++ [symbol])) := by
  have hfree : (ofSymbols symbols).isDefined symbol.name = false := by
    rw [isDefined, get?_ofSymbols, h]
    rfl
  have hpush : (ofSymbols symbols).push symbol = ofSymbols (symbols ++ [symbol]) :=
    ext_symbols rfl
  rw [add_of_not_isDefined hfree, hpush]

end Table

/-- The scope whose innermost level binds the given symbols, inside further levels. -/
def Scope.ofLevels (symbols : List (Symbol κ τ)) : List (List (Symbol κ τ)) → Scope κ τ
  | [] => .outermost (.ofSymbols symbols)
  | outer :: more => .nested (.ofSymbols symbols) (ofLevels outer more)

/-- The stack of the scopes that bind the given symbols, innermost scope first. -/
def ScopeStack.ofLevels : List (List (Symbol κ τ)) → ScopeStack κ τ
  | [] => .empty
  | symbols :: more => ⟨some (Scope.ofLevels symbols more), more.length + 1⟩

namespace ScopeStack

variable {symbols : List (Symbol κ τ)} {levels : List (List (Symbol κ τ))}

/-- Opening a scope adds a level without symbols. -/
theorem openScope_ofLevels : (ofLevels levels).openScope = ofLevels ([] :: levels) := by
  cases levels <;> rfl

/-- Closing a scope takes off the innermost level. -/
theorem closeScope_ofLevels :
    (ofLevels (symbols :: levels)).closeScope = (true, ofLevels levels) := by
  cases levels <;> rfl

/-- The levels of the stack are the tables of its symbols. -/
theorem levels_ofLevels : (ofLevels levels).levels = levels.map Table.ofSymbols := by
  cases levels with
  | nil => rfl
  | cons symbols more =>
    change (Scope.ofLevels symbols more).levels = _
    induction more generalizing symbols with
    | nil => rfl
    | cons outer more ih =>
      rw [Scope.ofLevels, Scope.levels, ih, List.map_cons, List.map_cons, List.map_cons]

/-- A name is looked up level by level, from the innermost one on. -/
theorem get?_ofLevels (name : String) :
    (ofLevels levels).get? name =
      levels.findSome? fun symbols => symbols.find? fun symbol => symbol.name = name := by
  rw [get?_eq_findSome?, levels_ofLevels, List.findSome?_map]
  exact congrArg (levels.findSome? ·) (funext fun _ => Table.get?_ofSymbols name)

/-- A name is looked up locally on the innermost level only. -/
theorem local?_ofLevels (name : String) :
    (ofLevels (symbols :: levels)).local? name =
      symbols.find? fun symbol => symbol.name = name := by
  cases levels <;> exact Table.get?_ofSymbols name

/-- A symbol with a new name goes to the end of the innermost level. -/
theorem add?_ofLevels {symbol : Symbol κ τ}
    (h : (symbols.find? fun other => other.name = symbol.name) = none) :
    (ofLevels (symbols :: levels)).add? symbol =
      some (true, ofLevels ((symbols ++ [symbol]) :: levels)) := by
  have hadd := Table.add_ofSymbols h
  cases levels with
  | nil =>
    change some (((Table.ofSymbols symbols).add symbol).1, ScopeStack.mk
      (some (Scope.outermost ((Table.ofSymbols symbols).add symbol).2)) _) = _
    rw [hadd]
    rfl
  | cons outer more =>
    change some (((Table.ofSymbols symbols).add symbol).1, ScopeStack.mk
      (some (Scope.nested ((Table.ofSymbols symbols).add symbol).2
        (Scope.ofLevels outer more))) _) = _
    rw [hadd]
    rfl

end ScopeStack

namespace Simple

open Recognizer

/-! ## Facing tokens -/

/-- A run that is not recovering and faces the given tokens, which bring no faults with them. -/
def facing (tokens : List (Token Kind)) (env : Env) (sink : Faults)
    (notes : List (Symbol Kind Ty)) : State Kind Ty (Symbol Kind Ty) :=
  ⟨tokens.head?.getD ⟨.endOfFile, "", ⟨1, 1⟩⟩, .ofList (tokens.tail.map fun t => ⟨t, []⟩), false,
    .ofLevels env, sink, notes⟩

variable {t : Token Kind} {ts : List (Token Kind)} {env : Env} {sink : Faults}
  {notes : List (Symbol Kind Ty)} {strategy : Strategy}

/-- A run that faces tokens is not recovering. -/
@[simp] theorem facing_recovering : (facing ts env sink notes).recovering = false := rfl

/-- It looks at the first of them. -/
@[simp] theorem facing_lookahead : (facing (t :: ts) env sink notes).lookahead = t := rfl

/-- Its names stand for what its environment says. -/
@[simp] theorem facing_lookup (name : String) :
    (facing ts env sink notes).scopes.get? name = env.lookup name :=
  ScopeStack.get?_ofLevels name

/-- Faults are recorded behind those that are there. -/
@[simp] theorem recordAll_facing (faults : Faults) :
    (facing ts env sink notes).recordAll faults = facing ts env (sink ++ faults) notes := rfl

/-- It goes on to the second token, which brings no faults. -/
theorem shift_facing (h : ts ≠ []) :
    (facing (t :: ts) env sink notes).shift = facing ts env sink notes := by
  obtain ⟨u, us, rfl⟩ := List.exists_cons_of_ne_nil h
  have hahead : (facing (t :: u :: us) env sink notes).ahead.tokens =
      ⟨u, []⟩ :: us.map fun t => ⟨t, []⟩ := rfl
  rw [State.shift_of_cons hahead, List.append_nil]
  rfl

/-- Looking gives the first token. -/
theorem lookahead_facing :
    lookahead strategy (facing (t :: ts) env sink notes) =
      (.value t, facing (t :: ts) env sink notes) := rfl

/-- Taking a token gives the first one, and leaves the others. -/
theorem advance_facing (h : ts ≠ []) :
    advance strategy (facing (t :: ts) env sink notes) = (.value t, facing ts env sink notes) := by
  unfold advance
  rw [shift_facing h]
  rfl

/-- Looking for a kind compares it with that of the first token. -/
theorem sees_facing (kind : Kind) :
    sees kind strategy (facing (t :: ts) env sink notes) =
      (.value (decide (t.kind = kind)), facing (t :: ts) env sink notes) := rfl

/-- A token of the kind is taken. -/
theorem accept_facing_of_eq {kind : Kind} (hk : t.kind = kind) (h : ts ≠ []) :
    accept kind strategy (facing (t :: ts) env sink notes) =
      (.value true, facing ts env sink notes) := by
  unfold accept
  rw [bind_of_value (sees_facing kind), if_pos (decide_eq_true hk),
    bind_of_value (advance_facing h), pure_apply]

/-- A token of another kind is left. -/
theorem accept_facing_of_ne {kind : Kind} (hk : t.kind ≠ kind) :
    accept kind strategy (facing (t :: ts) env sink notes) =
      (.value false, facing (t :: ts) env sink notes) := by
  unfold accept
  rw [bind_of_value (sees_facing kind), if_neg (by simpa using hk), pure_apply]

/-- A token of the kind that is required is taken. -/
theorem mustBe_facing {kind : Kind} (hk : t.kind = kind) (h : ts ≠ []) :
    mustBe kind strategy (facing (t :: ts) env sink notes) =
      (.value (some t), facing ts env sink notes) := by
  rw [mustBe_of_kind_eq strategy rfl hk, shift_facing h]
  rfl

/-- The end is required where it is. -/
theorem mustEnd_facing (hk : t.kind = .endOfFile) :
    mustEnd strategy (facing (t :: ts) env sink notes) =
      (.value (), facing (t :: ts) env sink notes) := by
  have hisEnd : t.isEnd = true := Token.isEnd_eq_true.2 hk
  have hcalm : Recognizer.read (·.recovering) strategy (facing (t :: ts) env sink notes) =
      (.value false, facing (t :: ts) env sink notes) := rfl
  have hatEnd : atEnd strategy (facing (t :: ts) env sink notes) =
      (.value true, facing (t :: ts) env sink notes) := by
    change (Outcome.value t.isEnd, _) = _
    rw [hisEnd]
  unfold mustEnd
  rw [bind_of_value hcalm, bind_of_value hatEnd]
  rfl

/-- There is as much fuel as there are tokens. -/
theorem withFuel_facing {α : Type} (r : Nat → GrammarRule α) :
    withFuel r strategy (facing (t :: ts) env sink notes) =
      r (t :: ts).length strategy (facing (t :: ts) env sink notes) := by
  unfold withFuel facing
  simp [Upcoming.ofList]

/-- A name is looked up in the environment, and recorded if it is not there. -/
theorem resolve_facing (name : Token Kind) :
    resolve name .recovering (facing ts env sink notes) =
      (.value (env.lookup name.text),
        facing ts env (sink ++ unboundFaults name (env.lookup name.text)) notes) := by
  rw [resolve_calm rfl, facing_lookup, recordAll_facing]

/-! ## Loops -/

section

variable {α : Type} {test : Kind → Bool} {body : α → GrammarRule α}

/-- A loop goes on at a token that passes its test. -/
theorem iterate_facing_of_test {n : Nat} (a : α) (h : test t.kind = true) :
    iterate test body (n + 1) a strategy (facing (t :: ts) env sink notes) =
      (body a >>= iterate test body n) strategy (facing (t :: ts) env sink notes) :=
  iterate_of_test h n a

/-- A loop ends before a token that does not pass its test. -/
theorem iterate_facing_of_not_test {n : Nat} (hn : 0 < n) (a : α) (h : test t.kind = false) :
    iterate test body n a strategy (facing (t :: ts) env sink notes) =
      (.value a, facing (t :: ts) env sink notes) := by
  obtain ⟨m, rfl⟩ : ∃ m, n = m + 1 := ⟨n - 1, by omega⟩
  exact iterate_of_not_test h m a

end

/-! ## Scopes -/

/-- Opening a scope adds a level without symbols to the environment. -/
theorem openScope_facing :
    openScope strategy (facing ts env sink notes) = (.value (), facing ts ([] :: env) sink notes) :=
  congrArg (fun scopes => (Outcome.value (), { facing ts env sink notes with scopes }))
    ScopeStack.openScope_ofLevels

/-- Closing a scope takes the innermost level off the environment. -/
theorem closeScope_facing (symbols : List (Symbol Kind Ty)) :
    closeScope strategy (facing ts (symbols :: env) sink notes) =
      (.value true, facing ts env sink notes) := by
  unfold closeScope
  change (Outcome.value (ScopeStack.ofLevels (symbols :: env)).closeScope.1,
    { facing ts env sink notes with
      scopes := (ScopeStack.ofLevels (symbols :: env)).closeScope.2 }) = _
  rw [ScopeStack.closeScope_ofLevels]
  rfl

/-! ## Declaring -/

section

variable {scope : List (Symbol Kind Ty)} {symbol : Symbol Kind Ty}

/-- A name is looked up locally on the innermost level of the environment. -/
theorem local?_facing (name : String) :
    (facing ts (scope :: env) sink notes).scopes.local? name =
      scope.find? fun other => other.name = name :=
  ScopeStack.local?_ofLevels name

/-- A name that its scope binds already keeps its first symbol. -/
theorem declareNoted_of_some {first : Symbol Kind Ty}
    (h : (scope.find? fun other => other.name = symbol.name) = some first) :
    declareNoted symbol .recovering (facing ts (scope :: env) sink notes) =
      (.value (), facing ts (scope :: env) (sink ++ [Diagnostic.alreadyDeclared symbol.token first])
        notes) := by
  have hdeclare : declare symbol .recovering (facing ts (scope :: env) sink notes) =
      (.value false,
        facing ts (scope :: env) (sink ++ [Diagnostic.alreadyDeclared symbol.token first])
          notes) := by
    rw [declare_of_local?_eq_some ((local?_facing symbol.name).trans h)]
    exact bind_of_value (report_calm rfl _) _
  unfold declareNoted
  rw [bind_of_value hdeclare, if_neg Bool.false_ne_true, pure_apply]

/-- A name that is new in its scope is added to it. -/
theorem declareNoted_of_none (h : (scope.find? fun other => other.name = symbol.name) = none) :
    declareNoted symbol .recovering (facing ts (scope :: env) sink notes) =
      (.value (), facing ts ((scope ++ [symbol]) :: env) sink (notes ++ [symbol])) := by
  have hbind : bindSymbol symbol .recovering (facing ts (scope :: env) sink notes) =
      (.value true, facing ts ((scope ++ [symbol]) :: env) sink notes) := by
    have hscopes : scopesForDeclaration (facing ts (scope :: env) sink notes).scopes =
        .ofLevels (scope :: env) := rfl
    unfold bindSymbol
    rw [hscopes, ScopeStack.add?_ofLevels h]
    rfl
  have hdeclare : declare symbol .recovering (facing ts (scope :: env) sink notes) =
      (.value true, facing ts ((scope ++ [symbol]) :: env) sink notes) := by
    rw [declare_of_local?_eq_none ((local?_facing symbol.name).trans h), hbind]
  unfold declareNoted
  rw [bind_of_value hdeclare, if_pos rfl]
  rfl

end

end Simple

end SinglePass
