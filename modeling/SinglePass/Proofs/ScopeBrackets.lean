import Mathlib.Data.List.Forall2
import SinglePass.Proofs.Declaring
import SinglePass.Proofs.ScopeDiscipline

/-!
# Scopes that are opened and closed again

Between the moment at which a scope is opened and the one at which that scope is closed, anything
may be done with the scopes: others are opened and closed, symbols are added and declared, accepted
or not, and names are looked up.  As long as the first scope stays open, all of that happens on top
of the stack that was there before, which comes out as it went in (`bracketed_scopes`).

* `ScopeAction`, `State.act`: what may be done, under either strategy.
* `ScopeAction.shadow`: the names that are hidden at a moment, which the actions alone tell.
* `State.Covers`: the invariant.  The stack is the old one with some levels on top, and these have
  just the names that are hidden.
* `State.Covers.act`: one action keeps to it; `State.Covers.acts`: so does a run.
-/

namespace SinglePass

variable {κ τ ω : Type}

/-! ## Actions -/

/-- What may be done with the scopes of a run: what can be asked of the stack, and the two rules of
meaning that go to it. -/
inductive ScopeAction (κ τ : Type) where
  | perform (operation : ScopeStack.Operation κ τ)
  | declare (symbol : Symbol κ τ)
  | resolve (token : Token κ)

namespace ScopeAction

/-- The symbol that an action puts on the innermost level, if its name is free there. -/
def symbol? : ScopeAction κ τ → Option (Symbol κ τ)
  | perform (.add symbol) => some symbol
  | declare symbol => some symbol
  | _ => none

/-- The names of the levels that have been opened and not closed, innermost first, after one more
action. -/
def shadow (hidden : List (List String)) : ScopeAction κ τ → List (List String)
  | perform .openScope => [] :: hidden
  | perform .closeScope => hidden.tail
  | perform (.add symbol) | declare symbol => hidden.modifyHead (symbol.name :: ·)
  | _ => hidden

/-- The names of the levels that actions open and do not close, innermost first. -/
def shadows (actions : List (ScopeAction κ τ)) : List (List String) := actions.foldl shadow []

/-- The names that actions put anywhere. -/
def names (actions : List (ScopeAction κ τ)) : List String :=
  actions.filterMap fun action => action.symbol?.map Symbol.name

end ScopeAction

/-- What an action makes of a state.  A run that gives up is left where it gave up. -/
def State.act (strategy : Strategy) (s : State κ τ ω) : ScopeAction κ τ → State κ τ ω
  | .perform operation => { s with scopes := (s.scopes.perform operation).2 }
  | .declare symbol => (Recognizer.declare symbol strategy s).2
  | .resolve token => (Recognizer.resolve token strategy s).2

/-- One action after the other. -/
def State.acts (strategy : Strategy) (s : State κ τ ω) (actions : List (ScopeAction κ τ)) :
    State κ τ ω :=
  actions.foldl (State.act strategy) s

/-! ## One action on the level on top -/

/-- Adding a symbol adds its name to those of the table. -/
theorem Table.mem_names_add {table : Table κ τ} {symbol : Symbol κ τ} {name : String} :
    name ∈ (table.add symbol).2.names ↔ name = symbol.name ∨ name ∈ table.names := by
  cases h : table.isDefined symbol.name with
  | true =>
    rw [Table.add_of_isDefined h]
    constructor
    · exact Or.inr
    · rintro (rfl | hmem)
      · exact Table.isDefined_iff_mem_names.mp h
      · exact hmem
  | false =>
    rw [Table.add_of_not_isDefined h, Table.names, Table.symbols_push, List.map_append,
      List.mem_append, List.map_singleton, List.mem_singleton]
    exact Or.comm

/-- A declaration changes the level on top and no other, as adding the symbol does. -/
theorem Recognizer.scopes_declare {symbol : Symbol κ τ} {s : State κ τ ω}
    {outer : ScopeStack κ τ} {table : Table κ τ} (strategy : Strategy)
    (h : s.scopes = outer.push table) :
    (declare symbol strategy s).2.scopes = outer.push (table.add symbol).2 := by
  have hlocal : s.scopes.local? symbol.name = table.get? symbol.name := by
    rw [h, ScopeStack.local?_push]
  cases hfound : table.get? symbol.name with
  | some first =>
    have hbound : table.isDefined symbol.name = true := by
      rw [Table.isDefined, hfound, Option.isSome_some]
    rw [declare_of_local?_eq_some (hlocal.trans hfound), Table.add_of_isDefined hbound, ← h]
    have hreport := scopes_report (.alreadyDeclared symbol.token first) strategy s
    rw [bind_apply]
    split
    · next heq => rwa [heq] at hreport
    · next heq => rwa [heq] at hreport
    · next heq => rwa [heq] at hreport
  | none =>
    rw [declare_of_local?_eq_none (hlocal.trans hfound), bindSymbol_of_push strategy h]

/-- Resolving a name leaves the scopes as they are. -/
theorem Recognizer.scopes_resolve (token : Token κ) (strategy : Strategy) (s : State κ τ ω) :
    (resolve token strategy s).2.scopes = s.scopes := by
  cases hfound : s.scopes.get? token.text with
  | some symbol => rw [resolve_of_get?_eq_some strategy hfound]
  | none =>
    rw [resolve_of_get?_eq_none strategy hfound]
    cases strategy with
    | failFast => rfl
    | recovering =>
      dsimp only
      split <;> rfl

/-! ## The invariant -/

/-- A level that binds just these names. -/
def Table.Binds (table : Table κ τ) (names : List String) : Prop :=
  ∀ name, name ∈ table.names ↔ name ∈ names

/-- A table finds nothing under a name that it does not bind. -/
theorem Table.Binds.get?_eq_none {table : Table κ τ} {names : List String}
    (h : table.Binds names) {name : String} (hname : name ∉ names) : table.get? name = none := by
  have hfree : ¬ table.isDefined name = true := fun hdefined =>
    hname ((h name).mp (Table.isDefined_iff_mem_names.mp hdefined))
  rwa [Table.isDefined, Bool.not_eq_true, Option.isSome_eq_false_iff, Option.isNone_iff_eq_none]
    at hfree

/-- A name that is hidden on no level is bound on none. -/
theorem Table.findSome?_of_not_hidden {inner : List (Table κ τ)} {hidden : List (List String)}
    (hbinds : List.Forall₂ Table.Binds inner hidden) {name : String}
    (hname : ∀ names ∈ hidden, name ∉ names) : inner.findSome? (·.get? name) = none := by
  induction hbinds with
  | nil => rfl
  | cons hbind _ ih =>
    obtain ⟨hfirst, hmore⟩ := List.forall_mem_cons.mp hname
    rw [List.findSome?_cons, hbind.get?_eq_none hfirst]
    exact ih hmore

/-- The stack of a state is another one with some levels on top, which bind just the hidden
names. -/
def State.Covers (below : ScopeStack κ τ) (hidden : List (List String)) (s : State κ τ ω) : Prop :=
  ∃ inner, s.scopes = below.pushAll inner ∧ List.Forall₂ Table.Binds inner hidden

namespace State.Covers

variable {below : ScopeStack κ τ} {hidden : List (List String)} {names : List String}
  {s t : State κ τ ω}

/-- What covers a stack is a matter of the scopes alone. -/
theorem of_scopes_eq (h : s.Covers below hidden) (heq : t.scopes = s.scopes) :
    t.Covers below hidden := by
  obtain ⟨inner, hscopes, hbinds⟩ := h
  exact ⟨inner, heq.trans hscopes, hbinds⟩

/-- The counter tells how many levels are on top. -/
theorem level_eq (h : s.Covers below hidden) : s.scopes.level = below.level + hidden.length := by
  obtain ⟨inner, hscopes, hbinds⟩ := h
  rw [hscopes, ScopeStack.level_pushAll, hbinds.length_eq]

/-- The levels of the other stack are all there, and in their order. -/
theorem levels_eq (h : s.Covers below hidden) :
    ∃ inner, s.scopes.levels = inner ++ below.levels ∧ List.Forall₂ Table.Binds inner hidden := by
  obtain ⟨inner, hscopes, hbinds⟩ := h
  exact ⟨inner, by rw [hscopes, ScopeStack.levels_pushAll], hbinds⟩

/-- With no level on top there is no other stack. -/
theorem scopes_eq (h : s.Covers below []) : s.scopes = below := by
  obtain ⟨inner, hscopes, hbinds⟩ := h
  cases hbinds
  exact hscopes

/-- A name that is not hidden stands for what it stood for. -/
theorem get?_eq (h : s.Covers below hidden) {name : String}
    (hname : ∀ names ∈ hidden, name ∉ names) : s.scopes.get? name = below.get? name := by
  obtain ⟨inner, hlevels, hbinds⟩ := h.levels_eq
  rw [ScopeStack.get?_eq_findSome?, hlevels, List.findSome?_append,
    Table.findSome?_of_not_hidden hbinds hname, Option.none_or, ScopeStack.get?_eq_findSome?]

/-- Opening a scope covers the stack with a level without names. -/
theorem openScope (h : s.Covers below hidden) (strategy : Strategy) :
    (s.act strategy (.perform .openScope)).Covers below ([] :: hidden) := by
  obtain ⟨inner, hscopes, hbinds⟩ := h
  refine ⟨.empty :: inner, ?_, .cons (fun _ => Iff.rfl) hbinds⟩
  show s.scopes.openScope = _
  rw [hscopes, ScopeStack.openScope_eq_push]
  rfl

/-- Closing a scope uncovers what its level has hidden. -/
theorem closeScope (h : s.Covers below (names :: hidden)) (strategy : Strategy) :
    (s.act strategy (.perform .closeScope)).Covers below hidden := by
  obtain ⟨_, hscopes, hbinds⟩ := h
  cases hbinds with
  | @cons _ _ inner _ hbind hbinds =>
    refine ⟨inner, ?_, hbinds⟩
    show s.scopes.closeScope.2 = _
    rw [hscopes]
    exact congrArg Prod.snd ScopeStack.closeScope_push

/-- A symbol lands on the level on top, if anywhere: its name is there in any case. -/
theorem of_add (h : s.Covers below (names :: hidden)) {symbol : Symbol κ τ}
    (hadd : ∀ outer table, s.scopes = ScopeStack.push outer table →
      t.scopes = outer.push (table.add symbol).2) :
    t.Covers below ((symbol.name :: names) :: hidden) := by
  obtain ⟨_, hscopes, hbinds⟩ := h
  cases hbinds with
  | @cons table _ inner _ hbind hbinds =>
    refine ⟨(table.add symbol).2 :: inner, hadd _ table hscopes, .cons (fun name => ?_) hbinds⟩
    rw [Table.mem_names_add, hbind, List.mem_cons]

/-- Adding a symbol hides its name. -/
theorem add (h : s.Covers below (names :: hidden)) (symbol : Symbol κ τ) (strategy : Strategy) :
    (s.act strategy (.perform (.add symbol))).Covers below ((symbol.name :: names) :: hidden) := by
  refine h.of_add fun outer table hscopes => ?_
  show (s.scopes.perform (.add symbol)).2 = _
  rw [hscopes, ScopeStack.perform, ScopeStack.add?_push]
  rfl

/-- As long as a level is on top, every action leaves what is below it alone. -/
theorem act (h : s.Covers below hidden) (hopen : hidden ≠ []) (strategy : Strategy)
    (action : ScopeAction κ τ) : (s.act strategy action).Covers below (action.shadow hidden) := by
  obtain ⟨names, more, rfl⟩ := List.exists_cons_of_ne_nil hopen
  cases action with
  | perform operation =>
    cases operation with
    | openScope => exact h.openScope strategy
    | closeScope => exact h.closeScope strategy
    | add symbol => exact h.add symbol strategy
    | _ => exact h.of_scopes_eq rfl
  | declare symbol =>
    exact h.of_add fun outer table hscopes => Recognizer.scopes_declare strategy hscopes
  | resolve token => exact h.of_scopes_eq (Recognizer.scopes_resolve token strategy s)

/-- So does a run in which a level is on top at every moment. -/
theorem acts (h : s.Covers below hidden) {strategy : Strategy} {actions : List (ScopeAction κ τ)}
    (hlevel : ∀ k ≤ actions.length,
      below.level + 1 ≤ (s.acts strategy (actions.take k)).scopes.level) :
    (s.acts strategy actions).Covers below (actions.foldl ScopeAction.shadow hidden) := by
  induction actions generalizing s hidden with
  | nil => exact h
  | cons action actions ih =>
    have hopen : hidden ≠ [] := by
      rintro rfl
      have hnow : below.level + 1 ≤ s.scopes.level := hlevel 0 (Nat.zero_le _)
      rw [h.scopes_eq] at hnow
      omega
    exact ih (h.act hopen strategy action) fun k hk => hlevel (k + 1) (Nat.succ_le_succ hk)

end State.Covers

/-! ## What is hidden -/

namespace ScopeAction

variable {name : String}

/-- An action hides no name but that of its symbol. -/
theorem not_mem_shadow {action : ScopeAction κ τ} {hidden : List (List String)}
    (h : ∀ names ∈ hidden, name ∉ names)
    (hname : ∀ symbol, action.symbol? = some symbol → symbol.name ≠ name) :
    ∀ names ∈ action.shadow hidden, name ∉ names := by
  have hadd : ∀ symbol : Symbol κ τ, symbol.name ≠ name →
      ∀ names ∈ hidden.modifyHead (symbol.name :: ·), name ∉ names := by
    intro symbol hne names hmem
    cases hidden with
    | nil => exact h names hmem
    | cons first more =>
      obtain rfl | hmem := List.mem_cons.mp hmem
      · exact List.not_mem_cons_of_ne_of_not_mem (Ne.symm hne) (h first List.mem_cons_self)
      · exact h names (List.mem_cons_of_mem _ hmem)
  cases action with
  | perform operation =>
    cases operation with
    | openScope =>
      intro names hmem
      obtain rfl | hmem := List.mem_cons.mp hmem
      · exact List.not_mem_nil
      · exact h names hmem
    | closeScope => exact fun names hmem => h names (List.mem_of_mem_tail hmem)
    | add symbol => exact hadd symbol (hname symbol rfl)
    | _ => exact h
  | declare symbol => exact hadd symbol (hname symbol rfl)
  | resolve token => exact h

/-- A name that no action adds is never hidden. -/
theorem not_mem_shadows {actions : List (ScopeAction κ τ)} {hidden : List (List String)}
    (h : ∀ names ∈ hidden, name ∉ names) (hname : name ∉ names actions) :
    ∀ names ∈ actions.foldl shadow hidden, name ∉ names := by
  induction actions generalizing hidden with
  | nil => exact h
  | cons action actions ih =>
    have hmem : ∀ other ∈ action :: actions, ∀ symbol, other.symbol? = some symbol →
        symbol.name ≠ name := by
      rintro other hother symbol hsymbol rfl
      exact hname (List.mem_filterMap.mpr ⟨other, hother, by rw [hsymbol, Option.map_some]⟩)
    refine ih (not_mem_shadow h (hmem action List.mem_cons_self)) fun hin => ?_
    obtain ⟨other, hother, hsome⟩ := List.mem_filterMap.mp hin
    obtain ⟨symbol, hsymbol, hsame⟩ := Option.map_eq_some_iff.mp hsome
    exact hmem other (List.mem_cons_of_mem _ hother) symbol hsymbol hsame

end ScopeAction

/-! ## Brackets -/

namespace State

/-- The moment in a bracket at which the first scope is open and so many actions are done. -/
def moment (strategy : Strategy) (s : State κ τ ω) (inside : List (ScopeAction κ τ)) (k : Nat) :
    State κ τ ω :=
  s.acts strategy (.perform .openScope :: inside.take k)

/-- The end of a bracket: the scope that was opened first is closed. -/
def afterwards (strategy : Strategy) (s : State κ τ ω) (inside : List (ScopeAction κ τ)) :
    State κ τ ω :=
  s.acts strategy (.perform .openScope :: inside ++ [.perform .closeScope])

/-- Actions between an opened scope and the moment at which it is closed. -/
structure Brackets (strategy : Strategy) (s : State κ τ ω) (inside : List (ScopeAction κ τ)) :
    Prop where
  /-- There is a scope more than before until the end. -/
  within : ∀ k ≤ inside.length, s.scopes.level + 1 ≤ (s.moment strategy inside k).scopes.level
  /-- The scope that is closed at the end is the one that was opened first. -/
  returns : (s.afterwards strategy inside).scopes.level = s.scopes.level

/-- What a bracket does to the scopes around it. -/
structure Untouched (strategy : Strategy) (s : State κ τ ω) (inside : List (ScopeAction κ τ)) :
    Prop where
  /-- Afterwards the stack is what it was, with all that it answers. -/
  scopes_eq : (s.afterwards strategy inside).scopes = s.scopes
  get?_eq : ∀ name, (s.afterwards strategy inside).scopes.get? name = s.scopes.get? name
  local?_eq : ∀ name, (s.afterwards strategy inside).scopes.local? name = s.scopes.local? name
  perform_eq : ∀ operation, ((s.afterwards strategy inside).scopes.perform operation).1 =
    (s.scopes.perform operation).1
  /-- At every moment the levels around the bracket are as they were, and those inside have the
  names that were put there. -/
  levels_eq : ∀ k ≤ inside.length, ∃ inner,
    (s.moment strategy inside k).scopes.levels = inner ++ s.scopes.levels ∧
      List.Forall₂ Table.Binds inner (ScopeAction.shadows (.perform .openScope :: inside.take k))
  /-- A name that has not been put anywhere inside stands for what it stands for around. -/
  others : ∀ k ≤ inside.length, ∀ name, name ∉ ScopeAction.names (inside.take k) →
    (s.moment strategy inside k).scopes.get? name = s.scopes.get? name
  /-- So does a name as soon as all levels that have hidden it are closed. -/
  restored : ∀ k ≤ inside.length, ∀ name,
    (∀ names ∈ ScopeAction.shadows (.perform .openScope :: inside.take k), name ∉ names) →
    (s.moment strategy inside k).scopes.get? name = s.scopes.get? name
  /-- Looking it up is no fault then, and gives its symbol. -/
  resolve_eq : ∀ k ≤ inside.length, ∀ (token : Token κ) symbol,
    s.scopes.get? token.text = some symbol →
    (∀ names ∈ ScopeAction.shadows (.perform .openScope :: inside.take k), token.text ∉ names) →
    Recognizer.resolve token strategy (s.moment strategy inside k) =
      (.value (some symbol), s.moment strategy inside k)

/-- At every moment between the brackets, the stack before them is covered by what was opened since.
-/
theorem Brackets.covers {strategy : Strategy} {s : State κ τ ω} {inside : List (ScopeAction κ τ)}
    (h : s.Brackets strategy inside) {k : Nat} (hk : k ≤ inside.length) :
    (s.moment strategy inside k).Covers s.scopes
      (ScopeAction.shadows (.perform .openScope :: inside.take k)) := by
  have hstart : s.Covers s.scopes [] := ⟨[], rfl, .nil⟩
  refine (hstart.openScope strategy).acts fun j hj => ?_
  rw [List.length_take] at hj
  rw [List.take_take]
  exact h.within (min j k) (by omega)

/-- The scope that is closed at the end is the only one on top. -/
theorem Brackets.scopes_eq {strategy : Strategy} {s : State κ τ ω} {inside : List (ScopeAction κ τ)}
    (h : s.Brackets strategy inside) : (s.afterwards strategy inside).scopes = s.scopes := by
  have hlast := h.covers (Nat.le_refl _)
  have hlevel := h.within _ (Nat.le_refl _)
  rw [hlast.level_eq] at hlevel
  have hend : s.afterwards strategy inside =
      (s.moment strategy inside inside.length).act strategy (.perform .closeScope) := by
    rw [afterwards, moment, List.take_length, acts, acts, List.foldl_append]
    rfl
  -- Closing takes one level away, and by its number nothing is hidden any more.
  cases hhidden : ScopeAction.shadows (.perform .openScope :: inside.take inside.length) with
  | nil =>
    rw [hhidden, List.length_nil] at hlevel
    omega
  | cons names hidden =>
    rw [hhidden] at hlast
    have hclosed := hlast.closeScope strategy
    rw [← hend] at hclosed
    have hreturns := h.returns
    rw [hclosed.level_eq] at hreturns
    obtain rfl : hidden = [] := List.length_eq_zero_iff.mp (by omega)
    exact hclosed.scopes_eq

end State

/-- Whatever is done between the moments at which a scope is opened and closed, under either
strategy and on every stack of scopes, leaves the scopes around it as they are. -/
theorem bracketed_scopes {strategy : Strategy} {s : State κ τ ω} {inside : List (ScopeAction κ τ)}
    (h : s.Brackets strategy inside) : s.Untouched strategy inside := by
  have hscopes : (s.afterwards strategy inside).scopes = s.scopes := h.scopes_eq
  exact {
    scopes_eq := hscopes
    get?_eq := fun name => by rw [hscopes]
    local?_eq := fun name => by rw [hscopes]
    perform_eq := fun operation => by rw [hscopes]
    levels_eq := fun k hk => (h.covers hk).levels_eq
    others := fun k hk name hname =>
      (h.covers hk).get?_eq (ScopeAction.not_mem_shadows (by simp) hname)
    restored := fun k hk name hname => (h.covers hk).get?_eq hname
    resolve_eq := fun k hk token symbol hsymbol hname =>
      Recognizer.resolve_of_get?_eq_some strategy (((h.covers hk).get?_eq hname).trans hsymbol) }

/-- A bracket in which a name of the scope around it is declared again, and on a further level once
more, where a second declaration is refused.  As soon as both levels are closed it stands for its
first symbol. -/
theorem bracketed_scopes_shadowing :
    ∃ (s : State Unit Unit Unit) (inside : List (ScopeAction Unit Unit)),
      s.Brackets .recovering inside ∧
      ((s.moment .recovering inside 4).scopes.get? "x").map (·.token.position) = some ⟨1, 3⟩ ∧
      (s.moment .recovering inside 7).scopes.get? "x" = s.scopes.get? "x" ∧
      (s.afterwards .recovering inside).scopes = s.scopes := by
  let x (column : Nat) : Symbol Unit Unit := .var ⟨(), "x", ⟨1, column⟩⟩ ()
  let around : ScopeStack Unit Unit := (ScopeStack.empty.openScope.perform (.add (x 1))).2
  let s : State Unit Unit Unit := ⟨⟨(), "", ⟨1, 9⟩⟩, .ofList [], false, around, [], []⟩
  let inside : List (ScopeAction Unit Unit) := [.perform .openScope, .declare (x 2),
    .perform .openScope, .perform (.add (x 3)), .declare (x 4), .perform .closeScope,
    .perform .closeScope, .resolve ⟨(), "x", ⟨1, 5⟩⟩]
  have h : s.Brackets .recovering inside := by
    constructor <;> decide
  have huntouched := bracketed_scopes h
  exact ⟨s, inside, h, by decide, huntouched.restored 7 (by decide) "x" (by decide),
    huntouched.scopes_eq⟩

end SinglePass
