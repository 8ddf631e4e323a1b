import SinglePass.Symbol

/-!
# Symbol tables and scopes

A table binds the names of one level, in declaration order, and never binds a name twice.  A
scope is a level with the scope that encloses it, if any; a name is looked up from the inside
out, so an inner declaration hides an outer one without replacing it.  The scope stack of a
run holds the innermost open scope and counts the open levels.
-/

namespace SinglePass

/-! ## One level -/

/-- The symbols of one level, in declaration order, and an index that says where the symbol of
each name stands. -/
structure Table (κ τ : Type) where
  symbols : List (Symbol κ τ)
  /-- Names with positions.  The first entry of a name counts. -/
  index : List (String × Nat)
  /-- The index has the names of the symbols with their positions, and nothing else. -/
  index_eq : index = (symbols.map Symbol.name).zipIdx

namespace Table

variable {κ τ : Type}

/-- The level that binds nothing. -/
def empty : Table κ τ := ⟨[], [], rfl⟩

/-- Number of symbols. -/
def size (t : Table κ τ) : Nat := t.symbols.length

/-- Does the level bind nothing? -/
def isEmpty (t : Table κ τ) : Bool := t.symbols.isEmpty

/-- The symbol bound to a name. -/
def get? (t : Table κ τ) (name : String) : Option (Symbol κ τ) :=
  (t.index.lookup name).bind (t.symbols[·]?)

/-- Is the name bound? -/
def isDefined (t : Table κ τ) (name : String) : Bool := (t.get? name).isSome

/-- The level with a symbol more, indexed under its name. -/
def push (t : Table κ τ) (symbol : Symbol κ τ) : Table κ τ where
  symbols := t.symbols ++ [symbol]
  index := t.index ++ [(symbol.name, t.size)]
  index_eq := by
    rw [List.map_append, List.zipIdx_append, ← t.index_eq, List.length_map, Nat.zero_add]
    rfl

/-- Bind a symbol to its name.  A name that is bound stays as it is, and the answer is `false`. -/
def add (t : Table κ τ) (symbol : Symbol κ τ) : Bool × Table κ τ :=
  if (t.index.lookup symbol.name).isSome then (false, t) else (true, t.push symbol)

/-- The names, in declaration order. -/
def names (t : Table κ τ) : List String := t.symbols.map Symbol.name

/-- A symbol is added behind the others. -/
@[simp] theorem symbols_push (t : Table κ τ) (symbol : Symbol κ τ) :
    (t.push symbol).symbols = t.symbols ++ [symbol] := rfl

/-- A level is given by its symbols. -/
theorem ext_symbols {t t' : Table κ τ} (h : t.symbols = t'.symbols) : t = t' := by
  obtain ⟨symbols, _, rfl⟩ := t
  obtain ⟨_, _, rfl⟩ := t'
  cases h
  rfl

/-- Looking up a name among numbered names gives the number of the first that equals it. -/
theorem lookup_zipIdx (names : List String) (name : String) (start : Nat) :
    (names.zipIdx start).lookup name = (names.findIdx? (· = name)).map (· + start) := by
  induction names generalizing start with
  | nil => rfl
  | cons first more ih =>
    rw [List.zipIdx_cons, List.lookup_cons, ih, List.findIdx?_cons]
    by_cases h : first = name
    · simp [h]
    · simp [h, beq_false_of_ne (Ne.symm h), Function.comp_def, Nat.add_assoc, Nat.add_comm 1]

/-- The index leads to the first symbol of a name. -/
theorem lookup_index (t : Table κ τ) (name : String) :
    t.index.lookup name = t.symbols.findIdx? fun symbol => symbol.name = name := by
  rw [t.index_eq, lookup_zipIdx, List.findIdx?_map]
  exact Option.map_id'

/-- Looking up a name through the index finds the first symbol that has it. -/
theorem get?_eq_find? (t : Table κ τ) (name : String) :
    t.get? name = t.symbols.find? fun symbol => symbol.name = name := by
  rw [get?, lookup_index, List.find?_eq_bind_findIdx?_getElem?]

/-- A name is bound if the index knows it. -/
theorem isSome_lookup (t : Table κ τ) (name : String) :
    (t.index.lookup name).isSome = t.isDefined name := by
  rw [isDefined, get?_eq_find?, lookup_index, List.findIdx?_isSome, List.isSome_find?]

/-- A name is defined if some symbol of the table has it. -/
theorem isDefined_iff_mem_names {t : Table κ τ} {name : String} :
    t.isDefined name = true ↔ name ∈ t.names := by
  simp [isDefined, get?_eq_find?, names]

/-- A symbol whose name is taken is not added. -/
theorem add_of_isDefined {t : Table κ τ} {symbol : Symbol κ τ}
    (h : t.isDefined symbol.name = true) : t.add symbol = (false, t) := by
  rw [add, isSome_lookup, if_pos h]

/-- A symbol whose name is free is added. -/
theorem add_of_not_isDefined {t : Table κ τ} {symbol : Symbol κ τ}
    (h : t.isDefined symbol.name = false) : t.add symbol = (true, t.push symbol) := by
  rw [add, isSome_lookup, if_neg (by simp [h])]

end Table

/-! ## Nested levels -/

/-- A level with the scope that encloses it. -/
inductive Scope (κ τ : Type) where
  | outermost (table : Table κ τ)
  | nested (table : Table κ τ) (outer : Scope κ τ)

namespace Scope

variable {κ τ : Type}

/-- The innermost level. -/
def table : Scope κ τ → Table κ τ
  | outermost table => table
  | nested table _ => table

/-- The enclosing scope. -/
def outer? : Scope κ τ → Option (Scope κ τ)
  | outermost _ => none
  | nested _ outer => some outer

/-- The same scope with another innermost level. -/
def setTable (table : Table κ τ) : Scope κ τ → Scope κ τ
  | outermost _ => outermost table
  | nested _ outer => nested table outer

/-- The symbol bound to a name on the innermost level. -/
def local? (s : Scope κ τ) (name : String) : Option (Symbol κ τ) := s.table.get? name

/-- The symbol bound to a name on the innermost level that binds it. -/
def get? : Scope κ τ → String → Option (Symbol κ τ)
  | outermost table, name => table.get? name
  | nested table outer, name =>
    match table.get? name with
    | some symbol => some symbol
    | none => outer.get? name

/-- Is the name bound on any level? -/
def isDefined (s : Scope κ τ) (name : String) : Bool := (s.get? name).isSome

/-- Number of levels between the innermost one and the one that binds the name.  The outermost
level counts as binding every name that the others do not bind. -/
def depth : Scope κ τ → String → Nat
  | outermost _, _ => 0
  | nested table outer, name => if table.isDefined name then 0 else outer.depth name + 1

/-- Bind a symbol on the innermost level. -/
def add (s : Scope κ τ) (symbol : Symbol κ τ) : Bool × Scope κ τ :=
  ((s.table.add symbol).1, s.setTable (s.table.add symbol).2)

/-- The levels, innermost first. -/
def levels : Scope κ τ → List (Table κ τ)
  | outermost table => [table]
  | nested table outer => table :: outer.levels

/-- A look-up goes through the levels from the inside out. -/
theorem get?_eq_findSome? (s : Scope κ τ) (name : String) :
    s.get? name = s.levels.findSome? (·.get? name) := by
  induction s with
  | outermost table =>
    simp only [get?, levels, List.findSome?_cons, List.findSome?_nil]
    cases table.get? name <;> rfl
  | nested table outer ih =>
    simp only [get?, levels, List.findSome?_cons, ih]
    cases table.get? name <;> rfl

/-- Replacing the table of a scope gives it this table. -/
@[simp] theorem table_setTable (s : Scope κ τ) (t : Table κ τ) : (s.setTable t).table = t := by
  cases s <;> rfl

/-- Replacing the table of a scope leaves what is around it. -/
@[simp] theorem outer?_setTable (s : Scope κ τ) (t : Table κ τ) :
    (s.setTable t).outer? = s.outer? := by
  cases s <;> rfl

end Scope

/-! ## The stack of open scopes -/

/-- The open scopes of a run. -/
structure ScopeStack (κ τ : Type) where
  /-- The innermost open scope. -/
  current? : Option (Scope κ τ)
  /-- Number of open levels. -/
  level : Nat

namespace ScopeStack

variable {κ τ : Type}

/-- The stack with no open scope. -/
def empty : ScopeStack κ τ := ⟨none, 0⟩

/-- Is no scope open? -/
def isEmpty (s : ScopeStack κ τ) : Bool := s.current?.isNone

/-- Open a scope that binds nothing inside the current one. -/
def openScope (s : ScopeStack κ τ) : ScopeStack κ τ :=
  match s.current? with
  | none => ⟨some (.outermost .empty), s.level + 1⟩
  | some outer => ⟨some (.nested .empty outer), s.level + 1⟩

/-- Close the innermost scope.  With no scope open nothing changes, and the answer is `false`. -/
def closeScope (s : ScopeStack κ τ) : Bool × ScopeStack κ τ :=
  match s.current? with
  | none => (false, s)
  | some scope => (true, ⟨scope.outer?, s.level - 1⟩)

/-- Bind a symbol in the innermost scope, if one is open. -/
def add? (s : ScopeStack κ τ) (symbol : Symbol κ τ) : Option (Bool × ScopeStack κ τ) :=
  s.current?.map fun scope => ((scope.add symbol).1, ⟨some (scope.add symbol).2, s.level⟩)

/-- The symbol that a name stands for in the innermost scope. -/
def get? (s : ScopeStack κ τ) (name : String) : Option (Symbol κ τ) :=
  s.current?.bind (·.get? name)

/-- The symbol bound to a name on the innermost level. -/
def local? (s : ScopeStack κ τ) (name : String) : Option (Symbol κ τ) :=
  s.current?.bind (·.local? name)

/-- The open levels, innermost first. -/
def levels (s : ScopeStack κ τ) : List (Table κ τ) := s.current?.elim [] Scope.levels

/-- The empty stack has no levels. -/
@[simp] theorem levels_empty : (empty : ScopeStack κ τ).levels = [] := rfl

/-- Opening puts an empty level in front. -/
@[simp] theorem levels_openScope (s : ScopeStack κ τ) :
    s.openScope.levels = .empty :: s.levels := by
  obtain ⟨_ | _, _⟩ := s <;> rfl

/-- Closing drops the front level. -/
@[simp] theorem levels_closeScope (s : ScopeStack κ τ) :
    s.closeScope.2.levels = s.levels.tail := by
  obtain ⟨_ | ⟨_⟩ | ⟨_, _⟩, _⟩ := s <;> rfl

/-- A look-up goes through the open levels from the inside out. -/
theorem get?_eq_findSome? (s : ScopeStack κ τ) (name : String) :
    s.get? name = s.levels.findSome? (·.get? name) := by
  obtain ⟨_ | scope, _⟩ := s
  · rfl
  · exact scope.get?_eq_findSome? name

/-- A scope that was just opened closes without a trace. -/
@[simp] theorem closeScope_openScope (s : ScopeStack κ τ) :
    s.openScope.closeScope = (true, s) := by
  obtain ⟨_ | _, _⟩ := s <;> rfl

end ScopeStack

end SinglePass
