import SinglePass.Scope

/-!
# Scopes as lists of bindings

A stack of scopes stands for a list of levels, innermost first, each the list of its symbols in
declaration order (`ScopeStack.bindings`).  Whatever is asked of stacks and of copies of them, in
any number and order, is answered as those lists answer it (`ScopeStack.serve_eq_levels`), and
every stack that comes up is well-formed (`ScopeStack.Sound`): its counter is the number of its
levels, and the names of a level differ.

One operation comes first (`ScopeStack.perform_eq_levels`, `ScopeStack.Sound.perform`); a run of
them follows by induction.  A look-up needs no well-formedness, since a table carries the proof that
its index has the positions of its names; the counter does.
-/

namespace SinglePass

variable {κ τ : Type}

/-! ## Operations -/

namespace ScopeStack

/-- What can be asked of a stack of scopes.  All but the first two and the last two operations go
to the innermost scope. -/
inductive Operation (κ τ : Type) where
  | openScope
  | closeScope
  | add (symbol : Symbol κ τ)
  | get (name : String)
  | localGet (name : String)
  | outerGet (name : String)
  | isDefined (name : String)
  | depth (name : String)
  | symbols
  | size
  | bindsNothing
  | level
  | isEmpty

/-- What is answered. -/
inductive Reply (κ τ : Type) where
  | done
  /-- There is no scope, or no stack, to ask. -/
  | nobody
  | flag (answer : Bool)
  | found (symbol? : Option (Symbol κ τ))
  | number (n : Nat)
  | list (symbols : List (Symbol κ τ))

/-- Ask the innermost scope. -/
def ask (s : ScopeStack κ τ) (query : Scope κ τ → Reply κ τ) : Reply κ τ × ScopeStack κ τ :=
  (s.current?.elim .nobody query, s)

/-- Do what is asked. -/
def perform (s : ScopeStack κ τ) : Operation κ τ → Reply κ τ × ScopeStack κ τ
  | .openScope => (.done, s.openScope)
  | .closeScope => (.flag s.closeScope.1, s.closeScope.2)
  | .add symbol => (s.add? symbol).elim (.nobody, s) fun added => (.flag added.1, added.2)
  | .get name => s.ask fun scope => .found (scope.get? name)
  | .localGet name => s.ask fun scope => .found (scope.local? name)
  | .outerGet name =>
    s.ask fun scope => scope.outer?.elim .nobody fun outer => .found (outer.get? name)
  | .isDefined name => s.ask fun scope => .flag (scope.isDefined name)
  | .depth name => s.ask fun scope => .number (scope.depth name)
  | .symbols => s.ask fun scope => .list scope.table.symbols
  | .size => s.ask fun scope => .number scope.table.size
  | .bindsNothing => s.ask fun scope => .flag scope.table.isEmpty
  | .level => (.number s.level, s)
  | .isEmpty => (.flag s.isEmpty, s)

end ScopeStack

open ScopeStack (Operation Reply)

/-! ## The same on lists -/

/-- Levels of bindings, innermost first, each the list of its symbols in declaration order. -/
abbrev Levels (κ τ : Type) := List (List (Symbol κ τ))

namespace Levels

/-- The symbol of a name on one level. -/
def onLevel? (name : String) (level : List (Symbol κ τ)) : Option (Symbol κ τ) :=
  level.find? fun symbol => symbol.name = name

/-- The symbol of a name on the innermost level that has the name. -/
def get? (levels : Levels κ τ) (name : String) : Option (Symbol κ τ) :=
  levels.findSome? (onLevel? name)

/-- Position of the innermost level that has the name, or else of the outermost level. -/
def depth (levels : Levels κ τ) (name : String) : Nat :=
  (levels.findIdx? fun level => (onLevel? name level).isSome).getD (levels.length - 1)

/-- Put a symbol at the end of the innermost level, unless its name is there. -/
def add (symbol : Symbol κ τ) : Levels κ τ → Reply κ τ × Levels κ τ
  | [] => (.nobody, [])
  | level :: outer =>
    if (onLevel? symbol.name level).isSome then (.flag false, level :: outer)
    else (.flag true, (level ++ [symbol]) :: outer)

/-- Ask the innermost level with the levels around it. -/
def ask (levels : Levels κ τ) (query : List (Symbol κ τ) → Levels κ τ → Reply κ τ) :
    Reply κ τ × Levels κ τ :=
  match levels with
  | [] => (.nobody, [])
  | level :: outer => (query level outer, level :: outer)

/-- Do what is asked. -/
def perform (levels : Levels κ τ) : Operation κ τ → Reply κ τ × Levels κ τ
  | .openScope => (.done, [] :: levels)
  | .closeScope => (.flag !levels.isEmpty, levels.tail)
  | .add symbol => levels.add symbol
  | .get name => levels.ask fun level outer => .found (get? (level :: outer) name)
  | .localGet name => levels.ask fun level _ => .found (onLevel? name level)
  | .outerGet name =>
    levels.ask fun _ outer => if outer.isEmpty then .nobody else .found (get? outer name)
  | .isDefined name => levels.ask fun level outer => .flag (get? (level :: outer) name).isSome
  | .depth name => levels.ask fun level outer => .number (depth (level :: outer) name)
  | .symbols => levels.ask fun level _ => .list level
  | .size => levels.ask fun level _ => .number level.length
  | .bindsNothing => levels.ask fun level _ => .flag level.isEmpty
  | .level => (.number levels.length, levels)
  | .isEmpty => (.flag levels.isEmpty, levels)

end Levels

/-! ## The bindings of scopes -/

/-- The symbols of the levels of a scope. -/
def Scope.bindings (s : Scope κ τ) : Levels κ τ := s.levels.map Table.symbols

/-- The symbols of the levels of a stack. -/
def ScopeStack.bindings (s : ScopeStack κ τ) : Levels κ τ := s.levels.map Table.symbols

/-- The levels that enclose the innermost one. -/
def Scope.around (s : Scope κ τ) : Levels κ τ := s.outer?.elim [] bindings

namespace Scope

variable {s : Scope κ τ}

/-- The bindings of a scope are those of its own table, and of the levels around it. -/
theorem bindings_eq_cons : s.bindings = s.table.symbols :: s.around := by
  cases s <;> rfl

/-- A scope has a level at least. -/
theorem length_bindings_pos : 0 < s.bindings.length := by
  rw [bindings_eq_cons]
  exact Nat.succ_pos _

/-- A name is found in a stack as it is in the list of its levels. -/
theorem get?_eq_levels (name : String) : s.get? name = s.bindings.get? name := by
  have htable : (Levels.onLevel? name ∘ Table.symbols : Table κ τ → _) = (·.get? name) :=
    funext fun t => (t.get?_eq_find? name).symm
  rw [get?_eq_findSome?, bindings, Levels.get?, List.findSome?_map, htable]

/-- A scope counts outwards to the level that has the name, and no further than the last level. -/
theorem depth_eq_levels (name : String) : s.depth name = s.bindings.depth name := by
  have hdefined (t : Table κ τ) : (Levels.onLevel? name t.symbols).isSome = t.isDefined name := by
    rw [Table.isDefined, t.get?_eq_find?]
    rfl
  induction s with
  | outermost table =>
    change 0 = (([table.symbols].findIdx? _).getD 0)
    rw [List.findIdx?_singleton]
    split <;> rfl
  | nested table outer ih =>
    change (if table.isDefined name then 0 else outer.depth name + 1) =
      ((table.symbols :: outer.bindings).findIdx? _).getD outer.bindings.length
    rw [List.findIdx?_cons, hdefined table, ih, Levels.depth]
    cases table.isDefined name with
    | true => rfl
    | false =>
      have hpos : 0 < outer.bindings.length := length_bindings_pos
      cases outer.bindings.findIdx? fun level => (Levels.onLevel? name level).isSome with
      | none => exact Nat.sub_add_cancel hpos
      | some i => rfl

end Scope

namespace ScopeStack

variable {s : ScopeStack κ τ}

/-- A question to the innermost scope is answered by the levels, if it is a question about them. -/
theorem ask_eq_levels {query : Scope κ τ → Reply κ τ}
    {query' : List (Symbol κ τ) → Levels κ τ → Reply κ τ}
    (h : ∀ scope, query scope = query' scope.table.symbols scope.around) :
    s.bindings.ask query' = ((s.ask query).1, (s.ask query).2.bindings) := by
  obtain ⟨_ | scope, level⟩ := s
  · rfl
  · change Levels.ask scope.bindings query' = (query scope, scope.bindings)
    rw [Scope.bindings_eq_cons, h]
    rfl

/-- Closing a scope drops the first level. -/
theorem bindings_closeScope : s.closeScope.2.bindings = s.bindings.tail := by
  rw [bindings, levels_closeScope, bindings, List.map_tail]

/-- Closing a scope says whether there was one. -/
theorem closeScope_eq_isEmpty : s.closeScope.1 = !s.bindings.isEmpty := by
  obtain ⟨_ | scope, level⟩ := s
  · rfl
  · change true = !scope.bindings.isEmpty
    rw [Scope.bindings_eq_cons]
    rfl

/-- A stack is empty if its list of levels is. -/
theorem isEmpty_eq_levels : s.isEmpty = s.bindings.isEmpty := by
  obtain ⟨_ | scope, level⟩ := s
  · rfl
  · change false = scope.bindings.isEmpty
    rw [Scope.bindings_eq_cons]
    rfl

/-- A symbol is added to a stack as it is to the list of its levels. -/
theorem add_eq_levels (symbol : Symbol κ τ) :
    s.bindings.add symbol =
      ((s.perform (.add symbol)).1, (s.perform (.add symbol)).2.bindings) := by
  obtain ⟨_ | scope, level⟩ := s
  · rfl
  · have hdefined : (Levels.onLevel? symbol.name scope.table.symbols).isSome =
        scope.table.isDefined symbol.name := by
      rw [Table.isDefined, Table.get?_eq_find?]
      rfl
    have hsetTable (t : Table κ τ) : (scope.setTable t).bindings = t.symbols :: scope.around := by
      rw [Scope.bindings_eq_cons, Scope.table_setTable, Scope.around, Scope.outer?_setTable]
      rfl
    change Levels.add symbol scope.bindings =
      (.flag (scope.table.add symbol).1, (scope.setTable (scope.table.add symbol).2).bindings)
    rw [Scope.bindings_eq_cons, Levels.add, hdefined, hsetTable]
    cases hbound : scope.table.isDefined symbol.name with
    | true => rw [Table.add_of_isDefined hbound, if_pos rfl]
    | false =>
      rw [Table.add_of_not_isDefined hbound, if_neg Bool.false_ne_true]
      rfl

end ScopeStack

/-! ## Well-formed stacks -/

/-- Only a name that is new gets bound, at the end. -/
theorem Table.nodup_names_add {t : Table κ τ} (h : t.names.Nodup) (symbol : Symbol κ τ) :
    (t.add symbol).2.names.Nodup := by
  cases hbound : t.isDefined symbol.name with
  | true =>
    rw [add_of_isDefined hbound]
    exact h
  | false =>
    have hnew : symbol.name ∉ t.names := fun hmem =>
      Bool.false_ne_true (hbound.symm.trans (isDefined_iff_mem_names.2 hmem))
    have hnames : (t.push symbol).names = t.names ++ [symbol.name] := List.map_append
    rw [add_of_not_isDefined hbound, hnames]
    refine List.nodup_append.2 ⟨h, by simp, ?_⟩
    rintro name hname _ hlast rfl
    exact hnew (List.mem_singleton.1 hlast ▸ hname)

namespace ScopeStack

/-- A stack whose counter is the number of its levels, and that has no name twice on a level. -/
structure Sound (s : ScopeStack κ τ) : Prop where
  level_eq : s.level = s.levels.length
  distinct : ∀ table ∈ s.levels, table.names.Nodup

namespace Sound

variable {s : ScopeStack κ τ}

/-- The empty stack is sound. -/
theorem empty : (ScopeStack.empty : ScopeStack κ τ).Sound := ⟨rfl, by simp⟩

/-- Opening a scope keeps a stack sound. -/
theorem openScope (h : s.Sound) : s.openScope.Sound where
  level_eq := by
    have hlevel : s.openScope.level = s.level + 1 := by
      obtain ⟨_ | _, _⟩ := s <;> rfl
    rw [hlevel, levels_openScope, List.length_cons, h.level_eq]
  distinct table hmem := by
    rw [levels_openScope] at hmem
    obtain rfl | hmem := List.mem_cons.1 hmem
    · exact List.nodup_nil
    · exact h.distinct table hmem

/-- With a scope open the counter is not zero, so that closing takes one off. -/
theorem level_closeScope (h : s.Sound) (hopen : s.closeScope.1 = true) :
    s.closeScope.2.level + 1 = s.level := by
  obtain ⟨_ | scope, level⟩ := s
  · cases hopen
  · have hlevel : level = scope.levels.length := h.level_eq
    have hpos : 0 < level := by
      rw [hlevel]
      cases scope <;> exact Nat.succ_pos _
    exact Nat.sub_add_cancel hpos

/-- Closing a scope keeps a stack sound. -/
theorem closeScope (h : s.Sound) : s.closeScope.2.Sound where
  level_eq := by
    rw [levels_closeScope, List.length_tail, ← h.level_eq]
    obtain ⟨_ | scope, level⟩ := s
    · have hlevel : level = 0 := h.level_eq
      rw [hlevel]
      rfl
    · rfl
  distinct table hmem := by
    rw [levels_closeScope] at hmem
    exact h.distinct table (List.mem_of_mem_tail hmem)

/-- Adding a symbol keeps a stack sound. -/
theorem add? {s' : ScopeStack κ τ} {symbol : Symbol κ τ} {added : Bool} (h : s.Sound)
    (hadd : s.add? symbol = some (added, s')) : s'.Sound := by
  obtain ⟨_ | scope, level⟩ := s
  · cases hadd
  · cases hadd
    obtain ⟨hlevel, hdistinct⟩ := h
    cases scope with
    | outermost table =>
      refine ⟨hlevel, fun _ hmem => ?_⟩
      obtain rfl := List.mem_singleton.1 hmem
      exact Table.nodup_names_add (hdistinct table List.mem_cons_self) symbol
    | nested table outer =>
      refine ⟨hlevel, fun other hmem => ?_⟩
      obtain rfl | hmem := List.mem_cons.1 hmem
      · exact Table.nodup_names_add (hdistinct table List.mem_cons_self) symbol
      · exact hdistinct other (List.mem_cons_of_mem _ hmem)

/-- Every operation keeps a stack well-formed. -/
theorem perform (h : s.Sound) (operation : Operation κ τ) : (s.perform operation).2.Sound := by
  cases operation with
  | openScope => exact h.openScope
  | closeScope => exact h.closeScope
  | add symbol =>
    rw [ScopeStack.perform]
    cases hadd : s.add? symbol with
    | none => exact h
    | some added => exact h.add? hadd
  | _ => exact h

end Sound

/-! ## One operation -/

/-- An operation answers what the levels answer, and leaves what they leave. -/
theorem perform_eq_levels {s : ScopeStack κ τ} (h : s.Sound) (operation : Operation κ τ) :
    s.bindings.perform operation =
      ((s.perform operation).1, (s.perform operation).2.bindings) := by
  cases operation with
  | openScope =>
    change (Reply.done, [] :: s.bindings) = (Reply.done, s.openScope.bindings)
    rw [bindings, bindings, levels_openScope]
    rfl
  | closeScope => rw [perform, Levels.perform, closeScope_eq_isEmpty, bindings_closeScope]
  | add symbol => exact add_eq_levels symbol
  | get name =>
    refine ask_eq_levels fun scope => ?_
    rw [scope.get?_eq_levels, Scope.bindings_eq_cons]
  | localGet name =>
    refine ask_eq_levels fun scope => ?_
    rw [Scope.local?, Table.get?_eq_find?]
    rfl
  | outerGet name =>
    refine ask_eq_levels fun scope => ?_
    cases scope with
    -- The outermost scope has nobody to ask.
    | outermost table => rfl
    | nested table outer =>
      change Reply.found (outer.get? name) =
        if outer.bindings.isEmpty then .nobody else .found (outer.bindings.get? name)
      rw [outer.get?_eq_levels, Scope.bindings_eq_cons]
      rfl
  | isDefined name =>
    refine ask_eq_levels fun scope => ?_
    rw [Scope.isDefined, scope.get?_eq_levels, Scope.bindings_eq_cons]
  | depth name =>
    refine ask_eq_levels fun scope => ?_
    rw [scope.depth_eq_levels, Scope.bindings_eq_cons]
  | symbols => exact ask_eq_levels fun _ => rfl
  | size => exact ask_eq_levels fun _ => rfl
  | bindsNothing => exact ask_eq_levels fun _ => rfl
  | level => rw [perform, Levels.perform, h.level_eq, bindings, List.length_map]
  | isEmpty => rw [perform, Levels.perform, isEmpty_eq_levels]

/-! ## Runs over stacks and their copies -/

/-- A step of a run that holds several stacks: an operation on one of them, or a copy of one,
which becomes the last. -/
inductive Step (κ τ : Type) where
  | perform (i : Nat) (operation : Operation κ τ)
  | clone (i : Nat)

variable {σ : Type}

/-- One step, for any sort of stack. -/
def serveOne (perform : σ → Operation κ τ → Reply κ τ × σ) (held : List σ) :
    Step κ τ → Reply κ τ × List σ
  | .perform i operation =>
    match held[i]? with
    | none => (.nobody, held)
    | some s => ((perform s operation).1, held.set i (perform s operation).2)
  | .clone i =>
    match held[i]? with
    | none => (.nobody, held)
    | some s => (.done, held ++ [s])

/-- A run: the answers in order and the stacks afterwards. -/
def serve (perform : σ → Operation κ τ → Reply κ τ × σ) :
    List (Step κ τ) → List σ → List (Reply κ τ) × List σ
  | [], held => ([], held)
  | step :: steps, held =>
    let (reply, held) := serveOne perform held step
    let (replies, held) := serve perform steps held
    (reply :: replies, held)

/-- Several steps are served one after the other. -/
theorem serve_cons (perform : σ → Operation κ τ → Reply κ τ × σ) (step : Step κ τ)
    (steps : List (Step κ τ)) (held : List σ) :
    serve perform (step :: steps) held =
      ((serveOne perform held step).1 :: (serve perform steps (serveOne perform held step).2).1,
        (serve perform steps (serveOne perform held step).2).2) := rfl

variable {held : List (ScopeStack κ τ)}

/-- A step keeps every stack well-formed: those that it does not touch, too. -/
theorem sound_of_mem_serveOne (h : ∀ s ∈ held, s.Sound) (step : Step κ τ) :
    ∀ s ∈ (serveOne perform held step).2, s.Sound := by
  cases step with
  | perform i operation =>
    rw [serveOne]
    cases hstack : held[i]? with
    | none => exact h
    | some t =>
      intro s hmem
      obtain hmem | rfl := List.mem_or_eq_of_mem_set hmem
      · exact h s hmem
      · exact (h t (List.mem_of_getElem? hstack)).perform operation
  | clone i =>
    rw [serveOne]
    cases hstack : held[i]? with
    | none => exact h
    | some t =>
      intro s hmem
      obtain hmem | hmem := List.mem_append.1 hmem
      · exact h s hmem
      · exact List.mem_singleton.1 hmem ▸ h t (List.mem_of_getElem? hstack)

/-- One step is served by a stack as it is by the list of its levels. -/
theorem serveOne_eq_levels (h : ∀ s ∈ held, s.Sound) (step : Step κ τ) :
    serveOne Levels.perform (held.map bindings) step =
      ((serveOne perform held step).1, (serveOne perform held step).2.map bindings) := by
  cases step with
  | perform i operation =>
    rw [serveOne, serveOne, List.getElem?_map]
    cases hstack : held[i]? with
    | none => rfl
    | some s =>
      have hperform := perform_eq_levels (h s (List.mem_of_getElem? hstack)) operation
      change (((s.bindings.perform operation).1,
        (held.map bindings).set i (s.bindings.perform operation).2) : _ × _) = _
      rw [hperform, List.map_set]
  | clone i =>
    rw [serveOne, serveOne, List.getElem?_map]
    cases held[i]? with
    | none => rfl
    | some s =>
      change ((Reply.done, held.map bindings ++ [s.bindings]) : _ × _) = _
      rw [List.map_append]
      rfl

/-- A run from well-formed stacks answers what the levels answer, leaves what they leave, and keeps
the stacks well-formed. -/
theorem serve_from_sound (h : ∀ s ∈ held, s.Sound) (steps : List (Step κ τ)) :
    serve Levels.perform steps (held.map bindings) =
        ((serve perform steps held).1, (serve perform steps held).2.map bindings) ∧
      ∀ s ∈ (serve perform steps held).2, s.Sound := by
  induction steps generalizing held with
  | nil => exact ⟨rfl, h⟩
  | cons step steps ih =>
    obtain ⟨hanswers, hsound⟩ := ih (sound_of_mem_serveOne h step)
    refine ⟨?_, hsound⟩
    rw [serve_cons, serveOne_eq_levels h step, hanswers, serve_cons]

/-- **Stacks of scopes refine lists of levels.**  A run over the stack with no open scope and its
copies answers, step by step, what lists of levels answer, and the stacks stand for the lists
throughout.  Every stack that is reached counts its levels, so that closing a scope takes one off
a counter that is not zero; the names of each of its levels differ; and the index of each level
has exactly the positions of the names. -/
theorem serve_eq_levels (steps : List (Step κ τ)) :
    (serve perform steps [empty]).1 = (serve Levels.perform steps [([] : Levels κ τ)]).1 ∧
      (serve perform steps [empty]).2.map bindings =
        (serve Levels.perform steps [([] : Levels κ τ)]).2 ∧
      ∀ s ∈ (serve perform steps [empty]).2,
        s.level = s.bindings.length ∧
          (s.closeScope.1 = true → s.closeScope.2.level + 1 = s.level) ∧
          ∀ table ∈ s.levels, table.names.Nodup ∧ table.index = table.names.zipIdx := by
  have hstart : ∀ s ∈ [(empty : ScopeStack κ τ)], s.Sound := fun s hmem =>
    List.mem_singleton.1 hmem ▸ Sound.empty
  obtain ⟨hanswers, hsound⟩ := serve_from_sound hstart steps
  change serve Levels.perform steps [([] : Levels κ τ)] = _ at hanswers
  rw [hanswers]
  refine ⟨rfl, rfl, fun s hmem => ⟨?_, (hsound s hmem).level_closeScope, fun table htable =>
    ⟨(hsound s hmem).distinct table htable, table.index_eq⟩⟩⟩
  rw [(hsound s hmem).level_eq, bindings, List.length_map]

end ScopeStack

end SinglePass
