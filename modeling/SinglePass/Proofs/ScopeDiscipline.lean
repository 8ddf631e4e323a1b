import SinglePass.Proofs.Engine.Strategies

/-!
# Scopes are closed by the rules that open them

No rule of Simple leaves a scope behind, and none touches a scope that it has not opened, however
the tokens stand and whatever the run has to recover from.

* `ScopeStack.push`, `ScopeStack.pushAll`: levels on top of a stack that stays as it is.
* `Disciplined.scoped`: the one induction.  A rule that ends with a value leaves the levels below
  its own scope as they were, and closes what it has opened; a rule that gives up leaves the levels
  it has opened on top of them.
* `Simple.scope_discipline`: what this says of the rules of Simple and of reports.
-/

namespace SinglePass

variable {κ τ ω α β : Type}

/-! ## Levels on top of a stack -/

namespace ScopeStack

/-- The stack with one more level, which is the innermost one. -/
def push (outer : ScopeStack κ τ) (table : Table κ τ) : ScopeStack κ τ :=
  ⟨some (outer.current?.elim (.outermost table) (.nested table)), outer.level + 1⟩

/-- The stack with more levels, innermost first. -/
def pushAll (outer : ScopeStack κ τ) (tables : List (Table κ τ)) : ScopeStack κ τ :=
  tables.foldr (fun table s => s.push table) outer

variable {outer : ScopeStack κ τ} {table : Table κ τ}

/-- Opening a scope puts an empty level on top. -/
theorem openScope_eq_push (s : ScopeStack κ τ) : s.openScope = s.push .empty := by
  obtain ⟨_ | _, _⟩ := s <;> rfl

/-- Closing a scope takes off what was put on top. -/
@[simp] theorem closeScope_push : (outer.push table).closeScope = (true, outer) := by
  obtain ⟨_ | _, _⟩ := outer <;> rfl

/-- What was put on top is the innermost level. -/
@[simp] theorem levels_push : (outer.push table).levels = table :: outer.levels := by
  obtain ⟨_ | _, _⟩ := outer <;> rfl

/-- What was put on top, level by level, comes before the levels below. -/
@[simp] theorem levels_pushAll (tables : List (Table κ τ)) :
    (outer.pushAll tables).levels = tables ++ outer.levels := by
  induction tables with
  | nil => rfl
  | cons table tables ih =>
    show ((outer.pushAll tables).push table).levels = _
    rw [levels_push, ih, List.cons_append]

/-- Each level that is put on top counts. -/
@[simp] theorem level_pushAll (tables : List (Table κ τ)) :
    (outer.pushAll tables).level = outer.level + tables.length := by
  induction tables with
  | nil => rfl
  | cons table tables ih =>
    show (outer.pushAll tables).level + 1 = _
    rw [ih, List.length_cons, Nat.add_assoc]

/-- With a level on top, the stack is not empty. -/
@[simp] theorem isEmpty_push : (outer.push table).isEmpty = false := rfl

/-- A declaration goes to the level on top. -/
theorem add?_push (symbol : Symbol κ τ) :
    (outer.push table).add? symbol =
      some ((table.add symbol).1, outer.push (table.add symbol).2) := by
  obtain ⟨_ | _, _⟩ := outer <;> rfl

/-- A name is looked up locally on the level on top. -/
theorem local?_push (name : String) : (outer.push table).local? name = table.get? name := by
  obtain ⟨_ | _, _⟩ := outer <;> rfl

/-- The scopes of a rule: those around it, with its own scope on top if it may bind names. -/
inductive Around (outer : ScopeStack κ τ) : Bool → ScopeStack κ τ → Prop
  | outside : Around outer false outer
  | inside (table : Table κ τ) : Around outer true (outer.push table)

/-- What is around a stack is below some fresh levels of it. -/
theorem Around.eq_pushAll {binds : Bool} {s : ScopeStack κ τ} (h : outer.Around binds s) :
    ∃ fresh, s = outer.pushAll fresh := by
  cases h with
  | outside => exact ⟨[], rfl⟩
  | inside table => exact ⟨[table], rfl⟩

end ScopeStack

/-! ## The rules -/

/-- A declaration inside a scope goes to its level. -/
theorem Recognizer.bindSymbol_of_push {symbol : Symbol κ τ} {s : State κ τ ω}
    {outer : ScopeStack κ τ} {table : Table κ τ} (strategy : Strategy)
    (h : s.scopes = outer.push table) :
    bindSymbol symbol strategy s =
      (.value (table.add symbol).1, { s with scopes := outer.push (table.add symbol).2 }) := by
  simp only [bindSymbol, scopesForDeclaration, h, ScopeStack.isEmpty_push, Bool.false_eq_true,
    if_false, ScopeStack.add?_push]

/-- Requiring a token leaves the scopes alone. -/
theorem Recognizer.scopes_mustBe [TokenKind κ] (kind : κ) (strategy : Strategy)
    (s : State κ τ ω) : (mustBe kind strategy s).2.scopes = s.scopes :=
  mustBe_preserves (p := fun t => t.scopes = s.scopes) (fun t h => (State.shift_scopes t).trans h)
    (fun _ _ h => h) (fun _ _ h => h) kind strategy rfl

/-- An unexpected token leaves the scopes as they are. -/
theorem Recognizer.scopes_unexpected (expected : Expected κ) (strategy : Strategy)
    (s : State κ τ ω) : (unexpected expected strategy s).2.scopes = s.scopes := by
  cases strategy with
  | failFast => rfl
  | recovering =>
    rw [unexpected]
    split <;> rfl

/-- A report leaves the scopes alone, whatever comes of it. -/
theorem Recognizer.scopes_report (d : Diagnostic κ τ) (strategy : Strategy) (s : State κ τ ω) :
    (report d strategy s).2.scopes = s.scopes := by
  cases strategy with
  | failFast => rfl
  | recovering =>
    rw [report_recovering]
    split <;> rfl

/-- A run of a rule that closes what it has opened, or leaves it on top of the scopes around it. -/
structure ScopedAt (binds : Bool) (outer : ScopeStack κ τ) (e : Outcome α × State κ τ ω) :
    Prop where
  around : ∀ a, e.1 = .value a → outer.Around binds e.2.scopes
  onTop : ∃ fresh, e.2.scopes = outer.pushAll fresh

namespace ScopedAt

variable {binds : Bool} {outer : ScopeStack κ τ} {e : Outcome α × State κ τ ω}

/-- A run that ends around some scopes has only put levels on top of them. -/
theorem of_around (h : outer.Around binds e.2.scopes) : ScopedAt binds outer e :=
  ⟨fun _ _ => h, h.eq_pushAll⟩

/-- A run that leaves the scopes alone. -/
theorem of_scopes_eq {s : State κ τ ω} (h : outer.Around binds s.scopes)
    (scopes_eq : e.2.scopes = s.scopes) : ScopedAt binds outer e :=
  .of_around (by rwa [scopes_eq])

/-- A declaration stays in the scope of the rule. -/
theorem bindSymbol {symbol : Symbol κ τ} {strategy : Strategy} {s : State κ τ ω}
    (h : outer.Around true s.scopes) :
    ScopedAt true outer (Recognizer.bindSymbol symbol strategy s) := by
  generalize hs : s.scopes = scopes at h
  cases h with
  | inside table =>
    rw [Recognizer.bindSymbol_of_push strategy hs]
    exact .of_around (.inside _)

/-- A rule on top of a scope of its own stands on the scopes of the rule outside, whatever these
are, and its scope is closed behind it. -/
theorem inScope [TokenKind κ] {r : Recognizer κ τ ω α} {strategy : Strategy} {s : State κ τ ω}
    (around : outer.Around binds s.scopes)
    (hr : ScopedAt true s.scopes (r strategy { s with scopes := s.scopes.push .empty })) :
    ScopedAt binds outer (Recognizer.inScope r strategy s) := by
  have hopen : Recognizer.openScope strategy s =
      (.value (), { s with scopes := s.scopes.push .empty }) := by
    rw [← ScopeStack.openScope_eq_push]
    rfl
  obtain ⟨below, hbelow⟩ := around.eq_pushAll
  have honTop : ∀ fresh, s.scopes.pushAll fresh = outer.pushAll (fresh ++ below) := by
    intro fresh
    rw [hbelow, ScopeStack.pushAll, ScopeStack.pushAll, ScopeStack.pushAll, List.foldr_append]
  rw [Recognizer.inScope, Recognizer.bind_of_value hopen, Recognizer.bind_apply]
  generalize r strategy _ = e at hr
  -- A run that ends closes its scope; one that gives up leaves on top what it has opened.
  obtain ⟨a | _ | _, t⟩ := e
  · have hclosed : t.scopes.closeScope.2 = s.scopes := by
      have hinside := hr.around a rfl
      generalize t.scopes = scopes at hinside
      cases hinside with
      | inside table => rw [ScopeStack.closeScope_push]
    exact .of_scopes_eq around hclosed
  · obtain ⟨fresh, hfresh⟩ := hr.onTop
    exact ⟨by rintro _ ⟨⟩, _, hfresh.trans (honTop fresh)⟩
  · obtain ⟨fresh, hfresh⟩ := hr.onTop
    exact ⟨by rintro _ ⟨⟩, _, hfresh.trans (honTop fresh)⟩

end ScopedAt

/-- The scopes around a disciplined rule stay as they are, and it leaves none of its own behind
unless it gives up. -/
theorem Disciplined.scoped [TokenKind κ] {binds : Bool} {r : Recognizer κ τ ω α}
    (h : Disciplined binds r) (strategy : Strategy) (s : State κ τ ω) {outer : ScopeStack κ τ}
    (around : outer.Around binds s.scopes) : ScopedAt binds outer (r strategy s) := by
  induction h generalizing s outer with
  | pure a => exact .of_scopes_eq around rfl
  | bind _ _ ihr ihf =>
    have hr := ihr s around
    rw [Recognizer.bind_apply]
    split
    · next a t heq =>
      rw [heq] at hr
      exact ihf a t (hr.around a rfl)
    · next t heq =>
      rw [heq] at hr
      exact ⟨by rintro _ ⟨⟩, hr.onTop⟩
    · next t heq =>
      rw [heq] at hr
      exact ⟨by rintro _ ⟨⟩, hr.onTop⟩
  | withFuel _ ih => exact ih _ s around
  | outOfFuel => exact .of_scopes_eq around rfl
  | read f => exact .of_scopes_eq around rfl
  | note w => exact .of_scopes_eq around rfl
  | advance => exact .of_scopes_eq around (State.shift_scopes s)
  | mustBe kind _ => exact .of_scopes_eq around (Recognizer.scopes_mustBe kind strategy s)
  | unexpected expected =>
    exact .of_scopes_eq around (Recognizer.scopes_unexpected expected strategy s)
  | report d _ => exact .of_scopes_eq around (Recognizer.scopes_report d strategy s)
  | bindSymbol symbol => exact .bindSymbol around
  | inScope _ ih => exact .inScope around (ih _ (.inside .empty))

/-! ## Runs and reports -/

/-- How a run leaves the scopes: as they were, if it ends with a value; and if it gives up, with
these below the scopes that it has opened itself. -/
structure KeepsScopes (s : State κ τ ω) (e : Outcome α × State κ τ ω) : Prop where
  value : ∀ a, e.1 = .value a → e.2.scopes = s.scopes
  abort : e.1 = .abort → ∃ fresh, e.2.scopes.levels = fresh ++ s.scopes.levels ∧
    e.2.scopes.level = s.scopes.level + fresh.length

variable [TokenKind κ]

/-- A disciplined rule that binds nothing outside leaves the scopes as they were, if it ends. -/
theorem Disciplined.keepsScopes {r : Recognizer κ τ ω α} (h : Disciplined false r)
    (strategy : Strategy) (s : State κ τ ω) : KeepsScopes s (r strategy s) := by
  have hscoped := h.scoped strategy s .outside
  constructor
  · intro a ha
    have haround := hscoped.around a ha
    generalize (r strategy s).2.scopes = scopes at haround
    cases haround with
    | outside => rfl
  · intro _
    obtain ⟨fresh, hfresh⟩ := hscoped.onTop
    refine ⟨fresh, ?_, ?_⟩
    · rw [hfresh, ScopeStack.levels_pushAll]
    · rw [hfresh, ScopeStack.level_pushAll]

/-- A run begins without scopes. -/
theorem State.initial_scopes (classifier : Classifier κ) (source : Source) :
    (State.initial classifier source : State κ τ ω).scopes = .empty := by
  obtain ⟨first, more, -, hinitial⟩ := State.initial_eq (τ := τ) (ω := ω) classifier source
  rw [hinitial]

/-- A run begins without notes. -/
theorem State.initial_notes (classifier : Classifier κ) (source : Source) :
    (State.initial classifier source : State κ τ ω).notes = [] := by
  obtain ⟨first, more, -, hinitial⟩ := State.initial_eq (τ := τ) (ω := ω) classifier source
  rw [hinitial]

section

variable {start : Recognizer κ τ ω Unit} (disciplined : Disciplined false start)
  (ends : ∀ m, Alike 0 m start start) (classifier : Classifier κ) (source : Source)

include disciplined

/-- A run that ends has closed all of its scopes. -/
theorem Disciplined.run_scopes {strategy : Strategy}
    (h : (run classifier start strategy source).1 = .value ()) :
    (run classifier start strategy source).2.scopes = .empty :=
  ((disciplined.toEnd.keepsScopes strategy _).value () h).trans (State.initial_scopes _ _)

include ends

/-- A recovering run leaves no scope open. -/
theorem Disciplined.recovering_scopes :
    (parse classifier start .recovering source).scopes = .empty :=
  disciplined.run_scopes classifier source
    (disciplined.composed.recovering_run_value ends classifier source)

/-- A run that fails fast leaves scopes open only if it has found a fault. -/
theorem Disciplined.failFast_scopes
    (h : (parse classifier start .failFast source).scopes ≠ .empty) :
    (parse classifier start .failFast source).errors ≠ [] := by
  have habort := disciplined.toEnd.composed.traced.abort_iff
    (State.initial_scansOnly classifier source)
  have hfuel := run_ne_outOfFuel ends classifier .failFast source
  generalize hrun : (run classifier start .failFast source).1 = o at hfuel
  cases o with
  | value => exact absurd (disciplined.run_scopes classifier source hrun) h
  | abort =>
    obtain ⟨found, d, hsink, -, -⟩ := habort.1 hrun
    have hmem : d ∈ (run classifier start .failFast source).2.sink := by
      show d ∈ (start.toEnd .failFast (.initial classifier source)).2.sink
      rw [hsink]
      simp
    exact List.ne_nil_of_mem (Report.mem_errors_ofState.2 hmem)
  | outOfFuel => exact absurd rfl hfuel

end

/-! ## Simple -/

namespace Simple

/-- What Simple keeps to in opening and closing scopes. -/
structure ScopeDiscipline : Prop where
  /-- Statements, lists of statements, blocks and programs keep the scopes, at every state. -/
  statement_keeps : ∀ n strategy s, KeepsScopes s (statement n strategy s)
  statementsOf_keeps : ∀ n strategy s, KeepsScopes s (statementsOf (statement n) strategy s)
  statements_keeps : ∀ strategy s, KeepsScopes s (statements strategy s)
  block_keeps : ∀ n strategy s, KeepsScopes s (block (statement n) strategy s)
  program_keeps : ∀ strategy s, KeepsScopes s (program strategy s)
  /-- They do end with a value or give up: with the rest of a source before them, and fuel for the
  tokens of it, they do not run out of fuel. -/
  statement_ends : ∀ n strategy s, s.Placed → s.ahead.count < n →
    (statement n strategy s).1 ≠ .outOfFuel
  statementsOf_ends : ∀ n strategy s, s.Placed → s.ahead.count < n →
    (statementsOf (statement n) strategy s).1 ≠ .outOfFuel
  statements_ends : ∀ strategy s, s.Placed → (statements strategy s).1 ≠ .outOfFuel
  block_ends : ∀ n strategy s, s.Placed → s.ahead.count < n →
    (block (statement n) strategy s).1 ≠ .outOfFuel
  program_ends : ∀ strategy s, s.Placed → (program strategy s).1 ≠ .outOfFuel
  /-- A recovering run leaves no scope open. -/
  recovering_closes : ∀ source, (check .recovering source).scopes = .empty
  /-- A run that fails fast leaves scopes open only if it has found a fault. -/
  failFast_closes : ∀ source, (check .failFast source).scopes ≠ .empty →
    (check .failFast source).errors ≠ []

/-- At every state, under both strategies and on every source, Simple closes the scopes that it
opens and leaves the others alone. -/
theorem scope_discipline : ScopeDiscipline where
  statement_keeps n := (disciplined_statement n).keepsScopes
  statementsOf_keeps n := (disciplined_statementsOf (disciplined_statement n)).keepsScopes
  statements_keeps := disciplined_statements.keepsScopes
  block_keeps n := (disciplined_block (disciplined_statement n)).keepsScopes
  program_keeps := disciplined_program.keepsScopes
  statement_ends n strategy s placed hn := (alike_statement n strategy s placed hn).fuel
  statementsOf_ends n strategy s placed hn :=
    (alike_statementsOf (alike_statement n) strategy s placed hn).fuel
  statements_ends strategy s placed :=
    (alike_statements strategy s placed (Nat.lt_succ_self _)).fuel
  block_ends n strategy s placed hn :=
    (alike_block (alike_statement n) strategy s placed hn).fuel
  program_ends strategy s placed := (alike_program strategy s placed (Nat.lt_succ_self _)).fuel
  recovering_closes := disciplined_program.recovering_scopes (fun _ => alike_program) classifier
  failFast_closes := disciplined_program.failFast_scopes (fun _ => alike_program) classifier

end Simple

end SinglePass
