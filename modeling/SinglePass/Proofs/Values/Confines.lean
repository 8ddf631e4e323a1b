import SinglePass.Proofs.ScopeDiscipline
import SinglePass.Proofs.Silence.Warrants

/-!
# What comes into the scopes

A property of symbols holds of all symbols in the scopes, at every moment of a run, if it holds of
those that are bound (`Move.allBound`, `AdmittingRun.moments`).

`Confines q post r` says of the rule `r` that whatever it binds and notes down has the property `q`,
and that its values have the property `post`.  It speaks of all runs, under either strategy and
wherever they begin, whether they recover or not.
-/

namespace SinglePass

variable {κ τ ω α β : Type}

section

variable [TokenKind κ] {strategy : Strategy} {q : Symbol κ τ → Prop}

/-! ## Moves -/

/-- An operation that binds nothing but symbols with a property. -/
def Operation.Admits (q : Symbol κ τ → Prop) : Operation κ τ → Prop
  | bindSymbol symbol => q symbol
  | _ => True

/-- A run in whose scopes all symbols have a property. -/
def State.AllBound (q : Symbol κ τ → Prop) (s : State κ τ ω) : Prop :=
  ∀ symbol, s.scopes.Binds symbol → q symbol

omit [TokenKind κ] in
/-- What is bound is a matter of the scopes alone. -/
theorem State.AllBound.congr {s t : State κ τ ω} (h : s.AllBound q) (heq : t.scopes = s.scopes) :
    t.AllBound q := fun symbol hbinds => h symbol (heq ▸ hbinds)

/-- A move brings no other symbols into the scopes. -/
theorem Move.allBound {m : Move κ τ strategy} (h : m.before.AllBound q)
    (admits : m.operation.Admits q) : m.after.AllBound q := by
  obtain ⟨s, operation, allowed⟩ := m
  have plain : ∀ {γ : Type} (r : Recognizer κ τ Unit γ), (r strategy s).2.AllBound q →
      ((r >>= fun _ => (pure none : Recognizer κ τ Unit (Option (Token κ)))) strategy s).2.AllBound
        q := by
    intro γ r hr
    rwa [Recognizer.state_bind_pure r fun _ => none]
  cases operation with
  | advance => exact h.congr s.shift_scopes
  | discard => exact h.congr s.shift_scopes
  | mustBe kind => exact h.congr (Recognizer.scopes_mustBe kind strategy s)
  | unexpected expected => exact plain _ (h.congr (Recognizer.scopes_unexpected _ _ _))
  | report d => exact plain _ (h.congr (Recognizer.scopes_report d strategy s))
  | openScope => exact fun symbol hbinds => h symbol hbinds.of_openScope
  | closeScope => exact fun symbol hbinds => h symbol hbinds.of_closeScope
  | bindSymbol symbol =>
    refine plain (Recognizer.bindSymbol symbol) fun other hbinds => ?_
    rw [Recognizer.bindSymbol] at hbinds
    split at hbinds
    · next added scopes hadd =>
      obtain rfl | hbinds := hbinds.of_add? hadd
      · exact admits
      · exact h other hbinds
    · exact h other hbinds

/-- A run from a state to another one in which nothing else is bound. -/
abbrev AdmittingRun (q : Symbol κ τ → Prop) (strategy : Strategy) (s t : State κ τ ω) : Prop :=
  RunsBy (fun m : Move κ τ strategy => m.operation.Admits q) s t

/-- At every moment of such a run, all symbols in the scopes have the property. -/
theorem AdmittingRun.moments {s t : State κ τ ω} (h : AdmittingRun q strategy s t)
    (hs : s.AllBound q) :
    ∃ ms : List (Move κ τ strategy), Leads s.engine ms t.engine ∧
      ∀ m ∈ ms, m.before.AllBound q ∧ m.after.AllBound q := by
  obtain ⟨ms, hleads, hadmits⟩ := h
  refine ⟨ms, hleads, fun m hm => ?_⟩
  obtain ⟨past, future, rfl⟩ := List.append_of_mem hm
  obtain ⟨u, hpast, rfl, -⟩ := hleads.split
  have hbefore : m.before.AllBound q :=
    hpast.preserves (p := State.AllBound q)
      (fun m' hm' h' => Move.allBound h' (hadmits m' (List.mem_append_left _ hm'))) hs
  exact ⟨hbefore, Move.allBound hbefore (hadmits m hm)⟩

/-! ## The judgement -/

/-- How a rule ends that has started at a state: whatever it has bound and noted down has the
property `q`, and its value has the property `post`. -/
structure ConfinedAt (q : Symbol κ τ → Prop) (post : α → Prop) (strategy : Strategy)
    (s : State κ τ (Symbol κ τ)) (e : Outcome α × State κ τ (Symbol κ τ)) : Prop where
  moves : AdmittingRun q strategy s e.2
  noted : ∀ symbol ∈ e.2.notes, symbol ∈ s.notes ∨ q symbol
  value : ∀ a, e.1 = .value a → post a

/-- Whatever the rule binds and notes down has the property `q`, and its values have the property
`post`. -/
def Confines (q : Symbol κ τ → Prop) (post : α → Prop) (r : Recognizer κ τ (Symbol κ τ) α) : Prop :=
  ∀ strategy s, ConfinedAt q post strategy s (r strategy s)

/-- One operation, whose answer is put another way. -/
theorem ConfinedAt.operation {s : State κ τ (Symbol κ τ)} {r : Recognizer κ τ (Symbol κ τ) α}
    (operation : Operation κ τ) (allowed : operation.Allowed s.engine) (f : α → Option (Token κ))
    (heq : operation.perform strategy s = (r >>= fun a => Pure.pure (f a)) strategy s)
    (admits : operation.Admits q) (notes_eq : (r strategy s).2.notes = s.notes) :
    ConfinedAt q anything strategy s (r strategy s) := by
  refine ⟨.operation operation allowed f heq fun m _ hoperation => hoperation ▸ admits,
    fun symbol hmem => .inl (notes_eq ▸ hmem), fun _ _ => trivial⟩

namespace Confines

variable {post : α → Prop} {next : β → Prop} {r : Recognizer κ τ (Symbol κ τ) α}
  {f : α → Recognizer κ τ (Symbol κ τ) β}

/-! ### Sequences and choices -/

/-- What comes after a value may rely on what holds of it. -/
theorem bind (hr : Confines q post r) (hf : ∀ a, post a → Confines q next (f a)) :
    Confines q next (r >>= f) := by
  intro strategy s
  obtain ⟨hmoves, hnoted, hvalue⟩ := hr strategy s
  rw [Recognizer.bind_apply]
  generalize r strategy s = e at hmoves hnoted hvalue
  obtain ⟨a | _ | _, t⟩ := e
  · obtain ⟨hmoves', hnoted', hvalue'⟩ := hf a (hvalue a rfl) strategy t
    exact ⟨hmoves.trans hmoves',
      fun symbol hmem => (hnoted' symbol hmem).elim (hnoted symbol) .inr, hvalue'⟩
  · exact ⟨hmoves, hnoted, fun _ ha => nomatch ha⟩
  · exact ⟨hmoves, hnoted, fun _ ha => nomatch ha⟩

/-- A choice confines what both of its branches confine. -/
theorem ite {p : Prop} [Decidable p] {t : Recognizer κ τ (Symbol κ τ) α}
    (hr : Confines q post r) (ht : Confines q post t) : Confines q post (if p then r else t) := by
  split
  · exact hr
  · exact ht

/-- A run that stays where it is. -/
theorem of_same (state_eq : ∀ strategy s, (r strategy s).2 = s)
    (value : ∀ strategy s a, (r strategy s).1 = .value a → post a) : Confines q post r := by
  intro strategy s
  have hsame := state_eq strategy s
  exact ⟨.of_engine_eq (by rw [hsame]), fun symbol hmem => .inl (hsame ▸ hmem), value strategy s⟩

/-- A value is confined if it has the property. -/
theorem pure {a : α} (h : post a) :
    Confines q post (Pure.pure a : Recognizer κ τ (Symbol κ τ) α) :=
  .of_same (fun _ _ => rfl) fun _ _ _ ha => by
    cases ha
    exact h

/-- A value of which nothing is asked. -/
theorem plain (a : α) : Confines q anything (Pure.pure a : Recognizer κ τ (Symbol κ τ) α) :=
  .pure trivial

/-- Reading the state binds nothing. -/
theorem read (g : State κ τ (Symbol κ τ) → α) : Confines q anything (Recognizer.read g) :=
  .of_same (fun _ _ => rfl) fun _ _ _ _ => trivial

/-- A run without fuel binds nothing. -/
theorem outOfFuel : Confines q post (Recognizer.outOfFuel : Recognizer κ τ (Symbol κ τ) α) :=
  .of_same (fun _ _ => rfl) fun _ _ _ ha => nomatch ha

/-! ### Operations -/

/-- A symbol may be noted if it has the property. -/
theorem note {symbol : Symbol κ τ} (h : q symbol) :
    Confines q anything (Recognizer.note symbol : Recognizer κ τ (Symbol κ τ) Unit) := by
  refine fun strategy s => ⟨.of_engine_eq rfl, fun other hmem => ?_, fun _ _ => trivial⟩
  obtain hmem | hmem := List.mem_append.1 hmem
  · exact .inl hmem
  · exact .inr (List.mem_singleton.1 hmem ▸ h)

/-- Taking a token binds nothing. -/
theorem advance : Confines q anything
    (Recognizer.advance : Recognizer κ τ (Symbol κ τ) (Token κ)) := fun _ s =>
  .operation .advance trivial some rfl trivial s.shift_notes

/-- Requiring a token binds nothing. -/
theorem mustBe (kind : κ) : Confines q anything
    (Recognizer.mustBe kind : Recognizer κ τ (Symbol κ τ) (Option (Token κ))) := by
  intro strategy s
  have hnotes := Recognizer.notes_mustBe kind strategy s
  refine ⟨.mustBe kind fun m hm => ?_, fun symbol hmem => .inl (hnotes ▸ hmem), fun _ _ => trivial⟩
  obtain hm | hm := hm <;>
  · rw [hm]
    trivial

/-- An unexpected token binds nothing. -/
theorem unexpected (expected : Expected κ) : Confines q anything
    (Recognizer.unexpected expected : Recognizer κ τ (Symbol κ τ) Unit) := by
  intro strategy s
  have hnotes : (Recognizer.unexpected expected strategy s).2.notes = s.notes := by
    cases strategy with
    | failFast => rfl
    | recovering =>
      rw [Recognizer.unexpected]
      split <;> rfl
  exact .operation (.unexpected expected) trivial (fun _ => none) rfl trivial hnotes

/-- Reporting a fault of meaning binds nothing. -/
theorem report {d : Diagnostic κ τ} (semantic : d.isSemantic = true) : Confines q anything
    (Recognizer.report d : Recognizer κ τ (Symbol κ τ) Unit) := by
  intro strategy s
  have hnotes : (Recognizer.report d strategy s).2.notes = s.notes := by
    cases strategy with
    | failFast => rfl
    | recovering =>
      rw [Recognizer.report_recovering]
      split <;> rfl
  exact .operation (.report d) semantic (fun _ => none) rfl trivial hnotes

/-- A rule of meaning binds nothing. -/
theorem reporting (h : Reporting r) : Confines q anything r := by
  induction h with
  | pure a => exact .plain a
  | bind _ _ ihr ihf => exact .bind ihr fun a _ => ihf a
  | read f => exact .read f
  | report d semantic => exact .report semantic

/-- Opening a scope binds nothing. -/
theorem openScope : Confines q anything
    (Recognizer.openScope : Recognizer κ τ (Symbol κ τ) Unit) := fun _ _ =>
  .operation .openScope trivial (fun _ => none) rfl trivial rfl

/-- Closing a scope binds nothing. -/
theorem closeScope : Confines q anything
    (Recognizer.closeScope : Recognizer κ τ (Symbol κ τ) Bool) := fun _ _ =>
  .operation .closeScope trivial (fun _ => none) rfl trivial rfl

/-- A symbol may be bound if it has the property. -/
theorem bindSymbol {symbol : Symbol κ τ} (h : q symbol) : Confines q anything
    (Recognizer.bindSymbol symbol : Recognizer κ τ (Symbol κ τ) Bool) := by
  intro strategy s
  have hnotes : (Recognizer.bindSymbol symbol strategy s).2.notes = s.notes := by
    rw [Recognizer.bindSymbol]
    split <;> rfl
  exact .operation (.bindSymbol symbol) trivial (fun _ => none) rfl h hnotes

/-- Looking at a token binds nothing. -/
theorem lookahead : Confines q anything
    (Recognizer.lookahead : Recognizer κ τ (Symbol κ τ) (Token κ)) := .read _

/-- Looking for a kind binds nothing. -/
theorem sees (kind : κ) : Confines q anything
    (Recognizer.sees kind : Recognizer κ τ (Symbol κ τ) Bool) := .read _

/-- Taking a token if it has a kind binds nothing. -/
theorem accept (kind : κ) : Confines q anything
    (Recognizer.accept kind : Recognizer κ τ (Symbol κ τ) Bool) :=
  .bind (.sees kind) fun _ _ => .ite (.bind .advance fun _ _ => .plain _) (.plain _)

/-- A symbol may be declared if it has the property. -/
theorem declare {symbol : Symbol κ τ} (h : q symbol) : Confines q anything
    (Recognizer.declare symbol : Recognizer κ τ (Symbol κ τ) Bool) := by
  refine .bind (.read _) fun first? _ => ?_
  cases first? with
  | none => exact .bindSymbol h
  | some first => exact .bind (.report rfl) fun _ _ => .plain _

/-- What goes to the end of the source binds what its start binds. -/
theorem toEnd {start : Recognizer κ τ (Symbol κ τ) Unit} (h : Confines q anything start) :
    Confines q anything start.toEnd :=
  .bind h fun _ _ => .bind (.read _) fun _ _ => .bind (.read _) fun _ _ =>
    .ite (.plain _) (.unexpected _)

/-! ### Recursion -/

/-- Fuel makes no difference to what is bound. -/
theorem withFuel {r : Nat → Recognizer κ τ (Symbol κ τ) α} (h : ∀ n, Confines q post (r n)) :
    Confines q post (Recognizer.withFuel r) := fun strategy s => h _ strategy s

/-- A loop hands on from round to round what holds of its value. -/
theorem iterate {test : κ → Bool} {body : α → Recognizer κ τ (Symbol κ τ) α}
    (h : ∀ a, post a → Confines q post (body a)) (n : Nat) {a : α} (ha : post a) :
    Confines q post (Recognizer.iterate test body n a) := by
  induction n generalizing a with
  | zero => exact .outOfFuel
  | succ n ih =>
    exact .bind .lookahead fun _ _ => .ite (.bind (h a ha) fun b hb => ih hb) (.pure ha)

/-- A loop whose rounds keep what holds of the value. -/
theorem whileSees {test : κ → Bool} {body : α → Recognizer κ τ (Symbol κ τ) α}
    (h : ∀ a, post a → Confines q post (body a)) {a : α} (ha : post a) :
    Confines q post (Recognizer.whileSees test body a) :=
  .withFuel fun n => .iterate h n ha

end Confines

end

end SinglePass
