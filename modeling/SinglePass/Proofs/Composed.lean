import SinglePass.Report

/-!
# What recognizers are made of

The grammars of this library do not touch the state of a run themselves: each of their rules is
put together from the operations of the engine by sequencing, choice and bounded repetition.
`Composed` is that closure.  A fact that holds of every operation and survives sequencing then
holds of every rule, by one induction over `Composed`, and no rule has to be opened again.

`Silent` leaves out the operations that move on or fail, and `Reporting` those that change the
scopes, too: what is left are the rules of meaning.
-/

namespace SinglePass

variable {κ τ ω : Type} [TokenKind κ]

/-- A recognizer that is put together from the operations of the engine.  Reports are of faults
of meaning only: unexpected tokens are left to `mustBe` and `unexpected`. -/
inductive Composed : {α : Type} → Recognizer κ τ ω α → Prop
  | pure {α : Type} (a : α) : Composed (Pure.pure a)
  | bind {α β : Type} {r : Recognizer κ τ ω α} {f : α → Recognizer κ τ ω β} :
      Composed r → (∀ a, Composed (f a)) → Composed (r >>= f)
  | withFuel {α : Type} {r : Nat → Recognizer κ τ ω α} :
      (∀ n, Composed (r n)) → Composed (Recognizer.withFuel r)
  | outOfFuel {α : Type} : Composed (Recognizer.outOfFuel (α := α))
  | read {α : Type} (f : State κ τ ω → α) : Composed (Recognizer.read f)
  | note (w : ω) : Composed (Recognizer.note w)
  | advance : Composed Recognizer.advance
  | mustBe (kind : κ) : Composed (Recognizer.mustBe kind)
  | unexpected (expected : Expected κ) : Composed (Recognizer.unexpected expected)
  | report (d : Diagnostic κ τ) : d.isSemantic = true → Composed (Recognizer.report d)
  | openScope : Composed Recognizer.openScope
  | closeScope : Composed Recognizer.closeScope
  | bindSymbol (symbol : Symbol κ τ) : Composed (Recognizer.bindSymbol symbol)

/-- A recognizer that leaves the tokens alone and cannot fail: it looks at the state, reports faults
of meaning, keeps the scopes and notes things down. -/
inductive Silent : {α : Type} → Recognizer κ τ ω α → Prop
  | pure {α : Type} (a : α) : Silent (Pure.pure a)
  | bind {α β : Type} {r : Recognizer κ τ ω α} {f : α → Recognizer κ τ ω β} :
      Silent r → (∀ a, Silent (f a)) → Silent (r >>= f)
  | read {α : Type} (f : State κ τ ω → α) : Silent (Recognizer.read f)
  | note (w : ω) : Silent (Recognizer.note w)
  | report (d : Diagnostic κ τ) : d.isSemantic = true → Silent (Recognizer.report d)
  | openScope : Silent Recognizer.openScope
  | closeScope : Silent Recognizer.closeScope
  | bindSymbol (symbol : Symbol κ τ) : Silent (Recognizer.bindSymbol symbol)

/-- A recognizer that looks at the state and reports faults of meaning, and does nothing else. -/
inductive Reporting : {α : Type} → Recognizer κ τ ω α → Prop
  | pure {α : Type} (a : α) : Reporting (Pure.pure a)
  | bind {α β : Type} {r : Recognizer κ τ ω α} {f : α → Recognizer κ τ ω β} :
      Reporting r → (∀ a, Reporting (f a)) → Reporting (r >>= f)
  | read {α : Type} (f : State κ τ ω → α) : Reporting (Recognizer.read f)
  | report (d : Diagnostic κ τ) : d.isSemantic = true → Reporting (Recognizer.report d)

omit [TokenKind κ] in
/-- What a silent recognizer does to a recovering run: it ends with a value, stays at its token, and
at most records faults of meaning. -/
theorem Silent.run {α : Type} {r : Recognizer κ τ ω α} (h : Silent r) (s : State κ τ ω) :
    ∃ (a : α) (t : State κ τ ω) (found : List (Diagnostic κ τ)),
      r .recovering s = (.value a, t) ∧ t.lookahead = s.lookahead ∧ t.ahead = s.ahead ∧
        t.recovering = s.recovering ∧ t.sink = s.sink ++ found ∧
        ∀ d ∈ found, d.isSemantic = true := by
  induction h generalizing s with
  | pure a => exact ⟨a, s, [], rfl, rfl, rfl, rfl, (List.append_nil _).symm, by simp⟩
  | bind _ _ ihr ihf =>
    obtain ⟨a, t, found, hrun, hlook, hahead, hcalm, hsink, hfound⟩ := ihr s
    obtain ⟨b, t', found', hrun', hlook', hahead', hcalm', hsink', hfound'⟩ := ihf a t
    refine ⟨b, t', found ++ found', ?_, hlook'.trans hlook, hahead'.trans hahead,
      hcalm'.trans hcalm, ?_, ?_⟩
    · rw [Recognizer.bind_of_value hrun, hrun']
    · rw [hsink', hsink, List.append_assoc]
    · intro d hd
      rcases List.mem_append.1 hd with hd | hd
      · exact hfound d hd
      · exact hfound' d hd
  | read f => exact ⟨f s, s, [], rfl, rfl, rfl, rfl, (List.append_nil _).symm, by simp⟩
  | note w => exact ⟨(), _, [], rfl, rfl, rfl, rfl, (List.append_nil _).symm, by simp⟩
  | report d hd =>
    rw [Recognizer.report_recovering]
    by_cases hr : s.recovering = true
    · exact ⟨(), s, [], by rw [if_pos hr], rfl, rfl, rfl, (List.append_nil _).symm, by simp⟩
    · exact ⟨(), s.record d, [d], by rw [if_neg hr], rfl, rfl, rfl, rfl, by simpa using hd⟩
  | openScope => exact ⟨(), _, [], rfl, rfl, rfl, rfl, (List.append_nil _).symm, by simp⟩
  | closeScope => exact ⟨_, _, [], rfl, rfl, rfl, rfl, (List.append_nil _).symm, by simp⟩
  | bindSymbol symbol =>
    unfold Recognizer.bindSymbol
    split
    · exact ⟨_, _, [], rfl, rfl, rfl, rfl, (List.append_nil _).symm, by simp⟩
    · exact ⟨_, _, [], rfl, rfl, rfl, rfl, (List.append_nil _).symm, by simp⟩

/-- What is silent is put together from the operations of the engine. -/
theorem Silent.composed {α : Type} {r : Recognizer κ τ ω α} (h : Silent r) : Composed r := by
  induction h with
  | pure a => exact .pure a
  | bind _ _ ihr ihf => exact .bind ihr ihf
  | read f => exact .read f
  | note w => exact .note w
  | report d hd => exact .report d hd
  | openScope => exact .openScope
  | closeScope => exact .closeScope
  | bindSymbol symbol => exact .bindSymbol symbol

namespace Silent

open Recognizer

omit [TokenKind κ] in
/-- A choice is silent if both of its branches are. -/
theorem ite {α : Type} {p : Prop} [Decidable p] {r t : Recognizer κ τ ω α} (hr : Silent r)
    (ht : Silent t) : Silent (if p then r else t) := by
  split
  · exact hr
  · exact ht

omit [TokenKind κ] in
/-- Declaring a symbol consumes no token, whether it is accepted or not. -/
theorem declare (symbol : Symbol κ τ) :
    Silent (Recognizer.declare symbol : Recognizer κ τ ω _) := by
  refine .bind (.read _) fun first? => ?_
  cases first? with
  | none => exact .bindSymbol symbol
  | some first => exact .bind (.report _ rfl) fun _ => .pure _

end Silent

namespace Reporting

open Recognizer

omit [TokenKind κ] in
/-- What only reports is silent. -/
theorem silent {α : Type} {r : Recognizer κ τ ω α} (h : Reporting r) : Silent r := by
  induction h with
  | pure a => exact .pure a
  | bind _ _ ihr ihf => exact .bind ihr ihf
  | read f => exact .read f
  | report d hd => exact .report d hd

omit [TokenKind κ] in
/-- A choice only reports if both of its branches do. -/
theorem ite {α : Type} {p : Prop} [Decidable p] {r t : Recognizer κ τ ω α} (hr : Reporting r)
    (ht : Reporting t) : Reporting (if p then r else t) := by
  split
  · exact hr
  · exact ht

omit [TokenKind κ] in
/-- Resolving a name only reports, if the name is not declared. -/
theorem resolve (token : Token κ) :
    Reporting (Recognizer.resolve token : Recognizer κ τ ω _) := by
  refine .bind (.read _) fun symbol? => ?_
  cases symbol? with
  | none => exact .bind (.report _ rfl) fun _ => .pure _
  | some symbol => exact .pure _

omit [TokenKind κ] in
/-- Comparing types only reports, if they conflict. -/
theorem expectType [TypeTag τ] (token : Token κ) (found expected : τ) :
    Reporting (Recognizer.expectType token found expected : Recognizer κ τ ω _) :=
  .ite (.pure _) (.bind (.report _ rfl) fun _ => .pure _)

end Reporting

namespace Composed

open Recognizer

variable {α β : Type}

/-! ## Choice and repetition -/

/-- A choice is put together from its branches. -/
theorem ite {p : Prop} [Decidable p] {r t : Recognizer κ τ ω α} (hr : Composed r)
    (ht : Composed t) : Composed (if p then r else t) := by
  split
  · exact hr
  · exact ht

/-- A loop is put together from its rounds. -/
theorem iterate {test : κ → Bool} {body : α → Recognizer κ τ ω α} (h : ∀ a, Composed (body a))
    (n : Nat) (a : α) : Composed (Recognizer.iterate test body n a) := by
  induction n generalizing a with
  | zero => exact .outOfFuel
  | succ n ih => exact .bind (.read _) fun _ => .ite (.bind (h a) ih) (.pure _)

/-- A loop over a kind of tokens is put together from its rounds. -/
theorem whileSees {test : κ → Bool} {body : α → Recognizer κ τ ω α}
    (h : ∀ a, Composed (body a)) (a : α) : Composed (Recognizer.whileSees test body a) :=
  .withFuel fun n => .iterate h n a

/-! ## Tokens and names -/

/-- Looking at a token reads the state. -/
theorem lookahead : Composed (Recognizer.lookahead : Recognizer κ τ ω _) := .read _

/-- Looking for a kind reads the state. -/
theorem sees (kind : κ) : Composed (Recognizer.sees kind : Recognizer κ τ ω _) := .read _

/-- Taking a token if it has a kind is a choice of advancing. -/
theorem accept (kind : κ) : Composed (Recognizer.accept kind : Recognizer κ τ ω _) :=
  .bind (.sees kind) fun _ => .ite (.bind .advance fun _ => .pure _) (.pure _)

/-- The end of the source is looked for, and may be unexpected. -/
theorem mustEnd : Composed (Recognizer.mustEnd : Recognizer κ τ ω _) :=
  .bind (.read _) fun _ => .bind (.read _) fun _ => .ite (.pure _) (.unexpected _)

/-- What goes to the end of the source adds a look at this end. -/
theorem toEnd {start : Recognizer κ τ ω Unit} (h : Composed start) : Composed start.toEnd :=
  .bind h fun _ => .mustEnd

end Composed

end SinglePass
