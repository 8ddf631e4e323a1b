import Mathlib.Data.List.Forall2
import SinglePass.Binding

/-!
# Comparing what two runs hold

Two runs on two sources can be compared token by token.  A `Likeness` says which token of the one
source stands for which of the other.  They have the same kind.  If the comparison is exact, they
have the same text, too, except for names, whose texts need only be equal where they are in the
other source.

From the tokens the comparison goes on to symbols, scopes and faults.  A look-up compares names for
equality and does nothing else with them, so it finds symbols that stand for each other.
-/

namespace SinglePass

variable {κ τ : Type}

/-- Which token of a source stands for which token of another one.  Names are tokens of the kind
`name`. -/
structure Likeness (κ : Type) (name : κ) where
  Like : Token κ → Token κ → Prop
  /-- Are the texts compared, too? -/
  exact : Bool
  /-- Are failures to read compared, too? -/
  failures : Bool
  kind_eq : ∀ {t t' : Token κ}, Like t t' → t.kind = t'.kind
  text_eq : ∀ {t t' : Token κ}, exact = true → Like t t' → t.kind ≠ name → t.text = t'.text
  /-- Two names are equal in the one source exactly if they are in the other. -/
  text_iff : ∀ {t t' u u' : Token κ}, exact = true → Like t t' → Like u u' → t.kind = name →
    u.kind = name → (t.text = u.text ↔ t'.text = u'.text)

/-! ## Symbols and faults -/

/-- Two symbols of one sort and type, declared by names that stand for each other. -/
structure Symbol.Matches (like : Token κ → Token κ → Prop) (name : κ) (s s' : Symbol κ τ) :
    Prop where
  token : like s.token s'.token
  kind_eq : s.token.kind = name
  type_eq : s.type = s'.type
  sort_eq : s.sort = s'.sort

/-- Symbols that match have one shape. -/
theorem Symbol.Matches.shape?_eq {like : Token κ → Token κ → Prop} {name : κ} {s s' : Symbol κ τ}
    (h : s.Matches like name s') : s.shape? = s'.shape? := by
  rw [Symbol.shape?, Symbol.shape?, h.sort_eq]

/-- Symbols that match are both constants, or none of them is. -/
theorem Symbol.Matches.isConst_eq {like : Token κ → Token κ → Prop} {name : κ}
    {s s' : Symbol κ τ} (h : s.Matches like name s') : s.isConst = s'.isConst := by
  rw [Symbol.isConst, Symbol.isConst, h.sort_eq]

/-- Two faults of one sort at tokens that stand for each other.  What they say besides is the same;
a message may differ, but only if the texts of some tokens do. -/
inductive Diagnostic.Matches (like : Token κ → Token κ → Prop) (name : κ) :
    Diagnostic κ τ → Diagnostic κ τ → Prop
  | lexical {t t' : Token κ} (token : like t t') : Matches like name (.lexical t) (.lexical t')
  | unexpected {t t' : Token κ} (token : like t t') (expected : Expected κ) :
      Matches like name (.unexpected t expected) (.unexpected t' expected)
  | notDeclared {t t' : Token κ} (token : like t t') :
      Matches like name (.notDeclared t) (.notDeclared t')
  | alreadyDeclared {t t' : Token κ} {first first' : Symbol κ τ} (token : like t t')
      (first_matches : first.Matches like name first') :
      Matches like name (.alreadyDeclared t first) (.alreadyDeclared t' first')
  | typeConflict {t t' : Token κ} (token : like t t') (found expected : τ) :
      Matches like name (.typeConflict t found expected) (.typeConflict t' found expected)
  | custom {t t' : Token κ} {message message' : String} (token : like t t')
      (message_eq : (∀ u u', like u u' → u.text = u'.text) → message = message') :
      Matches like name (.custom t message) (.custom t' message')

namespace Diagnostic.Matches

variable {like : Token κ → Token κ → Prop} {name : κ} {d d' : Diagnostic κ τ}

/-- Faults that match are both of meaning, or none of them is. -/
theorem isSemantic_eq (h : d.Matches like name d') : d.isSemantic = d'.isSemantic := by
  cases h <;> rfl

/-- Faults that match are both failures to read, or none of them is. -/
theorem isIo_eq (h : d.Matches like name d') : d.isIo = d'.isIo := by
  cases h <;> rfl

/-- Both faults stand at their tokens. -/
theorem position (h : d.Matches like name d') :
    ∃ t t', like t t' ∧ d.position = t.position ∧ d'.position = t'.position := by
  cases h <;> exact ⟨_, _, ‹_›, rfl, rfl⟩

end Diagnostic.Matches

/-! ## Scopes -/

/-- Two levels that bind symbols that stand for each other, in one order. -/
def Table.Matches (like : Token κ → Token κ → Prop) (name : κ) (t t' : Table κ τ) : Prop :=
  List.Forall₂ (Symbol.Matches like name) t.symbols t'.symbols

/-- Two scopes of one depth, matching level by level. -/
inductive Scope.Matches (like : Token κ → Token κ → Prop) (name : κ) :
    Scope κ τ → Scope κ τ → Prop
  | outermost {t t' : Table κ τ} (table : t.Matches like name t') :
      Matches like name (.outermost t) (.outermost t')
  | nested {t t' : Table κ τ} {outer outer' : Scope κ τ} (table : t.Matches like name t')
      (outer_matches : Matches like name outer outer') :
      Matches like name (.nested t outer) (.nested t' outer')

/-- Two stacks of scopes that match level by level. -/
structure ScopeStack.Matches (like : Token κ → Token κ → Prop) (name : κ)
    (s s' : ScopeStack κ τ) : Prop where
  current : Option.Rel (Scope.Matches like name) s.current? s'.current?
  level_eq : s.level = s'.level

namespace Likeness

variable {name : κ} (L : Likeness κ name)

/-- What stands for what, of names, is found under each other. -/
theorem get?_table (hexact : L.exact = true) {t t' : Table κ τ} (h : t.Matches L.Like name t')
    {u u' : Token κ} (hu : L.Like u u') (hname : u.kind = name) :
    Option.Rel (Symbol.Matches L.Like name) (t.get? u.text) (t'.get? u'.text) := by
  rw [Table.get?_eq_find?, Table.get?_eq_find?]
  unfold Table.Matches at h
  generalize t.symbols = symbols, t'.symbols = symbols' at h ⊢
  induction h with
  | nil => exact .none
  | @cons s s' _ _ hs _ ih =>
    have hiff : s.name = u.text ↔ s'.name = u'.text :=
      L.text_iff hexact hs.token hu hs.kind_eq hname
    by_cases heq : s.name = u.text
    · simp only [List.find?_cons, heq, hiff.1 heq, decide_true]
      exact .some hs
    · simp only [List.find?_cons, heq, mt hiff.2 heq, decide_false]
      exact ih

/-- Names that stand for each other are found in a scope as symbols that match. -/
theorem get?_scope (hexact : L.exact = true) {s s' : Scope κ τ} (h : s.Matches L.Like name s')
    {u u' : Token κ} (hu : L.Like u u') (hname : u.kind = name) :
    Option.Rel (Symbol.Matches L.Like name) (s.get? u.text) (s'.get? u'.text) := by
  induction h with
  | outermost table => exact L.get?_table hexact table hu hname
  | nested table _ ih =>
    have hinner := L.get?_table hexact table hu hname
    rw [Scope.get?, Scope.get?]
    generalize Table.get? _ u.text = found at hinner ⊢
    generalize Table.get? _ u'.text = found' at hinner ⊢
    cases hinner with
    | none => exact ih
    | some hs => exact .some hs

/-- Names that stand for each other are found in a stack as symbols that match. -/
theorem get?_scopes (hexact : L.exact = true) {s s' : ScopeStack κ τ}
    (h : s.Matches L.Like name s') {u u' : Token κ} (hu : L.Like u u') (hname : u.kind = name) :
    Option.Rel (Symbol.Matches L.Like name) (s.get? u.text) (s'.get? u'.text) := by
  obtain ⟨current, level⟩ := s
  obtain ⟨current', level'⟩ := s'
  cases h.current with
  | none => exact .none
  | some hscope => exact L.get?_scope hexact hscope hu hname

/-- Names that stand for each other are found on the innermost level as symbols that match. -/
theorem local?_scopes (hexact : L.exact = true) {s s' : ScopeStack κ τ}
    (h : s.Matches L.Like name s') {u u' : Token κ} (hu : L.Like u u') (hname : u.kind = name) :
    Option.Rel (Symbol.Matches L.Like name) (s.local? u.text) (s'.local? u'.text) := by
  obtain ⟨current, level⟩ := s
  obtain ⟨current', level'⟩ := s'
  cases h.current with
  | none => exact .none
  | some hscope =>
    cases hscope with
    | outermost table => exact L.get?_table hexact table hu hname
    | nested table _ => exact L.get?_table hexact table hu hname

/-- A name is bound on both levels or on neither. -/
theorem add_table (hexact : L.exact = true) {t t' : Table κ τ} (h : t.Matches L.Like name t')
    {s s' : Symbol κ τ} (hs : s.Matches L.Like name s') :
    (t.add s).1 = (t'.add s').1 ∧ (t.add s).2.Matches L.Like name (t'.add s').2 := by
  have hget := L.get?_table hexact h hs.token hs.kind_eq
  have hdefined : t.isDefined s.name = t'.isDefined s'.name := by
    rw [Table.isDefined, Table.isDefined, Symbol.name, Symbol.name]
    generalize t.get? s.token.text = found at hget ⊢
    generalize t'.get? s'.token.text = found' at hget ⊢
    cases hget <;> rfl
  cases hbound : t'.isDefined s'.name with
  | true =>
    rw [Table.add_of_isDefined (hdefined.trans hbound), Table.add_of_isDefined hbound]
    exact ⟨rfl, h⟩
  | false =>
    rw [Table.add_of_not_isDefined (hdefined.trans hbound), Table.add_of_not_isDefined hbound]
    exact ⟨rfl, List.rel_append h (.cons hs .nil)⟩

/-- Symbols that match are added to a scope on both sides, or are duplicates on both. -/
theorem add_scope (hexact : L.exact = true) {scope scope' : Scope κ τ}
    (h : scope.Matches L.Like name scope') {s s' : Symbol κ τ} (hs : s.Matches L.Like name s') :
    (scope.add s).1 = (scope'.add s').1 ∧
      (scope.add s).2.Matches L.Like name (scope'.add s').2 := by
  cases h with
  | outermost table =>
    obtain ⟨hadded, htable⟩ := L.add_table hexact table hs
    exact ⟨hadded, .outermost htable⟩
  | nested table outer_matches =>
    obtain ⟨hadded, htable⟩ := L.add_table hexact table hs
    exact ⟨hadded, .nested htable outer_matches⟩

end Likeness

namespace ScopeStack.Matches

variable {like : Token κ → Token κ → Prop} {name : κ} {s s' : ScopeStack κ τ}

/-- Stacks that match are both empty, or none of them is. -/
theorem isEmpty_eq (h : s.Matches like name s') : s.isEmpty = s'.isEmpty := by
  obtain ⟨current, level⟩ := s
  obtain ⟨current', level'⟩ := s'
  cases h.current <;> rfl

/-- Stacks that match do so with a scope more. -/
theorem openScope (h : s.Matches like name s') : s.openScope.Matches like name s'.openScope := by
  obtain ⟨current, level⟩ := s
  obtain ⟨current', level'⟩ := s'
  obtain ⟨hcurrent, rfl⟩ := h
  cases hcurrent with
  | none => exact ⟨.some (.outermost .nil), rfl⟩
  | some hscope => exact ⟨.some (.nested .nil hscope), rfl⟩

/-- Stacks that match do so with a scope less. -/
theorem closeScope (h : s.Matches like name s') :
    s.closeScope.1 = s'.closeScope.1 ∧ s.closeScope.2.Matches like name s'.closeScope.2 := by
  obtain ⟨current, level⟩ := s
  obtain ⟨current', level'⟩ := s'
  obtain ⟨hcurrent, rfl⟩ := h
  cases hcurrent with
  | none => exact ⟨rfl, .none, rfl⟩
  | some hscope =>
    cases hscope with
    | outermost table => exact ⟨rfl, .none, rfl⟩
    | nested table outer_matches => exact ⟨rfl, .some outer_matches, rfl⟩

/-- Stacks that match are made ready for a declaration alike. -/
theorem scopesForDeclaration (h : s.Matches like name s') :
    (Recognizer.scopesForDeclaration s).Matches like name
      (Recognizer.scopesForDeclaration s') := by
  rw [Recognizer.scopesForDeclaration, Recognizer.scopesForDeclaration, h.isEmpty_eq]
  split
  · exact h.openScope
  · exact h

end ScopeStack.Matches

/-- Symbols that stand for each other are bound on both sides or on neither. -/
theorem Likeness.add?_scopes {name : κ} (L : Likeness κ name) (hexact : L.exact = true)
    {scopes scopes' : ScopeStack κ τ} (h : scopes.Matches L.Like name scopes') {s s' : Symbol κ τ}
    (hs : s.Matches L.Like name s') :
    Option.Rel (fun added added' =>
        added.1 = added'.1 ∧ added.2.Matches L.Like name added'.2)
      (scopes.add? s) (scopes'.add? s') := by
  obtain ⟨current, level⟩ := scopes
  obtain ⟨current', level'⟩ := scopes'
  obtain ⟨hcurrent, rfl⟩ := h
  cases hcurrent with
  | none => exact .none
  | some hscope =>
    obtain ⟨hadded, hscope'⟩ := L.add_scope hexact hscope hs
    exact .some ⟨hadded, .some hscope', rfl⟩

end SinglePass
