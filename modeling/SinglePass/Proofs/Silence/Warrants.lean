import SinglePass.Proofs.Engine.Strategies
import SinglePass.Proofs.ScopeDiscipline

/-!
# What a recovering run may be silent about

The type `undefined` silences every rule that meets it.  That is sound only if something has been
reported before: a run is `Faulty` if it has recorded a fault of grammar or meaning.

* `State.Justified` is the invariant of a run that is silent only where it may be, and
  `Move.justified` is the step: it is kept by every move whose operation is `Proper`.
* `Warrants` is the closure that carries this through the rules.  From a run that is faulty, or
  where something is given, a recognizer ends in a run that is faulty, or with a value of which
  something holds.  There is one lemma for each way to put recognizers together.
-/

namespace SinglePass

variable {κ τ ω ν α β : Type}

/-! ## States -/

/-- Has a fault of grammar or meaning been recorded? -/
def State.Faulty (s : State κ τ ω) : Prop := ∃ d ∈ s.sink, d.isScanning = false

namespace State

variable {s : State κ τ ω}

/-- What is added to the sink does no harm to what is there. -/
theorem Faulty.of_append {t : State κ τ ν} {found : List (Diagnostic κ τ)} (h : s.Faulty)
    (sink_eq : t.sink = s.sink ++ found) : t.Faulty := by
  obtain ⟨d, hd, hfault⟩ := h
  exact ⟨d, by rw [sink_eq]; exact List.mem_append_left _ hd, hfault⟩

/-- A run that records a fault of grammar or meaning is at fault. -/
theorem Faulty.record {d : Diagnostic κ τ} (h : d.isScanning = false) : (s.record d).Faulty :=
  ⟨d, List.mem_append_right _ (List.mem_singleton.2 rfl), h⟩

/-- Going on to the next token undoes no fault. -/
theorem Faulty.shift (h : s.Faulty) : s.shift.Faulty := by
  cases htokens : s.ahead.tokens with
  | nil => rwa [State.shift_of_nil htokens]
  | cons next more => exact h.of_append (by rw [State.shift_of_cons htokens])

end State

/-! ## Symbols in scopes -/

/-- Is the symbol bound on some level? -/
def ScopeStack.Binds (scopes : ScopeStack κ τ) (symbol : Symbol κ τ) : Prop :=
  ∃ table ∈ scopes.levels, symbol ∈ table.symbols

namespace ScopeStack

variable {scopes : ScopeStack κ τ} {symbol other : Symbol κ τ}

/-- The empty stack binds nothing. -/
theorem not_binds_empty : ¬ (ScopeStack.empty : ScopeStack κ τ).Binds symbol := by
  rintro ⟨table, htable, -⟩
  cases htable

/-- What is found under a name is bound. -/
theorem binds_of_get? {name : String} (h : scopes.get? name = some symbol) :
    scopes.Binds symbol := by
  rw [get?_eq_findSome?] at h
  obtain ⟨table, htable, hfind⟩ := List.exists_of_findSome?_eq_some h
  rw [Table.get?_eq_find?] at hfind
  exact ⟨table, htable, List.mem_of_find?_eq_some hfind⟩

/-- Opening a scope binds nothing. -/
theorem Binds.of_openScope (h : scopes.openScope.Binds other) : scopes.Binds other := by
  obtain ⟨table, htable, hother⟩ := h
  rw [levels_openScope] at htable
  obtain rfl | htable := List.mem_cons.1 htable
  · exact absurd hother List.not_mem_nil
  · exact ⟨table, htable, hother⟩

/-- Closing a scope binds nothing. -/
theorem Binds.of_closeScope (h : scopes.closeScope.2.Binds other) : scopes.Binds other := by
  obtain ⟨table, htable, hother⟩ := h
  rw [levels_closeScope] at htable
  exact ⟨table, List.mem_of_mem_tail htable, hother⟩

/-- Adding a symbol changes the innermost level. -/
theorem levels_of_add? {added : Bool} {scopes' : ScopeStack κ τ}
    (h : scopes.add? symbol = some (added, scopes')) :
    ∃ table outer, scopes.levels = table :: outer ∧
      scopes'.levels = (table.add symbol).2 :: outer := by
  obtain ⟨_ | scope, level⟩ := scopes
  · cases h
  · cases h
    cases scope with
    | outermost table => exact ⟨table, [], rfl, rfl⟩
    | nested table outer => exact ⟨table, outer.levels, rfl, rfl⟩

/-- What a table holds after a symbol was added is this symbol, or was there before. -/
theorem eq_or_mem_of_add {table : Table κ τ} (h : other ∈ (table.add symbol).2.symbols) :
    other = symbol ∨ other ∈ table.symbols := by
  rw [Table.add] at h
  split at h
  · exact .inr h
  · exact (List.mem_append.1 h).symm.imp List.mem_singleton.1 id

/-- A declaration binds its symbol at most. -/
theorem Binds.of_add? {added : Bool} {scopes' : ScopeStack κ τ}
    (hadd : (Recognizer.scopesForDeclaration scopes).add? symbol = some (added, scopes'))
    (h : scopes'.Binds other) : other = symbol ∨ scopes.Binds other := by
  obtain ⟨inner, outer, hlevels, hlevels'⟩ := levels_of_add? hadd
  have hscopes : (Recognizer.scopesForDeclaration scopes).Binds other → scopes.Binds other := by
    rw [Recognizer.scopesForDeclaration]
    split
    · exact Binds.of_openScope
    · exact id
  obtain ⟨table, htable, hother⟩ := h
  rw [hlevels'] at htable
  obtain rfl | htable := List.mem_cons.1 htable
  · obtain heq | hmem := eq_or_mem_of_add hother
    · exact .inl heq
    · exact .inr (hscopes ⟨inner, by rw [hlevels]; exact List.mem_cons_self, hmem⟩)
  · exact .inr (hscopes ⟨table, by rw [hlevels]; exact List.mem_cons_of_mem _ htable, hother⟩)

end ScopeStack

section

variable [TypeTag τ]

/-- A type conflict is between two types, both of them known. -/
def Diagnostic.Proper : Diagnostic κ τ → Prop
  | .typeConflict _ found expected =>
    found ≠ expected ∧ found ≠ TypeTag.undefined ∧ expected ≠ TypeTag.undefined
  | _ => True

/-- A run that is silent only about what follows from a fault that it has recorded. -/
structure State.Justified (s : State κ τ ω) : Prop where
  scansOnly : s.ScansOnly
  /-- While it is recovering, it has met an unexpected token. -/
  recovers : s.recovering = true → s.Faulty
  /-- Where a symbol has no known type, its declaration was at fault, or something before it. -/
  bound : ∀ symbol, s.scopes.Binds symbol → symbol.type = TypeTag.undefined → s.Faulty
  proper : ∀ d ∈ s.sink, d.Proper

/-- No fault of the scanner is a type conflict. -/
theorem Diagnostic.proper_of_isScanning {d : Diagnostic κ τ} (h : d.isScanning = true) :
    d.Proper := by
  cases d <;> simp_all [isScanning, Proper]

namespace State

variable {s : State κ τ ω}

/-- A run whose sink and scopes are those of a justified one. -/
theorem Justified.congr {t : State κ τ ν} (h : s.Justified) (ahead_eq : t.ahead = s.ahead)
    (sink_eq : t.sink = s.sink) (scopes_eq : t.scopes = s.scopes)
    (recovers : t.recovering = true → t.Faulty) : t.Justified := by
  have hfaulty : s.Faulty → t.Faulty := fun hs => hs.of_append (by rw [sink_eq, List.append_nil])
  refine ⟨?_, recovers, ?_, ?_⟩
  · unfold State.ScansOnly
    rw [ahead_eq]
    exact h.scansOnly
  · rw [scopes_eq]
    exact fun symbol hbinds hty => hfaulty (h.bound symbol hbinds hty)
  · rw [sink_eq]
    exact h.proper

/-- Being justified is a matter of the engine, and not of the notes. -/
theorem Justified.engine (h : s.Justified) : s.engine.Justified :=
  ⟨h.scansOnly, h.recovers, h.bound, h.proper⟩

/-- A run is justified if its engine is. -/
theorem Justified.of_engine (h : s.engine.Justified) : s.Justified :=
  ⟨h.scansOnly, h.recovers, h.bound, h.proper⟩

/-- Going on to the next token may record faults of the scanner, and they ask for nothing. -/
theorem Justified.shift (h : s.Justified) : s.shift.Justified := by
  obtain ⟨found, hsink, hfound⟩ := h.scansOnly.addsScanning_shift
  have hfaulty : s.Faulty → s.shift.Faulty := fun hs => hs.shift
  refine ⟨h.scansOnly.shift, ?_, ?_, ?_⟩
  · rw [State.shift_recovering]
    exact fun hr => hfaulty (h.recovers hr)
  · rw [State.shift_scopes]
    exact fun symbol hbinds hty => hfaulty (h.bound symbol hbinds hty)
  · rw [hsink]
    exact fun d hd => (List.mem_append.1 hd).elim (h.proper d) fun hd =>
      Diagnostic.proper_of_isScanning (hfound d hd)

/-- A proper fault may be recorded at any time. -/
theorem Justified.record {d : Diagnostic κ τ} (h : s.Justified) (fault : d.isScanning = false)
    (proper : d.Proper) : (s.record d).Justified := by
  have hfaulty : (s.record d).Faulty := .record fault
  refine ⟨h.scansOnly, fun _ => hfaulty, fun _ _ _ => hfaulty, fun e he => ?_⟩
  obtain he | he := List.mem_append.1 he
  · exact h.proper e he
  · rwa [List.mem_singleton.1 he]

/-- An unexpected token makes the run recover. -/
theorem Justified.reject (h : s.Justified) (expected : Expected κ) :
    State.Justified { s.record (.unexpected s.lookahead expected) with recovering := true } :=
  have hrecord := h.record (d := .unexpected s.lookahead expected) rfl trivial
  hrecord.congr rfl rfl rfl fun _ => .record rfl

/-- Other scopes, in which every symbol without a known type was there before or is warranted. -/
theorem Justified.withScopes {scopes : ScopeStack κ τ} (h : s.Justified)
    (bound : ∀ symbol, scopes.Binds symbol → symbol.type = TypeTag.undefined → s.Faulty) :
    State.Justified { s with scopes } :=
  ⟨h.scansOnly, h.recovers, bound, h.proper⟩

/-- A symbol that is found in the scopes has a known type, or the run is faulty. -/
theorem Justified.get? {name : String} {symbol : Symbol κ τ} (h : s.Justified)
    (hget : s.scopes.get? name = some symbol) : s.Faulty ∨ symbol.type ≠ TypeTag.undefined := by
  by_cases hty : symbol.type = TypeTag.undefined
  · exact .inl (h.bound symbol (ScopeStack.binds_of_get? hget) hty)
  · exact .inr hty

end State

/-! ## Moves -/

/-- An operation that keeps a run justified: the type conflicts that it reports are proper, and it
binds a symbol without a known type only in a faulty run. -/
def Operation.Proper (s : State κ τ ω) : Operation κ τ → Prop
  | report d => d.Proper
  | bindSymbol symbol => symbol.type = TypeTag.undefined → s.Faulty
  | _ => True

variable [TokenKind κ]

omit [TypeTag τ] in
/-- Every move keeps a faulty run faulty. -/
theorem Move.faulty_after {strategy : Strategy} {m : Move κ τ strategy} (h : m.before.Faulty) :
    m.after.Faulty := by
  cases m.effect with
  | shifts _ after_eq =>
    rw [after_eq]
    exact h.shift
  | resumes _ _ _ _ after_eq =>
    rw [after_eq]
    exact State.Faulty.shift (s := { m.before with recovering := false }) h
  | rejects expected _ _ _ after_eq =>
    rw [after_eq]
    exact State.Faulty.record (s := m.before) (d := .unexpected m.before.lookahead expected) rfl
  | reports d _ _ semantic _ after_eq =>
    rw [after_eq]
    exact h.of_append rfl
  | givesUp d _ _ _ after_eq =>
    rw [after_eq]
    exact h.of_append rfl
  | keeps scopes _ after_eq =>
    rw [after_eq]
    exact h

/-- Requiring a token keeps a recovering run justified. -/
theorem State.Justified.mustBe {s : State κ τ ω} (h : s.Justified) (kind : κ) :
    (Recognizer.mustBe kind .recovering s).2.Justified := by
  cases hr : s.recovering with
  | true =>
    have hdiscard : (s.discardTo kind).Justified :=
      State.discard_preserves (p := State.Justified) (fun _ ht => ht.shift) kind _ h
    rw [Recognizer.mustBe_of_recovering .recovering hr, Recognizer.resynchronize]
    split
    · have hcalm : State.Justified { s.discardTo kind with recovering := false } :=
        hdiscard.congr rfl rfl rfl fun hr => absurd hr Bool.false_ne_true
      exact hcalm.shift
    · exact hdiscard
  | false =>
    by_cases hk : s.lookahead.kind = kind
    · rw [Recognizer.mustBe_of_kind_eq .recovering hr hk]
      exact h.shift
    · rw [Recognizer.mustBe_recovering_of_kind_ne hr hk]
      exact h.reject (.kind kind)

omit [TokenKind κ] in
/-- An unexpected token is a fault that justifies recovering. -/
theorem State.Justified.unexpected {s : State κ τ ω} (h : s.Justified) (expected : Expected κ) :
    (Recognizer.unexpected expected .recovering s).2.Justified := by
  obtain ⟨lookahead, ahead, recovering, scopes, sink, notes⟩ := s
  cases recovering with
  | true => exact h
  | false => exact h.reject expected

omit [TokenKind κ] in
/-- Reporting a proper fault keeps a run justified. -/
theorem State.Justified.report {s : State κ τ ω} (h : s.Justified) {d : Diagnostic κ τ}
    (fault : d.isScanning = false) (proper : d.Proper) :
    (Recognizer.report d .recovering s).2.Justified := by
  rw [Recognizer.report_recovering]
  split
  · exact h
  · exact h.record fault proper

omit [TokenKind κ] in
/-- A symbol of unknown type may be bound once there is a fault. -/
theorem State.Justified.bindSymbol {s : State κ τ ω} (h : s.Justified) {symbol : Symbol κ τ}
    (proper : symbol.type = TypeTag.undefined → s.Faulty) :
    (Recognizer.bindSymbol symbol .recovering s).2.Justified := by
  rw [Recognizer.bindSymbol]
  split
  · next added scopes hadd =>
    refine h.withScopes fun other hbinds hty => ?_
    obtain rfl | hbinds := hbinds.of_add? hadd
    · exact proper hty
    · exact h.bound other hbinds hty
  · exact h

/-- A proper move keeps a recovering run justified. -/
theorem Move.justified {m : Move κ τ .recovering} (h : m.before.Justified)
    (proper : m.operation.Proper m.before) : m.after.Justified := by
  obtain ⟨s, operation, allowed⟩ := m
  cases operation with
  | advance => exact h.shift
  | discard => exact h.shift
  | mustBe kind => exact h.mustBe kind
  | unexpected expected => exact h.unexpected expected
  | report d => exact h.report (Diagnostic.isScanning_of_isSemantic allowed) proper
  | openScope => exact h.withScopes fun symbol hbinds => h.bound symbol hbinds.of_openScope
  | closeScope => exact h.withScopes fun symbol hbinds => h.bound symbol hbinds.of_closeScope
  | bindSymbol symbol =>
    have hstate : (⟨s, .bindSymbol symbol, allowed⟩ : Move κ τ .recovering).after =
        (Recognizer.bindSymbol symbol .recovering s).2 := Recognizer.state_bind_pure _ _ _ _
    rw [hstate]
    exact h.bindSymbol proper

/-! ## Runs -/

/-- A recovering run from a state to another one by proper moves. -/
abbrev ProperRun (s t : State κ τ ω) : Prop :=
  RunsBy (fun m : Move κ τ .recovering => m.operation.Proper m.before) s t

namespace ProperRun

variable {s t : State κ τ ω}

/-- A run that goes on properly stays at fault. -/
theorem faulty (h : ProperRun s t) (hs : s.Faulty) : t.Faulty := by
  obtain ⟨ms, hleads, -⟩ := h
  exact hleads.preserves (p := State.Faulty) (fun _ _ hm => Move.faulty_after hm) hs

/-- A run that goes on properly stays justified. -/
theorem justified (h : ProperRun s t) (hs : s.Justified) : t.Justified := by
  obtain ⟨ms, hleads, hproper⟩ := h
  exact (hleads.preserves (fun m hm hbefore => Move.justified hbefore (hproper m hm))
    hs.engine).of_engine

/-- Such a run is justified at every moment, and what is recorded at one stays recorded. -/
theorem moments (h : ProperRun s t) (hs : s.Justified) :
    ∃ ms : List (Move κ τ .recovering), Leads s.engine ms t.engine ∧
      ∀ m ∈ ms, m.before.Justified ∧ m.operation.Proper m.before ∧ m.after.Justified ∧
        (m.before.Faulty → m.after.Faulty) ∧ (m.after.Faulty → t.Faulty) := by
  obtain ⟨ms, hleads, hproper⟩ := h
  refine ⟨ms, hleads, fun m hm => ?_⟩
  obtain ⟨past, future, rfl⟩ := List.append_of_mem hm
  obtain ⟨u, hpast, rfl, hfuture⟩ := hleads.split
  have hbefore : m.before.Justified :=
    hpast.preserves (fun m' hm' h' => Move.justified h' (hproper m' (List.mem_append_left _ hm')))
      hs.engine
  have hlater : m.after.Faulty → t.Faulty :=
    hfuture.preserves (p := State.Faulty) fun _ _ => Move.faulty_after
  exact ⟨hbefore, hproper m hm, Move.justified hbefore (hproper m hm), Move.faulty_after, hlater⟩

end ProperRun

/-! ## Recognizers -/

/-- What a run has noted down on its way, and what is known of the symbols among it. -/
def State.Noted (s t : State κ τ (Symbol κ τ)) : Prop :=
  ∃ added, t.notes = s.notes ++ added ∧
    ∀ symbol ∈ added, symbol.type = TypeTag.undefined → t.Faulty

/-- How a recognizer ends that has started at a state: by proper moves, and in a faulty run or with
a value of which `post` holds. -/
structure WarrantedAt (post : α → Prop) (s : State κ τ (Symbol κ τ))
    (e : Outcome α × State κ τ (Symbol κ τ)) : Prop where
  moves : ProperRun s e.2
  noted : s.Noted e.2
  value : ∀ a, e.1 = .value a → e.2.Faulty ∨ post a

/-- From a justified run, which is faulty or where `given` holds, the recognizer ends in a faulty
run, or with a value of which `post` holds. -/
def Warrants (given : Prop) (post : α → Prop) (r : Recognizer κ τ (Symbol κ τ) α) : Prop :=
  ∀ s, s.Justified → s.Faulty ∨ given → WarrantedAt post s (r .recovering s)

namespace State.Noted

variable {s t u : State κ τ (Symbol κ τ)}

omit [TokenKind κ] in
/-- Where nothing is noted, nothing has to be known. -/
theorem of_notes_eq (h : t.notes = s.notes) : s.Noted t :=
  ⟨[], by rw [h, List.append_nil], by simp⟩

/-- What is noted by one run behind the other is known in both. -/
theorem trans (h : s.Noted t) (h' : t.Noted u) (moves : ProperRun t u) : s.Noted u := by
  obtain ⟨added, hnotes, hknown⟩ := h
  obtain ⟨added', hnotes', hknown'⟩ := h'
  refine ⟨added ++ added', by rw [hnotes', hnotes, List.append_assoc], fun symbol hmem hty => ?_⟩
  obtain hmem | hmem := List.mem_append.1 hmem
  · exact moves.faulty (hknown symbol hmem hty)
  · exact hknown' symbol hmem hty

end State.Noted

omit [TypeTag τ] in
/-- Requiring a token notes nothing down. -/
theorem Recognizer.notes_mustBe (kind : κ) (strategy : Strategy) (s : State κ τ ω) :
    (mustBe kind strategy s).2.notes = s.notes :=
  mustBe_preserves (p := fun t => t.notes = s.notes) (fun t h => t.shift_notes.trans h)
    (fun _ _ h => h) (fun _ _ h => h) kind strategy rfl

namespace WarrantedAt

variable {post : α → Prop} {s : State κ τ (Symbol κ τ)} {r : Recognizer κ τ (Symbol κ τ) α}

/-- One operation, whose answer is put another way. -/
theorem operation (operation : Operation κ τ) (allowed : operation.Allowed s.engine)
    (f : α → Option (Token κ))
    (heq : operation.perform .recovering s = (r >>= fun a => Pure.pure (f a)) .recovering s)
    (proper : operation.Proper s.engine) (notes_eq : (r .recovering s).2.notes = s.notes)
    (value : ∀ a, (r .recovering s).1 = .value a → (r .recovering s).2.Faulty ∨ post a) :
    WarrantedAt post s (r .recovering s) := by
  refine ⟨.operation operation allowed f heq fun m hbefore hoperation => ?_,
    .of_notes_eq notes_eq, value⟩
  rw [hbefore, hoperation]
  exact proper

end WarrantedAt

/-- Nothing is known of the value. -/
def anything (_ : α) : Prop := True

/-- There is no value without a fault. -/
def nothing (_ : α) : Prop := False

namespace Warrants

variable {given given' : Prop} {post post' : α → Prop} {mid : α → Prop} {next : β → Prop}
  {r : Recognizer κ τ (Symbol κ τ) α} {f : α → Recognizer κ τ (Symbol κ τ) β}

/-- A rule may be given more than it asks for. -/
theorem mono (h : Warrants given post r) (hgiven : given' → given) : Warrants given' post r :=
  fun s justified hs => h s justified (hs.imp id hgiven)

/-- A rule may promise less than it answers. -/
theorem imp (h : Warrants given post r) (hpost : ∀ a, post a → post' a) :
    Warrants given post' r := fun s justified hs =>
  have hr := h s justified hs
  ⟨hr.moves, hr.noted, fun a ha => (hr.value a ha).imp id (hpost a)⟩

/-- A rule that ends at fault may promise anything. -/
theorem of_nothing (h : Warrants given nothing r) : Warrants given post r :=
  h.imp fun _ => False.elim

/-- What comes after a value may rely on what holds of it. -/
theorem bind (hr : Warrants given mid r) (hf : ∀ a, Warrants (given ∧ mid a) next (f a)) :
    Warrants given next (r >>= f) := by
  intro s justified hs
  obtain ⟨hmoves, hnoted, hvalue⟩ := hr s justified hs
  rw [Recognizer.bind_apply]
  generalize r .recovering s = e at hmoves hnoted hvalue
  obtain ⟨a | _ | _, t⟩ := e
  -- a fault from before the first part is still there behind it
  · have ht : t.Faulty ∨ given ∧ mid a := by
      obtain hs | hgiven := hs
      · exact .inl (hmoves.faulty hs)
      · exact (hvalue a rfl).imp id fun hmid => ⟨hgiven, hmid⟩
    obtain ⟨hmoves', hnoted', hvalue'⟩ := hf a t (hmoves.justified justified) ht
    exact ⟨hmoves.trans hmoves', hnoted.trans hnoted' hmoves', hvalue'⟩
  · exact ⟨hmoves, hnoted, by rintro _ ⟨⟩⟩
  · exact ⟨hmoves, hnoted, by rintro _ ⟨⟩⟩

/-- Each branch of a choice may rely on its own condition. -/
theorem ite {p : Prop} [Decidable p] {t : Recognizer κ τ (Symbol κ τ) α}
    (hr : p → Warrants given post r) (ht : ¬ p → Warrants given post t) :
    Warrants given post (if p then r else t) := by
  split
  · next hp => exact hr hp
  · next hp => exact ht hp

/-- A run that stays where it is. -/
theorem of_same (state_eq : ∀ s, (r .recovering s).2 = s)
    (value : ∀ s a, s.Justified → (r .recovering s).1 = .value a → given → s.Faulty ∨ post a) :
    Warrants given post r := by
  intro s justified hs
  have hsame := state_eq s
  refine ⟨.of_engine_eq (by rw [hsame]), .of_notes_eq (by rw [hsame]), fun a ha => ?_⟩
  rw [hsame]
  exact hs.elim .inl (value s a justified ha)

/-- A value may be answered if what is given says enough of it. -/
theorem pure {a : α} (h : given → post a) :
    Warrants given post (Pure.pure a : Recognizer κ τ (Symbol κ τ) α) :=
  .of_same (fun _ => rfl) fun _ _ _ ha hgiven => by
    cases ha
    exact .inr (h hgiven)

/-- What is read off the state of a justified run. -/
theorem inspect {g : State κ τ (Symbol κ τ) → α} (h : ∀ s, s.Justified → s.Faulty ∨ post (g s)) :
    Warrants given post (Recognizer.read g) :=
  .of_same (fun _ => rfl) fun s _ justified ha _ => by
    cases ha
    exact h s justified

/-- Reading the state promises nothing. -/
theorem read (g : State κ τ (Symbol κ τ) → α) : Warrants given anything (Recognizer.read g) :=
  .inspect fun _ _ => .inr trivial

/-- A run without fuel answers nothing. -/
theorem outOfFuel : Warrants given post (Recognizer.outOfFuel : Recognizer κ τ (Symbol κ τ) α) :=
  .of_same (fun _ => rfl) fun _ _ _ ha => nomatch ha

/-- A symbol may be noted if its type is known. -/
theorem note {symbol : Symbol κ τ} (h : given → symbol.type ≠ TypeTag.undefined) :
    Warrants given anything
      (Recognizer.note symbol : Recognizer κ τ (Symbol κ τ) Unit) := by
  intro s justified hs
  refine ⟨.of_engine_eq rfl, ⟨[symbol], rfl, fun other hmem hty => ?_⟩, fun _ _ => .inr trivial⟩
  rw [List.mem_singleton.1 hmem] at hty
  exact hs.elim id fun hgiven => absurd hty (h hgiven)

/-- Taking a token promises nothing. -/
theorem advance : Warrants given anything
    (Recognizer.advance : Recognizer κ τ (Symbol κ τ) (Token κ)) := fun s _ _ =>
  .operation .advance trivial some rfl trivial s.shift_notes fun _ _ => .inr trivial

/-- A token that is required may be missing, at fault or while recovering. -/
theorem mustBe (kind : κ) : Warrants given anything
    (Recognizer.mustBe kind : Recognizer κ τ (Symbol κ τ) (Option (Token κ))) := by
  intro s _ _
  have hnotes := Recognizer.notes_mustBe kind .recovering s
  refine ⟨.mustBe kind fun m hm => ?_, .of_notes_eq hnotes, fun _ _ => .inr trivial⟩
  obtain hm | hm := hm <;>
  · rw [hm]
    trivial

/-- Behind an unexpected token everything is warranted. -/
theorem unexpected (expected : Expected κ) : Warrants given nothing
    (Recognizer.unexpected expected : Recognizer κ τ (Symbol κ τ) Unit) := by
  intro s justified _
  have hstate : (Recognizer.unexpected expected .recovering s).2.notes = s.notes ∧
      (Recognizer.unexpected expected .recovering s).2.recovering = true := by
    rw [Recognizer.unexpected]
    split <;> exact ⟨rfl, rfl⟩
  have hfaulty := (justified.unexpected expected).recovers hstate.2
  exact .operation (.unexpected expected) trivial (fun _ => none) rfl trivial hstate.1
    fun _ _ => .inl hfaulty

/-- After a report the run is faulty, even if the fault was not recorded. -/
theorem report {d : Diagnostic κ τ} (semantic : d.isSemantic = true) (proper : d.Proper) :
    Warrants given nothing (Recognizer.report d : Recognizer κ τ (Symbol κ τ) Unit) := by
  intro s justified _
  have hstate : (Recognizer.report d .recovering s).2.notes = s.notes ∧
      (Recognizer.report d .recovering s).2.Faulty := by
    rw [Recognizer.report_recovering]
    split
    · next hr => exact ⟨rfl, justified.recovers hr⟩
    · exact ⟨rfl, .record (Diagnostic.isScanning_of_isSemantic semantic)⟩
  exact .operation (.report d) semantic (fun _ => none) rfl proper hstate.1
    fun _ _ => .inl hstate.2

/-- Opening a scope promises nothing. -/
theorem openScope : Warrants given anything
    (Recognizer.openScope : Recognizer κ τ (Symbol κ τ) Unit) := fun _ _ _ =>
  .operation .openScope trivial (fun _ => none) rfl trivial rfl fun _ _ => .inr trivial

/-- Closing a scope promises nothing. -/
theorem closeScope : Warrants given anything
    (Recognizer.closeScope : Recognizer κ τ (Symbol κ τ) Bool) := fun _ _ _ =>
  .operation .closeScope trivial (fun _ => none) rfl trivial rfl fun _ _ => .inr trivial

/-- A symbol may be bound if its type is known. -/
theorem bindSymbol {symbol : Symbol κ τ} (h : given → symbol.type ≠ TypeTag.undefined) :
    Warrants given anything
      (Recognizer.bindSymbol symbol : Recognizer κ τ (Symbol κ τ) Bool) := by
  intro s _ hs
  have hnotes : (Recognizer.bindSymbol symbol .recovering s).2.notes = s.notes := by
    rw [Recognizer.bindSymbol]
    split <;> rfl
  exact .operation (.bindSymbol symbol) trivial (fun _ => none) rfl
    (fun hty => hs.elim id fun hgiven => absurd hty (h hgiven)) hnotes fun _ _ => .inr trivial

/-- Looking at a token promises nothing. -/
theorem lookahead : Warrants given anything
    (Recognizer.lookahead : Recognizer κ τ (Symbol κ τ) (Token κ)) :=
  .read _

/-- Looking for a kind promises nothing. -/
theorem sees (kind : κ) : Warrants given anything
    (Recognizer.sees kind : Recognizer κ τ (Symbol κ τ) Bool) :=
  .read _

/-- Taking a token if it has a kind promises nothing. -/
theorem accept (kind : κ) : Warrants given anything
    (Recognizer.accept kind : Recognizer κ τ (Symbol κ τ) Bool) :=
  .bind (.sees kind) fun _ =>
    .ite (fun _ => .bind .advance fun _ => .pure fun _ => trivial) fun _ => .pure fun _ => trivial

/-- The end of the source is required without a promise. -/
theorem mustEnd : Warrants given anything
    (Recognizer.mustEnd : Recognizer κ τ (Symbol κ τ) Unit) :=
  .bind (.read _) fun _ => .bind (.read _) fun _ =>
    .ite (fun _ => .pure fun _ => trivial) fun _ => (Warrants.unexpected _).of_nothing

/-- What goes to the end of the source is warranted if its start is. -/
theorem toEnd {start : Recognizer κ τ (Symbol κ τ) Unit} (h : Warrants given anything start) :
    Warrants given anything start.toEnd :=
  .bind h fun _ => .mustEnd

/-! ### Recursion -/

/-- Fuel makes no difference to what is warranted. -/
theorem withFuel {r : Nat → Recognizer κ τ (Symbol κ τ) α} (h : ∀ n, Warrants given post (r n)) :
    Warrants given post (Recognizer.withFuel r) := fun s => h _ s

/-- A loop hands on from round to round what its value is known for. -/
theorem iterate {test : κ → Bool} {body : α → Recognizer κ τ (Symbol κ τ) α}
    (h : ∀ a, Warrants (post a) post (body a)) (n : Nat) (a : α) :
    Warrants (post a) post (Recognizer.iterate test body n a) := by
  -- on the rounds: `post` is what each of them is given, and what it answers
  induction n generalizing a with
  | zero => exact .outOfFuel
  | succ n ih =>
    exact .bind .lookahead fun _ => .ite
      (fun _ => .bind ((h a).mono And.left) fun b => (ih b).mono And.right)
      fun _ => .pure And.left

/-- A loop whose rounds keep what holds of the value. -/
theorem whileSees {test : κ → Bool} {body : α → Recognizer κ τ (Symbol κ τ) α}
    (h : ∀ a, Warrants (post a) post (body a)) {a : α} (ha : given → post a) :
    Warrants given post (Recognizer.whileSees test body a) :=
  .withFuel fun n => (iterate h n a).mono ha

/-! ### Names and types -/

/-- A symbol that is declared has a known type, unless its type was at fault. -/
theorem declare {symbol : Symbol κ τ} (h : given → symbol.type ≠ TypeTag.undefined) :
    Warrants given anything (Recognizer.declare symbol : Recognizer κ τ (Symbol κ τ) Bool) := by
  refine .bind (.read _) fun first? => ?_
  cases first? with
  | none => exact .bindSymbol fun hgiven => h hgiven.1
  | some first => exact .bind (.report rfl trivial) fun _ => .pure fun _ => trivial

/-- Is this a symbol of a known type? -/
def Resolved (symbol? : Option (Symbol κ τ)) : Prop :=
  ∃ symbol, symbol? = some symbol ∧ symbol.type ≠ TypeTag.undefined

/-- A name that is looked up stands for a symbol of a known type, or there is a fault. -/
theorem resolve (token : Token κ) : Warrants given Resolved
    (Recognizer.resolve token : Recognizer κ τ (Symbol κ τ) (Option (Symbol κ τ))) := by
  have hread : Warrants given
      (fun symbol? : Option (Symbol κ τ) =>
        ∀ symbol, symbol? = some symbol → Resolved (some symbol))
      (Recognizer.read (·.scopes.get? token.text)) := by
    refine .inspect fun s justified => ?_
    cases hget : s.scopes.get? token.text with
    | none => exact .inr (by simp)
    | some symbol =>
      refine (justified.get? hget).imp id fun hty other heq => ?_
      cases heq
      exact ⟨symbol, rfl, hty⟩
  refine .bind hread fun symbol? => ?_
  cases symbol? with
  | some symbol => exact .pure fun h => h.2 symbol rfl
  | none => exact .bind (.report rfl trivial) fun _ => .pure fun h => h.2.elim

/-- Types that do not agree are reported; if one of them is unknown, they agree. -/
theorem expectType (token : Token κ) (found expected : τ) : Warrants given (· = true)
    (Recognizer.expectType token found expected : Recognizer κ τ (Symbol κ τ) Bool) := by
  refine .ite (fun _ => .pure fun _ => rfl) fun hconflict => ?_
  simp only [TypeTag.isUndefined, decide_eq_true_eq, not_or] at hconflict
  exact .bind (.report rfl hconflict) fun _ => .pure fun h => h.2.elim

end Warrants

end

end SinglePass
