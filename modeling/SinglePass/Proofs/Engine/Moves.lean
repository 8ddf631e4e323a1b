import SinglePass.Proofs.FailFast

/-!
# The moves of the engine

What a recognizer does to a run is a sequence of moves of the engine, one behind the other.  A move
is one operation at one state; skipping to a token is cut into its rounds, so that nothing happens
between two moves.  `Move.effect` lists all that a move can do, and whatever is to hold at every
moment of a run is derived from this list.

* `Traced`: the run of a recognizer is a sequence of moves, and it gives up exactly if the last of
  them does.  Every rule put together from the operations of the engine is (`Composed.traced`).
* `Driven`: what drives the engine from outside, and may go on after an operation has given up.  Its
  runs are sequences of moves, too (`Driven.followed`).
-/

namespace SinglePass

variable {κ τ ω ν α β : Type}

/-- The state of the engine, without what the grammar has noted down. -/
def State.engine (s : State κ τ ω) : State κ τ Unit := s.withNotes []

/-! ## Skipping to a token -/

section

variable [TokenKind κ]

/-- Is there nothing to discard on the way to a token of the kind? -/
def State.Over (kind : κ) (s : State κ τ ω) : Prop :=
  s.lookahead.kind = kind ∨ s.lookahead.isEnd = true ∨ s.ahead.tokens = []

namespace State

variable {kind : κ} {s : State κ τ ω}

/-- Where discarding is over, nothing is discarded. -/
theorem discardTo_of_over (h : s.Over kind) : s.discardTo kind = s := by
  rw [discardTo]
  cases htokens : s.ahead.tokens with
  | nil => rfl
  | cons next more =>
    rw [discard]
    apply if_pos
    obtain h | h | h := h
    · exact .inl h
    · exact .inr h
    · exact absurd (htokens.symm.trans h) (List.cons_ne_nil next more)

/-- A round of skipping moves on by one token. -/
theorem discardTo_of_not_over (h : ¬ s.Over kind) : s.discardTo kind = s.shift.discardTo kind := by
  rw [State.Over, not_or, not_or] at h
  obtain ⟨hkind, hend, htokens⟩ := h
  obtain ⟨next, more, htokens⟩ := List.exists_cons_of_ne_nil htokens
  have hshift : s.shift.ahead.tokens = more := by rw [shift_tokens, htokens, List.tail_cons]
  rw [discardTo, discardTo, hshift, htokens, discard, if_neg]
  exact fun hstop => hstop.elim hkind hend

/-- What holds where there is nothing to discard, and holds before a round if it does after it,
holds of every state. -/
theorem skipping (kind : κ) {p : State κ τ ω → Prop} (stop : ∀ s, s.Over kind → p s)
    (round : ∀ s, ¬ s.Over kind → p s.shift → p s) (s : State κ τ ω) : p s := by
  induction hn : s.ahead.tokens.length generalizing s with
  | zero => exact stop s (.inr (.inr (List.length_eq_zero_iff.1 hn)))
  | succ n ih =>
    by_cases h : s.Over kind
    · exact stop s h
    · refine round s h (ih s.shift ?_)
      rw [shift_tokens, List.length_tail, hn, Nat.add_sub_cancel]

end State

/-- Where discarding is not over, requiring a token discards the next one. -/
theorem Recognizer.mustBe_of_not_over {kind : κ} {s : State κ τ ω} (strategy : Strategy)
    (hr : s.recovering = true) (h : ¬ s.Over kind) :
    mustBe kind strategy s = mustBe kind strategy s.shift := by
  rw [mustBe_of_recovering strategy hr,
    mustBe_of_recovering strategy ((State.shift_recovering s).trans hr), resynchronize,
    resynchronize, State.discardTo_of_not_over h]

end

/-! ## Operations and moves -/

/-- The operations of the engine that can change its state. -/
inductive Operation (κ τ : Type) where
  | advance
  /-- A round of skipping to a token. -/
  | discard
  /-- What `mustBe` does when the token to be skipped to has come. -/
  | mustBe (kind : κ)
  | unexpected (expected : Expected κ)
  | report (d : Diagnostic κ τ)
  | openScope
  | closeScope
  | bindSymbol (symbol : Symbol κ τ)

namespace Operation

variable [TokenKind κ]

/-- Perform an operation; the answer is the token that it has consumed, if any. -/
def perform : Operation κ τ → Recognizer κ τ ω (Option (Token κ))
  | advance => do return some (← Recognizer.advance)
  | discard => do return some (← Recognizer.advance)
  | mustBe kind => Recognizer.mustBe kind
  | unexpected expected => do
    Recognizer.unexpected expected
    return none
  | report d => do
    Recognizer.report d
    return none
  | openScope => do
    Recognizer.openScope
    return none
  | closeScope => do
    let _ ← Recognizer.closeScope
    return none
  | bindSymbol symbol => do
    let _ ← Recognizer.bindSymbol symbol
    return none

/-- When an operation may be performed.  Tokens are discarded only while recovering, and `mustBe`
comes to its end only when there is nothing more to discard.  Reports are of faults of meaning. -/
def Allowed (s : State κ τ ω) : Operation κ τ → Prop
  | discard => s.recovering = true ∧ s.lookahead.isEnd = false
  | mustBe kind => s.recovering = true → s.Over kind
  | report d => d.isSemantic = true
  | _ => True

end Operation

section

variable [TokenKind κ]

/-- An operation at a state. -/
structure Move (κ τ : Type) [TokenKind κ] (strategy : Strategy) where
  before : State κ τ Unit
  operation : Operation κ τ
  allowed : operation.Allowed before

namespace Move

variable {strategy : Strategy}

/-- How the operation ends. -/
def outcome (m : Move κ τ strategy) : Outcome (Option (Token κ)) :=
  (m.operation.perform strategy m.before).1

/-- The state that the operation leaves behind. -/
def after (m : Move κ τ strategy) : State κ τ Unit := (m.operation.perform strategy m.before).2

/-- The token that was consumed, whether it was handed out or thrown away. -/
def token? (m : Move κ τ strategy) : Option (Token κ) :=
  match m.outcome with
  | .value token? => token?
  | _ => none

/-- Does the run begin to recover? -/
def turnsOn (m : Move κ τ strategy) : Bool := !m.before.recovering && m.after.recovering

end Move

/-- Moves, one behind the other, from a state to another. -/
def Leads {strategy : Strategy} : State κ τ Unit → List (Move κ τ strategy) → State κ τ Unit → Prop
  | s, [], t => s = t
  | s, m :: ms, t => m.before = s ∧ Leads m.after ms t

namespace Leads

variable {strategy : Strategy} {s t u : State κ τ Unit} {ms ms' : List (Move κ τ strategy)}

/-- Moves may be put behind each other. -/
theorem append (h : Leads s ms t) (h' : Leads t ms' u) : Leads s (ms ++ ms') u := by
  induction ms generalizing s with
  | nil =>
    cases h
    exact h'
  | cons m ms ih => exact ⟨h.1, ih h.2⟩

/-- Moves may be cut in two. -/
theorem split (h : Leads s (ms ++ ms') u) : ∃ t, Leads s ms t ∧ Leads t ms' u := by
  induction ms generalizing s with
  | nil => exact ⟨s, rfl, h⟩
  | cons m ms ih =>
    obtain ⟨t, hms, hms'⟩ := ih h.2
    exact ⟨t, ⟨h.1, hms⟩, hms'⟩

/-- What every move keeps holds at the end. -/
theorem preserves {p : State κ τ Unit → Prop} (h : Leads s ms t)
    (step : ∀ m ∈ ms, p m.before → p m.after) (hs : p s) : p t := by
  induction ms generalizing s with
  | nil =>
    cases h
    exact hs
  | cons m ms ih =>
    obtain ⟨rfl, h⟩ := h
    exact ih h (fun m' hm' => step m' (List.mem_cons_of_mem _ hm'))
      (step m List.mem_cons_self hs)

/-- What every move keeps holds before each of them. -/
theorem before {p : State κ τ Unit → Prop} (h : Leads s ms t)
    (step : ∀ m : Move κ τ strategy, p m.before → p m.after) (hs : p s) :
    ∀ m ∈ ms, p m.before := by
  induction ms generalizing s with
  | nil => simp
  | cons m ms ih =>
    obtain ⟨rfl, h⟩ := h
    intro m' hm'
    obtain rfl | hm' := List.mem_cons.1 hm'
    · exact hs
    · exact ih h (step m hs) m' hm'

end Leads

/-! ## What a move does -/

/-- All that a move can do. -/
inductive Move.Effect {strategy : Strategy} (m : Move κ τ strategy) : Prop
  /-- A token is consumed. -/
  | shifts (outcome_eq : m.outcome = .value (some m.before.lookahead))
      (after_eq : m.after = m.before.shift)
  /-- The token that was skipped to is consumed, and the recovery ends. -/
  | resumes (kind : κ) (operation_eq : m.operation = .mustBe kind)
      (recovers : m.before.recovering = true)
      (outcome_eq : m.outcome = .value (some m.before.lookahead))
      (after_eq : m.after = State.shift { m.before with recovering := false })
  /-- An unexpected token is recorded, and a recovery begins. -/
  | rejects (expected : Expected κ) (strategy_eq : strategy = .recovering)
      (calm : m.before.recovering = false) (outcome_eq : m.outcome = .value none)
      (after_eq : m.after =
        { m.before.record (.unexpected m.before.lookahead expected) with recovering := true })
  /-- A fault of meaning is recorded. -/
  | reports (d : Diagnostic κ τ) (strategy_eq : strategy = .recovering)
      (calm : m.before.recovering = false) (semantic : d.isSemantic = true)
      (outcome_eq : m.outcome = .value none) (after_eq : m.after = m.before.record d)
  /-- A fault is recorded, and the run gives up. -/
  | givesUp (d : Diagnostic κ τ) (strategy_eq : strategy = .failFast)
      (fault : d.isScanning = false) (outcome_eq : m.outcome = .abort)
      (after_eq : m.after = m.before.record d)
  /-- At most the scopes change. -/
  | keeps (scopes : ScopeStack κ τ) (outcome_eq : m.outcome = .value none)
      (after_eq : m.after = { m.before with scopes })

/-- Requiring a token does one of the things that a move can do. -/
theorem Move.effect_mustBe {strategy : Strategy} {s : State κ τ Unit} {kind : κ}
    (allowed : (Operation.mustBe kind : Operation κ τ).Allowed s) :
    (⟨s, .mustBe kind, allowed⟩ : Move κ τ strategy).Effect := by
  have hperform : ∀ e, Recognizer.mustBe kind strategy s = e →
      (⟨s, .mustBe kind, allowed⟩ : Move κ τ strategy).outcome = e.1 ∧
        (⟨s, .mustBe kind, allowed⟩ : Move κ τ strategy).after = e.2 := by
    rintro e rfl
    exact ⟨rfl, rfl⟩
  cases hr : s.recovering with
  | true =>
    have hover : s.discardTo kind = s := State.discardTo_of_over (allowed hr)
    by_cases hk : s.lookahead.kind = kind
    · obtain ⟨houtcome, hafter⟩ := hperform _ <| by
        rw [Recognizer.mustBe_of_recovering strategy hr, Recognizer.resynchronize, hover, if_pos hk]
      exact .resumes kind rfl hr houtcome hafter
    · obtain ⟨houtcome, hafter⟩ := hperform _ <| by
        rw [Recognizer.mustBe_of_recovering strategy hr, Recognizer.resynchronize, hover, if_neg hk]
      exact .keeps s.scopes houtcome hafter
  | false =>
    by_cases hk : s.lookahead.kind = kind
    · obtain ⟨houtcome, hafter⟩ := hperform _ (Recognizer.mustBe_of_kind_eq strategy hr hk)
      exact .shifts houtcome hafter
    · cases strategy with
      | failFast =>
        obtain ⟨houtcome, hafter⟩ := hperform _ (Recognizer.mustBe_failFast_of_kind_ne hr hk)
        exact .givesUp _ rfl rfl houtcome hafter
      | recovering =>
        obtain ⟨houtcome, hafter⟩ := hperform _ (Recognizer.mustBe_recovering_of_kind_ne hr hk)
        exact .rejects _ rfl hr houtcome hafter

/-- A move does nothing else. -/
theorem Move.effect {strategy : Strategy} (m : Move κ τ strategy) : m.Effect := by
  obtain ⟨s, operation, allowed⟩ := m
  cases operation with
  | advance => exact .shifts rfl rfl
  | discard => exact .shifts rfl rfl
  | mustBe kind => exact effect_mustBe allowed
  | unexpected expected =>
    cases strategy with
    | failFast => exact .givesUp (.unexpected s.lookahead expected) rfl rfl rfl rfl
    | recovering =>
      obtain ⟨lookahead, ahead, recovering, scopes, sink, notes⟩ := s
      cases recovering with
      | false => exact .rejects expected rfl rfl rfl rfl
      | true => exact .keeps scopes rfl rfl
  | report d =>
    cases strategy with
    | failFast => exact .givesUp d rfl (Diagnostic.isScanning_of_isSemantic allowed) rfl rfl
    | recovering =>
      obtain ⟨lookahead, ahead, recovering, scopes, sink, notes⟩ := s
      cases recovering with
      | false => exact .reports d rfl rfl allowed rfl rfl
      | true => exact .keeps scopes rfl rfl
  | openScope => exact .keeps _ rfl rfl
  | closeScope => exact .keeps _ rfl rfl
  -- Binding changes the scopes at most, whether or not the name is free.
  | bindSymbol symbol =>
    cases hadd : (Recognizer.scopesForDeclaration s.scopes).add? symbol with
    | none =>
      have hbind : Recognizer.bindSymbol symbol strategy s = (.value false, s) := by
        simp [Recognizer.bindSymbol, hadd]
      have hperform := Recognizer.bind_of_value hbind fun _ =>
        (Pure.pure none : Recognizer κ τ Unit (Option (Token κ)))
      exact .keeps s.scopes (congrArg Prod.fst hperform) (congrArg Prod.snd hperform)
    | some added =>
      have hbind : Recognizer.bindSymbol symbol strategy s =
          (.value added.1, { s with scopes := added.2 }) := by
        simp [Recognizer.bindSymbol, hadd]
      have hperform := Recognizer.bind_of_value hbind fun _ =>
        (Pure.pure none : Recognizer κ τ Unit (Option (Token κ)))
      exact .keeps added.2 (congrArg Prod.fst hperform) (congrArg Prod.snd hperform)

/-! ## The engine does not look at notes -/

omit [TokenKind κ] in
/-- Going on is a matter of the engine, and not of the notes. -/
@[simp] theorem State.engine_shift (s : State κ τ ω) : s.shift.engine = s.engine.shift := by
  obtain ⟨lookahead, ⟨tokens, count, count_eq⟩, recovering, scopes, sink, notes⟩ := s
  cases tokens <;> rfl

/-- Skipping to a kind is a matter of the engine, and not of the notes. -/
@[simp] theorem State.engine_discardTo (kind : κ) (s : State κ τ ω) :
    (s.discardTo kind).engine = s.engine.discardTo kind := by
  induction s using skipping kind with
  | stop s h => rw [discardTo_of_over h, discardTo_of_over (show s.engine.Over kind from h)]
  | round s h ih =>
    rw [discardTo_of_not_over h, discardTo_of_not_over (show ¬ s.engine.Over kind from h), ih,
      engine_shift]

omit [TokenKind κ] in
/-- Consuming a token does the same with and without notes. -/
theorem State.shifted_engine (s : State κ τ ω) :
    ((.value (some s.lookahead), s.engine.shift) : Outcome (Option (Token κ)) × State κ τ Unit) =
      (.value (some s.lookahead), s.shift.engine) := by
  rw [engine_shift]

/-- Requiring a token does the same with and without notes. -/
theorem Recognizer.mustBe_engine (kind : κ) (strategy : Strategy) (s : State κ τ ω) :
    mustBe kind strategy s.engine =
      ((mustBe kind strategy s).1, (mustBe kind strategy s).2.engine) := by
  cases hr : s.recovering with
  | true =>
    rw [mustBe_of_recovering strategy hr, mustBe_of_recovering (s := s.engine) strategy hr,
      resynchronize, resynchronize, ← State.engine_discardTo]
    by_cases hk : (s.discardTo kind).lookahead.kind = kind
    · rw [if_pos hk, if_pos (show (s.discardTo kind).engine.lookahead.kind = kind from hk)]
      exact State.shifted_engine { s.discardTo kind with recovering := false }
    · rw [if_neg hk, if_neg (show ¬ (s.discardTo kind).engine.lookahead.kind = kind from hk)]
  | false =>
    by_cases hk : s.lookahead.kind = kind
    · rw [mustBe_of_kind_eq strategy hr hk, mustBe_of_kind_eq (s := s.engine) strategy hr hk]
      exact s.shifted_engine
    · cases strategy with
      | failFast =>
        rw [mustBe_failFast_of_kind_ne hr hk, mustBe_failFast_of_kind_ne (s := s.engine) hr hk]
        rfl
      | recovering =>
        rw [mustBe_recovering_of_kind_ne hr hk, mustBe_recovering_of_kind_ne (s := s.engine) hr hk]
        rfl

omit [TokenKind κ] in
/-- So does a declaration. -/
theorem Recognizer.bindSymbol_engine (symbol : Symbol κ τ) (strategy : Strategy)
    (s : State κ τ ω) :
    bindSymbol symbol strategy s.engine =
      ((bindSymbol symbol strategy s).1, (bindSymbol symbol strategy s).2.engine) := by
  cases hadd : (scopesForDeclaration s.scopes).add? symbol with
  | none => simp [bindSymbol, State.engine, State.withNotes, hadd]
  | some added => simp [bindSymbol, State.engine, State.withNotes, hadd]

/-- An operation does the same with and without notes. -/
theorem Operation.perform_engine (operation : Operation κ τ) (strategy : Strategy)
    (s : State κ τ ω) :
    operation.perform strategy s.engine =
      ((operation.perform strategy s).1, (operation.perform strategy s).2.engine) := by
  cases operation with
  | advance => exact s.shifted_engine
  | discard => exact s.shifted_engine
  | mustBe kind => exact Recognizer.mustBe_engine kind strategy s
  | unexpected expected =>
    obtain ⟨lookahead, ahead, recovering, scopes, sink, notes⟩ := s
    cases strategy <;> cases recovering <;> rfl
  | report d =>
    obtain ⟨lookahead, ahead, recovering, scopes, sink, notes⟩ := s
    cases strategy <;> cases recovering <;> rfl
  | openScope => rfl
  | closeScope => rfl
  | bindSymbol symbol =>
    have hbind := Recognizer.bindSymbol_engine symbol strategy s
    show (Recognizer.bindSymbol symbol >>= fun _ => pure none) strategy s.engine =
      (((Recognizer.bindSymbol symbol >>= fun _ => pure none) strategy s).1,
        ((Recognizer.bindSymbol symbol >>= fun _ => pure none) strategy s).2.engine)
    rw [Recognizer.bind_apply, Recognizer.bind_apply, hbind]
    obtain ⟨_ | _ | _, t⟩ := Recognizer.bindSymbol symbol strategy s <;> rfl

/-! ## Runs as sequences of moves -/

/-- An operation is a move. -/
theorem Operation.move (operation : Operation κ τ) (strategy : Strategy) (s : State κ τ ω)
    (allowed : operation.Allowed s.engine) :
    ∃ m : Move κ τ strategy, m.before = s.engine ∧ m.operation = operation ∧
      m.outcome = (operation.perform strategy s).1 ∧
      m.after = (operation.perform strategy s).2.engine := by
  have hperform := operation.perform_engine strategy s
  exact ⟨⟨s.engine, operation, allowed⟩, rfl, rfl, congrArg Prod.fst hperform,
    congrArg Prod.snd hperform⟩

/-- Requiring a token takes rounds of skipping, and one last move. -/
theorem Recognizer.mustBe_moves (kind : κ) (strategy : Strategy) (s : State κ τ ω) :
    ∃ (rounds : List (Move κ τ strategy)) (last : Move κ τ strategy),
      Leads s.engine (rounds ++ [last]) (mustBe kind strategy s).2.engine ∧
      (∀ m ∈ rounds, m.operation = .discard) ∧ last.operation = .mustBe kind ∧
      last.outcome = (mustBe kind strategy s).1 := by
  have single : ∀ s : State κ τ ω, (s.recovering = true → s.Over kind) →
      ∃ (rounds : List (Move κ τ strategy)) (last : Move κ τ strategy),
        Leads s.engine (rounds ++ [last]) (mustBe kind strategy s).2.engine ∧
        (∀ m ∈ rounds, m.operation = .discard) ∧ last.operation = .mustBe kind ∧
        last.outcome = (mustBe kind strategy s).1 := by
    intro s hover
    obtain ⟨last, hbefore, hoperation, houtcome, hafter⟩ :=
      (Operation.mustBe kind : Operation κ τ).move strategy s hover
    exact ⟨[], last, ⟨hbefore, hafter⟩, by simp, hoperation, houtcome⟩
  -- By induction on the rounds of skipping, each of them a move of its own.
  induction s using State.skipping kind with
  | stop s h => exact single s fun _ => h
  | round s h ih =>
    by_cases hr : s.recovering = true
    · obtain ⟨m, hbefore, hoperation, -, hafter⟩ := (Operation.discard : Operation κ τ).move
        strategy s ⟨hr, (Bool.not_eq_true _).mp fun hend => h (.inr (.inl hend))⟩
      obtain ⟨rounds, last, hleads, hrounds, hlast, houtcome⟩ := ih
      rw [mustBe_of_not_over strategy hr h]
      refine ⟨m :: rounds, last, ⟨hbefore, ?_⟩, ?_, hlast, houtcome⟩
      · rw [hafter]
        exact hleads
      · intro m' hm'
        obtain rfl | hm' := List.mem_cons.1 hm'
        · exact hoperation
        · exact hrounds m' hm'
    · exact single s fun hr' => absurd hr' hr

/-- What the moves of a run say about its end: it gives up exactly if the last one does. -/
inductive Concludes {strategy : Strategy} : List (Move κ τ strategy) → Outcome α → Prop
  | goesOn {ms : List (Move κ τ strategy)} {o : Outcome α} (outcome_ne : o ≠ .abort)
      (all : ∀ m ∈ ms, m.outcome ≠ .abort) : Concludes ms o
  | givesUp {ms : List (Move κ τ strategy)} {m : Move κ τ strategy} (last : m.outcome = .abort)
      (others : ∀ m ∈ ms, m.outcome ≠ .abort) : Concludes (ms ++ [m]) .abort

/-- A run that is a sequence of moves. -/
def TracedAt (strategy : Strategy) (s : State κ τ ω) (e : Outcome α × State κ τ ω) : Prop :=
  ∃ ms : List (Move κ τ strategy), Leads s.engine ms e.2.engine ∧ Concludes ms e.1

/-- A recognizer all of whose runs are sequences of moves. -/
def Traced (r : Recognizer κ τ ω α) : Prop := ∀ strategy s, TracedAt strategy s (r strategy s)

namespace TracedAt

variable {strategy : Strategy} {s t : State κ τ ω} {e : Outcome α × State κ τ ω}

/-- Doing nothing takes no move. -/
theorem nothing (outcome_ne : e.1 ≠ .abort) (state_eq : e.2.engine = s.engine) :
    TracedAt strategy s e := ⟨[], state_eq.symm, .goesOn outcome_ne (by simp)⟩

/-- An operation is a move. -/
theorem single (operation : Operation κ τ) (allowed : operation.Allowed s.engine)
    (outcome_iff : e.1 = .abort ↔ (operation.perform strategy s).1 = .abort)
    (state_eq : e.2.engine = (operation.perform strategy s).2.engine) : TracedAt strategy s e := by
  obtain ⟨m, hbefore, -, houtcome, hafter⟩ := operation.move strategy s allowed
  refine ⟨[m], ⟨hbefore, hafter.trans state_eq.symm⟩, ?_⟩
  by_cases habort : e.1 = .abort
  · rw [habort]
    rw [← List.nil_append [m]]
    exact .givesUp (houtcome.trans (outcome_iff.1 habort)) fun m' hm' => nomatch hm'
  · refine .goesOn habort fun m' hm' => ?_
    rw [List.mem_singleton.1 hm', houtcome]
    exact fun h => habort (outcome_iff.2 h)

/-- So is an operation whose answer is put another way. -/
theorem answer {r : Recognizer κ τ ω α} (operation : Operation κ τ)
    (allowed : operation.Allowed s.engine) (f : α → Option (Token κ))
    (h : operation.perform strategy s = (r >>= fun a => Pure.pure (f a)) strategy s) :
    TracedAt strategy s (r strategy s) := by
  rw [Recognizer.bind_apply] at h
  apply single operation allowed
  · rw [h]
    generalize r strategy s = e
    obtain ⟨a | _ | _, t⟩ := e <;> simp [Recognizer.pure_apply]
  · rw [h]
    generalize r strategy s = e
    obtain ⟨a | _ | _, t⟩ := e <;> rfl

/-- What goes on after some moves is made of these and those that follow. -/
theorem after {ms : List (Move κ τ strategy)} (hms : Leads s.engine ms t.engine)
    (hall : ∀ m ∈ ms, m.outcome ≠ .abort) (h : TracedAt strategy t e) : TracedAt strategy s e := by
  obtain ⟨o, u⟩ := e
  obtain ⟨ms', hms', hconcludes⟩ := h
  have both : ∀ ms' : List (Move κ τ strategy), (∀ m ∈ ms', m.outcome ≠ .abort) →
      ∀ m ∈ ms ++ ms', m.outcome ≠ .abort := by
    intro ms' h' m hm
    exact (List.mem_append.1 hm).elim (hall m) (h' m)
  refine ⟨ms ++ ms', hms.append hms', ?_⟩
  cases hconcludes with
  | goesOn outcome_ne all => exact .goesOn outcome_ne (both _ all)
  | givesUp last others =>
    rw [← List.append_assoc]
    exact .givesUp last (both _ others)

end TracedAt

namespace Traced

/-- What is put in sequence leaves a trace if its parts do. -/
theorem bind {r : Recognizer κ τ ω α} {f : α → Recognizer κ τ ω β} (hr : Traced r)
    (hf : ∀ a, Traced (f a)) : Traced (r >>= f) := by
  intro strategy s
  obtain ⟨ms, hms, hconcludes⟩ := hr strategy s
  rw [Recognizer.bind_apply]
  generalize r strategy s = e at hms hconcludes
  obtain ⟨a | _ | _, t⟩ := e
  · cases hconcludes with
    | goesOn _ all => exact (hf a strategy t).after hms all
  · refine ⟨ms, hms, ?_⟩
    cases hconcludes with
    | goesOn outcome_ne _ => exact absurd rfl outcome_ne
    | givesUp last others => exact .givesUp last others
  · refine ⟨ms, hms, ?_⟩
    cases hconcludes with
    | goesOn _ all => exact .goesOn (by simp) all

/-- What only looks at the run is no move. -/
theorem read (f : State κ τ ω → α) : Traced (Recognizer.read f) :=
  fun _ _ => .nothing (by simp [Recognizer.read]) rfl

/-- A value leaves no trace. -/
theorem pure (a : α) : Traced (Pure.pure a : Recognizer κ τ ω α) :=
  fun _ _ => .nothing (by simp [Recognizer.pure_apply]) rfl

/-- The strategy leaves no trace. -/
theorem strategy : Traced (Recognizer.strategy : Recognizer κ τ ω Strategy) :=
  fun _ _ => .nothing (by simp [Recognizer.strategy]) rfl

/-- Requiring a token gives up exactly if its last move does. -/
theorem mustBe (kind : κ) : Traced (Recognizer.mustBe kind : Recognizer κ τ ω _) := by
  intro strategy s
  obtain ⟨rounds, last, hleads, hrounds, -, houtcome⟩ := Recognizer.mustBe_moves kind strategy s
  have hgoesOn : ∀ m ∈ rounds, m.outcome ≠ .abort := by
    intro m hm
    have hoperation := hrounds m hm
    obtain ⟨before, operation, allowed⟩ := m
    cases hoperation
    exact fun habort => nomatch habort
  refine ⟨rounds ++ [last], hleads, ?_⟩
  rw [← houtcome]
  by_cases habort : last.outcome = .abort
  · rw [habort]
    exact .givesUp habort hgoesOn
  · refine .goesOn habort fun m hm => ?_
    obtain hm | hm := List.mem_append.1 hm
    · exact hgoesOn m hm
    · rwa [List.mem_singleton.1 hm]

/-- A rule that keeps notes of its own does to the engine what it does without them. -/
theorem collecting {r : Recognizer κ τ ν Unit} (h : Traced r) :
    Traced (Recognizer.collecting r : Recognizer κ τ ω (List ν)) := by
  intro strategy s
  obtain ⟨ms, hms, hconcludes⟩ := h strategy (s.withNotes [])
  refine ⟨ms, hms, ?_⟩
  show Concludes ms ((r strategy (s.withNotes [])).1.map _)
  generalize (r strategy (s.withNotes [])).1 = o at hconcludes
  cases hconcludes with
  | goesOn outcome_ne all =>
    refine .goesOn (fun hmap => outcome_ne ?_) all
    cases o with
    | abort => rfl
    | _ => nomatch hmap
  | givesUp last others => exact .givesUp last others

end Traced

/-- Whatever is put together from the operations of the engine runs as a sequence of moves. -/
theorem Composed.traced {r : Recognizer κ τ ω α} (h : Composed r) : Traced r := by
  induction h with
  | pure a => exact .pure a
  | bind _ _ ihr ihf => exact .bind ihr ihf
  | withFuel _ ih => exact fun strategy s => ih _ strategy s
  | outOfFuel => exact fun _ _ => .nothing (by simp [Recognizer.outOfFuel]) rfl
  | read f => exact .read f
  | note w => exact fun _ _ => .nothing (by simp [Recognizer.note, Recognizer.change]) rfl
  | advance => exact fun strategy s => .answer .advance trivial some rfl
  | mustBe kind => exact .mustBe kind
  | unexpected expected =>
    exact fun strategy s => .answer (.unexpected expected) trivial (fun _ => none) rfl
  | report d hd => exact fun strategy s => .answer (.report d) hd (fun _ => none) rfl
  | openScope => exact fun strategy s => .answer .openScope trivial (fun _ => none) rfl
  | closeScope => exact fun strategy s => .answer .closeScope trivial (fun _ => none) rfl
  | bindSymbol symbol =>
    exact fun strategy s => .answer (.bindSymbol symbol) trivial (fun _ => none) rfl

/-! ## Moves with a property in common -/

/-- A run that is a sequence of moves with a property. -/
def RunsBy {strategy : Strategy} (p : Move κ τ strategy → Prop) (s t : State κ τ ω) : Prop :=
  ∃ ms : List (Move κ τ strategy), Leads s.engine ms t.engine ∧ ∀ m ∈ ms, p m

omit [TokenKind κ] in
/-- Putting an answer another way leaves the state alone. -/
theorem Recognizer.state_bind_pure (r : Recognizer κ τ ω α) (f : α → β) (strategy : Strategy)
    (s : State κ τ ω) :
    ((r >>= fun a => (Pure.pure (f a) : Recognizer κ τ ω β)) strategy s).2 = (r strategy s).2 := by
  rw [bind_apply]
  generalize r strategy s = e
  obtain ⟨a | _ | _, t⟩ := e <;> rfl

namespace RunsBy

variable {strategy : Strategy} {p : Move κ τ strategy → Prop} {s t u : State κ τ ω}

/-- What leaves the engine alone takes no move. -/
theorem of_engine_eq (h : t.engine = s.engine) : RunsBy p s t := ⟨[], h.symm, by simp⟩

/-- Runs may be put behind each other. -/
theorem trans (h : RunsBy p s t) (h' : RunsBy p t u) : RunsBy p s u := by
  obtain ⟨ms, hms, hp⟩ := h
  obtain ⟨ms', hms', hp'⟩ := h'
  exact ⟨ms ++ ms', hms.append hms', fun m hm => (List.mem_append.1 hm).elim (hp m) (hp' m)⟩

/-- An operation whose answer is put another way. -/
theorem operation {r : Recognizer κ τ ω α} (operation : Operation κ τ)
    (allowed : operation.Allowed s.engine) (f : α → Option (Token κ))
    (heq : operation.perform strategy s = (r >>= fun a => Pure.pure (f a)) strategy s)
    (h : ∀ m : Move κ τ strategy, m.before = s.engine → m.operation = operation → p m) :
    RunsBy p s (r strategy s).2 := by
  have hstate : (operation.perform strategy s).2 = (r strategy s).2 := by
    rw [heq, Recognizer.state_bind_pure]
  obtain ⟨m, hbefore, hoperation, -, hafter⟩ := operation.move strategy s allowed
  refine ⟨[m], ⟨hbefore, hafter.trans (by rw [hstate])⟩, fun m' hm' => ?_⟩
  rw [List.mem_singleton.1 hm']
  exact h m hbefore hoperation

/-- Requiring a token runs by discarding tokens, and by a last move. -/
theorem mustBe (kind : κ)
    (h : ∀ m : Move κ τ strategy, m.operation = .discard ∨ m.operation = .mustBe kind → p m) :
    RunsBy p s (Recognizer.mustBe kind strategy s).2 := by
  obtain ⟨rounds, last, hleads, hrounds, hlast, -⟩ := Recognizer.mustBe_moves kind strategy s
  refine ⟨rounds ++ [last], hleads, fun m hm => h m ?_⟩
  obtain hm | hm := List.mem_append.1 hm
  · exact .inl (hrounds m hm)
  · rw [List.mem_singleton.1 hm]
    exact .inr hlast

/-- A run of two parts, where the second begins with the value of the first. -/
theorem bind {r : Recognizer κ τ ω α} {f : α → Recognizer κ τ ω β}
    (hr : RunsBy p s (r strategy s).2)
    (hf : ∀ a t, r strategy s = (.value a, t) → RunsBy p t (f a strategy t).2) :
    RunsBy p s ((r >>= f) strategy s).2 := by
  rw [Recognizer.bind_apply]
  split
  · next a t heq =>
    rw [heq] at hr
    exact hr.trans (hf a t heq)
  · next t heq => rwa [heq] at hr
  · next t heq => rwa [heq] at hr

end RunsBy

/-! ## What drives the engine -/

/-- A recognizer that drives the engine: it is put together from the operations of the engine, it
may ask for the strategy, give up on its own, and go on after a part of it has given up. -/
inductive Driven : {ω α : Type} → Recognizer κ τ ω α → Prop
  | composed {ω α : Type} {r : Recognizer κ τ ω α} : Composed r → Driven r
  | strategy {ω : Type} : Driven (Recognizer.strategy : Recognizer κ τ ω Strategy)
  | abort {ω α : Type} : Driven (Recognizer.abort : Recognizer κ τ ω α)
  | bind {ω α β : Type} {r : Recognizer κ τ ω α} {f : α → Recognizer κ τ ω β} :
      Driven r → (∀ a, Driven (f a)) → Driven (r >>= f)
  | withFuel {ω α : Type} {r : Nat → Recognizer κ τ ω α} :
      (∀ n, Driven (r n)) → Driven (Recognizer.withFuel r)
  | attempt {ω α : Type} {r : Recognizer κ τ ω α} : Driven r → Driven (Recognizer.attempt r)
  | collecting {ω ν : Type} {r : Recognizer κ τ ν Unit} :
      Driven r → Driven (Recognizer.collecting r : Recognizer κ τ ω (List ν))

/-- Whatever drives the engine, its runs are sequences of moves. -/
theorem Driven.followed {r : Recognizer κ τ ω α} (h : Driven r) (strategy : Strategy)
    (s : State κ τ ω) :
    ∃ ms : List (Move κ τ strategy), Leads s.engine ms (r strategy s).2.engine := by
  induction h with
  | composed h =>
    obtain ⟨ms, hms, -⟩ := h.traced strategy s
    exact ⟨ms, hms⟩
  | strategy => exact ⟨[], rfl⟩
  | abort => exact ⟨[], rfl⟩
  | bind _ _ ihr ihf =>
    obtain ⟨ms, hms⟩ := ihr s
    rw [Recognizer.bind_apply]
    split
    · next a t heq =>
      rw [heq] at hms
      obtain ⟨ms', hms'⟩ := ihf a t
      exact ⟨ms ++ ms', hms.append hms'⟩
    · next t heq =>
      rw [heq] at hms
      exact ⟨ms, hms⟩
    · next t heq =>
      rw [heq] at hms
      exact ⟨ms, hms⟩
  | withFuel _ ih => exact ih _ s
  | attempt _ ih => exact ih s
  | collecting _ ih => exact ih (s.withNotes [])

end

end SinglePass
