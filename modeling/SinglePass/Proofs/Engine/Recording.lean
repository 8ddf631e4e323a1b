import SinglePass.Proofs.Engine.Moves

/-!
# What is recorded is presented

Faults are recorded in the order in which they are found and presented in the order of their
positions.  Two things are to be said of a report: which faults it is about, and how they stand in
it.

* `Diagnostic.Presents` says how one list presents another, and `Diagnostic.presents_iff` that there
  is one way to do so, which is to sort.
* `Operation.recorded` tells from the state before an operation what the operation records.
  `Operation.sink_perform` is the step; `Operation.sink_performAll` adds up what many operations
  record.
* `Operated` are the grammars: whatever touches a run only through the operations of the engine.
  They may report faults of any sort and go on after an operation has given up.
* `reports_presented`: the report of a grammar presents what its operations have recorded since the
  source was opened.
-/

namespace SinglePass

variable {κ τ ω ν α β : Type}

/-! ## The order of presentation -/

namespace Diagnostic

/-- A list presents the faults that were detected: it has each of them as often as it was detected,
positions do not decrease, and at one position the order of detection is kept. -/
structure Presents (detected presented : List (Diagnostic κ τ)) : Prop where
  perm : presented.Perm detected
  ordered : presented.Pairwise fun d e => d.position ≤ e.position
  stable : ∀ p : Position, presented.filter (·.position = p) = detected.filter (·.position = p)

/-- Sorting presents what was detected. -/
theorem presents_sort (detected : List (Diagnostic κ τ)) : Presents detected (sort detected) where
  perm := sort_perm detected
  ordered := sort_pairwise detected
  stable p := by
    rw [filter_sort]
    refine sort_eq_self (List.pairwise_of_forall_mem_list fun d hd e he => ?_)
    have hposition : ∀ f ∈ detected.filter (·.position = p), f.position = p := fun f hf =>
      of_decide_eq_true (List.mem_filter.1 hf).2
    rw [hposition d hd, hposition e he]
    exact Position.le_refl p

/-- Lists with the same faults at each position have the same faults. -/
theorem mem_iff_of_filter_eq {faults others : List (Diagnostic κ τ)}
    (h : ∀ p : Position, faults.filter (·.position = p) = others.filter (·.position = p))
    (d : Diagnostic κ τ) : d ∈ faults ↔ d ∈ others := by
  have hd := congrArg (d ∈ ·) (h d.position)
  simpa using hd

/-- If they are in order and have them in the same order at each position, they are the same. -/
theorem eq_of_filter_eq {faults others : List (Diagnostic κ τ)}
    (ordered : faults.Pairwise fun d e => d.position ≤ e.position)
    (ordered' : others.Pairwise fun d e => d.position ≤ e.position)
    (h : ∀ p : Position, faults.filter (·.position = p) = others.filter (·.position = p)) :
    faults = others := by
  induction faults generalizing others with
  | nil =>
    have hnone : ∀ d, d ∉ others := fun d hd => nomatch (mem_iff_of_filter_eq h d).2 hd
    exact (List.eq_nil_iff_forall_not_mem.2 hnone).symm
  | cons d ds ih =>
    cases others with
    | nil => nomatch (mem_iff_of_filter_eq h d).1 List.mem_cons_self
    | cons e es =>
      obtain ⟨hd, hds⟩ := List.pairwise_cons.1 ordered
      obtain ⟨he, hes⟩ := List.pairwise_cons.1 ordered'
      have hle : d.position ≤ e.position := by
        obtain rfl | hmem := List.mem_cons.1 ((mem_iff_of_filter_eq h e).2 List.mem_cons_self)
        · exact Position.le_refl _
        · exact hd e hmem
      have hge : e.position ≤ d.position := by
        obtain rfl | hmem := List.mem_cons.1 ((mem_iff_of_filter_eq h d).1 List.mem_cons_self)
        · exact Position.le_refl _
        · exact he d hmem
      -- both lists begin with a fault at the first position, and have the same ones there
      have hfirst := h d.position
      rw [List.filter_cons, List.filter_cons, if_pos (decide_eq_true rfl),
        if_pos (decide_eq_true (Position.le_antisymm hge hle))] at hfirst
      obtain ⟨rfl, -⟩ := List.cons.inj hfirst
      refine congrArg (d :: ·) (ih hds hes fun p => ?_)
      have hp := h p
      rw [List.filter_cons, List.filter_cons] at hp
      split at hp
      · exact (List.cons.inj hp).2
      · exact hp

/-- There is one way to present faults, and sorting is it. -/
theorem presents_iff {detected presented : List (Diagnostic κ τ)} :
    Presents detected presented ↔ presented = sort detected := by
  constructor
  · intro h
    have hsort := presents_sort detected
    exact eq_of_filter_eq h.ordered hsort.ordered fun p => (h.stable p).trans (hsort.stable p).symm
  · rintro rfl
    exact presents_sort detected

end Diagnostic

/-! ## What an operation records -/

namespace State

/-- The faults that are met in moving on by one token. -/
def met (s : State κ τ ω) : List (Diagnostic κ τ) := s.ahead.tokens.head?.elim [] Scanned.faults

/-- Going on records the faults that come with the next token. -/
theorem sink_shift (s : State κ τ ω) : s.shift.sink = s.sink ++ s.met := by
  unfold shift met
  cases s.ahead.tokens with
  | nil => exact (List.append_nil _).symm
  | cons next more => rfl

/-- What becomes of a fault of grammar or meaning: it is recorded, unless the run recovers. -/
def told (s : State κ τ ω) (d : Diagnostic κ τ) : Strategy → List (Diagnostic κ τ)
  | .failFast => [d]
  | .recovering => if s.recovering then [] else [d]

end State

/-- Reporting a fault records it, unless the run is recovering. -/
theorem Recognizer.sink_report (d : Diagnostic κ τ) (strategy : Strategy) (s : State κ τ ω) :
    (report d strategy s).2.sink = s.sink ++ s.told d strategy := by
  obtain ⟨lookahead, ahead, recovering, scopes, sink, notes⟩ := s
  cases strategy <;> cases recovering <;> simp [report, State.told, State.record]

/-- An unexpected token is recorded, unless the run is recovering. -/
theorem Recognizer.sink_unexpected (expected : Expected κ) (strategy : Strategy)
    (s : State κ τ ω) : (unexpected expected strategy s).2.sink =
      s.sink ++ s.told (.unexpected s.lookahead expected) strategy := by
  obtain ⟨lookahead, ahead, recovering, scopes, sink, notes⟩ := s
  cases strategy <;> cases recovering <;> simp [unexpected, State.told, State.record]

variable [TokenKind κ]

/-- The faults that are met on the way behind the first token of a kind, from a token with the given
ones behind it; if there is no such token, on the way to the end. -/
def metBehind (kind : κ) : Token κ → List (Scanned κ τ) → List (Diagnostic κ τ)
  | _, [] => []
  | token, next :: more =>
    if token.kind = kind then next.faults
    else if token.isEnd then []
    else next.faults ++ metBehind kind next.token more

/-- Requiring a token while recovering records the faults that come with the tokens up to it. -/
theorem Recognizer.sink_mustBe_of_recovering {s : State κ τ ω} (kind : κ) (strategy : Strategy)
    (hr : s.recovering = true) : (mustBe kind strategy s).2.sink =
      s.sink ++ metBehind kind s.lookahead s.ahead.tokens := by
  induction s using State.skipping kind with
  | stop s hover =>
    rw [mustBe_of_recovering strategy hr, resynchronize, State.discardTo_of_over hover]
    by_cases hk : s.lookahead.kind = kind
    · have hmet : s.met = metBehind kind s.lookahead s.ahead.tokens := by
        unfold State.met
        cases s.ahead.tokens with
        | nil => rfl
        | cons next more => exact (if_pos hk).symm
      rw [if_pos hk, ← hmet]
      exact State.sink_shift { s with recovering := false }
    · have hnothing : metBehind kind s.lookahead s.ahead.tokens = [] := by
        cases htokens : s.ahead.tokens with
        | nil => rfl
        | cons next more =>
          have hend : s.lookahead.isEnd = true :=
            (hover.resolve_left hk).resolve_right (by simp [htokens])
          rw [metBehind, if_neg hk, if_pos hend]
      rw [if_neg hk, hnothing, List.append_nil]
  | round s hnot ih =>
    have hgoesOn := hnot
    unfold State.Over at hgoesOn
    rw [not_or, not_or] at hgoesOn
    obtain ⟨hk, hend, htokens⟩ := hgoesOn
    obtain ⟨next, more, htokens⟩ := List.exists_cons_of_ne_nil htokens
    have hmet : s.met = next.faults := by rw [State.met, htokens]; rfl
    have hlook : s.shift.lookahead = next.token := by rw [State.shift_of_cons htokens]
    rw [mustBe_of_not_over strategy hr hnot, ih ((State.shift_recovering s).trans hr),
      State.sink_shift, State.shift_tokens, hlook, hmet, htokens, metBehind, if_neg hk, if_neg hend,
      List.tail_cons, List.append_assoc]

namespace Operation

/-- What an operation records, told from the state before it. -/
def recorded (strategy : Strategy) (s : State κ τ ω) : Operation κ τ → List (Diagnostic κ τ)
  | advance | discard => s.met
  | mustBe kind =>
    if s.recovering then metBehind kind s.lookahead s.ahead.tokens
    else if s.lookahead.kind = kind then s.met
    else [.unexpected s.lookahead (.kind kind)]
  | unexpected expected => s.told (.unexpected s.lookahead expected) strategy
  | report d => s.told d strategy
  | openScope | closeScope | bindSymbol _ => []

/-- An operation puts what it records behind what has been recorded, and changes nothing there. -/
theorem sink_perform (operation : Operation κ τ) (strategy : Strategy) (s : State κ τ ω) :
    (operation.perform strategy s).2.sink = s.sink ++ operation.recorded strategy s := by
  cases operation with
  | advance => exact s.sink_shift
  | discard => exact s.sink_shift
  -- Requiring a token resynchronizes, consumes or records a fault.
  | mustBe kind =>
    rw [recorded]
    cases hr : s.recovering with
    | true => exact Recognizer.sink_mustBe_of_recovering kind strategy hr
    | false =>
      rw [if_neg Bool.false_ne_true]
      by_cases hk : s.lookahead.kind = kind
      · rw [if_pos hk, perform, Recognizer.mustBe_of_kind_eq strategy hr hk]
        exact s.sink_shift
      · rw [if_neg hk, perform]
        cases strategy with
        | failFast =>
          rw [Recognizer.mustBe_failFast_of_kind_ne hr hk]
          rfl
        | recovering =>
          rw [Recognizer.mustBe_recovering_of_kind_ne hr hk]
          rfl
  | unexpected expected =>
    rw [recorded, ← Recognizer.sink_unexpected]
    exact congrArg State.sink (Recognizer.state_bind_pure _ _ strategy s)
  | report d =>
    rw [recorded, ← Recognizer.sink_report]
    exact congrArg State.sink (Recognizer.state_bind_pure _ _ strategy s)
  | openScope => exact (List.append_nil _).symm
  | closeScope => exact (List.append_nil _).symm
  | bindSymbol symbol =>
    have hbind : (Recognizer.bindSymbol symbol strategy s).2.sink = s.sink := by
      unfold Recognizer.bindSymbol
      split <;> rfl
    rw [recorded, List.append_nil, ← hbind]
    exact congrArg State.sink (Recognizer.state_bind_pure _ _ strategy s)

/-! ## Many operations -/

/-- The state that operations leave behind, one after the other, whether or not some give up. -/
def performAll (strategy : Strategy) (operations : List (Operation κ τ)) (s : State κ τ Unit) :
    State κ τ Unit :=
  operations.foldl (fun s operation => (operation.perform strategy s).2) s

/-- What they record, one after the other. -/
def recordedAll (strategy : Strategy) :
    List (Operation κ τ) → State κ τ Unit → List (Diagnostic κ τ)
  | [], _ => []
  | operation :: more, s =>
    operation.recorded strategy s ++ recordedAll strategy more (operation.perform strategy s).2

/-- Operations are performed one after the other. -/
theorem performAll_append (strategy : Strategy) (operations more : List (Operation κ τ))
    (s : State κ τ Unit) : performAll strategy (operations ++ more) s =
      performAll strategy more (performAll strategy operations s) :=
  List.foldl_append

/-- Whatever is recorded stays recorded, in the order in which it was. -/
theorem sink_performAll (strategy : Strategy) (operations : List (Operation κ τ))
    (s : State κ τ Unit) : (performAll strategy operations s).sink =
      s.sink ++ recordedAll strategy operations s := by
  induction operations generalizing s with
  | nil => exact (List.append_nil _).symm
  | cons operation more ih =>
    have hmore := ih (operation.perform strategy s).2
    rw [sink_perform, List.append_assoc] at hmore
    exact hmore

end Operation

/-! ## Grammars -/

/-- A recognizer that touches a run only through the operations of the engine.  It may look at the
state and at the strategy, keep notes, report faults of any sort, give up on its own, and go on
after a part of it has given up. -/
inductive Operated : {ω α : Type} → Recognizer κ τ ω α → Prop
  | pure {ω α : Type} (a : α) : Operated (Pure.pure a : Recognizer κ τ ω α)
  | bind {ω α β : Type} {r : Recognizer κ τ ω α} {f : α → Recognizer κ τ ω β} :
      Operated r → (∀ a, Operated (f a)) → Operated (r >>= f)
  | withFuel {ω α : Type} {r : Nat → Recognizer κ τ ω α} :
      (∀ n, Operated (r n)) → Operated (Recognizer.withFuel r)
  | outOfFuel {ω α : Type} : Operated (Recognizer.outOfFuel : Recognizer κ τ ω α)
  | abort {ω α : Type} : Operated (Recognizer.abort : Recognizer κ τ ω α)
  | attempt {ω α : Type} {r : Recognizer κ τ ω α} : Operated r → Operated (Recognizer.attempt r)
  | collecting {ω ν : Type} {r : Recognizer κ τ ν Unit} :
      Operated r → Operated (Recognizer.collecting r : Recognizer κ τ ω (List ν))
  | strategy {ω : Type} : Operated (Recognizer.strategy : Recognizer κ τ ω Strategy)
  | read {ω α : Type} (f : State κ τ ω → α) : Operated (Recognizer.read f)
  | note {ω : Type} (w : ω) : Operated (Recognizer.note w : Recognizer κ τ ω Unit)
  | advance {ω : Type} : Operated (Recognizer.advance : Recognizer κ τ ω (Token κ))
  | mustBe {ω : Type} (kind : κ) :
      Operated (Recognizer.mustBe kind : Recognizer κ τ ω (Option (Token κ)))
  | unexpected {ω : Type} (expected : Expected κ) :
      Operated (Recognizer.unexpected expected : Recognizer κ τ ω Unit)
  | report {ω : Type} (d : Diagnostic κ τ) : Operated (Recognizer.report d : Recognizer κ τ ω Unit)
  | openScope {ω : Type} : Operated (Recognizer.openScope : Recognizer κ τ ω Unit)
  | closeScope {ω : Type} : Operated (Recognizer.closeScope : Recognizer κ τ ω Bool)
  | bindSymbol {ω : Type} (symbol : Symbol κ τ) :
      Operated (Recognizer.bindSymbol symbol : Recognizer κ τ ω Bool)

/-- What is put together from the operations of the engine operates on its state. -/
theorem Composed.operated {r : Recognizer κ τ ω α} (h : Composed r) : Operated r := by
  induction h with
  | pure a => exact .pure a
  | bind _ _ ihr ihf => exact .bind ihr ihf
  | withFuel _ ih => exact .withFuel ih
  | outOfFuel => exact .outOfFuel
  | read f => exact .read f
  | note w => exact .note w
  | advance => exact .advance
  | mustBe kind => exact .mustBe kind
  | unexpected expected => exact .unexpected expected
  | report d _ => exact .report d
  | openScope => exact .openScope
  | closeScope => exact .closeScope
  | bindSymbol symbol => exact .bindSymbol symbol

/-- A run that does to the engine what some operations do to it. -/
def Operates (strategy : Strategy) (s t : State κ τ ω) : Prop :=
  ∃ operations : List (Operation κ τ),
    t.engine = Operation.performAll strategy operations s.engine

namespace Operates

variable {strategy : Strategy} {s t u : State κ τ ω}

/-- A state with the same engine is reached by no operation at all. -/
theorem of_engine_eq (h : t.engine = s.engine) : Operates strategy s t := ⟨[], h⟩

/-- What operates in two parts operates as a whole. -/
theorem trans (h : Operates strategy s t) (h' : Operates strategy t u) :
    Operates strategy s u := by
  obtain ⟨operations, ht⟩ := h
  obtain ⟨more, hu⟩ := h'
  exact ⟨operations ++ more, by rw [hu, ht, Operation.performAll_append]⟩

/-- An operation whose answer is put another way. -/
theorem single {r : Recognizer κ τ ω α} (operation : Operation κ τ) (f : α → Option (Token κ))
    (h : operation.perform strategy s = (r >>= fun a => Pure.pure (f a)) strategy s) :
    Operates strategy s (r strategy s).2 := by
  have hstate := congrArg Prod.snd (operation.perform_engine strategy s)
  rw [h, Recognizer.state_bind_pure] at hstate
  exact ⟨[operation], hstate.symm⟩

end Operates

/-- Whatever a grammar does, its runs are sequences of operations. -/
theorem Operated.operates {r : Recognizer κ τ ω α} (h : Operated r) (strategy : Strategy)
    (s : State κ τ ω) : Operates strategy s (r strategy s).2 := by
  induction h with
  | pure a => exact .of_engine_eq rfl
  | bind _ _ ihr ihf =>
    have hr := ihr s
    rw [Recognizer.bind_apply]
    split
    · next a t heq =>
      rw [heq] at hr
      exact hr.trans (ihf a t)
    · next t heq => rwa [heq] at hr
    · next t heq => rwa [heq] at hr
  | withFuel _ ih => exact ih _ s
  | outOfFuel => exact .of_engine_eq rfl
  | abort => exact .of_engine_eq rfl
  | attempt _ ih => exact ih s
  | collecting _ ih => exact ih (s.withNotes [])
  | strategy => exact .of_engine_eq rfl
  | read f => exact .of_engine_eq rfl
  | note w => exact .of_engine_eq rfl
  | advance => exact .single .advance some rfl
  | mustBe kind => exact ⟨[.mustBe kind], by
      rw [Operation.performAll, List.foldl_cons, List.foldl_nil, Operation.perform_engine]
      rfl⟩
  | unexpected expected => exact .single (.unexpected expected) (fun _ => none) rfl
  | report d => exact .single (.report d) (fun _ => none) rfl
  | openScope => exact .single .openScope (fun _ => none) rfl
  | closeScope => exact .single .closeScope (fun _ => none) rfl
  | bindSymbol symbol => exact .single (.bindSymbol symbol) (fun _ => none) rfl

/-! ## Reports -/

/-- A run whose source has just been opened: if the first line cannot be read this is recorded, and
no token has been read. -/
def State.unread (classifier : Classifier κ) (source : Source) : State κ τ Unit :=
  { State.inert with
    sink := (Cursor.start source).faults
    ahead := .ofList (source.stream classifier) }

/-- A run begins by moving on to the first token. -/
theorem Operated.operates_unread {start : Recognizer κ τ ω Unit} (h : Operated start)
    (classifier : Classifier κ) (strategy : Strategy) (source : Source) :
    ∃ operations : List (Operation κ τ), (run classifier start strategy source).2.engine =
      Operation.performAll strategy (.advance :: operations) (.unread classifier source) := by
  have htoEnd : Operated start.toEnd := .bind h fun _ => Composed.mustEnd.operated
  obtain ⟨operations, hrun⟩ := htoEnd.operates strategy (State.initial classifier source)
  have hinitial : (State.initial classifier source : State κ τ ω).engine =
      (State.unread classifier source).shift := State.engine_shift _
  rw [hinitial] at hrun
  exact ⟨operations, hrun⟩

/-- The errors of a report are the sorted faults of the operations of the run, the first of which
reads the first token, behind a failure to read any. -/
theorem Operated.errors_presented {start : Recognizer κ τ ω Unit} (h : Operated start)
    (classifier : Classifier κ) (strategy : Strategy) (source : Source) :
    ∃ operations : List (Operation κ τ),
      (run classifier start strategy source).2.engine =
        Operation.performAll strategy (.advance :: operations) (.unread classifier source) ∧
      Diagnostic.Presents
        ((Cursor.start source).faults ++
          Operation.recordedAll strategy (.advance :: operations) (.unread classifier source))
        (parse classifier start strategy source).errors := by
  obtain ⟨operations, hrun⟩ := h.operates_unread classifier strategy source
  have hsink := Operation.sink_performAll strategy (.advance :: operations)
    (State.unread (τ := τ) classifier source)
  rw [← hrun] at hsink
  exact ⟨operations, hrun, Diagnostic.presents_iff.2 (congrArg Diagnostic.sort hsink)⟩

omit [TokenKind κ] in
/-- Faults that are handed to a scanner are recorded behind those that it has. -/
theorem Scanner.foldl_push (detected : List (Diagnostic κ τ)) (session : Session κ τ) :
    detected.foldl (fun scanner d => (Scanner.push d scanner).2) (some session) =
      some { session with sink := session.sink ++ detected } := by
  induction detected generalizing session with
  | nil => rw [List.append_nil]; rfl
  | cons d more ih =>
    rw [List.foldl_cons]
    refine (ih { session with sink := session.sink ++ [d] }).trans ?_
    rw [List.append_assoc]
    rfl

/-- **Reports present what was recorded.**  Faults, of whatever sort and number, can be presented in
one way: each of them once, in the order of their positions, and in the order of detection where
positions are the same.  Sorting does that, leaves alone what is in order, and presents some of the
faults as they stand among all.  A scanner that is given faults and then closed hands them out like
this, behind those of its source; and so does the report of any grammar with what the operations of
its run have recorded since the source was opened. -/
theorem reports_presented {start : Recognizer κ τ ω Unit} (h : Operated start)
    (classifier : Classifier κ) (strategy : Strategy) (source : Source) :
    (∀ detected presented : List (Diagnostic κ τ),
      Diagnostic.Presents detected presented ↔ presented = Diagnostic.sort detected) ∧
    (∀ faults : List (Diagnostic κ τ), (faults.Pairwise fun d e => d.position ≤ e.position) →
      Diagnostic.sort faults = faults) ∧
    (∀ faults others : List (Diagnostic κ τ), faults.Sublist others →
      (Diagnostic.sort faults).Sublist (Diagnostic.sort others)) ∧
    (∀ before detected : List (Diagnostic κ τ), (Scanner.finish (detected.foldl
        (fun scanner d => (Scanner.push d scanner).2) (Scanner.init source before))).1 =
      some (Diagnostic.sort (before ++ (Cursor.start source).faults ++ detected))) ∧
    ∃ operations : List (Operation κ τ),
      (run classifier start strategy source).2.engine =
        Operation.performAll strategy (.advance :: operations) (.unread classifier source) ∧
      Diagnostic.Presents
        ((Cursor.start source).faults ++
          Operation.recordedAll strategy (.advance :: operations) (.unread classifier source))
        (parse classifier start strategy source).errors := by
  refine ⟨fun _ _ => Diagnostic.presents_iff, fun _ => Diagnostic.sort_eq_self,
    fun _ _ => Diagnostic.sort_sublist, fun before detected => ?_,
    h.errors_presented classifier strategy source⟩
  rw [Scanner.init, Scanner.foldl_push]
  rfl

/-- A grammar that reports a failure to read, of its own accord, and then reads a word list. -/
def WordList.complaining : Recognizer WordList.Kind WordList.Ty String Unit := do
  Recognizer.report (.io ⟨1, 3⟩ "early")
  WordList.wordList

/-- It reports at the position of an invalid token that it has not come to, in a source that fails
behind its first line. -/
theorem reports_presented_complaining :
    Operated WordList.complaining ∧
      (∃ operations : List (Operation WordList.Kind WordList.Ty),
        (run WordList.classifier WordList.complaining .recovering
            [.line "a ! b", .failure "lost"]).2.engine =
          Operation.performAll .recovering (.advance :: operations)
            (.unread WordList.classifier [.line "a ! b", .failure "lost"]) ∧
        Diagnostic.Presents
          (Operation.recordedAll .recovering (.advance :: operations)
            (.unread WordList.classifier [.line "a ! b", .failure "lost"]))
          (parse WordList.classifier WordList.complaining .recovering
            [.line "a ! b", .failure "lost"]).errors) ∧
      (parse WordList.classifier WordList.complaining .recovering
          [.line "a ! b", .failure "lost"]).messages =
        ["(1,3): I/O error: early", "(1,3): Invalid token '!'",
          "(1,3): '!' found where ';' expected", "(1,6): I/O error: lost"] := by
  have hgrammar : Operated WordList.complaining :=
    .bind (.report _) fun _ => WordList.composed_wordList.operated
  obtain ⟨-, -, -, -, hpresented⟩ := reports_presented hgrammar WordList.classifier .recovering
    [.line "a ! b", .failure "lost"]
  exact ⟨hgrammar, hpresented, by decide +kernel⟩

end SinglePass
