import SinglePass.Proofs.Discipline
import SinglePass.Proofs.TokenStream

/-!
# Stopping at the first fault

A run that stops at its first fault does what a recovering run does, up to that fault.  Until a
fault of grammar or meaning is met the two strategies are in lockstep, state for state; at that
fault the first run gives up, and from there on the recovering run only adds to what it has
recorded and noted down.

* `Composed.extends`: no rule takes back a recorded fault or a note.
* `Composed.lockstep`: the comparison of the two strategies, from any state that is not
  recovering.
* `failFast_isCut`: on every source, for every start rule, the faults of the run that stops are
  the faults of the recovering run, cut after the first one that is not of the scanner.
-/

namespace SinglePass

variable {κ τ ω α β : Type}

/-! ## Growth -/

/-- The second state has recorded and noted down at least what the first has. -/
structure State.ExtendedBy (s t : State κ τ ω) : Prop where
  sink : s.sink <+: t.sink
  notes : s.notes <+: t.notes

namespace State.ExtendedBy

variable {s t u : State κ τ ω}

/-- A state goes on from itself. -/
theorem refl (s : State κ τ ω) : s.ExtendedBy s := ⟨List.prefix_refl _, List.prefix_refl _⟩

/-- A state goes on from whatever an earlier one goes on from. -/
theorem trans (hst : s.ExtendedBy t) (htu : t.ExtendedBy u) : s.ExtendedBy u :=
  ⟨hst.sink.trans htu.sink, hst.notes.trans htu.notes⟩

/-- Going on to the next token only adds to what is recorded. -/
theorem shift (s : State κ τ ω) : s.ExtendedBy s.shift := by
  refine ⟨?_, by simp⟩
  rw [State.shift]
  split
  · exact List.prefix_refl _
  · exact List.prefix_append _ _

/-- Recording a fault only adds to what is recorded. -/
theorem record (s : State κ τ ω) (d : Diagnostic κ τ) : s.ExtendedBy (s.record d) :=
  ⟨List.prefix_append _ _, List.prefix_refl _⟩

/-- What is recorded and noted down is all that counts. -/
theorem congr (h : s.ExtendedBy t) (hsink : t.sink = u.sink) (hnotes : t.notes = u.notes) :
    s.ExtendedBy u :=
  ⟨hsink ▸ h.sink, hnotes ▸ h.notes⟩

end State.ExtendedBy

section

variable [TokenKind κ]

/-- Requiring a token keeps whatever moving on, recording that the token looked at is unexpected,
and beginning or ending a recovery keep. -/
theorem Recognizer.mustBe_preserves {p : State κ τ ω → Prop} (shift : ∀ s, p s → p s.shift)
    (record : ∀ (s : State κ τ ω) expected, p s → p (s.record (.unexpected s.lookahead expected)))
    (flag : ∀ (s : State κ τ ω) flag, p s → p { s with recovering := flag }) (kind : κ)
    (strategy : Strategy) {s : State κ τ ω} (h : p s) : p (mustBe kind strategy s).2 := by
  cases hr : s.recovering with
  | true =>
    have hdiscard : p (s.discardTo kind) := State.discard_preserves shift kind _ h
    rw [mustBe_of_recovering strategy hr, resynchronize]
    split
    · exact shift _ (flag _ false hdiscard)
    · exact hdiscard
  | false =>
    by_cases hk : s.lookahead.kind = kind
    · rw [mustBe_of_kind_eq strategy hr hk]
      exact shift s h
    · cases strategy with
      | failFast =>
        rw [mustBe_failFast_of_kind_ne hr hk]
        exact record s _ h
      | recovering =>
        rw [mustBe_recovering_of_kind_ne hr hk]
        exact flag _ true (record s _ h)

/-- A token that was required and is there is looked at, and then consumed, in a state that keeps
whatever moving on and ending a recovery keep. -/
theorem Recognizer.mustBe_some {p : State κ τ ω → Prop} (shift : ∀ s, p s → p s.shift)
    (flag : ∀ (s : State κ τ ω) flag, p s → p { s with recovering := flag }) {kind : κ}
    {strategy : Strategy} {s t : State κ τ ω} {token : Token κ} (h : p s)
    (heq : mustBe kind strategy s = (.value (some token), t)) :
    ∃ u, p u ∧ u.lookahead = token ∧ token.kind = kind ∧ t = u.shift := by
  cases hr : s.recovering with
  | true =>
    rw [mustBe_of_recovering strategy hr, resynchronize] at heq
    split at heq
    · next hkind =>
      cases heq
      exact ⟨_, flag _ false (State.discard_preserves shift kind _ h), rfl, hkind, rfl⟩
    · cases heq
  | false =>
    by_cases hk : s.lookahead.kind = kind
    · rw [mustBe_of_kind_eq strategy hr hk] at heq
      cases heq
      exact ⟨s, h, rfl, hk, rfl⟩
    · cases strategy with
      | failFast =>
        rw [mustBe_failFast_of_kind_ne hr hk] at heq
        cases heq
      | recovering =>
        rw [mustBe_recovering_of_kind_ne hr hk] at heq
        cases heq

/-- Requiring a token records and notes down, but takes nothing back. -/
theorem Recognizer.mustBe_extends (kind : κ) (strategy : Strategy) (s : State κ τ ω) :
    s.ExtendedBy (mustBe kind strategy s).2 :=
  mustBe_preserves (fun t h => h.trans (.shift t)) (fun t _ h => h.trans (.record t _))
    (fun _ _ h => h.congr rfl rfl) kind strategy (.refl s)

/-- No rule takes back a recorded fault or a note. -/
theorem Composed.extends {r : Recognizer κ τ ω α} (h : Composed r) (strategy : Strategy)
    (s : State κ τ ω) : s.ExtendedBy (r strategy s).2 := by
  induction h generalizing s with
  | pure a => exact .refl s
  | @bind _ _ r f _ _ ihr ihf =>
    have hr := ihr s
    rw [Recognizer.bind_apply]
    split
    · next a t heq => rw [heq] at hr; exact hr.trans (ihf a t)
    · next t heq => rw [heq] at hr; exact hr
    · next t heq => rw [heq] at hr; exact hr
  | withFuel _ ih => exact ih _ s
  | outOfFuel => exact .refl s
  | read f => exact .refl s
  | note w => exact ⟨List.prefix_refl _, List.prefix_append _ _⟩
  | advance => exact .shift s
  | mustBe kind => exact Recognizer.mustBe_extends kind strategy s
  -- A run that recovers records nothing; any other puts the fault behind what it has recorded.
  | unexpected expected =>
    cases strategy with
    | failFast => exact .record _ _
    | recovering =>
      by_cases hr : s.recovering
      · exact (State.ExtendedBy.refl s).congr (by simp [Recognizer.unexpected, hr])
          (by simp [Recognizer.unexpected, hr])
      · exact (State.ExtendedBy.record s _).congr (by simp [Recognizer.unexpected, hr]; rfl)
          (by simp [Recognizer.unexpected, hr])
  | report d _ =>
    cases strategy with
    | failFast => exact .record _ _
    | recovering =>
      rw [Recognizer.report_recovering]
      split
      · exact .refl s
      · exact .record _ _
  | openScope => exact ⟨List.prefix_refl _, List.prefix_refl _⟩
  | closeScope => exact ⟨List.prefix_refl _, List.prefix_refl _⟩
  | bindSymbol symbol =>
    refine (State.ExtendedBy.refl s).congr ?_ ?_ <;>
      (rw [Recognizer.bindSymbol]; split <;> rfl)

end

/-! ## Lockstep -/

/-- How a run that stops at its first fault ends beside one that recovers, when both begin in
the state `s`. -/
inductive Lockstep (s : State κ τ ω) : Outcome α × State κ τ ω → Outcome α × State κ τ ω → Prop
  /-- Nothing but faults of the scanner was found: the two runs are one. -/
  | together {e : Outcome α × State κ τ ω} (found : List (Diagnostic κ τ))
      (calm : e.2.recovering = false) (scansOnly : e.2.ScansOnly)
      (sink_eq : e.2.sink = s.sink ++ found) (scanning : ∀ d ∈ found, d.isScanning = true) :
      Lockstep s e e
  /-- The first run has given up at a fault `d` that the other has recorded too. -/
  | parted {e f : Outcome α × State κ τ ω} (found : List (Diagnostic κ τ)) (d : Diagnostic κ τ)
      (gaveUp : e.1 = .abort) (sink_eq : e.2.sink = s.sink ++ (found ++ [d]))
      (scanning : ∀ d ∈ found, d.isScanning = true) (fault : d.isScanning = false)
      (extended : e.2.ExtendedBy f.2) : Lockstep s e f

namespace Lockstep

variable {s : State κ τ ω}

/-- An operation that records nothing keeps the runs together. -/
theorem of_sink_eq {e : Outcome α × State κ τ ω} (calm : e.2.recovering = false)
    (scansOnly : e.2.ScansOnly) (sink_eq : e.2.sink = s.sink) : Lockstep s e e :=
  .together [] calm scansOnly (by simp [sink_eq]) (by simp)

/-- Moving on keeps the runs together. -/
theorem shift (calm : s.recovering = false) (scansOnly : s.ScansOnly) (o : Outcome α) :
    Lockstep s (o, s.shift) (o, s.shift) := by
  cases htokens : s.ahead.tokens with
  | nil =>
    rw [State.shift_of_nil htokens]
    exact of_sink_eq calm scansOnly rfl
  | cons next more =>
    refine .together next.faults (by simpa using calm) scansOnly.shift ?_ ?_
    · rw [State.shift_of_cons htokens]
    · exact scansOnly next (by simp [htokens])

/-- Recording a fault parts the runs. -/
theorem record {t : State κ τ ω} {d : Diagnostic κ τ} (fault : d.isScanning = false)
    (o : Outcome α) (h : (s.record d).ExtendedBy t) : Lockstep s (.abort, s.record d) (o, t) :=
  .parted [] d rfl rfl (by simp) fault h

/-- A comparison from a later state, before which only the scanner found faults, is one from the
earlier state. -/
theorem of_later {t : State κ τ ω} {e f : Outcome α × State κ τ ω}
    {found : List (Diagnostic κ τ)} (h : Lockstep t e f) (sink_eq : t.sink = s.sink ++ found)
    (scanning : ∀ d ∈ found, d.isScanning = true) : Lockstep s e f := by
  have both : ∀ found' : List (Diagnostic κ τ), (∀ d ∈ found', d.isScanning = true) →
      ∀ d ∈ found ++ found', d.isScanning = true := by
    intro found' h' d hd
    rcases List.mem_append.1 hd with hd | hd
    · exact scanning d hd
    · exact h' d hd
  cases h with
  | together found' calm scansOnly sink_eq' scanning' =>
    refine .together (found ++ found') calm scansOnly ?_ (both found' scanning')
    rw [sink_eq', sink_eq, List.append_assoc]
  | parted found' d gaveUp sink_eq' scanning' fault extended =>
    refine .parted (found ++ found') d gaveUp ?_ (both found' scanning') fault extended
    rw [sink_eq', sink_eq]
    simp only [List.append_assoc]

/-- What is in lockstep stays so under sequencing, since the recovering run only ever adds. -/
theorem bind {r : Recognizer κ τ ω α} {f : α → Recognizer κ τ ω β}
    (hr : Lockstep s (r .failFast s) (r .recovering s))
    (hf : ∀ a (t : State κ τ ω), t.recovering = false → t.ScansOnly →
      Lockstep t (f a .failFast t) (f a .recovering t))
    (hext : ∀ a (t : State κ τ ω), t.ExtendedBy (f a .recovering t).2) :
    Lockstep s ((r >>= f) .failFast s) ((r >>= f) .recovering s) := by
  rw [Recognizer.bind_apply, Recognizer.bind_apply]
  generalize r .failFast s = e at hr
  generalize r .recovering s = e' at hr
  cases hr with
  | together found calm scansOnly sink_eq scanning =>
    obtain ⟨a | _ | _, t⟩ := e
    · exact (hf a t calm scansOnly).of_later sink_eq scanning
    · exact .together found calm scansOnly sink_eq scanning
    · exact .together found calm scansOnly sink_eq scanning
  | parted found d gaveUp sink_eq scanning fault extended =>
    obtain ⟨o, t⟩ := e
    obtain rfl : o = .abort := gaveUp
    refine .parted found d rfl sink_eq scanning fault ?_
    obtain ⟨a | _ | _, t'⟩ := e'
    · exact extended.trans (hext a t')
    · exact extended
    · exact extended

end Lockstep

/-- Until the first fault of grammar or meaning the strategy of a run does not matter. -/
theorem Composed.lockstep [TokenKind κ] {r : Recognizer κ τ ω α} (h : Composed r) {s : State κ τ ω}
    (calm : s.recovering = false) (scansOnly : s.ScansOnly) :
    Lockstep s (r .failFast s) (r .recovering s) := by
  induction h generalizing s with
  | pure a => exact .of_sink_eq calm scansOnly rfl
  | bind _ hf ihr ihf =>
    exact .bind (ihr calm scansOnly) (fun a t => ihf a) fun a t => (hf a).extends .recovering t
  | withFuel _ ih => exact ih _ calm scansOnly
  | outOfFuel => exact .of_sink_eq calm scansOnly rfl
  | read f => exact .of_sink_eq calm scansOnly rfl
  | note w => exact .of_sink_eq calm scansOnly rfl
  | advance => exact .shift calm scansOnly _
  -- In the next three the strategies part: both record the same fault, and one run ends with it.
  | mustBe kind =>
    by_cases hk : s.lookahead.kind = kind
    · rw [Recognizer.mustBe_of_kind_eq _ calm hk, Recognizer.mustBe_of_kind_eq _ calm hk]
      exact .shift calm scansOnly _
    · rw [Recognizer.mustBe_failFast_of_kind_ne calm hk,
        Recognizer.mustBe_recovering_of_kind_ne calm hk]
      exact .record rfl _ ((State.ExtendedBy.refl _).congr rfl rfl)
  | unexpected expected =>
    refine .record rfl _ ((State.ExtendedBy.refl _).congr ?_ ?_)
    · simp [calm]
    · simp [calm]
  | report d hd =>
    have fault : d.isScanning = false := by
      cases d <;> simp_all [Diagnostic.isSemantic, Diagnostic.isScanning]
    rw [Recognizer.report_failFast, Recognizer.report_recovering, calm]
    exact .record fault _ (.refl _)
  | openScope => exact .of_sink_eq calm scansOnly rfl
  | closeScope => exact .of_sink_eq calm scansOnly rfl
  | bindSymbol symbol =>
    have keeps : ∀ strategy, (Recognizer.bindSymbol symbol strategy s).2.recovering = false ∧
        (Recognizer.bindSymbol symbol strategy s).2.ahead = s.ahead ∧
        (Recognizer.bindSymbol symbol strategy s).2.sink = s.sink := by
      intro strategy
      unfold Recognizer.bindSymbol
      split
      · exact ⟨calm, rfl, rfl⟩
      · exact ⟨calm, rfl, rfl⟩
    obtain ⟨calm', ahead_eq, sink_eq⟩ := keeps .failFast
    refine .of_sink_eq calm' ?_ sink_eq
    unfold State.ScansOnly
    rw [ahead_eq]
    exact scansOnly

/-! ## Whole runs -/

/-- The faults up to and including the first one that is not of the scanner; all of them, if
there is none. -/
def Diagnostic.cut : List (Diagnostic κ τ) → List (Diagnostic κ τ)
  | [] => []
  | d :: rest => if d.isScanning then d :: cut rest else [d]

/-- Faults of the scanner are not cut off. -/
theorem Diagnostic.cut_of_scanning {faults : List (Diagnostic κ τ)}
    (h : ∀ d ∈ faults, d.isScanning = true) : cut faults = faults := by
  induction faults with
  | nil => rfl
  | cons d rest ih =>
    rw [cut, if_pos (h d List.mem_cons_self), ih fun e he => h e (List.mem_cons_of_mem _ he)]

/-- Behind the first fault of grammar or meaning, everything is cut off. -/
theorem Diagnostic.cut_append_cons {found rest : List (Diagnostic κ τ)} {d : Diagnostic κ τ}
    (scanning : ∀ e ∈ found, e.isScanning = true) (fault : d.isScanning = false) :
    cut (found ++ d :: rest) = found ++ [d] := by
  induction found with
  | nil => rw [List.nil_append, cut, if_neg (by simp [fault]), List.nil_append]
  | cons e found ih =>
    rw [List.cons_append, cut, if_pos (scanning e List.mem_cons_self),
      ih fun e' he' => scanning e' (List.mem_cons_of_mem _ he'), List.cons_append]

/-- What is left by the cut stands at the beginning. -/
theorem Diagnostic.cut_prefix (faults : List (Diagnostic κ τ)) : cut faults <+: faults := by
  induction faults with
  | nil => exact List.prefix_refl _
  | cons d rest ih =>
    rw [cut]
    split
    · exact (List.prefix_cons_inj d).2 ih
    · exact ⟨rest, rfl⟩

/-- The cut leaves something if there is something. -/
theorem Diagnostic.cut_eq_nil {faults : List (Diagnostic κ τ)} : cut faults = [] ↔ faults = [] := by
  cases faults with
  | nil => simp [cut]
  | cons d rest =>
    rw [cut]
    split <;> simp

/-- A cut list holds at most one fault of grammar or meaning. -/
theorem Diagnostic.length_filter_cut_le (faults : List (Diagnostic κ τ)) :
    ((cut faults).filter fun d => d.isUnexpected || d.isSemantic).length ≤ 1 := by
  induction faults with
  | nil => simp [cut]
  | cons d rest ih =>
    rw [cut]
    split
    · next scanning =>
      have hd : (d.isUnexpected || d.isSemantic) = false := by
        cases d <;> simp_all [isScanning, isUnexpected, isSemantic]
      rw [List.filter_cons_of_neg (by simp [hd])]
      exact ih
    · exact List.length_filter_le _ _

section

variable [TokenKind κ]

/-- On a source, a run of a start rule that stops at its first fault is the recovering run cut
short at that fault. -/
structure FailFastIsCut (classifier : Classifier κ) (start : Recognizer κ τ ω Unit)
    (source : Source) : Prop where
  /-- The faults, in the order of their detection. -/
  sink_eq : (run classifier start .failFast source).2.sink =
    Diagnostic.cut (run classifier start .recovering source).2.sink
  /-- What was noted down. -/
  notes_prefix : (run classifier start .failFast source).2.notes <+:
    (run classifier start .recovering source).2.notes
  /-- Both strategies agree on whether there is any fault at all. -/
  succeeded_eq : (parse classifier start .failFast source).succeeded =
    (parse classifier start .recovering source).succeeded
  /-- At most one fault of grammar or meaning is reported. -/
  one_fault : ((parse classifier start .failFast source).errors.filter
    fun d => d.isUnexpected || d.isSemantic).length ≤ 1
  /-- No fault is reported that the recovering run does not report. -/
  errors_subset : (parse classifier start .failFast source).errors ⊆
    (parse classifier start .recovering source).errors

omit [TokenKind κ] in
/-- A report lists what was recorded. -/
theorem Report.mem_errors_ofState {s : State κ τ ω} {d : Diagnostic κ τ} :
    d ∈ (Report.ofState s).errors ↔ d ∈ s.sink := mem_stableSort

omit [TokenKind κ] in
/-- A report is a success if nothing was recorded. -/
theorem Report.succeeded_ofState {s : State κ τ ω} :
    (Report.ofState s).succeeded = true ↔ s.sink = [] := by
  rw [Report.succeeded_iff]
  constructor
  · intro h
    exact List.length_eq_zero_iff.1 (by rw [← length_stableSort]; exact congrArg List.length h)
  · intro h
    unfold Report.ofState
    rw [h]
    rfl

/-- The two runs on a source are in lockstep from their start. -/
theorem Composed.sink_failFast {start : Recognizer κ τ ω Unit} (h : Composed start)
    (classifier : Classifier κ) (source : Source) :
    (run classifier start .failFast source).2.sink =
        Diagnostic.cut (run classifier start .recovering source).2.sink ∧
      (run classifier start .failFast source).2.notes <+:
        (run classifier start .recovering source).2.notes := by
  have scanning : ∀ d ∈ (State.initial classifier source : State κ τ ω).sink,
      d.isScanning = true := fun d => State.isScanning_of_mem_initial_sink classifier source
  have hstep := h.toEnd.lockstep (State.initial_recovering classifier source)
    (State.initial_scansOnly classifier source)
  unfold run
  generalize start.toEnd .failFast (.initial classifier source) = e at hstep
  generalize start.toEnd .recovering (.initial classifier source) = f at hstep
  have both : ∀ found : List (Diagnostic κ τ), (∀ d ∈ found, d.isScanning = true) →
      ∀ d ∈ (State.initial classifier source : State κ τ ω).sink ++ found,
        d.isScanning = true := by
    intro found hfound d hd
    rcases List.mem_append.1 hd with hd | hd
    · exact scanning d hd
    · exact hfound d hd
  cases hstep with
  | together found calm scansOnly sink_eq hfound =>
    refine ⟨?_, List.prefix_refl _⟩
    rw [sink_eq, Diagnostic.cut_of_scanning (both found hfound)]
  | parted found d gaveUp sink_eq hfound fault extended =>
    refine ⟨?_, extended.notes⟩
    obtain ⟨rest, hrest⟩ := extended.sink
    rw [← hrest, sink_eq]
    simp only [← List.append_assoc, List.append_assoc _ [d] rest, List.singleton_append]
    rw [Diagnostic.cut_append_cons (both found hfound) fault]

/-- Whatever the start rule: stopping at the first fault cuts the recovering run short. -/
theorem Composed.failFastIsCut {start : Recognizer κ τ ω Unit} (h : Composed start)
    (classifier : Classifier κ) (source : Source) : FailFastIsCut classifier start source := by
  obtain ⟨sink_eq, notes_prefix⟩ := h.sink_failFast classifier source
  refine ⟨sink_eq, notes_prefix, ?_, ?_, ?_⟩
  · have hiff : (parse classifier start .failFast source).succeeded = true ↔
        (parse classifier start .recovering source).succeeded = true := by
      unfold parse
      rw [Report.succeeded_ofState, Report.succeeded_ofState, sink_eq, Diagnostic.cut_eq_nil]
    exact Bool.eq_iff_iff.2 hiff
  · have hperm : (parse classifier start .failFast source).errors.Perm
        (Diagnostic.cut (run classifier start .recovering source).2.sink) := by
      rw [← sink_eq]
      exact stableSort_perm _ _
    rw [(hperm.filter _).length_eq]
    exact Diagnostic.length_filter_cut_le _
  · intro d hd
    unfold parse at hd ⊢
    rw [Report.mem_errors_ofState] at hd ⊢
    rw [sink_eq] at hd
    exact (Diagnostic.cut_prefix _).subset hd

/-- A run that fails fast and records no fault at all is the recovering run. -/
theorem Composed.run_failFast_of_sink_eq_nil {start : Recognizer κ τ ω Unit} (h : Composed start)
    (classifier : Classifier κ) (source : Source)
    (hsink : (run classifier start .recovering source).2.sink = []) :
    run classifier start .failFast source = run classifier start .recovering source := by
  have hstep := h.toEnd.lockstep (State.initial_recovering classifier source)
    (State.initial_scansOnly classifier source)
  unfold run at hsink ⊢
  generalize start.toEnd .failFast (.initial classifier source) = e at hstep ⊢
  generalize start.toEnd .recovering (.initial classifier source) = f at hstep hsink ⊢
  cases hstep with
  | together => rfl
  | parted found d _ sink_eq _ _ extended =>
    obtain ⟨rest, hrest⟩ := extended.sink
    rw [hsink, sink_eq] at hrest
    simp at hrest

/-- Both strategies accept what the recovering run has nothing to record about. -/
theorem Composed.errors_eq_nil_iff {start : Recognizer κ τ ω Unit} (h : Composed start)
    (classifier : Classifier κ) (strategy : Strategy) (source : Source) :
    (parse classifier start strategy source).errors = [] ↔
      (run classifier start .recovering source).2.sink = [] := by
  have hrecovering : (parse classifier start .recovering source).errors = [] ↔
      (run classifier start .recovering source).2.sink = [] := by
    unfold parse
    rw [← Report.succeeded_iff, Report.succeeded_ofState]
  cases strategy with
  | recovering => exact hrecovering
  | failFast =>
    rw [← hrecovering, ← Report.succeeded_iff, ← Report.succeeded_iff,
      (h.failFastIsCut classifier source).succeeded_eq]

end

/-- In Simple and in word lists, a run that stops at its first fault is the recovering run cut
short at that fault, whatever the source. -/
theorem failFast_cuts_recovering (source : Source) :
    FailFastIsCut Simple.classifier Simple.program source ∧
      FailFastIsCut WordList.classifier WordList.wordList source :=
  ⟨Simple.composed_program.failFastIsCut Simple.classifier source,
    WordList.composed_wordList.failFastIsCut WordList.classifier source⟩

end SinglePass
