import SinglePass.Proofs.FailFast

/-!
# Passing over tokens and stopping at one

What a recovering run does until it meets a token that it does not expect.  From a state that is
`Ready`, a recognizer `Passes` over the next `k` tokens if it consumes exactly these and finds
nothing unexpected, and it `Stops` behind them if the first unexpected token is the one that comes
then.  In both cases the faults found on the way are those that reading the `k` tokens brings, and
faults of meaning: when the run stops, nothing behind the unexpected token has been read.

Sequencing adds up the tokens (`Passes.bind`, `Stops.bind_left`, `Stops.bind_right`).
-/

namespace SinglePass

variable {κ τ ω : Type}

/-! ## Where a run stands -/

/-- The kinds of the tokens that a run has before it. -/
def State.kinds (s : State κ τ ω) : List κ := s.input.map Token.kind

/-- Are the kinds those of whole sources: one that ends the source, as the last one? -/
def Terminated [TokenKind κ] (ks : List κ) : Prop :=
  ∃ before, ks = before ++ [TokenKind.endOfFile] ∧ TokenKind.endOfFile ∉ before

/-- A run that has met no unexpected token and has the rest of a source before it. -/
structure State.Ready [TokenKind κ] (s : State κ τ ω) : Prop where
  calm : s.recovering = false
  scansOnly : s.ScansOnly
  terminated : Terminated s.kinds

/-- The faults that a run finds while it consumes the next `k` tokens: those that come with reading
them, and no unexpected token. -/
structure State.Finds (s : State κ τ ω) (k : Nat) (found : List (Diagnostic κ τ)) : Prop where
  scanning : found.filter Diagnostic.isScanning =
    (s.ahead.tokens.take k).flatMap Scanned.faults
  grammatical : ∀ d ∈ found, d.isUnexpected = false

/-- Does the second run have before it what the first has behind the next `k` tokens? -/
structure State.After (s : State κ τ ω) (k : Nat) (t : State κ τ ω) : Prop where
  input_eq : t.input = s.input.drop k
  ahead_eq : t.ahead.tokens = s.ahead.tokens.drop k

section

variable {s t v : State κ τ ω} {j k : Nat} {found more : List (Diagnostic κ τ)}

/-- A run has one kind more before it than tokens ahead. -/
theorem State.length_kinds (s : State κ τ ω) : s.kinds.length = s.ahead.count + 1 := by
  rw [kinds, List.length_map, input, List.length_cons, List.length_map, s.ahead.count_eq]

/-- Behind `k` tokens, their kinds are gone. -/
theorem State.After.kinds_eq (h : s.After k t) : t.kinds = s.kinds.drop k := by
  rw [State.kinds, State.kinds, h.input_eq, List.map_drop]

/-- What comes behind some tokens and then behind others comes behind all of them. -/
theorem State.After.trans (h : s.After j t) (h' : t.After k v) : s.After (j + k) v := by
  constructor
  · rw [h'.input_eq, h.input_eq, List.drop_drop]
  · rw [h'.ahead_eq, h.ahead_eq, List.drop_drop]

/-- The next tokens are those up to a later state and those behind it. -/
theorem State.After.take_append (h : s.After j t) (k : Nat) :
    s.input.take (j + k) = s.input.take j ++ t.input.take k := by
  rw [List.take_add, h.input_eq]

/-- No tokens bring no faults. -/
theorem State.Finds.nil (s : State κ τ ω) : s.Finds 0 [] := ⟨rfl, by simp⟩

/-- Faults are found in two parts. -/
theorem State.Finds.append (h : s.Finds j found) (hafter : s.After j t) (h' : t.Finds k more) :
    s.Finds (j + k) (found ++ more) := by
  constructor
  · rw [List.filter_append, h.scanning, h'.scanning, hafter.ahead_eq, List.take_add,
      List.flatMap_append]
  · intro d hd
    rcases List.mem_append.1 hd with hd | hd
    · exact h.grammatical d hd
    · exact h'.grammatical d hd

end

/-! ## Passing and stopping -/

variable {α β ι : Type}

section

variable [TokenKind κ]

/-- The recovering run of the recognizer consumes the next `k` tokens and finds all of them to be
as expected. -/
inductive Passes (r : Recognizer κ τ ω α) (s : State κ τ ω) (k : Nat) : Prop
  | intro (a : α) (t : State κ τ ω) (found : List (Diagnostic κ τ))
      (run_eq : r .recovering s = (.value a, t)) (ready : t.Ready) (after : s.After k t)
      (sink_eq : t.sink = s.sink ++ found) (finds : s.Finds k found)

omit [TokenKind κ] in
/-- The recovering run of the recognizer consumes the next `k` tokens and finds the one behind them
to be unexpected. -/
inductive Stops (r : Recognizer κ τ ω α) (s : State κ τ ω) (k : Nat) : Prop
  | intro (token : Token κ) (expected : Expected κ) (found rest : List (Diagnostic κ τ))
      (token_eq : s.input[k]? = some token)
      (sink_eq : (r .recovering s).2.sink =
        s.sink ++ (found ++ .unexpected token expected :: rest))
      (finds : s.Finds k found)

variable {s t : State κ τ ω} {j k : Nat} {r : Recognizer κ τ ω α} {f : α → Recognizer κ τ ω β}

/-- What passes in two parts passes over the tokens of both. -/
theorem Passes.bind (hr : Passes r s j)
    (hf : ∀ a t, t.Ready → s.After j t → Passes (f a) t k) : Passes (r >>= f) s (j + k) := by
  obtain ⟨a, t, found, hrun, hready, hafter, hsink, hfinds⟩ := hr
  obtain ⟨b, v, more, hrun', hready', hafter', hsink', hfinds'⟩ := hf a t hready hafter
  refine ⟨b, v, found ++ more, ?_, hready', hafter.trans hafter', ?_, hfinds.append hafter hfinds'⟩
  · rw [Recognizer.bind_of_value hrun, hrun']
  · rw [hsink', hsink, List.append_assoc]

/-- Whatever comes after an unexpected token, it stays the first. -/
theorem Stops.bind_left (hr : Stops r s k) (hf : ∀ a, Composed (f a)) : Stops (r >>= f) s k := by
  obtain ⟨token, expected, found, rest, htoken, hsink, hfinds⟩ := hr
  have hextends : (r .recovering s).2.ExtendedBy ((r >>= f) .recovering s).2 := by
    rw [Recognizer.bind_apply]
    obtain ⟨a | _ | _, t⟩ := r .recovering s
    · exact (hf a).extends .recovering t
    · exact .refl t
    · exact .refl t
  obtain ⟨more, hmore⟩ := hextends.sink
  refine ⟨token, expected, found, rest ++ more, htoken, ?_, hfinds⟩
  rw [← hmore, hsink]
  simp only [List.append_assoc, List.cons_append]

/-- What stops in its second part stops behind the tokens of the first. -/
theorem Stops.bind_right (hr : Passes r s j)
    (hf : ∀ a t, t.Ready → s.After j t → Stops (f a) t k) : Stops (r >>= f) s (j + k) := by
  obtain ⟨a, t, found, hrun, hready, hafter, hsink, hfinds⟩ := hr
  obtain ⟨token, expected, more, rest, htoken, hsink', hfinds'⟩ := hf a t hready hafter
  refine ⟨token, expected, found ++ more, rest, ?_, ?_, hfinds.append hafter hfinds'⟩
  · rw [← htoken, hafter.input_eq, List.getElem?_drop]
  · rw [Recognizer.bind_of_value hrun, hsink', hsink]
    simp only [List.append_assoc]

/-- What equals a recognizer that passes does so, too. -/
theorem Passes.congr {r' : Recognizer κ τ ω α} (h : Passes r s k)
    (heq : r' .recovering s = r .recovering s) : Passes r' s k := by
  obtain ⟨a, t, found, hrun, hready, hafter, hsink, hfinds⟩ := h
  exact ⟨a, t, found, heq.trans hrun, hready, hafter, hsink, hfinds⟩

omit [TokenKind κ] in
/-- What equals a recognizer that stops does so, too. -/
theorem Stops.congr {r' : Recognizer κ τ ω α} (h : Stops r s k)
    (heq : r' .recovering s = r .recovering s) : Stops r' s k := by
  obtain ⟨token, expected, found, rest, htoken, hsink, hfinds⟩ := h
  exact ⟨token, expected, found, rest, htoken, by rw [heq, hsink], hfinds⟩

/-! ### Operations of the engine -/

/-- What is silent passes over no tokens. -/
theorem Silent.passes (h : Silent r) (hs : s.Ready) : Passes r s 0 := by
  obtain ⟨a, t, found, hrun, hlook, hahead, hcalm, hsink, hfound⟩ := h.run s
  have hinput : t.input = s.input := by
    unfold State.input
    rw [hlook, hahead]
  refine ⟨a, t, found, hrun, ⟨hcalm.trans hs.calm, ?_, ?_⟩, ⟨hinput, by rw [hahead]; rfl⟩, hsink,
    ?_⟩
  · unfold State.ScansOnly
    rw [hahead]
    exact hs.scansOnly
  · unfold State.kinds
    rw [hinput]
    exact hs.terminated
  · constructor
    · rw [List.take_zero, List.flatMap_nil, List.filter_eq_nil_iff]
      intro d hd
      have := hfound d hd
      cases d <;> simp_all [Diagnostic.isSemantic, Diagnostic.isScanning]
    · intro d hd
      have := hfound d hd
      cases d <;> simp_all [Diagnostic.isSemantic, Diagnostic.isUnexpected]

/-- Behind a token that does not end the source there is another. -/
theorem State.Ready.tokens_ne_nil (hs : s.Ready) (hk : s.lookahead.kind ≠ TokenKind.endOfFile) :
    s.ahead.tokens ≠ [] := by
  intro hnil
  obtain ⟨before, hbefore, -⟩ := hs.terminated
  have hkinds : s.kinds = [s.lookahead.kind] := by
    unfold State.kinds State.input
    rw [hnil]
    rfl
  rw [hkinds] at hbefore
  cases before with
  | nil => exact hk (List.cons.inj hbefore).1
  | cons kind before => simp at hbefore

/-- Behind a token that does not end a source, the rest of this source follows. -/
theorem Terminated.tail {x : κ} {ks : List κ} (h : Terminated (x :: ks))
    (hx : x ≠ TokenKind.endOfFile) : Terminated ks := by
  obtain ⟨before, heq, hmem⟩ := h
  cases before with
  | nil => exact absurd (List.cons.inj heq).1 hx
  | cons y before =>
    exact ⟨before, (List.cons.inj heq).2, fun h => hmem (List.mem_cons_of_mem _ h)⟩

/-- Nothing comes behind the end of a source. -/
theorem Terminated.eq_nil {ks : List κ} (h : Terminated (TokenKind.endOfFile :: ks)) : ks = [] := by
  obtain ⟨before, heq, hmem⟩ := h
  cases before with
  | nil => exact (List.cons.inj heq).2
  | cons y before =>
    obtain ⟨rfl, -⟩ := List.cons.inj heq
    exact absurd List.mem_cons_self hmem

/-- Going on passes over the token that was looked at. -/
theorem State.Ready.shift (hs : s.Ready) (hk : s.lookahead.kind ≠ TokenKind.endOfFile) :
    s.shift.Ready ∧ s.After 1 s.shift ∧ ∃ found, s.shift.sink = s.sink ++ found ∧
      s.Finds 1 found := by
  obtain ⟨next, more, htokens⟩ := List.exists_cons_of_ne_nil (hs.tokens_ne_nil hk)
  have hinput : s.shift.input = s.input.tail := by
    unfold State.input
    rw [State.shift_of_cons htokens, Upcoming.tokens_tail, htokens]
    rfl
  have hscanning : ∀ d ∈ next.faults, d.isScanning = true :=
    hs.scansOnly next (by rw [htokens]; exact List.mem_cons_self)
  refine ⟨⟨?_, hs.scansOnly.shift, ?_⟩, ⟨?_, ?_⟩, next.faults, ?_, ?_, ?_⟩
  · rw [State.shift_recovering, hs.calm]
  · have hterminated := hs.terminated
    unfold State.kinds at hterminated ⊢
    rw [hinput]
    exact hterminated.tail hk
  · rw [hinput, List.drop_one]
  · rw [State.shift_tokens, List.drop_one]
  · rw [State.shift_of_cons htokens]
  · rw [htokens, List.take_succ_cons, List.take_zero, List.flatMap_singleton,
      List.filter_eq_self.2 hscanning]
  · intro d hd
    have := hscanning d hd
    cases d <;> simp_all [Diagnostic.isScanning, Diagnostic.isUnexpected]

/-- Any token but the last can be consumed. -/
theorem passes_advance (hs : s.Ready) (hk : s.lookahead.kind ≠ TokenKind.endOfFile) :
    Passes (Recognizer.advance : Recognizer κ τ ω _) s 1 := by
  obtain ⟨hready, hafter, found, hsink, hfinds⟩ := hs.shift hk
  exact ⟨_, s.shift, found, rfl, hready, hafter, hsink, hfinds⟩

/-- What was not expected is where the run stops. -/
theorem stops_unexpected (hs : s.Ready) (expected : Expected κ) :
    Stops (Recognizer.unexpected expected : Recognizer κ τ ω _) s 0 := by
  refine ⟨s.lookahead, expected, [], [], rfl, ?_, .nil s⟩
  unfold Recognizer.unexpected
  simp only [hs.calm]
  rfl

/-- A token of another kind than the one required is where the run stops. -/
theorem stops_mustBe {kind : κ} (hs : s.Ready) (hk : s.lookahead.kind ≠ kind) :
    Stops (Recognizer.mustBe kind : Recognizer κ τ ω _) s 0 := by
  refine ⟨s.lookahead, .kind kind, [], [], rfl, ?_, .nil s⟩
  rw [Recognizer.mustBe_recovering_of_kind_ne hs.calm hk]
  rfl

/-- A run that is not recovering looks for the end of the source. -/
theorem mustEnd_of_calm (hs : s.recovering = false) (strategy : Strategy) :
    (Recognizer.mustEnd : Recognizer κ τ ω _) strategy s =
      if s.lookahead.isEnd then (.value (), s)
      else Recognizer.unexpected (.kind TokenKind.endOfFile) strategy s := by
  have hcalm : (Recognizer.read (·.recovering) : Recognizer κ τ ω _) strategy s =
      (.value false, s) := by
    show (Outcome.value s.recovering, s) = _
    rw [hs]
  have hend : (Recognizer.atEnd : Recognizer κ τ ω _) strategy s =
      (.value s.lookahead.isEnd, s) := rfl
  unfold Recognizer.mustEnd
  rw [Recognizer.bind_of_value hcalm, Recognizer.bind_of_value hend, Bool.false_or,
    Recognizer.ite_apply]
  rfl

/-- Where the source ends, nothing is left to pass. -/
theorem passes_mustEnd (hs : s.Ready) (hk : s.lookahead.kind = TokenKind.endOfFile) :
    Passes (Recognizer.mustEnd : Recognizer κ τ ω _) s 0 := by
  refine ((Silent.pure ()).passes hs).congr ?_
  rw [mustEnd_of_calm hs.calm, if_pos (Token.isEnd_eq_true.2 hk)]
  rfl

/-- Where the source does not end, the run stops. -/
theorem stops_mustEnd (hs : s.Ready) (hk : s.lookahead.kind ≠ TokenKind.endOfFile) :
    Stops (Recognizer.mustEnd : Recognizer κ τ ω _) s 0 := by
  refine (stops_unexpected hs (.kind TokenKind.endOfFile)).congr ?_
  rw [mustEnd_of_calm hs.calm, if_neg fun h => hk (Token.isEnd_eq_true.1 h)]

/-! ### What is recorded -/

/-- A run that passes over its tokens has met no unexpected one. -/
theorem Passes.unexpected_eq_none (h : Passes r s k) (hs : ∀ d ∈ s.sink, d.isUnexpected = false) :
    (r .recovering s).2.sink.find? Diagnostic.isUnexpected = none := by
  obtain ⟨a, t, found, hrun, -, -, hsink, hfinds⟩ := h
  rw [hrun, hsink, List.find?_eq_none]
  intro d hd
  rcases List.mem_append.1 hd with hd | hd
  · simp [hs d hd]
  · simp [hfinds.grammatical d hd]

omit [TokenKind κ] in
/-- Where a run stops, its first unexpected token stands, and of the scanner's faults it has
recorded those of the tokens up to this one. -/
theorem Stops.first_unexpected (h : Stops r s k) (hs : ∀ d ∈ s.sink, d.isUnexpected = false) :
    ∃ token expected, s.input[k]? = some token ∧
      (r .recovering s).2.sink.find? Diagnostic.isUnexpected = some (.unexpected token expected) ∧
      ((r .recovering s).2.sink.takeWhile (!·.isUnexpected)).filter Diagnostic.isScanning =
        s.sink.filter Diagnostic.isScanning ++
          (s.ahead.tokens.take k).flatMap Scanned.faults := by
  obtain ⟨token, expected, found, rest, htoken, hsink, hfinds⟩ := h
  have hbefore : ∀ d ∈ s.sink ++ found, d.isUnexpected = false := by
    intro d hd
    rcases List.mem_append.1 hd with hd | hd
    · exact hs d hd
    · exact hfinds.grammatical d hd
  rw [← List.append_assoc] at hsink
  refine ⟨token, expected, htoken, ?_, ?_⟩
  · have hnone : (s.sink ++ found).find? Diagnostic.isUnexpected = none := by
      rw [List.find?_eq_none]
      intro d hd
      simp [hbefore d hd]
    rw [hsink, List.find?_append, hnone]
    rfl
  · have hall : ∀ d ∈ s.sink ++ found, (!d.isUnexpected) = true := by
      intro d hd
      rw [hbefore d hd]
      rfl
    have hstop : (.unexpected token expected :: rest : List (Diagnostic κ τ)).takeWhile
        (!·.isUnexpected) = [] := rfl
    rw [hsink, List.takeWhile_append_of_pos hall, hstop, List.append_nil, List.filter_append,
      hfinds.scanning]

end

end SinglePass
