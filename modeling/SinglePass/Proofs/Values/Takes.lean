import SinglePass.Proofs.Anchoring.Moments
import SinglePass.Proofs.Engine.Requiring
import SinglePass.Proofs.Rules
import SinglePass.Proofs.Settling.Passes

/-!
# What a rule takes and what it makes of it

A run that is not recovering, comes to the end of a rule and has met no unexpected token on the way
has taken some tokens and recorded some faults of meaning.  `Takes pre r post` says of the rule `r`
that these tokens and faults and the value of the rule belong together as `post` says, under either
strategy, wherever the token that is looked at satisfies `pre`.

There is one closure lemma for each way to put recognizers together.  What comes behind a first part
is asked for `post` of all that was taken and recorded, given what the first part says of its share
(`Takes.bind`); the rounds of a loop carry a relation of the same form along (`Takes.iterate`).
-/

namespace SinglePass

variable {κ τ ω α β : Type}

/-! ## Runs that end with a value -/

namespace Recognizer

variable {strategy : Strategy} {s t : State κ τ ω} {a : α} {b : β}

/-- A sequence ends with a value only if its first part does. -/
theorem value_of_bind {r : Recognizer κ τ ω α} {f : α → Recognizer κ τ ω β}
    (h : (r >>= f) strategy s = (.value b, t)) :
    ∃ a u, r strategy s = (.value a, u) ∧ f a strategy u = (.value b, t) := by
  rw [bind_apply] at h
  split at h
  · next a u heq => exact ⟨a, u, heq, h⟩
  · cases h
  · cases h

/-- A report that lets the run go on is recorded by a recovering run. -/
theorem value_of_report {d : Diagnostic κ τ} (hr : s.recovering = false)
    (h : report d strategy s = (.value (), t)) : t = s.recordAll [d] := by
  cases strategy with
  | failFast => cases h
  | recovering =>
    rw [report_calm hr] at h
    cases h
    rfl

end Recognizer

/-- A rule of meaning that comes to its end has recorded faults of meaning and done nothing else. -/
theorem Reporting.value {r : Recognizer κ τ ω α} (h : Reporting r) {strategy : Strategy}
    {s t : State κ τ ω} {a : α} (hr : s.recovering = false)
    (hrun : r strategy s = (.value a, t)) : ∃ found, t = s.recordAll found := by
  induction h generalizing s t with
  | pure a =>
    cases hrun
    exact ⟨[], (State.recordAll_nil s).symm⟩
  | bind _ _ ihr ihf =>
    obtain ⟨b, u, hfirst, hsecond⟩ := Recognizer.value_of_bind hrun
    obtain ⟨found, rfl⟩ := ihr hr hfirst
    obtain ⟨more, rfl⟩ := ihf b (s := s.recordAll found) hr hsecond
    exact ⟨found ++ more, State.recordAll_recordAll s found more⟩
  | read f =>
    cases hrun
    exact ⟨[], (State.recordAll_nil s).symm⟩
  | report d _ => exact ⟨[d], Recognizer.value_of_report hr hrun⟩

section

variable [TokenKind κ]

/-- Recording faults leaves a run ready. -/
theorem State.Ready.recordAll {s : State κ τ ω} (h : s.Ready) (faults : List (Diagnostic κ τ)) :
    (s.recordAll faults).Ready := ⟨h.calm, h.scansOnly, h.terminated⟩

/-! ## The judgement -/

/-- From a run that is ready to one that is, again: the tokens between them, and the faults of
meaning among those that were recorded. -/
structure State.Consumed (s t : State κ τ ω) (found : List (Diagnostic κ τ))
    (post : List (Token κ) → List (Diagnostic κ τ) → Prop) : Prop where
  ready : t.Ready
  consumed : ∃ ts, s.input = ts ++ t.input ∧ post ts (found.filter Diagnostic.isSemantic)

/-- What the rule takes, if it comes to its end and nothing is unexpected, is what `post` says. -/
structure Takes (pre : Token κ → Prop) (r : Recognizer κ τ ω α)
    (post : List (Token κ) → List (Diagnostic κ τ) → α → Prop) : Prop where
  composed : Composed r
  takes : ∀ strategy (s t : State κ τ ω) a found, s.Ready → pre s.lookahead →
    r strategy s = (.value a, t) → t.sink = s.sink ++ found →
    (∀ d ∈ found, d.isUnexpected = false) → s.Consumed t found fun ts faults => post ts faults a

namespace Takes

variable {pre pre' : Token κ → Prop} {r : Recognizer κ τ ω α} {f : α → Recognizer κ τ ω β}
  {post post' : List (Token κ) → List (Diagnostic κ τ) → α → Prop}
  {goal : List (Token κ) → List (Diagnostic κ τ) → β → Prop}

/-- A weaker conclusion, which may use what the first of the tokens is. -/
theorem imp_head (h : Takes pre r post)
    (himp : ∀ ts faults a, (∀ t ∈ ts.head?, pre t) → post ts faults a → post' ts faults a) :
    Takes pre r post' := by
  refine ⟨h.composed, fun strategy s t a found hs hpre hrun hsink hfound => ?_⟩
  obtain ⟨hready, ts, hinput, hpost⟩ := h.takes strategy s t a found hs hpre hrun hsink hfound
  refine ⟨hready, ts, hinput, himp ts _ a (fun token htoken => ?_) hpost⟩
  cases ts with
  | nil => cases htoken
  | cons first ts =>
    obtain rfl : first = token := Option.some.inj htoken
    rwa [← (List.cons.inj hinput).1]

/-- What is said of the tokens that are taken may be weakened. -/
theorem imp (h : Takes pre r post) (himp : ∀ ts faults a, post ts faults a → post' ts faults a) :
    Takes pre r post' := h.imp_head fun ts faults a _ => himp ts faults a

/-- What is asked of the first token may be strengthened. -/
theorem of_pre (h : Takes pre r post) (hpre : ∀ token, pre' token → pre token) :
    Takes pre' r post :=
  ⟨h.composed, fun strategy s t a found hs hs' => h.takes strategy s t a found hs (hpre _ hs')⟩

/-- Only what the rule does at the tokens in question matters. -/
theorem congr {r' : Recognizer κ τ ω α} (h : Takes pre r post) (composed : Composed r')
    (heq : ∀ strategy (s : State κ τ ω), pre s.lookahead → r' strategy s = r strategy s) :
    Takes pre r' post :=
  ⟨composed, fun strategy s t a found hs hpre hrun =>
    h.takes strategy s t a found hs hpre ((heq strategy s hpre).symm.trans hrun)⟩

/-- A case distinction on the token that is looked at. -/
theorem cases (p : Token κ → Prop) [DecidablePred p]
    (hthere : Takes (fun token => pre token ∧ p token) r post)
    (hother : Takes (fun token => pre token ∧ ¬ p token) r post) : Takes pre r post := by
  refine ⟨hthere.composed, fun strategy s t a found hs hpre => ?_⟩
  by_cases hp : p s.lookahead
  · exact hthere.takes strategy s t a found hs ⟨hpre, hp⟩
  · exact hother.takes strategy s t a found hs ⟨hpre, hp⟩

/-! ### Sequences and choices -/

/-- A rule that only records faults takes no token. -/
theorem of_recordAll (composed : Composed r)
    (h : ∀ strategy (s t : State κ τ ω) a, s.Ready → r strategy s = (.value a, t) →
      ∃ faults, t = s.recordAll faults ∧ post [] (faults.filter Diagnostic.isSemantic) a) :
    Takes pre r post := by
  refine ⟨composed, fun strategy s t a found hs _ hrun hsink _ => ?_⟩
  obtain ⟨faults, rfl, hpost⟩ := h strategy s t a hs hrun
  obtain rfl : faults = found := List.append_cancel_left hsink
  exact ⟨hs.recordAll faults, [], rfl, hpost⟩

/-- A value takes no token. -/
theorem pure {a : α} (h : post [] [] a) : Takes pre (Pure.pure a : Recognizer κ τ ω α) post := by
  refine .of_recordAll (.pure a) fun strategy s t b _ hrun => ⟨[], ?_⟩
  cases hrun
  exact ⟨(State.recordAll_nil s).symm, h⟩

/-- What comes behind a first part is asked about the whole. -/
theorem bind (hr : Takes pre r post)
    (hf : ∀ a, Takes (fun _ => True) (f a) fun us more b =>
      ∀ ts faults, post ts faults a → goal (ts ++ us) (faults ++ more) b) :
    Takes pre (r >>= f) goal := by
  have hcomposed : ∀ a, Composed (f a) := fun a => (hf a).composed
  refine ⟨.bind hr.composed hcomposed, fun strategy s t b found hs hpre hrun hsink hfound => ?_⟩
  obtain ⟨a, u, hfirst, hsecond⟩ := Recognizer.value_of_bind hrun
  have hextends : s.ExtendedBy u := by
    have h := hr.composed.extends strategy s
    rwa [hfirst] at h
  have hextends' : u.ExtendedBy t := by
    have h := (hcomposed a).extends strategy u
    rwa [hsecond] at h
  -- Neither part takes faults back, so those that are found fall into two shares.
  obtain ⟨faults, hfaults⟩ := hextends.sink
  obtain ⟨more, hmore⟩ := hextends'.sink
  obtain rfl : faults ++ more = found := by
    rw [← hmore, ← hfaults, List.append_assoc] at hsink
    exact List.append_cancel_left hsink
  have hshare := hr.takes strategy s u a faults hs hpre hfirst hfaults.symm fun d hd =>
    hfound d (List.mem_append_left _ hd)
  obtain ⟨hready, ts, hinput, hpost⟩ := hshare
  have hrest := (hf a).takes strategy u t b more hready trivial hsecond hmore.symm fun d hd =>
    hfound d (List.mem_append_right _ hd)
  obtain ⟨hready', us, hinput', hpost'⟩ := hrest
  refine ⟨hready', ts ++ us, by rw [hinput, hinput', List.append_assoc], ?_⟩
  rw [List.filter_append]
  exact hpost' _ _ hpost

/-- Each branch of a choice may rely on its own condition. -/
theorem ite {p : Prop} [Decidable p] {r' : Recognizer κ τ ω α} (hr : p → Takes pre r post)
    (hr' : ¬ p → Takes pre r' post) : Takes pre (if p then r else r') post := by
  split
  · next h => exact hr h
  · next h => exact hr' h

/-- Looking at a token before a rule that begins with it. -/
theorem lookahead {f : Token κ → Recognizer κ τ ω β}
    (h : ∀ token, Takes (· = token) (f token) goal) : Takes pre (Recognizer.lookahead >>= f) goal :=
  ⟨.bind .lookahead fun token => (h token).composed, fun strategy s t b found hs _ =>
    (h s.lookahead).takes strategy s t b found hs rfl⟩

/-! ### Operations -/

/-- Any token but the last can be taken. -/
theorem advance (ordinary : ∀ token, pre token → token.kind ≠ TokenKind.endOfFile) :
    Takes pre (Recognizer.advance : Recognizer κ τ ω (Token κ)) fun ts faults token =>
      pre token ∧ ts = [token] ∧ faults = [] := by
  refine ⟨.advance, fun strategy s t token found hs hpre hrun hsink _ => ?_⟩
  cases hrun
  obtain ⟨next, more, htokens⟩ := List.exists_cons_of_ne_nil (hs.tokens_ne_nil (ordinary _ hpre))
  obtain ⟨hready, hafter, -⟩ := hs.shift (ordinary _ hpre)
  have hinput : s.input = [s.lookahead] ++ s.shift.input := by
    rw [hafter.input_eq]
    rfl
  have hfaults : found = next.faults := by
    rw [State.shift_of_cons htokens] at hsink
    exact (List.append_cancel_left hsink).symm
  have hscanning : found.filter Diagnostic.isSemantic = [] := by
    rw [List.filter_eq_nil_iff, hfaults]
    intro d hd hsemantic
    have hscans := hs.scansOnly next (by rw [htokens]; exact List.mem_cons_self) d hd
    rw [Diagnostic.isScanning_of_isSemantic hsemantic] at hscans
    exact Bool.false_ne_true hscans
  exact ⟨hready, _, hinput, hpre, rfl, hscanning⟩

/-- A run that goes on behind a token that was required has taken it. -/
theorem mustBe {kind : κ} (ordinary : kind ≠ TokenKind.endOfFile) :
    Takes pre (Recognizer.mustBe kind : Recognizer κ τ ω (Option (Token κ)))
      fun ts faults token? => ∃ token, token? = some token ∧ token.kind = kind ∧ ts = [token] ∧
        faults = [] := by
  refine ⟨.mustBe kind, fun strategy s t token? found hs hpre hrun hsink hfound => ?_⟩
  by_cases hk : s.lookahead.kind = kind
  · rw [Recognizer.mustBe_of_kind_eq strategy hs.calm hk] at hrun
    cases hrun
    have htakes : Takes (τ := τ) (ω := ω) (fun token => token.kind = kind) Recognizer.advance _ :=
      .advance fun token htoken => htoken ▸ ordinary
    obtain ⟨hready, ts, hinput, hkind, hts, hfaults⟩ :=
      htakes.takes strategy s s.shift s.lookahead found hs hk rfl hsink hfound
    exact ⟨hready, ts, hinput, s.lookahead, rfl, hkind, hts, hfaults⟩
  · cases strategy with
    | failFast =>
      rw [Recognizer.mustBe_failFast_of_kind_ne hs.calm hk] at hrun
      cases hrun
    | recovering =>
      rw [Recognizer.mustBe_recovering_of_kind_ne hs.calm hk] at hrun
      cases hrun
      obtain rfl : [.unexpected s.lookahead (.kind kind)] = found := List.append_cancel_left hsink
      cases hfound _ (List.mem_singleton.mpr rfl)

/-- What goes on behind a token that was required goes on with this token. -/
theorem require {kind : κ} {f : Option (Token κ) → Recognizer κ τ ω β}
    (ordinary : kind ≠ TokenKind.endOfFile)
    (missing : Takes (fun _ => True) (f none) fun _ _ _ => True)
    (there : ∀ token, Takes (fun _ => True) (f (some token)) fun us faults b =>
      token.kind = kind → goal (token :: us) faults b) :
    Takes pre (Recognizer.mustBe kind >>= f) goal := by
  refine .bind (.mustBe ordinary) fun token? => ?_
  cases token? with
  | none =>
    refine missing.imp ?_
    rintro us more b - ts faults ⟨token, htoken, -⟩
    cases htoken
  | some token =>
    refine (there token).imp ?_
    rintro us more b hgoal ts faults ⟨other, hother, hkind, rfl, rfl⟩
    obtain rfl := Option.some.inj hother
    exact hgoal hkind

/-- Nothing is taken at an unexpected token. -/
theorem unexpected (expected : Expected κ) :
    Takes pre (Recognizer.unexpected expected : Recognizer κ τ ω Unit) fun _ _ _ => False := by
  refine ⟨.unexpected expected, fun strategy s t token found hs _ hrun hsink hfound => ?_⟩
  cases strategy with
  | failFast => cases hrun
  | recovering =>
    have hrecord : t.sink = s.sink ++ [.unexpected s.lookahead expected] := by
      unfold Recognizer.unexpected at hrun
      simp only [hs.calm] at hrun
      cases hrun
      rfl
    obtain rfl := List.append_cancel_left (hrecord.symm.trans hsink)
    cases hfound _ (List.mem_singleton.mpr rfl)

/-- Reporting a fault takes no token. -/
theorem report {d : Diagnostic κ τ} (semantic : d.isSemantic = true) :
    Takes pre (Recognizer.report d : Recognizer κ τ ω Unit) fun ts faults _ =>
      ts = [] ∧ faults = [d] := by
  refine .of_recordAll (.report d semantic) fun strategy s t _ hs hrun =>
    ⟨[d], Recognizer.value_of_report hs.calm hrun, rfl, ?_⟩
  rw [List.filter_cons_of_pos semantic, List.filter_nil]

/-- A rule of meaning takes no token. -/
theorem reporting (h : Reporting r) : Takes pre r fun ts _ _ => ts = [] :=
  .of_recordAll h.silent.composed fun strategy s t a hs hrun => by
    obtain ⟨faults, hfaults⟩ := h.value hs.calm hrun
    exact ⟨faults, hfaults, rfl⟩

/-- A run without fuel does not end, so nothing is taken. -/
theorem outOfFuel : Takes pre (Recognizer.outOfFuel : Recognizer κ τ ω α) post :=
  ⟨.outOfFuel, fun _ _ _ _ _ _ _ hrun => nomatch hrun⟩

/-- Looking whether a token of the kind is there. -/
theorem sees {kind : κ} {f : Bool → Recognizer κ τ ω β}
    (hthere : Takes (fun token => pre token ∧ token.kind = kind) (f true) goal)
    (hother : Takes (fun token => pre token ∧ token.kind ≠ kind) (f false) goal) :
    Takes pre (Recognizer.sees kind >>= f) goal := by
  have hcomposed : Composed (Recognizer.sees kind >>= f) :=
    .bind (.sees kind) fun flag => by
      cases flag
      · exact hother.composed
      · exact hthere.composed
  have hsees : ∀ strategy (s : State κ τ ω) (flag : Bool),
      decide (s.lookahead.kind = kind) = flag →
        (Recognizer.sees kind >>= f) strategy s = f flag strategy s := by
    rintro strategy s _ rfl
    rfl
  refine .cases (fun token => token.kind = kind) (hthere.congr hcomposed ?_)
    (hother.congr hcomposed ?_)
  · rintro strategy s ⟨-, hk⟩
    exact hsees strategy s true (decide_eq_true hk)
  · rintro strategy s ⟨-, hk⟩
    exact hsees strategy s false (decide_eq_false hk)

/-- A token of the kind is taken if it is there. -/
theorem accept {kind : κ} {f : Bool → Recognizer κ τ ω β} (ordinary : kind ≠ TokenKind.endOfFile)
    (hthere : Takes (fun _ => True) (f true) fun us faults b =>
      ∀ token, pre token → token.kind = kind → goal (token :: us) faults b)
    (hother : Takes (fun token => pre token ∧ token.kind ≠ kind) (f false) goal) :
    Takes pre (Recognizer.accept kind >>= f) goal := by
  unfold Recognizer.accept
  rw [bind_assoc]
  refine .sees ?_ ?_
  · simp only [if_true, bind_assoc, pure_bind]
    refine .bind (.advance fun token h => h.2 ▸ ordinary) fun token => hthere.imp ?_
    rintro us faults b hgoal ts found ⟨⟨hpre, hkind⟩, rfl, rfl⟩
    exact hgoal token hpre hkind
  · simpa only [Bool.false_eq_true, if_false, pure_bind] using hother

/-! ### Recursion -/

/-- Fuel makes no difference to what is taken. -/
theorem withFuel {r : Nat → Recognizer κ τ ω α} (h : ∀ n, Takes pre (r n) post) :
    Takes pre (Recognizer.withFuel r) post :=
  ⟨.withFuel fun n => (h n).composed, fun strategy s => (h _).takes strategy s⟩

/-- What a loop has taken so far and its value stay in the relation that every round keeps. -/
theorem iterate {test : κ → Bool} {body : α → Recognizer κ τ ω α}
    (h : ∀ a, Takes (fun token => test token.kind = true) (body a) fun us more b =>
      ∀ ts faults, post ts faults a → post (ts ++ us) (faults ++ more) b) (n : Nat) (a : α) :
    Takes pre (Recognizer.iterate test body n a) fun us more b =>
      ∀ ts faults, post ts faults a → post (ts ++ us) (faults ++ more) b := by
  induction n generalizing pre a with
  | zero => exact .outOfFuel
  | succ n ih =>
    have hcomposed : Composed (Recognizer.iterate test body (n + 1) a) :=
      .iterate (fun a => (h a).composed) _ _
    -- The test decides whether there is another round, which the rest of the loop comes behind.
    refine .cases (fun token => test token.kind = true)
      (.congr (r := body a >>= Recognizer.iterate test body n) ?_ hcomposed ?_)
      (.congr (r := Pure.pure a) ?_ hcomposed ?_)
    · refine ((h a).of_pre fun token htoken => htoken.2).bind fun b => (ih b).imp ?_
      intro us more c hmore ts faults hround ts' faults' hpost
      rw [← List.append_assoc, ← List.append_assoc]
      exact hmore _ _ (hround _ _ hpost)
    · rintro strategy s ⟨-, htest⟩
      exact Recognizer.iterate_of_test htest n a
    · refine .pure fun ts faults hpost => ?_
      rwa [List.append_nil, List.append_nil]
    · rintro strategy s ⟨-, htest⟩
      exact Recognizer.iterate_of_not_test (Bool.not_eq_true _ ▸ htest) n a

/-- A loop takes what its rounds take, one behind the other. -/
theorem whileSees {test : κ → Bool} {body : α → Recognizer κ τ ω α}
    (h : ∀ a, Takes (fun token => test token.kind = true) (body a) fun us more b =>
      ∀ ts faults, post ts faults a → post (ts ++ us) (faults ++ more) b) (a : α) :
    Takes pre (Recognizer.whileSees test body a) fun us more b =>
      ∀ ts faults, post ts faults a → post (ts ++ us) (faults ++ more) b :=
  .withFuel fun n => .iterate h n a

/-! ### Runs of a source -/

/-- What is taken wherever a run of a source comes to are tokens of this source. -/
theorem of_reached {classifier : Classifier κ} {strategy : Strategy} {source : Source}
    {s t : State κ τ ω} {a : α} {found : List (Diagnostic κ τ)} (h : Takes (fun _ => True) r post)
    (reached : s.Reached classifier strategy source) (calm : s.recovering = false)
    (run_eq : r strategy s = (.value a, t)) (sink_eq : t.sink = s.sink ++ found)
    (expected : ∀ d ∈ found, d.isUnexpected = false) :
    ∃ ts, s.input = ts ++ t.input ∧ ts <:+: source.tokens classifier ∧
      post ts (found.filter Diagnostic.isSemantic) a := by
  obtain ⟨n, hreads⟩ := reached.reads
  have hready : s.Ready := ⟨calm, hreads.scansOnly, reached.placed⟩
  obtain ⟨-, ts, hinput, hpost⟩ :=
    h.takes strategy s t a found hready trivial run_eq sink_eq expected
  have hprefix : ts <+: s.input := ⟨t.input, hinput.symm⟩
  rw [hreads.input_eq] at hprefix
  exact ⟨ts, hinput, hprefix.isInfix.trans (List.drop_suffix n _).isInfix, hpost⟩

end Takes

end

end SinglePass
