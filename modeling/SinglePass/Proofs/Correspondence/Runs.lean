import SinglePass.Proofs.Composed
import SinglePass.Proofs.Correspondence.Likeness

/-!
# Two runs side by side

Two runs are compared by a `Likeness` of their tokens.  `Likeness.Twin` says that their states stand
for each other, and `Likeness.Beside` that two recognizers, started in such states, end in such
states, in the same way and with values that stand for each other.  There is one lemma for each way
to put recognizers together.

An exact comparison is of everything, failures to read possibly apart.  A comparison that is not
exact leaves out what the tokens mean: scopes, notes, and the faults of meaning.  For it, all that
is silent is alike (`Likeness.Beside.meaning`), as long as no fault of meaning ends a run.
-/

namespace SinglePass

variable {κ τ α α' β β' : Type} {name : κ}

/-- Two endings of one sort, with related values. -/
inductive Outcome.Rel (V : α → β → Prop) : Outcome α → Outcome β → Prop
  | value {a : α} {b : β} (h : V a b) : Rel V (.value a) (.value b)
  | abort : Rel V .abort .abort
  | outOfFuel : Rel V .outOfFuel .outOfFuel

/-- Endings with equal values are equal. -/
theorem Outcome.Rel.eq {o o' : Outcome α} (h : o.Rel Eq o') : o = o' := by
  cases h with
  | value h => rw [h]
  | abort => rfl
  | outOfFuel => rfl

namespace Likeness

variable (L : Likeness κ name)

/-! ## States -/

/-- Are faults of this sort compared? -/
def keeps (d : Diagnostic κ τ) : Bool := (L.failures || !d.isIo) && (L.exact || !d.isSemantic)

/-- Two lists of faults that match, as far as they are compared. -/
def SinkLike (sink sink' : List (Diagnostic κ τ)) : Prop :=
  List.Forall₂ (Diagnostic.Matches L.Like name) (sink.filter L.keeps) (sink'.filter L.keeps)

/-- Two tokens that stand for each other, read with faults that do. -/
structure ScannedLike (n n' : Scanned κ τ) : Prop where
  token : L.Like n.token n'.token
  faults : L.SinkLike n.faults n'.faults

/-- Two runs that have come to the same place, and know the same. -/
structure Twin (s s' : State κ τ (Symbol κ τ)) : Prop where
  lookahead : L.Like s.lookahead s'.lookahead
  ahead : List.Forall₂ L.ScannedLike s.ahead.tokens s'.ahead.tokens
  recovering_eq : s.recovering = s'.recovering
  sink : L.SinkLike s.sink s'.sink
  scopes : L.exact = true → s.scopes.Matches L.Like name s'.scopes
  notes : L.exact = true → List.Forall₂ (Symbol.Matches L.Like name) s.notes s'.notes

variable {L}

namespace SinkLike

variable {sink sink' found found' : List (Diagnostic κ τ)}

/-- Faults that match are of one sort, so the same are compared on both sides. -/
theorem of_matches (h : List.Forall₂ (Diagnostic.Matches L.Like name) sink sink') :
    L.SinkLike sink sink' :=
  List.rel_filter (fun d d' hd => by
    show L.keeps d = true ↔ L.keeps d' = true
    rw [keeps, keeps, hd.isSemantic_eq, hd.isIo_eq]) h

/-- Sinks grow side by side. -/
theorem append (h : L.SinkLike sink sink') (hfound : L.SinkLike found found') :
    L.SinkLike (sink ++ found) (sink' ++ found') := by
  rw [SinkLike, List.filter_append, List.filter_append]
  exact List.rel_append h hfound

/-- Faults of meaning do not count in a comparison that is not exact. -/
theorem append_semantic (hexact : L.exact = false) (h : L.SinkLike sink sink')
    (hfound : ∀ d ∈ found, d.isSemantic = true) (hfound' : ∀ d ∈ found', d.isSemantic = true) :
    L.SinkLike (sink ++ found) (sink' ++ found') := by
  have hnone : ∀ faults : List (Diagnostic κ τ), (∀ d ∈ faults, d.isSemantic = true) →
      faults.filter L.keeps = [] := by
    intro faults hfaults
    refine List.filter_eq_nil_iff.2 fun d hd => ?_
    simp [keeps, hexact, hfaults d hd]
  refine h.append ?_
  rw [SinkLike, hnone found hfound, hnone found' hfound']
  exact .nil

/-- An exact comparison, also of failures, is of all faults. -/
theorem exactly (hexact : (L.exact && L.failures) = true) (h : L.SinkLike sink sink') :
    List.Forall₂ (Diagnostic.Matches L.Like name) sink sink' := by
  obtain ⟨hexact, hfailures⟩ := Bool.and_eq_true_iff.1 hexact
  have hall : ∀ faults : List (Diagnostic κ τ), faults.filter L.keeps = faults :=
    fun faults => List.filter_eq_self.2 fun _ _ => by
      rw [keeps, hexact, hfailures, Bool.true_or, Bool.true_or, Bool.and_self]
  rwa [SinkLike, hall, hall] at h

end SinkLike

namespace Twin

variable {s s' : State κ τ (Symbol κ τ)}

/-- What is looked at has one kind on both sides. -/
theorem kind_eq (h : L.Twin s s') : s.lookahead.kind = s'.lookahead.kind := L.kind_eq h.lookahead

/-- Both sides have as many tokens left. -/
theorem count_eq (h : L.Twin s s') : s.ahead.count = s'.ahead.count := by
  rw [s.ahead.count_eq, s'.ahead.count_eq, h.ahead.length_eq]

/-- Both sides go on to their next tokens. -/
theorem shift (h : L.Twin s s') : L.Twin s.shift s'.shift := by
  have hahead := h.ahead
  cases htokens : s.ahead.tokens with
  | nil =>
    rw [htokens, List.forall₂_nil_left_iff] at hahead
    rwa [State.shift_of_nil htokens, State.shift_of_nil hahead]
  | cons next more =>
    rw [htokens, List.forall₂_cons_left_iff] at hahead
    obtain ⟨next', more', hnext, hmore, htokens'⟩ := hahead
    rw [State.shift_of_cons htokens, State.shift_of_cons htokens']
    refine ⟨hnext.token, ?_, h.recovering_eq, h.sink.append hnext.faults, h.scopes, h.notes⟩
    rw [Upcoming.tokens_tail, Upcoming.tokens_tail, htokens, htokens']
    exact hmore

/-- Faults that match may be recorded on both sides. -/
theorem record {d d' : Diagnostic κ τ} (h : L.Twin s s') (hd : d.Matches L.Like name d') :
    L.Twin (s.record d) (s'.record d') :=
  ⟨h.lookahead, h.ahead, h.recovering_eq, h.sink.append (.of_matches (.cons hd .nil)), h.scopes,
    h.notes⟩

/-- Both sides start and end a recovery together. -/
theorem flag (h : L.Twin s s') (recovering : Bool) :
    L.Twin { s with recovering } { s' with recovering } :=
  ⟨h.lookahead, h.ahead, rfl, h.sink, h.scopes, h.notes⟩

/-- Scopes may be replaced on both sides by scopes that match. -/
theorem withScopes {scopes scopes' : ScopeStack κ τ} (h : L.Twin s s')
    (hscopes : L.exact = true → scopes.Matches L.Like name scopes') :
    L.Twin { s with scopes } { s' with scopes := scopes' } :=
  ⟨h.lookahead, h.ahead, h.recovering_eq, h.sink, hscopes, h.notes⟩

/-- A token that the grammar does not allow. -/
theorem reject (h : L.Twin s s') (expected : Expected κ) :
    L.Twin (s.record (.unexpected s.lookahead expected))
      (s'.record (.unexpected s'.lookahead expected)) :=
  h.record (.unexpected h.lookahead expected)

variable [TokenKind κ]

/-- Both sides come to the end of their sources together. -/
theorem isEnd_eq (h : L.Twin s s') : s.lookahead.isEnd = s'.lookahead.isEnd := by
  rw [Token.isEnd, Token.isEnd, h.kind_eq]

/-- Discarding tokens stops at the same place on both sides. -/
theorem discard (kind : κ) {tokens tokens' : List (Scanned κ τ)}
    (htokens : List.Forall₂ L.ScannedLike tokens tokens') (h : L.Twin s s') :
    L.Twin (State.discard kind tokens s) (State.discard kind tokens' s') := by
  induction htokens generalizing s s' with
  | nil => exact h
  | cons _ _ ih =>
    rw [State.discard, State.discard, h.kind_eq, h.isEnd_eq]
    split
    · exact h
    · exact ih h.shift

/-- Skipping to a kind stops at the same place on both sides. -/
theorem discardTo (h : L.Twin s s') (kind : κ) : L.Twin (s.discardTo kind) (s'.discardTo kind) :=
  h.discard kind h.ahead

end Twin

/-! ## Recognizers -/

variable (L)

/-- Two runs that have ended in the same way, in states that stand for each other. -/
structure BesideAt (V : α → β → Prop) (e : Outcome α × State κ τ (Symbol κ τ))
    (e' : Outcome β × State κ τ (Symbol κ τ)) : Prop where
  outcome : e.1.Rel V e'.1
  state : L.Twin e.2 e'.2

/-- The strategies under which runs are compared: both if the comparison is exact.  Otherwise a
fault of meaning must not end a run. -/
def Admits (strategy : Strategy) : Prop := L.exact = true ∨ strategy = .recovering

/-- From states that stand for each other the recognizers run side by side. -/
def Beside (V : α → β → Prop) (r : Recognizer κ τ (Symbol κ τ) α)
    (r' : Recognizer κ τ (Symbol κ τ) β) : Prop :=
  ∀ strategy, L.Admits strategy → ∀ s s', L.Twin s s' →
    L.BesideAt V (r strategy s) (r' strategy s')

/-- A relation that is asked for only in an exact comparison. -/
def Exactly (V : α → β → Prop) (a : α) (b : β) : Prop := L.exact = true → V a b

/-- Two tokens of a kind that stand for each other. -/
def LikeOf (kind : κ) (t t' : Token κ) : Prop := L.Like t t' ∧ t.kind = kind

variable {L}

namespace Beside

variable {V : α → β → Prop} {W : α' → β' → Prop} {r : Recognizer κ τ (Symbol κ τ) α}
  {r' : Recognizer κ τ (Symbol κ τ) β} {f : α → Recognizer κ τ (Symbol κ τ) α'}
  {f' : β → Recognizer κ τ (Symbol κ τ) β'}

/-- What is said of two values may be weakened. -/
theorem imp {U : α → β → Prop} (h : L.Beside V r r') (hvalue : ∀ a b, V a b → U a b) :
    L.Beside U r r' := by
  intro strategy hadmits s s' hs
  obtain ⟨houtcome, hstate⟩ := h strategy hadmits s s' hs
  refine ⟨?_, hstate⟩
  generalize (r strategy s).1 = o at houtcome ⊢
  generalize (r' strategy s').1 = o' at houtcome ⊢
  cases houtcome with
  | value hab => exact .value (hvalue _ _ hab)
  | abort => exact .abort
  | outOfFuel => exact .outOfFuel

/-- Related values are answered side by side. -/
theorem pure {a : α} {b : β} (h : V a b) :
    L.Beside V (Pure.pure a : Recognizer κ τ (Symbol κ τ) α) (Pure.pure b) :=
  fun _ _ _ _ hs => ⟨.value h, hs⟩

/-- A rule behind a part that has ended side by side. -/
theorem bindAt {strategy : Strategy} (hadmits : L.Admits strategy) {s s' : State κ τ (Symbol κ τ)}
    (hr : L.BesideAt V (r strategy s) (r' strategy s'))
    (hf : ∀ a b, V a b → L.Beside W (f a) (f' b)) :
    L.BesideAt W ((r >>= f) strategy s) ((r' >>= f') strategy s') := by
  obtain ⟨houtcome, hstate⟩ := hr
  rw [Recognizer.bind_apply, Recognizer.bind_apply]
  generalize r strategy s = e at houtcome hstate
  generalize r' strategy s' = e' at houtcome hstate
  obtain ⟨o, t⟩ := e
  obtain ⟨o', t'⟩ := e'
  cases houtcome with
  | value hab => exact hf _ _ hab strategy hadmits t t' hstate
  | abort => exact ⟨.abort, hstate⟩
  | outOfFuel => exact ⟨.outOfFuel, hstate⟩

/-- What is put in sequence runs side by side if each part does. -/
theorem bind (hr : L.Beside V r r') (hf : ∀ a b, V a b → L.Beside W (f a) (f' b)) :
    L.Beside W (r >>= f) (r' >>= f') :=
  fun strategy hadmits s s' hs => bindAt hadmits (hr strategy hadmits s s' hs) hf

/-- A choice is made alike if its conditions agree. -/
theorem ite {p p' : Prop} [Decidable p] [Decidable p'] {t : Recognizer κ τ (Symbol κ τ) α}
    {t' : Recognizer κ τ (Symbol κ τ) β} (hp : p ↔ p') (hr : p → L.Beside V r r')
    (ht : ¬ p → L.Beside V t t') : L.Beside V (if p then r else t) (if p' then r' else t') := by
  by_cases h : p
  · rw [if_pos h, if_pos (hp.1 h)]
    exact hr h
  · rw [if_neg h, if_neg (mt hp.2 h)]
    exact ht h

/-- A choice that is made by an answer that both sides have got. -/
theorem branch {b b' : Bool} {t : Recognizer κ τ (Symbol κ τ) α}
    {t' : Recognizer κ τ (Symbol κ τ) β} (hb : b = b') (hr : L.Beside V r r')
    (ht : L.Beside V t t') : L.Beside V (if b then r else t) (if b' then r' else t') :=
  .ite (by rw [hb]) (fun _ => hr) fun _ => ht

/-- Reading the states gives related values if it does so in any two twins. -/
theorem read {g : State κ τ (Symbol κ τ) → α} {g' : State κ τ (Symbol κ τ) → β}
    (h : ∀ s s', L.Twin s s' → V (g s) (g' s')) :
    L.Beside V (Recognizer.read g) (Recognizer.read g') :=
  fun _ _ s s' hs => ⟨.value (h s s' hs), hs⟩

/-- Runs without fuel end side by side. -/
theorem outOfFuel : L.Beside V (Recognizer.outOfFuel : Recognizer κ τ (Symbol κ τ) α)
    (Recognizer.outOfFuel : Recognizer κ τ (Symbol κ τ) β) := fun _ _ _ _ hs => ⟨.outOfFuel, hs⟩

/-- Tokens that stand for each other are looked at. -/
theorem lookahead : L.Beside L.Like
    (Recognizer.lookahead : Recognizer κ τ (Symbol κ τ) (Token κ)) Recognizer.lookahead :=
  .read fun _ _ hs => hs.lookahead

/-- Tokens that stand for each other are consumed. -/
theorem advance : L.Beside L.Like
    (Recognizer.advance : Recognizer κ τ (Symbol κ τ) (Token κ)) Recognizer.advance :=
  fun _ _ _ _ hs => ⟨.value hs.lookahead, hs.shift⟩

/-- Of a token that is looked at the kind is known when it is consumed. -/
theorem advanceAt {kind : κ} {strategy : Strategy} {s s' : State κ τ (Symbol κ τ)}
    (hs : L.Twin s s') (hk : s.lookahead.kind = kind) : L.BesideAt (L.LikeOf kind)
      ((Recognizer.advance : Recognizer κ τ (Symbol κ τ) (Token κ)) strategy s)
      (Recognizer.advance strategy s') :=
  ⟨.value ⟨hs.lookahead, hk⟩, hs.shift⟩

/-- A scope is opened on both sides. -/
theorem openScope : L.Beside Eq
    (Recognizer.openScope : Recognizer κ τ (Symbol κ τ) Unit) Recognizer.openScope :=
  fun _ _ _ _ hs => ⟨.value rfl, hs.withScopes fun hexact => (hs.scopes hexact).openScope⟩

/-- Closing a scope; its answer matters only where scopes do. -/
theorem closeScope : L.Beside (L.Exactly Eq)
    (Recognizer.closeScope : Recognizer κ τ (Symbol κ τ) Bool) Recognizer.closeScope :=
  fun _ _ _ _ hs => ⟨.value fun hexact => (hs.scopes hexact).closeScope.1,
    hs.withScopes fun hexact => (hs.scopes hexact).closeScope.2⟩

/-! ### What the tokens mean -/

/-- What is silent runs side by side if it does so in an exact comparison. -/
theorem meaning (hr : Silent r) (hr' : Silent r') (h : L.exact = true → L.Beside V r r') :
    L.Beside (L.Exactly V) r r' := by
  cases hexact : L.exact with
  | true => exact (h hexact).imp fun _ _ hab _ => hab
  | false =>
    -- each side may do as it likes, since nothing that it can change is compared
    intro strategy hadmits s s' hs
    obtain rfl : strategy = .recovering := hadmits.resolve_left (by simp [hexact])
    obtain ⟨a, t, found, hrun, hlook, hahead, hcalm, hsink, hfound⟩ := hr.run s
    obtain ⟨b, t', found', hrun', hlook', hahead', hcalm', hsink', hfound'⟩ := hr'.run s'
    rw [hrun, hrun']
    have hvague : L.exact ≠ true := by simp [hexact]
    refine ⟨.value fun h => absurd h hvague, ?_, ?_, ?_, ?_, fun h => absurd h hvague,
      fun h => absurd h hvague⟩
    · rw [hlook, hlook']
      exact hs.lookahead
    · rw [hahead, hahead']
      exact hs.ahead
    · rw [hcalm, hcalm']
      exact hs.recovering_eq
    · rw [hsink, hsink']
      exact hs.sink.append_semantic hexact hfound hfound'

/-- Faults that match are reported on both sides. -/
theorem report {d d' : Diagnostic κ τ} (h : d.Matches L.Like name d') : L.Beside Eq
    (Recognizer.report d : Recognizer κ τ (Symbol κ τ) Unit) (Recognizer.report d') := by
  intro strategy _ s s' hs
  cases strategy with
  | failFast => exact ⟨.abort, hs.record h⟩
  | recovering =>
    rw [Recognizer.report_recovering, Recognizer.report_recovering, hs.recovering_eq]
    split
    · exact ⟨.value rfl, hs⟩
    · exact ⟨.value rfl, hs.record h⟩

section

variable {symbol symbol' : Symbol κ τ}

/-- Symbols that match are noted on both sides. -/
theorem note (h : symbol.Matches L.Like name symbol') : L.Beside Eq
    (Recognizer.note symbol : Recognizer κ τ (Symbol κ τ) Unit) (Recognizer.note symbol') :=
  fun _ _ _ _ hs => ⟨.value rfl, hs.lookahead, hs.ahead, hs.recovering_eq, hs.sink, hs.scopes,
    fun hexact => List.rel_append (hs.notes hexact) (.cons h .nil)⟩

/-- Symbols that match are bound on both sides or on none. -/
theorem bindSymbol (hexact : L.exact = true) (h : symbol.Matches L.Like name symbol') :
    L.Beside Eq (Recognizer.bindSymbol symbol : Recognizer κ τ (Symbol κ τ) Bool)
      (Recognizer.bindSymbol symbol') := by
  intro strategy _ s s' hs
  have hadd := L.add?_scopes hexact (hs.scopes hexact).scopesForDeclaration h
  rw [Recognizer.bindSymbol, Recognizer.bindSymbol]
  generalize (Recognizer.scopesForDeclaration s.scopes).add? symbol = added? at hadd ⊢
  generalize (Recognizer.scopesForDeclaration s'.scopes).add? symbol' = added?' at hadd ⊢
  cases hadd with
  | none => exact ⟨.value rfl, hs⟩
  | some hadded => exact ⟨.value hadded.1, hs.withScopes fun _ => hadded.2⟩

/-- Symbols that match are accepted on both sides, or are duplicates on both. -/
theorem declare (hexact : L.exact = true) (h : symbol.Matches L.Like name symbol') :
    L.Beside Eq (Recognizer.declare symbol : Recognizer κ τ (Symbol κ τ) Bool)
      (Recognizer.declare symbol') := by
  refine .bind (.read fun s s' hs => L.local?_scopes hexact (hs.scopes hexact) h.token h.kind_eq)
    fun first? first?' hfirst => ?_
  cases hfirst with
  | none => exact .bindSymbol hexact h
  | some hfirst => exact .bind (.report (.alreadyDeclared h.token hfirst)) fun _ _ _ => .pure rfl

end

/-- A name stands for symbols that stand for each other, or for none. -/
theorem resolve (hexact : L.exact = true) {t t' : Token κ} (h : L.LikeOf name t t') :
    L.Beside (Option.Rel (Symbol.Matches L.Like name))
      (Recognizer.resolve t : Recognizer κ τ (Symbol κ τ) (Option (Symbol κ τ)))
      (Recognizer.resolve t') := by
  refine .bind (.read fun s s' hs => L.get?_scopes hexact (hs.scopes hexact) h.1 h.2)
    fun symbol? symbol?' hsymbol => ?_
  cases hsymbol with
  | none => exact .bind (.report (.notDeclared h.1)) fun _ _ _ => .pure .none
  | some hsymbol => exact .pure (.some hsymbol)

/-- Types that are equal conflict on both sides or on none. -/
theorem expectType [TypeTag τ] {t t' : Token κ} (h : L.Like t t') {found found' : τ}
    (hfound : found = found') {expected expected' : τ} (hexpected : expected = expected') :
    L.Beside Eq (Recognizer.expectType t found expected : Recognizer κ τ (Symbol κ τ) Bool)
      (Recognizer.expectType t' found' expected') := by
  subst hfound hexpected
  exact .ite Iff.rfl (fun _ => .pure rfl) fun _ =>
    .bind (.report (.typeConflict h found expected)) fun _ _ _ => .pure rfl

/-! ### Recursion -/

/-- Both sides have the same fuel, as they have as many tokens left. -/
theorem withFuel {r : Nat → Recognizer κ τ (Symbol κ τ) α}
    {r' : Nat → Recognizer κ τ (Symbol κ τ) β} (h : ∀ n, L.Beside V (r n) (r' n)) :
    L.Beside V (Recognizer.withFuel r) (Recognizer.withFuel r') := by
  intro strategy hadmits s s' hs
  rw [Recognizer.withFuel, Recognizer.withFuel, hs.count_eq]
  exact h _ strategy hadmits s s' hs

/-- A loop goes on on both sides, as it looks at kinds only. -/
theorem iterate {test : κ → Bool} {body : α → Recognizer κ τ (Symbol κ τ) α}
    {body' : β → Recognizer κ τ (Symbol κ τ) β}
    (h : ∀ a b, V a b → L.Beside V (body a) (body' b)) (n : Nat) {a : α} {b : β} (hab : V a b) :
    L.Beside V (Recognizer.iterate test body n a) (Recognizer.iterate test body' n b) := by
  -- both sides have the same fuel, and every round ends side by side
  induction n generalizing a b with
  | zero => exact .outOfFuel
  | succ n ih =>
    exact .bind .lookahead fun _ _ htoken =>
      .branch (by rw [L.kind_eq htoken]) (.bind (h a b hab) fun _ _ => ih) (.pure hab)

/-- Loops go on and end together, as they are told by kinds. -/
theorem whileSees {test : κ → Bool} {body : α → Recognizer κ τ (Symbol κ τ) α}
    {body' : β → Recognizer κ τ (Symbol κ τ) β}
    (h : ∀ a b, V a b → L.Beside V (body a) (body' b)) {a : α} {b : β} (hab : V a b) :
    L.Beside V (Recognizer.whileSees test body a) (Recognizer.whileSees test body' b) :=
  .withFuel fun n => iterate h n hab

/-! ### Tokens that are required -/

/-- What was not expected stands for what was not expected on the other side. -/
theorem unexpected (expected : Expected κ) : L.Beside Eq
    (Recognizer.unexpected expected : Recognizer κ τ (Symbol κ τ) Unit)
    (Recognizer.unexpected expected) := by
  intro strategy _ s s' hs
  cases strategy with
  | failFast => exact ⟨.abort, hs.reject expected⟩
  | recovering =>
    rw [Recognizer.unexpected, Recognizer.unexpected, hs.recovering_eq]
    split
    · exact ⟨.value rfl, hs.flag true⟩
    · exact ⟨.value rfl, (hs.reject expected).flag true⟩

variable [TokenKind κ]

/-- A kind is seen on both sides or on none. -/
theorem sees (kind : κ) : L.Beside Eq
    (Recognizer.sees kind : Recognizer κ τ (Symbol κ τ) Bool) (Recognizer.sees kind) :=
  .read fun _ _ hs => by rw [hs.kind_eq]

/-- A kind is taken on both sides or on none. -/
theorem accept (kind : κ) : L.Beside Eq
    (Recognizer.accept kind : Recognizer κ τ (Symbol κ τ) Bool) (Recognizer.accept kind) :=
  .bind (.sees kind) fun _ _ hsees =>
    .branch hsees (.bind .advance fun _ _ _ => .pure rfl) (.pure rfl)

/-- A token that is required is found on both sides or on none, and of that kind. -/
theorem mustBe (kind : κ) : L.Beside (Option.Rel (L.LikeOf kind))
    (Recognizer.mustBe kind : Recognizer κ τ (Symbol κ τ) (Option (Token κ)))
    (Recognizer.mustBe kind) := by
  intro strategy _ s s' hs
  cases hr : s.recovering with
  | true =>
    have hdiscard := hs.discardTo kind
    rw [Recognizer.mustBe_of_recovering strategy hr,
      Recognizer.mustBe_of_recovering strategy (hs.recovering_eq.symm.trans hr),
      Recognizer.resynchronize, Recognizer.resynchronize, ← hdiscard.kind_eq]
    split
    · next hk => exact ⟨.value (.some ⟨hdiscard.lookahead, hk⟩), (hdiscard.flag false).shift⟩
    · exact ⟨.value .none, hdiscard⟩
  | false =>
    have hr' : s'.recovering = false := hs.recovering_eq.symm.trans hr
    by_cases hk : s.lookahead.kind = kind
    · rw [Recognizer.mustBe_of_kind_eq strategy hr hk,
        Recognizer.mustBe_of_kind_eq strategy hr' (hs.kind_eq.symm.trans hk)]
      exact ⟨.value (.some ⟨hs.lookahead, hk⟩), hs.shift⟩
    · have hk' : s'.lookahead.kind ≠ kind := fun h => hk (hs.kind_eq.trans h)
      cases strategy with
      | failFast =>
        rw [Recognizer.mustBe_failFast_of_kind_ne hr hk,
          Recognizer.mustBe_failFast_of_kind_ne hr' hk']
        exact ⟨.abort, hs.reject _⟩
      | recovering =>
        rw [Recognizer.mustBe_recovering_of_kind_ne hr hk,
          Recognizer.mustBe_recovering_of_kind_ne hr' hk']
        exact ⟨.value .none, (hs.reject _).flag true⟩

/-- The end of the source is missed on both sides or on none. -/
theorem mustEnd : L.Beside Eq
    (Recognizer.mustEnd : Recognizer κ τ (Symbol κ τ) Unit) Recognizer.mustEnd :=
  .bind (.read fun _ _ hs => hs.recovering_eq) fun recovering _ hrecovering =>
    .bind (.read fun _ _ hs => hs.isEnd_eq) fun atEnd _ hend =>
      .branch (by rw [hrecovering, hend]) (.pure rfl) (.unexpected _)

/-- What goes to the end of the source runs side by side if its start does. -/
theorem toEnd {start start' : Recognizer κ τ (Symbol κ τ) Unit} (h : L.Beside Eq start start') :
    L.Beside Eq start.toEnd start'.toEnd :=
  .bind h fun _ _ _ => .mustEnd

end Beside

end Likeness

end SinglePass
