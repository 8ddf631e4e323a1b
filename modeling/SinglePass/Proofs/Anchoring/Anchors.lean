import SinglePass.Proofs.Engine.Timely
import SinglePass.Proofs.Anchoring.Moments

/-!
# Recognizers that anchor what they report

A rule of a grammar holds on to tokens: those that it has looked at or consumed, those of its
operands, and those of the symbols that it has looked up.  All of them have been scanned.

* `State.Listed` ties the scopes to what a grammar has noted down: the symbols that are bound, and
  those that redeclarations have been compared with, are among its notes.
* `Anchors` is the closure that carries this, and the invariant of the engine, through the rules: a
  recognizer that knows some tokens, all of them scanned, reports only at these and at the tokens
  that it scans itself, and the tokens that its value carries have been scanned, too.  There is one
  lemma for each way to put recognizers together.
* `Declares` is the closure of what follows the name in a declaration.  When the name is looked at,
  every symbol in the scopes was declared by a token in front of it (`State.Anchored.newest`), and
  so it is until the symbol itself is bound.
-/

namespace SinglePass

variable {κ τ ω α β : Type}

section

variable [TokenKind κ] {ident : κ} {classifier : Classifier κ} {source : Source}
  {strategy : Strategy}

/-! ## Notes -/

/-- A run that has noted down the symbols in its scopes, and those that redeclarations have been
compared with. -/
structure State.Listed (s : State κ τ (Symbol κ τ)) : Prop where
  bound : ∀ symbol, s.scopes.Binds symbol → symbol ∈ s.notes
  firsts : ∀ token first, .alreadyDeclared token first ∈ s.sink → first ∈ s.notes

namespace State.Listed

variable {s t : State κ τ (Symbol κ τ)}

omit [TokenKind κ] in
/-- A run with the same notes and faults is listed if it binds no more symbols. -/
theorem congr (h : s.Listed) (notes_eq : t.notes = s.notes) (sink_eq : t.sink = s.sink)
    (bound : ∀ symbol, t.scopes.Binds symbol → s.scopes.Binds symbol) : t.Listed := by
  constructor
  · rw [notes_eq]
    exact fun symbol hbinds => h.bound symbol (bound symbol hbinds)
  · rw [notes_eq, sink_eq]
    exact h.firsts

omit [TokenKind κ] in
/-- A declaration is not compared with anything by the scanner. -/
theorem shift (h : s.Listed) (scansOnly : s.ScansOnly) : s.shift.Listed := by
  obtain ⟨found, hsink, hfound⟩ := scansOnly.addsScanning_shift
  refine ⟨?_, fun token first hmem => ?_⟩
  · rw [State.shift_scopes, State.shift_notes]
    exact h.bound
  · rw [State.shift_notes]
    rw [hsink] at hmem
    obtain hmem | hmem := List.mem_append.1 hmem
    · exact h.firsts token first hmem
    · exact nomatch hfound _ hmem

omit [TokenKind κ] in
/-- A duplicate may be recorded if the first declaration is noted. -/
theorem record {d : Diagnostic κ τ} (h : s.Listed)
    (firsts : ∀ token first, d = .alreadyDeclared token first → first ∈ s.notes) :
    (s.record d).Listed := by
  refine ⟨h.bound, fun token first hmem => ?_⟩
  obtain hmem | hmem := List.mem_append.1 hmem
  · exact h.firsts token first hmem
  · exact firsts token first (List.mem_singleton.1 hmem).symm

omit [TokenKind κ] in
/-- An unexpected token names no first declaration. -/
theorem unexpected (h : s.Listed) (expected : Expected κ) (strategy : Strategy) :
    (Recognizer.unexpected expected strategy s).2.Listed := by
  have hrecord : (s.record (.unexpected s.lookahead expected)).Listed :=
    h.record fun _ _ heq => nomatch heq
  cases strategy with
  | failFast => exact hrecord
  | recovering =>
    rw [Recognizer.unexpected]
    split
    · exact h.congr rfl rfl fun _ => id
    · exact hrecord.congr rfl rfl fun _ => id

omit [TokenKind κ] in
/-- A fault may be reported if the first declaration that it names is noted. -/
theorem report {d : Diagnostic κ τ} (h : s.Listed)
    (firsts : ∀ token first, d = .alreadyDeclared token first → first ∈ s.notes)
    (strategy : Strategy) : (Recognizer.report d strategy s).2.Listed := by
  cases strategy with
  | failFast => exact h.record firsts
  | recovering =>
    rw [Recognizer.report_recovering]
    split
    · exact h
    · exact h.record firsts

/-- Requiring a token records nothing of what is listed. -/
theorem mustBe (h : s.Listed) (scansOnly : s.ScansOnly) (kind : κ) (strategy : Strategy) :
    (Recognizer.mustBe kind strategy s).2.Listed :=
  And.right <| Recognizer.mustBe_preserves (p := fun t => t.ScansOnly ∧ t.Listed)
    (fun _ ht => ⟨ht.1.shift, ht.2.shift ht.1⟩)
    (fun _ _ ht => ⟨ht.1, ht.2.record fun _ _ heq => nomatch heq⟩)
    (fun _ _ ht => ⟨ht.1, ht.2.congr rfl rfl fun _ => id⟩) kind strategy ⟨scansOnly, h⟩

end State.Listed

/-! ## Values -/

/-- Every value that the recognizer may give has the property. -/
def Recognizer.Gives (p : α → Prop) (r : Recognizer κ τ ω α) : Prop :=
  ∀ strategy s a t, r strategy s = (.value a, t) → p a

namespace Recognizer.Gives

variable {p : α → Prop} {q : β → Prop} {r t : Recognizer κ τ ω α}
  {f : α → Recognizer κ τ ω β}

omit [TokenKind κ] in
/-- A value that has a property is given. -/
theorem pure {a : α} (h : p a) : Gives p (Pure.pure a : Recognizer κ τ ω α) := by
  intro strategy s b t heq
  cases heq
  exact h

omit [TokenKind κ] in
/-- What is given at the end is all that counts. -/
theorem bind (h : ∀ a, Gives q (f a)) : Gives q (r >>= f) := by
  intro strategy s b t heq
  rw [Recognizer.bind_apply] at heq
  split at heq
  · exact h _ _ _ _ _ heq
  · cases heq
  · cases heq

omit [TokenKind κ] in
/-- A choice gives what both of its branches give. -/
theorem ite {c : Prop} [Decidable c] (hr : Gives p r) (ht : Gives p t) :
    Gives p (if c then r else t) := by
  split
  · exact hr
  · exact ht

/-- A token that was required has the kind that was required. -/
theorem mustBe (kind : κ) : Gives (fun token? => ∀ token ∈ token?, token.kind = kind)
    (Recognizer.mustBe kind : Recognizer κ τ ω (Option (Token κ))) := by
  rintro strategy s _ t heq token rfl
  obtain ⟨u, -, -, hkind, -⟩ := Recognizer.mustBe_some (p := fun _ => True) (fun _ _ => trivial)
    (fun _ _ _ => trivial) trivial heq
  exact hkind

end Recognizer.Gives

/-! ## Recognizers -/

/-- How a recognizer ends that has started at a state: by anchored moves, with its notes in order,
and with a value whose tokens have been scanned. -/
structure AnchorsAt (ident : κ) (classifier : Classifier κ) (source : Source) (strategy : Strategy)
    (carried : α → List (Token κ)) (s : State κ τ (Symbol κ τ))
    (e : Outcome α × State κ τ (Symbol κ τ)) : Prop where
  moves : AnchoredRun ident (source.tokens classifier) strategy s e.2
  listed : e.2.Listed
  carries : ∀ a, e.1 = .value a → carried a ⊆ e.2.scanned (source.tokens classifier)

/-- From a run that is anchored and has scanned some known tokens, the recognizer goes on by
anchored moves; `carried` are the tokens in its value. -/
def Anchors (ident : κ) (classifier : Classifier κ) (source : Source) (known : List (Token κ))
    (carried : α → List (Token κ)) (r : Recognizer κ τ (Symbol κ τ) α) : Prop :=
  ∀ strategy s, s.Anchored ident classifier source → s.Listed →
    known ⊆ s.scanned (source.tokens classifier) →
    AnchorsAt ident classifier source strategy carried s (r strategy s)

namespace AnchorsAt

variable {carried : α → List (Token κ)} {carried' : β → List (Token κ)}
  {s : State κ τ (Symbol κ τ)} {r : Recognizer κ τ (Symbol κ τ) α}
  {f : α → Recognizer κ τ (Symbol κ τ) β}

/-- A run that stays where it is. -/
theorem of_same {e : Outcome α × State κ τ (Symbol κ τ)} (listed : s.Listed) (state_eq : e.2 = s)
    (carries : ∀ a, e.1 = .value a → carried a ⊆ s.scanned (source.tokens classifier)) :
    AnchorsAt ident classifier source strategy carried s e := by
  obtain ⟨o, t⟩ := e
  cases state_eq
  exact ⟨.of_engine_eq rfl, listed, carries⟩

/-- One operation, whose answer is put another way. -/
theorem operation (operation : Operation κ τ) (allowed : operation.Allowed s.engine)
    (g : α → Option (Token κ))
    (heq : operation.perform strategy s = (r >>= fun a => Pure.pure (g a)) strategy s)
    (anchored : operation.Anchored ident (source.tokens classifier) s.engine)
    (listed : (r strategy s).2.Listed)
    (carries : ∀ a, (r strategy s).1 = .value a →
      carried a ⊆ (r strategy s).2.scanned (source.tokens classifier)) :
    AnchorsAt ident classifier source strategy carried s (r strategy s) := by
  refine ⟨.operation operation allowed g heq fun m hbefore hoperation => ?_, listed, carries⟩
  rw [hbefore, hoperation]
  exact anchored

/-- What comes after a value starts in a run that is anchored again. -/
theorem bind (anchored : s.Anchored ident classifier source)
    (hr : AnchorsAt ident classifier source strategy carried s (r strategy s))
    (hf : ∀ a t, r strategy s = (.value a, t) → t.Anchored ident classifier source → t.Listed →
      t.ahead.count ≤ s.ahead.count → carried a ⊆ t.scanned (source.tokens classifier) →
      AnchorsAt ident classifier source strategy carried' t (f a strategy t)) :
    AnchorsAt ident classifier source strategy carried' s ((r >>= f) strategy s) := by
  obtain ⟨hmoves, hlisted, hcarries⟩ := hr
  rw [Recognizer.bind_apply]
  generalize r strategy s = e at hmoves hlisted hcarries hf
  obtain ⟨a | _ | _, t⟩ := e
  · obtain ⟨hmoves', hlisted', hcarries'⟩ :=
      hf a t rfl (hmoves.anchored anchored) hlisted hmoves.count_le (hcarries a rfl)
    exact ⟨hmoves.trans hmoves', hlisted', hcarries'⟩
  · exact ⟨hmoves, hlisted, fun _ ha => nomatch ha⟩
  · exact ⟨hmoves, hlisted, fun _ ha => nomatch ha⟩

end AnchorsAt

namespace Anchors

variable {known known' : List (Token κ)} {carried : α → List (Token κ)}
  {carried' : β → List (Token κ)} {r : Recognizer κ τ (Symbol κ τ) α}
  {f : α → Recognizer κ τ (Symbol κ τ) β}

/-- It does no harm to know more. -/
theorem mono (h : Anchors ident classifier source known carried r) (hsub : known ⊆ known') :
    Anchors ident classifier source known' carried r :=
  fun strategy s anchored listed hknown =>
    h strategy s anchored listed (List.Subset.trans hsub hknown)

/-- What comes after a value knows its tokens, and what holds of every value. -/
theorem bind_of_gives {p : α → Prop} (hr : Anchors ident classifier source known carried r)
    (gives : r.Gives p)
    (hf : ∀ a, p a → Anchors ident classifier source (carried a ++ known) carried' (f a)) :
    Anchors ident classifier source known carried' (r >>= f) :=
  fun strategy s anchored listed hknown =>
    .bind anchored (hr strategy s anchored listed hknown)
      fun a t heq anchored' listed' hcount hcarried =>
        hf a (gives strategy s a t heq) strategy t anchored' listed'
          (List.append_subset.2 ⟨hcarried, State.subset_scanned hknown hcount⟩)

/-- Tokens that a first part carries are known to the second. -/
theorem bind (hr : Anchors ident classifier source known carried r)
    (hf : ∀ a, Anchors ident classifier source (carried a ++ known) carried' (f a)) :
    Anchors ident classifier source known carried' (r >>= f) :=
  .bind_of_gives (p := fun _ => True) hr (fun _ _ _ _ _ => trivial) fun a _ => hf a

/-- A choice anchors what both of its branches anchor. -/
theorem ite {p : Prop} [Decidable p] {t : Recognizer κ τ (Symbol κ τ) α}
    (hr : Anchors ident classifier source known carried r)
    (ht : Anchors ident classifier source known carried t) :
    Anchors ident classifier source known carried (if p then r else t) := by
  split
  · exact hr
  · exact ht

/-- A value may carry what is known already. -/
theorem pure {a : α} (h : carried a ⊆ known) :
    Anchors ident classifier source known carried
      (Pure.pure a : Recognizer κ τ (Symbol κ τ) α) := by
  intro strategy s anchored listed hknown
  refine .of_same listed rfl fun b hb => ?_
  cases hb
  exact List.Subset.trans h hknown

/-- A value that carries no tokens. -/
theorem plain (a : α) :
    Anchors ident classifier source known noTokens
      (Pure.pure a : Recognizer κ τ (Symbol κ τ) α) :=
  .pure (List.nil_subset _)

/-- Reading the state reports nothing. -/
theorem read (g : State κ τ (Symbol κ τ) → α) :
    Anchors ident classifier source known noTokens (Recognizer.read g) :=
  fun _ _ _ listed _ => .of_same listed rfl fun _ _ => List.nil_subset _

/-- The token that is looked at is one of the source. -/
theorem lookahead : Anchors ident classifier source known (fun t => [t])
    (Recognizer.lookahead : Recognizer κ τ (Symbol κ τ) (Token κ)) := by
  intro strategy s anchored listed _
  refine .of_same listed rfl fun a ha => ?_
  cases ha
  exact List.cons_subset.2 ⟨anchored.lookahead_mem, List.nil_subset _⟩

/-- A run without fuel reports nothing. -/
theorem outOfFuel : Anchors ident classifier source known carried
    (Recognizer.outOfFuel : Recognizer κ τ (Symbol κ τ) α) :=
  fun _ _ _ listed _ => .of_same listed rfl fun _ ha => nomatch ha

/-! ### Operations -/

/-- The token that is consumed is one of the source. -/
theorem advance : Anchors ident classifier source known (fun t => [t])
    (Recognizer.advance : Recognizer κ τ (Symbol κ τ) (Token κ)) := by
  intro strategy s anchored listed _
  obtain ⟨n, hreads⟩ := anchored.reads
  refine .operation .advance trivial some rfl trivial (listed.shift hreads.scansOnly)
    fun a ha => ?_
  cases ha
  exact List.cons_subset.2 ⟨(State.scanned_prefix s.count_shift_le).subset anchored.lookahead_mem,
    List.nil_subset _⟩

/-- Opening a scope reports nothing. -/
theorem openScope : Anchors ident classifier source known noTokens
    (Recognizer.openScope : Recognizer κ τ (Symbol κ τ) Unit) := fun _ _ _ listed _ =>
  .operation .openScope trivial (fun _ => none) rfl trivial
    (listed.congr rfl rfl fun _ hbinds => hbinds.of_openScope) fun _ _ => List.nil_subset _

/-- Closing a scope reports nothing. -/
theorem closeScope : Anchors ident classifier source known noTokens
    (Recognizer.closeScope : Recognizer κ τ (Symbol κ τ) Bool) := fun _ _ _ listed _ =>
  .operation .closeScope trivial (fun _ => none) rfl trivial
    (listed.congr rfl rfl fun _ hbinds => hbinds.of_closeScope) fun _ _ => List.nil_subset _

/-- What was not expected is the token that is looked at. -/
theorem unexpected (expected : Expected κ) : Anchors ident classifier source known noTokens
    (Recognizer.unexpected expected : Recognizer κ τ (Symbol κ τ) Unit) :=
  fun strategy _ _ listed _ =>
    .operation (.unexpected expected) trivial (fun _ => none) rfl trivial
      (listed.unexpected expected strategy) fun _ _ => List.nil_subset _

/-- A fault that is reported at a token that is known. -/
theorem report {d : Diagnostic κ τ} (semantic : d.isSemantic = true)
    (anchored : ∀ scanned, known ⊆ scanned → d.Anchored ident scanned)
    (other : ∀ token first, d ≠ .alreadyDeclared token first) :
    Anchors ident classifier source known noTokens
      (Recognizer.report d : Recognizer κ τ (Symbol κ τ) Unit) :=
  fun strategy _ _ listed hknown =>
    .operation (.report d) semantic (fun _ => none) rfl (anchored _ hknown)
      (listed.report (fun token first heq => absurd heq (other token first)) strategy)
      fun _ _ => List.nil_subset _

/-- A token that is required is one of the source if it is found. -/
theorem mustBe (kind : κ) : Anchors ident classifier source known Option.toList
    (Recognizer.mustBe kind : Recognizer κ τ (Symbol κ τ) (Option (Token κ))) := by
  intro strategy s anchored listed _
  obtain ⟨n, hreads⟩ := anchored.reads
  have hmoves : AnchoredRun ident (source.tokens classifier) strategy s
      (Recognizer.mustBe kind strategy s).2 := by
    refine .mustBe kind fun m hm => ?_
    obtain hm | hm := hm <;>
    · rw [hm]
      trivial
  have hlisted := listed.mustBe hreads.scansOnly kind strategy
  generalize heq : Recognizer.mustBe kind strategy s = e at hmoves hlisted ⊢
  obtain ⟨o, t⟩ := e
  refine ⟨hmoves, hlisted, fun token? htoken => ?_⟩
  cases htoken
  cases token? with
  | none => exact List.nil_subset _
  | some token =>
    obtain ⟨u, hu, rfl, -, rfl⟩ := anchored.mustBe_some heq
    exact List.cons_subset.2
      ⟨(State.scanned_prefix u.count_shift_le).subset hu.lookahead_mem, List.nil_subset _⟩

/-- Looking for a kind reports nothing. -/
theorem sees (kind : κ) : Anchors ident classifier source known noTokens
    (Recognizer.sees kind : Recognizer κ τ (Symbol κ τ) Bool) :=
  .read _

/-- Taking a token if it has a kind reports nothing. -/
theorem accept (kind : κ) : Anchors ident classifier source known noTokens
    (Recognizer.accept kind : Recognizer κ τ (Symbol κ τ) Bool) :=
  .bind (.sees kind) fun _ => .ite (.bind .advance fun _ => .plain _) (.plain _)

/-- What is left at the end of a run is reported at the token that is looked at. -/
theorem toEnd {start : Recognizer κ τ (Symbol κ τ) Unit}
    (h : Anchors ident classifier source known noTokens start) :
    Anchors ident classifier source known noTokens start.toEnd :=
  .bind h fun _ => .bind (.read _) fun _ => .bind (.read _) fun _ =>
    .ite (.plain _) (.unexpected _)

/-! ### Names and types -/

/-- A name that is not declared is reported where it stands. -/
theorem resolve {token : Token κ} (h : token ∈ known) (hkind : token.kind = ident) :
    Anchors ident classifier source known noTokens
      (Recognizer.resolve token : Recognizer κ τ (Symbol κ τ) (Option (Symbol κ τ))) := by
  refine .bind (.read _) fun symbol? => ?_
  cases symbol? with
  | none =>
    have hreport : Anchors ident classifier source known noTokens
        (Recognizer.report (.notDeclared token) : Recognizer κ τ (Symbol κ τ) Unit) :=
      .report rfl (fun _ hsub => ⟨hsub h, hkind⟩) (by simp)
    exact .bind hreport fun _ => .plain _
  | some symbol => exact .plain _

/-- A type that does not fit is reported at a token that is known. -/
theorem expectType [TypeTag τ] {token : Token κ} (h : token ∈ known) (found expected : τ) :
    Anchors ident classifier source known noTokens
      (Recognizer.expectType token found expected : Recognizer κ τ (Symbol κ τ) Bool) :=
  .ite (.plain _) (.bind (.report rfl (fun _ hsub => hsub h) (by simp)) fun _ => .plain _)

/-! ### Recursion -/

/-- Fuel makes no difference to where a fault is anchored. -/
theorem withFuel {r : Nat → Recognizer κ τ (Symbol κ τ) α}
    (h : ∀ n, Anchors ident classifier source known carried (r n)) :
    Anchors ident classifier source known carried (Recognizer.withFuel r) :=
  fun strategy s => h _ strategy s

/-- A loop hands on from round to round what its value carries. -/
theorem iterate {test : κ → Bool} {body : α → Recognizer κ τ (Symbol κ τ) α}
    (h : ∀ a, Anchors ident classifier source (carried a ++ known) carried (body a)) (n : Nat)
    {a : α} (ha : carried a ⊆ known') (hsub : known ⊆ known') :
    Anchors ident classifier source known' carried (Recognizer.iterate test body n a) := by
  -- on the rounds: each of them knows what the one before it carries
  induction n generalizing a known' with
  | zero => exact .outOfFuel
  | succ n ih =>
    refine .bind .lookahead fun token => .ite (.bind ((h a).mono ?_) fun b => ih ?_ ?_) (.pure ?_)
    · exact List.append_subset.2 ⟨List.subset_append_of_subset_right _ ha,
        List.subset_append_of_subset_right _ hsub⟩
    · exact List.subset_append_left _ _
    · exact List.subset_append_of_subset_right _ (List.subset_append_of_subset_right _ hsub)
    · exact List.subset_append_of_subset_right _ ha

/-- A loop whose rounds carry on what the value carries. -/
theorem whileSees {test : κ → Bool} {body : α → Recognizer κ τ (Symbol κ τ) α}
    (h : ∀ a, Anchors ident classifier source (carried a ++ known) carried (body a)) {a : α}
    (ha : carried a ⊆ known) :
    Anchors ident classifier source known carried (Recognizer.whileSees test body a) :=
  .withFuel fun n => .iterate h n ha (List.Subset.refl _)

end Anchors

/-! ## Declarations -/

/-- A recognizer that anchors what it reports, if a name has been consumed that stands behind those
of all symbols in the scopes. -/
def Declares (ident : κ) (classifier : Classifier κ) (source : Source) (name : Token κ)
    (r : Recognizer κ τ (Symbol κ τ) Unit) : Prop :=
  ∀ strategy s, s.Anchored ident classifier source → s.Listed →
    name ∈ s.passed (source.tokens classifier) → s.Newest (source.tokens classifier) name →
    AnchorsAt ident classifier source strategy noTokens s (r strategy s)

namespace Declares

variable {name : Token κ} {carried : α → List (Token κ)} {r t : Recognizer κ τ (Symbol κ τ) Unit}

/-- What declares nothing may come before a declaration. -/
theorem of_anchors (h : Anchors ident classifier source [name] noTokens r) :
    Declares ident classifier source name r :=
  fun strategy s anchored listed passed _ => h strategy s anchored listed
    (List.cons_subset.2 ⟨s.passed_subset_scanned passed, List.nil_subset _⟩)

/-- A choice declares a name if both of its branches do. -/
theorem ite {p : Prop} [Decidable p] (hr : Declares ident classifier source name r)
    (ht : Declares ident classifier source name t) :
    Declares ident classifier source name (if p then r else t) := by
  split
  · exact hr
  · exact ht

/-- What leaves the scopes alone may come first. -/
theorem bind {p : α → Prop} {q : Recognizer κ τ (Symbol κ τ) α}
    {f : α → Recognizer κ τ (Symbol κ τ) Unit}
    (hq : Anchors ident classifier source [name] carried q) (disciplined : Disciplined false q)
    (gives : q.Gives p) (hf : ∀ a, p a → Declares ident classifier source name (f a)) :
    Declares ident classifier source name (q >>= f) := by
  intro strategy s anchored listed passed newest
  have hknown : [name] ⊆ s.scanned (source.tokens classifier) :=
    List.cons_subset.2 ⟨s.passed_subset_scanned passed, List.nil_subset _⟩
  refine .bind anchored (hq strategy s anchored listed hknown)
    fun a t heq anchored' listed' hcount _ => ?_
  have hscopes := (disciplined.keepsScopes strategy s).value a (by rw [heq])
  rw [heq] at hscopes
  exact hf a (gives strategy s a t heq) strategy t anchored' listed'
    ((State.passed_prefix hcount).subset passed) (newest.mono hscopes hcount)

/-- A name that was required stands behind all others when it is consumed. -/
theorem of_mustBe {known : List (Token κ)}
    {f : Option (Token κ) → Recognizer κ τ (Symbol κ τ) Unit}
    (ordinary : ident ≠ TokenKind.endOfFile)
    (none : Anchors ident classifier source known noTokens (f none))
    (some : ∀ name, name.kind = ident → Declares ident classifier source name (f (some name))) :
    Anchors ident classifier source known noTokens (Recognizer.mustBe ident >>= f) := by
  intro strategy s anchored listed hknown
  refine .bind anchored (Anchors.mustBe ident strategy s anchored listed hknown)
    fun token? t heq anchored' listed' hcount _ => ?_
  cases token? with
  | none =>
    exact none strategy t anchored' listed' (State.subset_scanned hknown hcount)
  | some token =>
    obtain ⟨u, hu, rfl, hkind, rfl⟩ := anchored.mustBe_some heq
    have hend : u.lookahead.isEnd = false := Bool.eq_false_iff.2 fun hend =>
      ordinary (hkind.symm.trans (Token.isEnd_eq_true.1 hend))
    exact some u.lookahead hkind strategy u.shift anchored' listed' (hu.lookahead_mem_passed hend)
      (hu.newest.mono (State.shift_scopes u) u.count_shift_le)

end Declares

end

end SinglePass
