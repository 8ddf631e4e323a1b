import SinglePass.Proofs.Scanning.Lossless
import SinglePass.Simple.Check

/-!
# Faults are found in time

A rule of a grammar reports a fault at a token that it has seen: the one that is looked at, or one
before it.  So when the scanner finds a fault at the token that comes next, everything recorded
before stands before that token (`State.Timely`), and a stable sort by position leaves the fault of
the scanner in front of whatever else is found there.

`Minds` is the closure that carries this through the rules: a recognizer that knows some tokens, all
of them seen, reports at these and at the tokens that it sees itself, and the tokens that its value
carries are seen, too.  There is one lemma for each way to put recognizers together, and one for
each rule.
-/

namespace SinglePass

variable {κ τ ω ν α β : Type}

/-! ## States -/

/-- Have the tokens been looked at? -/
def State.Seen (s : State κ τ ω) (ts : List (Token κ)) : Prop :=
  ∀ t ∈ ts, t.position ≤ s.lookahead.position

/-- A run that goes forward through its source, and has recorded nothing behind the token that it
looks at, and no fault of the scanner behind another fault at its position. -/
structure State.Timely (s : State κ τ ω) : Prop where
  increasing : s.input.Pairwise fun t u => t.position < u.position
  faults : ∀ scanned ∈ s.ahead.tokens,
    scanned.faults.length ≤ 1 ∧ ∀ d ∈ scanned.faults, d.position = scanned.token.position
  recorded : ∀ d ∈ s.sink, d.position ≤ s.lookahead.position
  ordered : s.sink.Pairwise fun d e => e.isScanning = true → d.position < e.position

/-- In a list of at most one element, nothing is out of order. -/
theorem pairwise_of_length_le_one {R : α → α → Prop} {as : List α} (h : as.length ≤ 1) :
    as.Pairwise R := by
  match as, h with
  | [], _ => exact .nil
  | [a], _ => exact List.pairwise_singleton _ _

namespace State

variable {s : State κ τ ω}

/-- To be in time is a matter of what is looked at, what lies ahead and what is recorded. -/
theorem Timely.congr {t : State κ τ ν} (h : s.Timely) (lookahead_eq : t.lookahead = s.lookahead)
    (ahead_eq : t.ahead = s.ahead) (sink_eq : t.sink = s.sink) : t.Timely := by
  constructor
  · rw [input, lookahead_eq, ahead_eq]
    exact h.increasing
  · rw [ahead_eq]
    exact h.faults
  · rw [sink_eq, lookahead_eq]
    exact h.recorded
  · rw [sink_eq]
    exact h.ordered

/-- Going on to the next token stays in time, and goes forward. -/
theorem Timely.shift (h : s.Timely) :
    s.shift.Timely ∧ s.lookahead.position ≤ s.shift.lookahead.position := by
  cases htokens : s.ahead.tokens with
  | nil =>
    rw [State.shift_of_nil htokens]
    exact ⟨h, Position.le_refl _⟩
  | cons next more =>
    have hincreasing := h.increasing
    rw [input, htokens, List.map_cons] at hincreasing
    obtain ⟨hhead, hrest⟩ := List.pairwise_cons.1 hincreasing
    have hnext : s.lookahead.position < next.token.position := hhead _ List.mem_cons_self
    obtain ⟨hlength, hposition⟩ := h.faults next (by rw [htokens]; exact List.mem_cons_self)
    rw [State.shift_of_cons htokens]
    refine ⟨⟨?_, fun scanned hscanned => ?_, fun d hd => ?_, ?_⟩, Position.le_of_lt hnext⟩
    · show (next.token :: s.ahead.tail.tokens.map Scanned.token).Pairwise _
      rwa [Upcoming.tokens_tail, htokens, List.tail_cons]
    · refine h.faults scanned (List.mem_of_mem_tail ?_)
      rwa [← Upcoming.tokens_tail]
    · show d.position ≤ next.token.position
      obtain hd | hd := List.mem_append.1 hd
      · exact Position.le_trans (h.recorded d hd) (Position.le_of_lt hnext)
      · rw [hposition d hd]
        exact Position.le_refl _
    · refine List.pairwise_append.2 ⟨h.ordered, pairwise_of_length_le_one hlength, ?_⟩
      intro d hd e he _
      rw [hposition e he]
      exact Position.lt_of_le_of_lt (h.recorded d hd) hnext

/-- A fault of a rule may be recorded at any token up to the one that is looked at. -/
theorem Timely.record {d : Diagnostic κ τ} (h : s.Timely) (fault : d.isScanning = false)
    (hd : d.position ≤ s.lookahead.position) : (s.record d).Timely := by
  refine ⟨h.increasing, h.faults, fun e he => ?_, ?_⟩
  · obtain he | he := List.mem_append.1 he
    · exact h.recorded e he
    · rw [List.mem_singleton.1 he]
      exact hd
  · refine List.pairwise_append.2 ⟨h.ordered, List.pairwise_singleton _ _, ?_⟩
    intro e _ e' he' hscanning
    rw [List.mem_singleton.1 he', fault] at hscanning
    nomatch hscanning

/-- What has been seen stays so as the run goes forward. -/
theorem Seen.mono {t : State κ τ ν} {ts : List (Token κ)} (h : s.Seen ts)
    (hle : s.lookahead.position ≤ t.lookahead.position) : t.Seen ts :=
  fun u hu => Position.le_trans (h u hu) hle

/-- Tokens that have been seen may be put together. -/
theorem Seen.append {ts us : List (Token κ)} (h : s.Seen ts) (h' : s.Seen us) : s.Seen (ts ++ us) :=
  fun u hu => (List.mem_append.1 hu).elim (h u) (h' u)

/-- What was recorded in time is presented in order. -/
theorem Timely.errors (h : s.Timely) : (Report.ofState s).errors.Pairwise fun d e =>
    e.isScanning = true → d.position ≠ e.position := by
  refine (stableSort_stable h.ordered).imp fun {d e} hstable hscanning hposition => ?_
  have hle : decide (e.position ≤ d.position) = true := by
    rw [hposition]
    exact decide_eq_true (Position.le_refl _)
  have hlt := hstable hle hscanning
  rw [hposition] at hlt
  exact Position.lt_irrefl hlt

end State

/-! ## Recognizers that mind the tokens they have seen -/

/-- A run that stays in time, goes forward, and ends with a value whose tokens have been seen. -/
structure MindsAt (carried : α → List (Token κ)) (s : State κ τ ω)
    (e : Outcome α × State κ τ ω) : Prop where
  timely : e.2.Timely
  later : s.lookahead.position ≤ e.2.lookahead.position
  seen : ∀ a, e.1 = .value a → e.2.Seen (carried a)

/-- A recognizer that stays in time if some known tokens have been seen; `carried` are the tokens in
its value. -/
def Minds (known : List (Token κ)) (carried : α → List (Token κ)) (r : Recognizer κ τ ω α) : Prop :=
  ∀ strategy s, s.Timely → s.Seen known → MindsAt carried s (r strategy s)

/-- The tokens of a value that has none. -/
def noTokens (_ : α) : List (Token κ) := []

namespace MindsAt

variable {carried : α → List (Token κ)} {s : State κ τ ω} {e : Outcome α × State κ τ ω}

/-- A run that stays where it is. -/
theorem of_same (timely : e.2.Timely) (lookahead_eq : e.2.lookahead = s.lookahead)
    (seen : ∀ a, e.1 = .value a → s.Seen (carried a)) : MindsAt carried s e := by
  have hle : s.lookahead.position ≤ e.2.lookahead.position := by
    rw [lookahead_eq]
    exact Position.le_refl _
  exact ⟨timely, hle, fun a ha => (seen a ha).mono hle⟩

/-- A run that moves on. -/
theorem of_shift {t : State κ τ ω} (timely : t.Timely) (lookahead_eq : t.lookahead = s.lookahead)
    (state_eq : e.2 = t.shift) (seen : ∀ a, e.1 = .value a → s.Seen (carried a)) :
    MindsAt carried s e := by
  obtain ⟨htimely, hlater⟩ := timely.shift
  rw [lookahead_eq] at hlater
  rw [← state_eq] at htimely hlater
  exact ⟨htimely, hlater, fun a ha => (seen a ha).mono hlater⟩

end MindsAt

namespace Minds

variable {known known' : List (Token κ)} {carried : α → List (Token κ)}
  {carried' : β → List (Token κ)} {r : Recognizer κ τ ω α} {f : α → Recognizer κ τ ω β}

/-- There is nothing to see in no tokens. -/
theorem seen_nil (s : State κ τ ω) : s.Seen [] := fun _ h => nomatch h

/-- It does no harm to know more. -/
theorem mono (h : Minds known carried r) (hsub : known ⊆ known') : Minds known' carried r :=
  fun strategy s timely seen => h strategy s timely fun t ht => seen t (hsub ht)

/-- What comes after a value knows its tokens. -/
theorem bind (hr : Minds known carried r)
    (hf : ∀ a, Minds (carried a ++ known) carried' (f a)) : Minds known carried' (r >>= f) := by
  intro strategy s timely seen
  obtain ⟨htimely, hlater, hseen⟩ := hr strategy s timely seen
  rw [Recognizer.bind_apply]
  generalize r strategy s = e at htimely hlater hseen
  obtain ⟨a | _ | _, t⟩ := e
  · obtain ⟨htimely', hlater', hseen'⟩ :=
      hf a strategy t htimely ((hseen a rfl).append (seen.mono hlater))
    exact ⟨htimely', Position.le_trans hlater hlater', hseen'⟩
  · exact ⟨htimely, hlater, fun a ha => nomatch ha⟩
  · exact ⟨htimely, hlater, fun a ha => nomatch ha⟩

/-- Both branches of a choice may rely on the same tokens. -/
theorem ite {p : Prop} [Decidable p] {t : Recognizer κ τ ω α} (hr : Minds known carried r)
    (ht : Minds known carried t) : Minds known carried (if p then r else t) := by
  split
  · exact hr
  · exact ht

/-- A value may carry what is known already. -/
theorem pure {a : α} (h : carried a ⊆ known) :
    Minds known carried (Pure.pure a : Recognizer κ τ ω α) := by
  intro strategy s timely seen
  refine .of_same timely rfl fun b hb => ?_
  cases hb
  exact fun t ht => seen t (h ht)

/-- A value that carries no tokens. -/
theorem plain (a : α) : Minds known noTokens (Pure.pure a : Recognizer κ τ ω α) :=
  .pure (List.nil_subset _)

/-- Reading the state reports nothing, and carries no token. -/
theorem read (f : State κ τ ω → α) : Minds known noTokens (Recognizer.read f) :=
  fun _ _ timely _ => .of_same timely rfl fun _ _ => seen_nil _

/-- The token that is looked at has been seen by that. -/
theorem lookahead :
    Minds known (fun t => [t]) (Recognizer.lookahead : Recognizer κ τ ω (Token κ)) := by
  intro strategy s timely _
  refine .of_same timely rfl fun a ha t ht => ?_
  cases ha
  rw [List.mem_singleton.1 ht]
  exact Position.le_refl _

/-- A note takes its place beside what is reported. -/
theorem note (w : ω) : Minds known noTokens (Recognizer.note w : Recognizer κ τ ω Unit) :=
  fun _ _ timely _ => .of_same (timely.congr rfl rfl rfl) rfl fun _ _ => seen_nil _

/-- Opening a scope leaves the input and the reports alone. -/
theorem openScope : Minds known noTokens (Recognizer.openScope : Recognizer κ τ ω Unit) :=
  fun _ _ timely _ => .of_same (timely.congr rfl rfl rfl) rfl fun _ _ => seen_nil _

/-- Closing a scope leaves the input and the reports alone. -/
theorem closeScope : Minds known noTokens (Recognizer.closeScope : Recognizer κ τ ω Bool) :=
  fun _ _ timely _ => .of_same (timely.congr rfl rfl rfl) rfl fun _ _ => seen_nil _

/-- Binding a symbol reports nothing by itself. -/
theorem bindSymbol (symbol : Symbol κ τ) :
    Minds known noTokens (Recognizer.bindSymbol symbol : Recognizer κ τ ω Bool) := by
  intro strategy s timely _
  have hkeeps : (Recognizer.bindSymbol symbol strategy s).2.lookahead = s.lookahead ∧
      (Recognizer.bindSymbol symbol strategy s).2.ahead = s.ahead ∧
      (Recognizer.bindSymbol symbol strategy s).2.sink = s.sink := by
    rw [Recognizer.bindSymbol]
    split <;> exact ⟨rfl, rfl, rfl⟩
  exact .of_same (timely.congr hkeeps.1 hkeeps.2.1 hkeeps.2.2) hkeeps.1 fun _ _ => seen_nil _

/-- A fault of meaning is reported at a token that is known. -/
theorem report {d : Diagnostic κ τ} {t : Token κ} (semantic : d.isSemantic = true)
    (htoken : d.token? = some t) (hknown : t ∈ known) :
    Minds known noTokens (Recognizer.report d : Recognizer κ τ ω Unit) := by
  intro strategy s timely seen
  have hposition : d.position ≤ s.lookahead.position := by
    rw [Diagnostic.position_of_token? htoken]
    exact seen t hknown
  have hrecord := timely.record (Diagnostic.isScanning_of_isSemantic semantic) hposition
  cases strategy with
  | failFast => exact .of_same hrecord rfl fun _ _ => seen_nil _
  | recovering =>
    rw [Recognizer.report_recovering]
    split
    · exact .of_same timely rfl fun _ _ => seen_nil _
    · exact .of_same hrecord rfl fun _ _ => seen_nil _

/-- The token that is taken has been seen, and so has everything before it. -/
theorem advance :
    Minds known (fun t => [t]) (Recognizer.advance : Recognizer κ τ ω (Token κ)) := by
  intro strategy s timely _
  refine .of_shift timely rfl rfl fun a ha t ht => ?_
  cases ha
  rw [List.mem_singleton.1 ht]
  exact Position.le_refl _

/-! ### Names and types -/

/-- A symbol is declared at its token, which must have been seen. -/
theorem declare {symbol : Symbol κ τ} (h : symbol.token ∈ known) :
    Minds known noTokens (Recognizer.declare symbol : Recognizer κ τ ω Bool) := by
  refine .bind (.read _) fun first? => ?_
  cases first? with
  | none => exact .bindSymbol symbol
  | some first => exact .bind (.report rfl rfl h) fun _ => .plain _

/-- A name that cannot be resolved is reported where it stands. -/
theorem resolve {token : Token κ} (h : token ∈ known) :
    Minds known noTokens (Recognizer.resolve token : Recognizer κ τ ω (Option (Symbol κ τ))) := by
  refine .bind (.read _) fun symbol? => ?_
  cases symbol? with
  | none => exact .bind (.report rfl rfl h) fun _ => .plain _
  | some symbol => exact .plain _

/-- A type that does not fit is reported at a token that is known. -/
theorem expectType [TypeTag τ] {token : Token κ} (h : token ∈ known) (found expected : τ) :
    Minds known noTokens (Recognizer.expectType token found expected : Recognizer κ τ ω Bool) :=
  .ite (.plain _) (.bind (.report rfl rfl h) fun _ => .plain _)

/-! ### Recursion -/

/-- Fuel does not matter, as any amount of it will do. -/
theorem withFuel {r : Nat → Recognizer κ τ ω α} (h : ∀ n, Minds known carried (r n)) :
    Minds known carried (Recognizer.withFuel r) := fun strategy s => h _ strategy s

/-- A run without fuel ends where it is. -/
theorem outOfFuel : Minds known carried (Recognizer.outOfFuel : Recognizer κ τ ω α) :=
  fun _ _ timely _ => .of_same timely rfl fun _ h => nomatch h

/-- A loop hands on from round to round what its value carries. -/
theorem iterate {test : κ → Bool} {body : α → Recognizer κ τ ω α}
    (h : ∀ a, Minds (carried a ++ known) carried (body a)) (n : Nat) {a : α}
    {known' : List (Token κ)} (ha : carried a ⊆ known') (hsub : known ⊆ known') :
    Minds known' carried (Recognizer.iterate test body n a) := by
  induction n generalizing a known' with
  | zero => exact .outOfFuel
  | succ n ih =>
    refine .bind .lookahead fun token => .ite (.bind ((h a).mono ?_) fun b => ih ?_ ?_) (.pure ?_)
    · exact List.append_subset.2 ⟨List.subset_append_of_subset_right _ ha,
        List.subset_append_of_subset_right _ hsub⟩
    · exact List.subset_append_left _ _
    · exact List.subset_append_of_subset_right _ (List.subset_append_of_subset_right _ hsub)
    · exact List.subset_append_of_subset_right _ ha

/-- A loop whose rounds carry on what the value carries. -/
theorem whileSees {test : κ → Bool} {body : α → Recognizer κ τ ω α}
    (h : ∀ a, Minds (carried a ++ known) carried (body a)) {a : α} (ha : carried a ⊆ known) :
    Minds known carried (Recognizer.whileSees test body a) :=
  .withFuel fun n => .iterate h n ha (List.Subset.refl _)

/-- What was not expected is the token that is looked at. -/
theorem unexpected (expected : Expected κ) :
    Minds known noTokens (Recognizer.unexpected expected : Recognizer κ τ ω Unit) := by
  intro strategy s timely _
  have hrecord := timely.record (d := .unexpected s.lookahead expected) rfl (Position.le_refl _)
  cases strategy with
  | failFast => exact .of_same hrecord rfl fun _ _ => seen_nil _
  | recovering =>
    have hsame : (Recognizer.unexpected expected .recovering s).2.lookahead = s.lookahead := by
      simp only [Recognizer.unexpected]
      split <;> rfl
    refine .of_same ?_ hsame fun _ _ => seen_nil _
    simp only [Recognizer.unexpected]
    split
    · exact timely.congr rfl rfl rfl
    · exact hrecord.congr rfl rfl rfl

variable [TokenKind κ]

/-- Skipping to a kind stays in time, and goes forward. -/
theorem discardTo {s : State κ τ ω} (kind : κ) (timely : s.Timely) :
    (s.discardTo kind).Timely ∧ s.lookahead.position ≤ (s.discardTo kind).lookahead.position :=
  State.discard_preserves (p := fun t => t.Timely ∧ s.lookahead.position ≤ t.lookahead.position)
    (fun _ h => ⟨h.1.shift.1, Position.le_trans h.2 h.1.shift.2⟩) kind _
    ⟨timely, Position.le_refl _⟩

/-- The token that is required, if it is found, has been seen. -/
theorem mustBe (kind : κ) :
    Minds known Option.toList (Recognizer.mustBe kind : Recognizer κ τ ω (Option (Token κ))) := by
  intro strategy s timely _
  -- However a run has come to the token, it consumes it in the same way.
  have consumes : ∀ {u : State κ τ ω}, u.Timely → s.lookahead.position ≤ u.lookahead.position →
      MindsAt Option.toList s (.value (some u.lookahead), u.shift) := by
    intro u hu hlater
    obtain ⟨hshift, hlater'⟩ := hu.shift
    refine ⟨hshift, Position.le_trans hlater hlater', fun a ha t ht => ?_⟩
    cases ha
    have heq : u.lookahead = t := Option.some.inj (Option.mem_toList.1 ht)
    rw [← heq]
    exact hlater'
  cases hr : s.recovering with
  | true =>
    obtain ⟨hdiscard, hlater⟩ := discardTo kind timely
    rw [Recognizer.mustBe_of_recovering strategy hr, Recognizer.resynchronize]
    split
    · exact consumes (u := { s.discardTo kind with recovering := false })
        (hdiscard.congr rfl rfl rfl) hlater
    · refine ⟨hdiscard, hlater, fun a ha => ?_⟩
      cases ha
      exact seen_nil _
  | false =>
    by_cases hk : s.lookahead.kind = kind
    · rw [Recognizer.mustBe_of_kind_eq strategy hr hk]
      exact consumes timely (Position.le_refl _)
    · have hrecord := timely.record (d := .unexpected s.lookahead (.kind kind)) rfl
        (Position.le_refl _)
      cases strategy with
      | failFast =>
        rw [Recognizer.mustBe_failFast_of_kind_ne hr hk]
        exact .of_same hrecord rfl fun _ ha => nomatch ha
      | recovering =>
        rw [Recognizer.mustBe_recovering_of_kind_ne hr hk]
        refine .of_same (hrecord.congr rfl rfl rfl) rfl fun a ha => ?_
        cases ha
        exact seen_nil _

/-- Looking for a kind reports nothing. -/
theorem sees (kind : κ) : Minds known noTokens (Recognizer.sees kind : Recognizer κ τ ω Bool) :=
  .read _

/-- Taking a token if it has a kind reports nothing. -/
theorem accept (kind : κ) :
    Minds known noTokens (Recognizer.accept kind : Recognizer κ τ ω Bool) :=
  .bind (.sees kind) fun _ => .ite (.bind .advance fun _ => .plain _) (.plain _)

/-- What is left at the end of a run is reported at the token that is looked at. -/
theorem toEnd {start : Recognizer κ τ ω Unit} (h : Minds known noTokens start) :
    Minds known noTokens start.toEnd :=
  .bind h fun _ => .bind (.read _) fun _ => .bind (.read _) fun _ =>
    .ite (.plain _) (.unexpected _)

end Minds

/-! ## Simple -/

namespace Simple

open Recognizer

variable {ω : Type} {known : List (Token Kind)} {name op token : Token Kind}
  {left right operand value : Operand}

/-- The token of an operand. -/
def Operand.tokens (operand : Operand) : List (Token Kind) := [operand.token]

/-! ### Type rules -/

/-- A fault is reported at a token that is known. -/
theorem minds_reportFault (h : token ∈ known) (fault : Fault) :
    Minds known noTokens (reportFault token fault : Rule ω Unit) := .report rfl rfl h

/-- A fault that is reported on a condition needs its token in either case. -/
theorem minds_reportFaultIf {p : Prop} [Decidable p] (h : token ∈ known) (fault : Fault) :
    Minds known noTokens (reportFaultIf p token fault : Rule ω Unit) :=
  .ite (minds_reportFault h fault) (.plain _)

/-- An array that is used as a whole is reported at its name. -/
theorem minds_unindexed (h : name ∈ known) (symbol? : Option (Symbol Kind Ty)) :
    Minds known noTokens (unindexed name symbol? : Rule ω Ty) := by
  cases symbol? with
  | none => exact .plain _
  | some symbol =>
    rw [unindexed]
    split
    · exact .bind (minds_reportFault h _) fun _ => .plain _
    · exact .plain _

/-- A fault of an index is reported at the token of this index. -/
theorem minds_checkIndex {index : Operand} (h : index.token ∈ known) (name : Token Kind)
    (shape : Shape) (d : Nat) :
    Minds known noTokens (checkIndex name shape d index : Rule ω Unit) := by
  refine .bind (.expectType h _ _) fun _ => ?_
  split
  · exact minds_reportFaultIf h _
  · exact .plain _

/-- Each index is checked at a token of its own. -/
theorem minds_checkIndices {indices : List Operand} (h : indices.flatMap Operand.tokens ⊆ known)
    (name : Token Kind) (shape : Shape) (d : Nat) :
    Minds known noTokens (checkIndices name shape d indices : Rule ω Unit) := by
  induction indices generalizing d with
  | nil => exact .plain _
  | cons index rest ih =>
    obtain ⟨hindex, hrest⟩ := List.append_subset.1 h
    exact .bind (minds_checkIndex (hindex (List.mem_singleton.2 rfl)) _ _ _) fun _ => ih hrest _

/-- Faults of an indexed name stand at the name and at its indices. -/
theorem minds_indexed {indices : List Operand} (hname : name ∈ known)
    (h : indices.flatMap Operand.tokens ⊆ known) (symbol? : Option (Symbol Kind Ty)) :
    Minds known noTokens (indexed name symbol? indices : Rule ω Ty) := by
  unfold indexed
  split
  · exact .plain _
  · split
    · exact .bind (minds_reportFault hname _) fun _ => .plain _
    · exact .bind (minds_reportFaultIf hname _) fun _ =>
        .bind (minds_checkIndices h _ _ _) fun _ => .plain _

/-- Faults of an arithmetic operator stand at it, or at its right operand. -/
theorem minds_arithmetic (hop : op ∈ known) (hright : right.token ∈ known) :
    Minds known noTokens (arithmetic op left right : Rule ω Ty) :=
  .ite (.plain _) (.ite (.bind (.expectType hright _ _) fun _ => .ite (.plain _) (.plain _))
    (.bind (minds_reportFault hop _) fun _ => .plain _))

/-- Faults of a logical operator stand at its operands. -/
theorem minds_logical (hleft : left.token ∈ known) (hright : right.token ∈ known) :
    Minds known noTokens (logical left right : Rule ω Ty) :=
  .bind (.expectType hleft _ _) fun _ => .bind (.expectType hright _ _) fun _ => .plain _

/-- Faults of a comparison stand at its operator, or at its right operand. -/
theorem minds_relational (hop : op ∈ known) (hright : right.token ∈ known) :
    Minds known noTokens (relational op left right : Rule ω Ty) :=
  .ite (.plain _) (.ite (.bind (.expectType hright _ _) fun _ => .plain _)
    (.bind (minds_reportFault hop _) fun _ => .plain _))

/-- A sign before something that has none is reported at the sign. -/
theorem minds_negation (hop : op ∈ known) :
    Minds known noTokens (negation op operand : Rule ω Ty) :=
  .ite (.plain _) (.ite (.plain _) (.bind (minds_reportFault hop _) fun _ => .plain _))

/-- A negated operand that is no truth value is reported at its token. -/
theorem minds_complement (h : operand.token ∈ known) :
    Minds known noTokens (complement operand : Rule ω Ty) :=
  .bind (.expectType h _ _) fun _ => .plain _

/-- A condition that is no truth value is reported at its token. -/
theorem minds_condition (h : operand.token ∈ known) :
    Minds known noTokens (condition operand : Rule ω Unit) :=
  .bind (.expectType h _ _) fun _ => .plain _

/-- A value of another type than its target is reported at its own token. -/
theorem minds_assignable (target : Ty) (h : value.token ∈ known) :
    Minds known noTokens (assignable target value : Rule ω Unit) :=
  .bind (.expectType h _ _) fun _ => .plain _

/-! ### Declarations -/

/-- A literal that is too large is reported where it stands. -/
theorem minds_intValue (h : token ∈ known) : Minds known noTokens (intValue token) := by
  rw [intValue]
  split
  · exact .plain _
  · exact .bind (minds_reportFault h _) fun _ => .plain _

/-- The literal of a constant has been seen before its value is looked at. -/
theorem minds_intConstant : Minds known noTokens intConstant := by
  refine .bind (.accept _) fun negative => .bind (.mustBe _) fun token? => ?_
  cases token? with
  | none => exact .plain _
  | some token => exact .bind (minds_intValue (by simp)) fun _ => .plain _

/-- A dimension asks for nothing to be known. -/
theorem minds_dimension : Minds known noTokens dimension :=
  .bind .lookahead fun _ => .bind minds_intConstant fun _ => .bind (.accept _) fun _ =>
    .ite
      (.bind minds_intConstant fun _ =>
        .bind (minds_reportFaultIf (by simp [noTokens]) _) fun _ => .plain _)
      (.bind (minds_reportFaultIf (by simp [noTokens]) _) fun _ => .plain _)

/-- Further dimensions ask for nothing to be known. -/
theorem minds_moreDimensions (dims : List Bounds) :
    Minds known noTokens (moreDimensions dims) :=
  .whileSees (fun _ => .bind .advance fun _ => .bind minds_dimension fun _ => .plain _)
    (List.nil_subset _)

/-- A base type asks for nothing to be known. -/
theorem minds_baseType : Minds known noTokens baseType := by
  refine .bind .lookahead fun token => ?_
  split
  · exact .bind .advance fun _ => .plain _
  · exact .bind (.unexpected _) fun _ => .plain _

/-- A type makes a symbol of a name, and carries nothing but this name. -/
theorem minds_typeSpec (h : name ∈ known) :
    Minds known (fun symbol => [symbol.token]) (typeSpec name) := by
  refine .bind (.accept _) fun _ => .ite ?array ?base
  case array =>
    refine .bind (.mustBe _) fun _ => .bind minds_dimension fun _ =>
      .bind (minds_moreDimensions _) fun _ => .bind (.mustBe _) fun _ =>
        .bind (.mustBe _) fun _ => .bind minds_baseType fun _ => .pure ?_
    simp [Symbol.array, h]
  case base =>
    refine .bind minds_baseType fun _ => .pure ?_
    simp [Symbol.var, h]

/-- A literal of another type than the one asked for is reported where it stands. -/
theorem minds_checkLiteral (type : Ty) (h : token ∈ known) :
    Minds known noTokens (checkLiteral type token) :=
  .ite (.bind (minds_intValue h) fun _ => .plain _) (.plain _)

/-- A literal has been seen when it is checked. -/
theorem minds_literal : Minds known noTokens literal := by
  refine .bind (.accept _) fun negative => .bind .lookahead fun token => ?_
  split
  · exact .bind (.unexpected _) fun _ => .plain _
  · exact .bind .advance fun _ => .bind (minds_checkLiteral _ (by simp)) fun _ => .plain _

/-- A symbol that is declared and noted has its token among those that are known. -/
theorem minds_declareNoted {symbol : Symbol Kind Ty} (h : symbol.token ∈ known) :
    Minds known noTokens (declareNoted symbol) :=
  .bind (.declare h) fun _ => .ite (.note _) (.plain _)

/-- The names of a declaration have been seen before they are declared. -/
theorem minds_declaration : Minds known noTokens declaration := by
  refine .bind (.mustBe _) fun name? => ?_
  cases name? with
  | none => exact .plain _
  | some name =>
    refine .bind (.accept _) fun _ => .ite ?typed (.bind (.accept _) fun _ => .ite ?const ?other)
    case typed =>
      exact .bind (minds_typeSpec (by simp)) fun _ => minds_declareNoted (by simp)
    case const => exact .bind minds_literal fun _ => minds_declareNoted (by simp [Symbol.const])
    case other => exact .unexpected _

/-- Declarations follow each other, and carry nothing along. -/
theorem minds_declarations : Minds known noTokens declarations :=
  .bind minds_declaration fun _ =>
    .whileSees (fun _ => .bind .advance fun _ => minds_declaration) (List.nil_subset _)

/-! ### Expressions -/

section

variable {nested : GrammarRule Operand}

/-- The name of a designator is known, and its indices are read behind it. -/
theorem minds_designator (h : ∀ known, Minds known Operand.tokens nested) (hname : name ∈ known)
    (symbol? : Option (Symbol Kind Ty)) :
    Minds known noTokens (designator nested name symbol?) := by
  refine .bind (.accept _) fun _ => .ite (.bind (h _) fun first => ?_) (minds_unindexed hname _)
  refine .bind
    (show Minds _ (List.flatMap Operand.tokens) _ from .whileSees (fun indices => ?_) ?_)
    fun indices => .bind (.mustBe _) fun _ => minds_indexed (by simp [hname]) (by simp) _
  · refine .bind .advance fun comma => .bind (h _) fun index => .pure ?_
    rw [List.flatMap_append, List.flatMap_singleton]
    exact List.append_subset.2 ⟨List.subset_append_of_subset_right _
      (List.subset_cons_of_subset _ (List.subset_append_left _ _)), List.subset_append_left _ _⟩
  · simp

/-- The operands that are combined, and their operator, are known by then. -/
theorem minds_combine (hop : op ∈ known) (hleft : left.token ∈ known)
    (hright : right.token ∈ known) : Minds known Operand.tokens (combine op left right) :=
  .ite (.bind (minds_logical hleft hright) fun _ => .pure (by simp [Operand.tokens, hleft]))
    (.bind (minds_arithmetic hop hright) fun _ => .pure (by simp [Operand.tokens, hleft]))

/-- A chain carries the operand that it has put together so far. -/
theorem minds_chain (h : ∀ known, Minds known Operand.tokens nested) (operators : List Kind)
    (hleft : left.token ∈ known) : Minds known Operand.tokens (chain operators nested left) := by
  refine .whileSees (fun left => .bind .advance fun op => .bind (h _) fun right => ?_) ?_
  · exact minds_combine (by simp) (by simp [Operand.tokens]) (by simp [Operand.tokens])
  · simp [Operand.tokens, hleft]

/-- A term is a chain of factors. -/
theorem minds_term (h : ∀ known, Minds known Operand.tokens nested) (known : List (Token Kind)) :
    Minds known Operand.tokens (term nested) :=
  .bind (h _) fun _ => minds_chain h _ (by simp [Operand.tokens])

/-- A sign has been seen before the term behind it. -/
theorem minds_signedTerm (h : ∀ known, Minds known Operand.tokens nested) :
    Minds known Operand.tokens (signedTerm nested) := by
  refine .bind (.sees _) fun _ => .ite ?_ (minds_term h _)
  exact .bind .advance fun op => .bind (minds_term h _) fun _ =>
    .bind (minds_negation (by simp)) fun _ => .pure (by simp [Operand.tokens])

/-- A simple expression is a chain of signed terms. -/
theorem minds_simpleExpression (h : ∀ known, Minds known Operand.tokens nested) :
    Minds known Operand.tokens (simpleExpression nested) :=
  .bind (minds_signedTerm h) fun _ => minds_chain (minds_term h) _ (by simp [Operand.tokens])

/-- Both sides of a comparison have been seen when they are compared. -/
theorem minds_expressionOf (h : ∀ known, Minds known Operand.tokens nested)
    (known : List (Token Kind)) : Minds known Operand.tokens (expressionOf nested) := by
  refine .bind (minds_simpleExpression h) fun left => .bind .lookahead fun _ => .ite ?_ ?_
  · exact .bind .advance fun _ => .bind (minds_simpleExpression h) fun _ =>
      .bind (minds_relational (by simp) (by simp [Operand.tokens])) fun _ =>
        .pure (by simp [Operand.tokens])
  · exact .pure (by simp)

end

/-- A factor carries its own first token, however deep it nests. -/
theorem minds_factor (n : Nat) (known : List (Token Kind)) :
    Minds known Operand.tokens (factor n) := by
  induction n generalizing known with
  | zero => exact .outOfFuel
  | succ n ih =>
    refine .bind .lookahead fun token => ?_
    split
    · exact .bind .advance fun _ => .bind (.resolve (by simp)) fun _ =>
        .bind (minds_designator (minds_expressionOf ih) (by simp) _) fun _ =>
          .pure (by simp [Operand.tokens])
    · exact .bind .advance fun _ => .bind (minds_intValue (by simp)) fun _ =>
        .pure (by simp [Operand.tokens])
    · exact .bind .advance fun _ => .pure (by simp [Operand.tokens])
    · exact .bind .advance fun _ => .pure (by simp [Operand.tokens])
    · exact .bind .advance fun _ => .pure (by simp [Operand.tokens])
    · exact .bind .advance fun _ => .bind (ih _) fun _ =>
        .bind (minds_complement (by simp [Operand.tokens])) fun _ =>
          .pure (by simp [Operand.tokens])
    · exact .bind .advance fun _ => .bind (minds_expressionOf ih _) fun _ =>
        .bind (.mustBe _) fun _ => .pure (by simp)
    · exact .bind (.unexpected _) fun _ => .pure (by simp [Operand.tokens])

/-- The tokens of an expression have been seen when it has been read. -/
theorem minds_expression (known : List (Token Kind)) : Minds known Operand.tokens expression :=
  .withFuel fun n => minds_expressionOf (minds_factor n) _

/-! ### Statements and programs -/

/-- An assignment has seen its name and its value before it compares their types. -/
theorem minds_assignment : Minds known noTokens assignment :=
  .bind .advance fun _ => .bind (.resolve (by simp)) fun _ =>
    .bind (minds_reportFaultIf (by simp) _) fun _ =>
    .bind (minds_designator minds_expression (by simp) _) fun _ => .bind (.mustBe _) fun _ =>
      .bind (minds_expression _) fun _ => minds_assignable _ (by simp [Operand.tokens])

/-- The names that are read into are resolved where they stand. -/
theorem minds_readStatement : Minds known noTokens readStatement := by
  refine .bind .advance fun _ => .bind (.mustBe _) fun name? => ?_
  cases name? with
  | none => exact .plain _
  | some name =>
    exact .bind (.resolve (by simp)) fun _ => .bind (minds_reportFaultIf (by simp) _) fun _ =>
      .bind (minds_unindexed (by simp) _) fun _ => .plain _

/-- What is written out are expressions, each with tokens of its own. -/
theorem minds_writeStatement : Minds known noTokens writeStatement :=
  .bind .advance fun _ => .bind (minds_expression _) fun _ => .plain _

section

variable {nested : GrammarRule Unit}

/-- Statements in a row ask for nothing of each other. -/
theorem minds_statementsOf (h : ∀ known, Minds known noTokens nested) :
    Minds known noTokens (statementsOf nested) :=
  .whileSees (fun _ => h _) (List.nil_subset _)

/-- What stands behind `ELSE` are statements like any other. -/
theorem minds_elsePart (h : ∀ known, Minds known noTokens nested) :
    Minds known noTokens (elsePart nested) :=
  .bind (.accept _) fun _ => .ite (minds_statementsOf h) (.plain _)

/-- The condition of a choice has been seen before its branches. -/
theorem minds_ifStatement (h : ∀ known, Minds known noTokens nested) :
    Minds known noTokens (ifStatement nested) :=
  .bind .advance fun _ => .bind (minds_expression _) fun _ =>
    .bind (minds_condition (by simp [Operand.tokens])) fun _ => .bind (.mustBe _) fun _ =>
      .bind (minds_statementsOf h) fun _ => .bind (minds_elsePart h) fun _ =>
        .bind (.mustBe _) fun _ => .plain _

/-- The condition of a loop has been seen before its body. -/
theorem minds_whileStatement (h : ∀ known, Minds known noTokens nested) :
    Minds known noTokens (whileStatement nested) :=
  .bind .advance fun _ => .bind (minds_expression _) fun _ =>
    .bind (minds_condition (by simp [Operand.tokens])) fun _ => .bind (.mustBe _) fun _ =>
      .bind (minds_statementsOf h) fun _ => .bind (.mustBe _) fun _ => .plain _

/-- A block has its declarations before its statements. -/
theorem minds_block (h : ∀ known, Minds known noTokens nested) :
    Minds known noTokens (block nested) :=
  .bind .advance fun _ => .bind .openScope fun _ => .bind minds_declarations fun _ =>
    .bind (.mustBe _) fun _ => .bind (minds_statementsOf h) fun _ => .bind (.mustBe _) fun _ =>
      .bind .closeScope fun _ => .plain _

end

/-- A statement minds what it sees, however deep it nests. -/
theorem minds_statement (n : Nat) (known : List (Token Kind)) :
    Minds known noTokens (statement n) := by
  induction n generalizing known with
  | zero => exact .outOfFuel
  | succ n ih =>
    refine .bind .lookahead fun token => ?_
    split
    · exact minds_assignment
    · exact minds_ifStatement ih
    · exact minds_whileStatement ih
    · exact minds_readStatement
    · exact minds_writeStatement
    · exact minds_block ih
    · exact .bind (.unexpected _) fun _ => .bind .advance fun _ => .plain _

/-- A program starts from nothing that is known. -/
theorem minds_program : Minds known noTokens program :=
  .bind (.mustBe _) fun _ => .bind (.mustBe _) fun _ => .bind .openScope fun _ =>
    .bind (.bind (.accept _) fun _ => .ite minds_declarations (.plain _)) fun _ =>
      .bind (.mustBe _) fun _ =>
        .bind (.withFuel fun n => minds_statementsOf (minds_statement n)) fun _ =>
          .bind (.mustBe _) fun _ => .bind .closeScope fun _ => .plain _

end Simple

/-! ## Word lists -/

namespace WordList

open Recognizer

variable {known : List (Token Kind)} {item : Rule Unit}

/-- An item and its end mark ask for nothing to be known. -/
theorem minds_terminatedItem (h : ∀ known, Minds known noTokens item)
    (known : List (Token Kind)) : Minds known noTokens (terminatedItem item) :=
  .bind (h _) fun _ => .bind (.mustBe _) fun _ => .plain _

/-- The items of a list ask for nothing of each other. -/
theorem minds_listOf (h : ∀ known, Minds known noTokens item) :
    Minds known noTokens (listOf item) :=
  .bind (minds_terminatedItem h _) fun _ =>
    .whileSees (fun _ => minds_terminatedItem h _) (List.nil_subset _)

/-- The word of an item has been seen when it is declared. -/
theorem minds_item (n : Nat) (known : List (Token Kind)) :
    Minds known noTokens (WordList.item n) := by
  induction n generalizing known with
  | zero => exact .outOfFuel
  | succ n ih =>
    refine .bind (.sees _) fun _ => .ite ?word (.bind (.accept _) fun _ => .ite ?nested ?other)
    case word =>
      exact .bind .advance fun _ => .bind (.note _) fun _ =>
        .bind (.declare (by simp [Symbol.var])) fun _ => .plain _
    case nested =>
      exact .bind .openScope fun _ => .bind (minds_listOf ih) fun _ =>
        .bind (.mustBe _) fun _ => .bind .closeScope fun _ => .plain _
    case other => exact .unexpected _

/-- A word list starts from nothing that is known. -/
theorem minds_wordList : Minds known noTokens wordList :=
  .bind .openScope fun _ => .bind (.withFuel fun n => minds_listOf (minds_item n)) fun _ =>
    .bind .closeScope fun _ => .plain _

end WordList

/-! ## Whole runs -/

section

variable [TokenKind κ]

/-- In a source that is tiled by its lexicon, a run begins in time. -/
theorem State.timely_initial {l : Lexicon κ} {gap tail : List Char → Prop}
    (htiles : l.Tiles gap tail) (source : Source) :
    (State.initial l.classifier source : State κ τ ω).Timely := by
  obtain ⟨first, more, hstream, hinitial⟩ := State.initial_eq (τ := τ) (ω := ω) l.classifier source
  obtain ⟨ts, eof, failure?, htiled, hfailure, hstart⟩ := Source.tiled (τ := τ) htiles source
  have hone : ∀ (cause? : Option String) (p : Position),
      ((cause?.map (.io p)).toList : List (Diagnostic κ τ)).length ≤ 1 ∧
        ∀ d ∈ ((cause?.map (.io p)).toList : List (Diagnostic κ τ)), d.position = p := by
    rintro (_ | cause) p <;> simp [Diagnostic.position]
  have hfaults : ∀ scanned ∈ source.stream (τ := τ) l.classifier, scanned.faults.length ≤ 1 ∧
      ∀ d ∈ scanned.faults, d.position = scanned.token.position := by
    intro scanned hmem
    rw [htiled.stream_eq] at hmem
    obtain hmem | hmem := List.mem_append.1 hmem
    · obtain ⟨t, -, rfl⟩ := List.mem_map.1 hmem
      show (Cursor.lexicalFaults t).length ≤ 1 ∧ ∀ d ∈ Cursor.lexicalFaults t, _
      rw [Cursor.lexicalFaults]
      split <;> simp [Diagnostic.position, Scanned.ofToken]
    · rw [List.mem_singleton.1 hmem]
      exact hone failure? eof.position
  have hsink : ((Cursor.start source).faults ++ first.faults).length ≤ 1 ∧
      ∀ d ∈ (Cursor.start source).faults ++ first.faults, d.position = first.token.position := by
    -- Either the first token ends the source, or nothing has gone wrong before it.
    by_cases hts : ts = []
    · have hfirst : first = ⟨eof, (failure?.map (.io eof.position)).toList⟩ := by
        have heq := hstream.symm.trans htiled.stream_eq
        rw [hts] at heq
        exact (List.cons.inj heq).1
      rw [hfirst, hfailure]
      exact hone _ _
    · rw [hstart hts, List.nil_append]
      exact hfaults first (by rw [hstream]; exact List.mem_cons_self)
  rw [hinitial]
  refine ⟨?_, ?_, ?_, ?_⟩
  · show ((first :: more).map Scanned.token).Pairwise _
    rw [← hstream, htiled.map_token]
    exact htiled.positions_increase
  · exact fun scanned hmem => hfaults scanned (by rw [hstream]; exact List.mem_cons_of_mem _ hmem)
  · intro d hd
    rw [hsink.2 d hd]
    exact Position.le_refl _
  · exact pairwise_of_length_le_one hsink.1

/-- A report shows a fault of the scanner in front of any other fault at its position. -/
def Report.ScanningFirst (report : Report κ τ ω) : Prop :=
  report.errors.Pairwise fun d e => e.isScanning = true → d.position ≠ e.position

/-- A start rule that minds the tokens it has seen is reported on in this way. -/
theorem Minds.scanningFirst {l : Lexicon κ} {gap tail : List Char → Prop}
    (htiles : l.Tiles gap tail) {start : Recognizer κ τ ω Unit} (h : Minds [] noTokens start)
    (strategy : Strategy) (source : Source) :
    (parse l.classifier start strategy source).ScanningFirst :=
  (h.toEnd strategy _ (State.timely_initial htiles source) (seen_nil _)).timely.errors

end

end SinglePass
