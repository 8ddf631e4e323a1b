import SinglePass.Proofs.Engine.Moves
import SinglePass.Proofs.Settling.Passes

/-!
# Progress

Why a run comes to an end.  The measure is the number of tokens behind the one that is looked at,
which is 0 only at the end of the source.  `Ends` says that a recognizer comes to an end at a state
and has consumed at least so many tokens, or all there are; there is one lemma for each way to put
recognizers together.

Recursion is where the argument has its point.  A rule that is given the recognizer of the nested
constructs calls it only behind a token that it has consumed, so it can only ask for what the nested
recognizer does at fewer tokens.  `Ends` therefore compares two recognizers: if the nested
recognizers of two rules do the same and come to an end wherever fewer than `m` tokens are ahead
(`Alike`), the rules do so wherever fewer than `m + 1` are, whatever the nested recognizers do
elsewhere.  Fuel is a special case, since a recursive rule without fuel is just another recognizer.
-/

namespace SinglePass

variable {κ τ ω ν α β : Type} [TokenKind κ]

/-! ## The tokens of a run -/

/-- A run that has the rest of a source before it. -/
def State.Placed (s : State κ τ ω) : Prop := Terminated s.kinds

namespace State

variable {s : State κ τ ω}

/-- Only the tokens count. -/
theorem Placed.congr {t : State κ τ ν} (h : s.Placed) (lookahead_eq : t.lookahead = s.lookahead)
    (ahead_eq : t.ahead = s.ahead) : t.Placed := by
  have hkinds : t.kinds = s.kinds := by
    rw [kinds, kinds, input, input, lookahead_eq, ahead_eq]
  rw [Placed, hkinds]
  exact h

omit [TokenKind κ] in
/-- A run has the kind that it looks at in front of those ahead. -/
theorem kinds_eq (s : State κ τ ω) :
    s.kinds = s.lookahead.kind :: s.ahead.tokens.map (·.token.kind) := by
  rw [kinds, input, List.map_cons, List.map_map]
  rfl

omit [TokenKind κ] in
/-- Going on leaves one token less ahead. -/
theorem shift_count (s : State κ τ ω) : s.shift.ahead.count = s.ahead.count - 1 := by
  rw [s.shift.ahead.count_eq, s.ahead.count_eq, shift_tokens, List.length_tail]

/-- Nothing is ahead of the end of a source. -/
theorem Placed.tokens_eq_nil (h : s.Placed) (hend : s.lookahead.isEnd = true) :
    s.ahead.tokens = [] := by
  rw [Placed, kinds_eq, Token.isEnd_eq_true.1 hend] at h
  exact List.map_eq_nil_iff.1 h.eq_nil

/-- Something is ahead of any other token. -/
theorem Placed.count_pos (h : s.Placed) (hk : s.lookahead.kind ≠ TokenKind.endOfFile) :
    0 < s.ahead.count := by
  rw [Placed, kinds_eq] at h
  obtain ⟨before, hbefore, -⟩ := h.tail hk
  rw [s.ahead.count_eq, ← List.length_map (·.token.kind), hbefore, List.length_append]
  exact Nat.succ_pos _

/-- Unless a run is at the end of its source, there is a token ahead. -/
theorem Placed.tokens_ne_nil (h : s.Placed) (hk : s.lookahead.kind ≠ TokenKind.endOfFile) :
    s.ahead.tokens ≠ [] := by
  have hpos := h.count_pos hk
  rw [s.ahead.count_eq] at hpos
  exact List.ne_nil_of_length_pos hpos

/-- Going on keeps the rest of a source before a run. -/
theorem Placed.shift (h : s.Placed) : s.shift.Placed := by
  cases htokens : s.ahead.tokens with
  | nil => rwa [shift_of_nil htokens]
  | cons next more =>
    have hk : s.lookahead.kind ≠ TokenKind.endOfFile := fun hk => by
      rw [h.tokens_eq_nil (Token.isEnd_eq_true.2 hk)] at htokens
      nomatch htokens
    have hkinds : s.shift.kinds = s.ahead.tokens.map (·.token.kind) := by
      rw [shift_of_cons htokens, kinds_eq, Upcoming.tokens_tail, htokens]
      rfl
    rw [Placed, kinds_eq] at h
    rw [Placed, hkinds]
    exact h.tail hk

/-- Skipping to a token stops at one of its kind, and otherwise only at the end of the source. -/
theorem Placed.over_iff {kind : κ} (h : s.Placed) :
    s.Over kind ↔ s.lookahead.kind = kind ∨ s.lookahead.isEnd = true := by
  constructor
  · rintro (hkind | hend | htokens)
    · exact .inl hkind
    · exact .inr hend
    · by_cases hk : s.lookahead.kind = TokenKind.endOfFile
      · exact .inr (Token.isEnd_eq_true.2 hk)
      · exact absurd htokens (h.tokens_ne_nil hk)
  · exact fun h => h.elim .inl fun hend => .inr (.inl hend)

/-- A run begins with a whole source before it. -/
theorem placed_initial (classifier : Classifier κ) (source : Source) :
    (State.initial classifier source : State κ τ ω).Placed := by
  obtain ⟨before, last, heq, hlast, hbefore⟩ := source.tokens_eq_append classifier
  rw [Placed, kinds, initial_input, heq]
  refine ⟨before.map Token.kind, ?_, fun hmem => ?_⟩
  · rw [List.map_append, List.map_singleton, Token.isEnd_eq_true.1 hlast]
  · obtain ⟨t, ht, hkind⟩ := List.mem_map.1 hmem
    have hend : t.isEnd = true := Token.isEnd_eq_true.2 hkind
    exact absurd (hbefore t ht) (ne_false_of_eq_true hend)

end State

/-- Skipping to a token ends where it should, and each of its rounds discards a token that does not
end the source. -/
structure Skips (kind : κ) (s : State κ τ ω) : Prop where
  stops : s.lookahead.kind = kind ∨ s.lookahead.isEnd = true → s.discardTo kind = s
  round : ¬ (s.lookahead.kind = kind ∨ s.lookahead.isEnd = true) →
    s.discardTo kind = s.shift.discardTo kind ∧ s.shift.Placed ∧
      s.shift.ahead.count < s.ahead.count

/-- **Skipping to a kind comes to an end**, as each of its rounds consumes a token. -/
theorem State.Placed.skips {s : State κ τ ω} (h : s.Placed) (kind : κ) : Skips kind s := by
  constructor
  · exact fun hstop => State.discardTo_of_over (h.over_iff.2 hstop)
  · intro hround
    have hpos := h.count_pos fun hk => hround (.inr (Token.isEnd_eq_true.2 hk))
    refine ⟨State.discardTo_of_not_over fun hover => hround (h.over_iff.1 hover), h.shift, ?_⟩
    rw [State.shift_count]
    omega

/-! ## Coming to an end -/

/-- From a state two recognizers do the same.  They do not run out of fuel, leave the rest of a
source before them, and if they end with a value, they have consumed `k` tokens, or all there
are. -/
structure Ends (k : Nat) (strategy : Strategy) (s : State κ τ ω) (r r' : Recognizer κ τ ω α) :
    Prop where
  eq : r strategy s = r' strategy s
  fuel : (r strategy s).1 ≠ .outOfFuel
  placed : (r strategy s).2.Placed
  count_le : ∀ a, (r strategy s).1 = .value a →
    (r strategy s).2.ahead.count ≤ s.ahead.count - k

/-- Two recognizers that do the same, come to an end and consume `k` tokens, or all there are,
wherever fewer than `m` tokens are ahead. -/
def Alike (k m : Nat) (r r' : Recognizer κ τ ω α) : Prop :=
  ∀ strategy s, s.Placed → s.ahead.count < m → Ends k strategy s r r'

/-- A recursive rule, unfolded once, comes to an end and consumes `k` tokens, or all there are, if
the nested rule does wherever fewer tokens are ahead: it is entered again only behind a token. -/
structure Recurs (k : Nat) (rule : Nat → Recognizer κ τ ω α)
    (step : Recognizer κ τ ω α → Recognizer κ τ ω α) : Prop where
  eq_step : ∀ n, rule (n + 1) = step (rule n)
  nests : ∀ m r r', Alike k m r r' → Alike k (m + 1) (step r) (step r')

/-- Every round of a loop that is begun with fewer than `m` tokens ahead comes to an end and
consumes a token, and none is begun at the end of the source. -/
structure Rounds (m : Nat) (test : κ → Bool) (body : α → Recognizer κ τ ω α) : Prop where
  none_at_end : test TokenKind.endOfFile = false
  ends : ∀ a strategy s, s.Placed → s.ahead.count < m → test s.lookahead.kind = true →
    (body a strategy s).1 ≠ .outOfFuel
  consumes : ∀ a strategy s, s.Placed → s.ahead.count < m → test s.lookahead.kind = true →
    ∀ b, (body a strategy s).1 = .value b → (body a strategy s).2.ahead.count < s.ahead.count

namespace Recognizer

variable {kind : κ} {s : State κ τ ω}

/-- A token of the kind is taken. -/
theorem accept_of_kind_eq (strategy : Strategy) (hk : s.lookahead.kind = kind) :
    accept kind strategy s = (.value true, s.shift) := by
  have hsees : sees kind strategy s = (.value true, s) := by simp [sees, read, hk]
  rw [accept, bind_of_value hsees, if_pos rfl]
  rfl

/-- A token of another kind is left. -/
theorem accept_of_kind_ne (strategy : Strategy) (hk : s.lookahead.kind ≠ kind) :
    accept kind strategy s = (.value false, s) := by
  have hsees : sees kind strategy s = (.value false, s) := by simp [sees, read, hk]
  rw [accept, bind_of_value hsees, if_neg Bool.false_ne_true]
  rfl

end Recognizer

namespace Ends

variable {j k : Nat} {strategy : Strategy} {s t : State κ τ ω} {r r' : Recognizer κ τ ω α}
  {f f' : α → Recognizer κ τ ω β}

/-- Two recognizers end as two others do from a state that lies no further on. -/
theorem of_eq {q q' : Recognizer κ τ ω α} (h : Ends j strategy t r r')
    (hq : q strategy s = r strategy t) (hq' : q' strategy s = r' strategy t)
    (hle : t.ahead.count - j ≤ s.ahead.count - k) : Ends k strategy s q q' := by
  refine ⟨by rw [hq, hq', h.eq], ?_, ?_, ?_⟩ <;> rw [hq]
  · exact h.fuel
  · exact h.placed
  · exact fun a ha => Nat.le_trans (h.count_le a ha) hle

/-- What consumes many tokens consumes few. -/
theorem mono (h : Ends k strategy s r r') (hj : j ≤ k) : Ends j strategy s r r' :=
  h.of_eq rfl rfl (Nat.sub_le_sub_left hj _)

/-- A recognizer that ends with a value. -/
theorem of_value {a : α} (h : r strategy s = (.value a, t)) (h' : r' strategy s = (.value a, t))
    (placed : t.Placed) (count_le : t.ahead.count ≤ s.ahead.count - k) :
    Ends k strategy s r r' := by
  refine ⟨h.trans h'.symm, ?_, ?_, ?_⟩ <;> rw [h]
  · simp
  · exact placed
  · exact fun _ _ => count_le

/-- A recognizer that gives up. -/
theorem of_abort (h : r strategy s = (.abort, t)) (h' : r' strategy s = (.abort, t))
    (placed : t.Placed) : Ends k strategy s r r' := by
  refine ⟨h.trans h'.symm, ?_, ?_, ?_⟩ <;> rw [h]
  · simp
  · exact placed
  · exact fun a ha => nomatch ha

/-- How a comparison ends: with a value of both, or by both giving up. -/
theorem cases_on (h : Ends k strategy s r r') :
    (∃ a t, r strategy s = (.value a, t) ∧ r' strategy s = (.value a, t) ∧ t.Placed ∧
        t.ahead.count ≤ s.ahead.count - k) ∨
      ∃ t, r strategy s = (.abort, t) ∧ r' strategy s = (.abort, t) ∧ t.Placed := by
  obtain ⟨heq, hfuel, hplaced, hcount⟩ := h
  generalize hr : r strategy s = e at heq hfuel hplaced hcount
  obtain ⟨a | _ | _, t⟩ := e
  · exact .inl ⟨a, t, rfl, heq.symm, hplaced, hcount a rfl⟩
  · exact .inr ⟨t, rfl, heq.symm, hplaced⟩
  · exact absurd rfl hfuel

/-- Sequencing, where the second part may use what the first one did. -/
theorem bind_of (hr : Ends j strategy s r r')
    (hf : ∀ a t, r strategy s = (.value a, t) → t.Placed → t.ahead.count ≤ s.ahead.count - j →
      Ends 0 strategy t (f a) (f' a) ∧
        ∀ b, (f a strategy t).1 = .value b → (f a strategy t).2.ahead.count ≤ s.ahead.count - k) :
    Ends k strategy s (r >>= f) (r' >>= f') := by
  obtain ⟨a, t, hrun, hrun', hplaced, hcount⟩ | ⟨t, hrun, hrun', hplaced⟩ := hr.cases_on
  · obtain ⟨h, hle⟩ := hf a t hrun hplaced hcount
    refine ⟨?_, ?_, ?_, ?_⟩ <;> rw [Recognizer.bind_of_value hrun]
    · rw [Recognizer.bind_of_value hrun', h.eq]
    · exact h.fuel
    · exact h.placed
    · exact hle
  · exact .of_abort (Recognizer.bind_of_abort hrun f) (Recognizer.bind_of_abort hrun' f') hplaced

/-- Sequencing adds up what is consumed. -/
theorem bind_add (hr : Ends j strategy s r r')
    (hf : ∀ a t, t.Placed → t.ahead.count ≤ s.ahead.count - j → Ends k strategy t (f a) (f' a)) :
    Ends (j + k) strategy s (r >>= f) (r' >>= f') := by
  refine hr.bind_of fun a t _ hplaced hcount => ⟨(hf a t hplaced hcount).mono (Nat.zero_le k), ?_⟩
  intro b hb
  have hle := (hf a t hplaced hcount).count_le b hb
  omega

/-- Each branch of a choice may rely on its own condition. -/
theorem ite {p : Prop} [Decidable p] {q q' : Recognizer κ τ ω α}
    (hr : p → Ends k strategy s r r') (hq : ¬ p → Ends k strategy s q q') :
    Ends k strategy s (if p then r else q) (if p then r' else q') := by
  split
  · next h => exact hr h
  · next h => exact hq h

/-! ### Operations of the engine -/

/-- What is silent consumes nothing. -/
theorem silent (h : Silent r) (placed : s.Placed) : Ends 0 strategy s r r := by
  induction h generalizing s with
  | pure a => exact .of_value rfl rfl placed (Nat.le_refl _)
  | bind _ _ ihr ihf => exact (ihr placed).bind_add fun a t ht _ => ihf a ht
  | read g => exact .of_value rfl rfl placed (Nat.le_refl _)
  | note w => exact .of_value rfl rfl (placed.congr rfl rfl) (Nat.le_refl _)
  | report d _ =>
    cases strategy with
    | failFast => exact .of_abort rfl rfl (placed.congr rfl rfl)
    | recovering =>
      refine .of_value rfl rfl ?_ ?_ <;> split
      · exact placed
      · exact placed.congr rfl rfl
      · exact Nat.le_refl _
      · exact Nat.le_refl _
  | openScope => exact .of_value rfl rfl (placed.congr rfl rfl) (Nat.le_refl _)
  | closeScope => exact .of_value rfl rfl (placed.congr rfl rfl) (Nat.le_refl _)
  | bindSymbol symbol =>
    cases hadd : (Recognizer.scopesForDeclaration s.scopes).add? symbol with
    | none =>
      have hrun : Recognizer.bindSymbol symbol strategy s = (.value false, s) := by
        simp [Recognizer.bindSymbol, hadd]
      exact .of_value hrun hrun placed (Nat.le_refl _)
    | some added =>
      have hrun : Recognizer.bindSymbol symbol strategy s =
          (.value added.1, { s with scopes := added.2 }) := by
        simp [Recognizer.bindSymbol, hadd]
      exact .of_value hrun hrun (placed.congr rfl rfl) (Nat.le_refl _)

/-- Taking a token consumes it. -/
theorem advance (placed : s.Placed) :
    Ends 1 strategy s (Recognizer.advance : Recognizer κ τ ω _) Recognizer.advance :=
  .of_value rfl rfl placed.shift (Nat.le_of_eq s.shift_count)

/-- What was not expected may be left where it is. -/
theorem unexpected (expected : Expected κ) (placed : s.Placed) :
    Ends 0 strategy s (Recognizer.unexpected expected : Recognizer κ τ ω _)
      (Recognizer.unexpected expected) := by
  cases strategy with
  | failFast => exact .of_abort rfl rfl (placed.congr rfl rfl)
  | recovering =>
    refine .of_value rfl rfl ?_ ?_ <;> split
    · exact placed.congr rfl rfl
    · exact placed.congr rfl rfl
    · exact Nat.le_refl _
    · exact Nat.le_refl _

/-- While recovering, requiring a token always consumes one: if none has to be discarded, the one
that is looked at is the one required. -/
theorem mustBe_of_recovering (kind : κ) (placed : s.Placed) (hr : s.recovering = true) :
    Ends 1 strategy s (Recognizer.mustBe kind : Recognizer κ τ ω _) (Recognizer.mustBe kind) := by
  -- Each round of skipping consumes a token, and the last one stops at the kind or at the end.
  induction s using State.skipping kind with
  | stop s h =>
    by_cases hk : s.lookahead.kind = kind
    · have hrun : Recognizer.mustBe kind strategy s = (.value (some s.lookahead),
          State.shift { s with recovering := false }) := by
        rw [Recognizer.mustBe_of_recovering strategy hr, Recognizer.resynchronize,
          State.discardTo_of_over h, if_pos hk]
        rfl
      have hplaced : State.Placed { s with recovering := false } := placed.congr rfl rfl
      exact .of_value hrun hrun hplaced.shift (Nat.le_of_eq (State.shift_count _))
    · have hrun : Recognizer.mustBe kind strategy s = (.value none, s) := by
        rw [Recognizer.mustBe_of_recovering strategy hr, Recognizer.resynchronize,
          State.discardTo_of_over h, if_neg hk]
      have hend := (placed.over_iff.1 h).resolve_left hk
      refine .of_value hrun hrun placed ?_
      rw [s.ahead.count_eq, placed.tokens_eq_nil hend]
      exact Nat.zero_le _
  | round s h ih =>
    have hshift := ih placed.shift ((State.shift_recovering s).trans hr)
    have hrun := Recognizer.mustBe_of_not_over strategy hr h
    refine hshift.of_eq hrun hrun ?_
    rw [State.shift_count]
    omega

/-- A token that is required may be missing, so that none is consumed. -/
theorem mustBe (kind : κ) (placed : s.Placed) :
    Ends 0 strategy s (Recognizer.mustBe kind : Recognizer κ τ ω _) (Recognizer.mustBe kind) := by
  by_cases hr : s.recovering = true
  · exact (mustBe_of_recovering kind placed hr).mono (Nat.zero_le 1)
  · rw [Bool.not_eq_true] at hr
    by_cases hk : s.lookahead.kind = kind
    · have hrun := Recognizer.mustBe_of_kind_eq strategy hr hk
      refine .of_value hrun hrun placed.shift ?_
      rw [State.shift_count]
      exact Nat.sub_le_sub_left (Nat.zero_le 1) _
    · cases strategy with
      | failFast =>
        have hrun := Recognizer.mustBe_failFast_of_kind_ne hr hk
        exact .of_abort hrun hrun (placed.congr rfl rfl)
      | recovering =>
        have hrun := Recognizer.mustBe_recovering_of_kind_ne hr hk
        exact .of_value hrun hrun (placed.congr rfl rfl) (Nat.le_refl _)

/-- Looking at the state before going on. -/
theorem read {g : State κ τ ω → α} (h : Ends k strategy s (f (g s)) (f' (g s))) :
    Ends k strategy s (Recognizer.read g >>= f) (Recognizer.read g >>= f') :=
  h.of_eq rfl rfl (Nat.le_refl _)

/-- A token that may be there is looked for. -/
theorem accept (kind : κ) (placed : s.Placed) :
    Ends 0 strategy s (Recognizer.accept kind : Recognizer κ τ ω _) (Recognizer.accept kind) := by
  by_cases hk : s.lookahead.kind = kind
  · have hrun := Recognizer.accept_of_kind_eq strategy hk
    refine .of_value hrun hrun placed.shift ?_
    rw [State.shift_count]
    exact Nat.sub_le_sub_left (Nat.zero_le 1) _
  · have hrun := Recognizer.accept_of_kind_ne strategy hk
    exact .of_value hrun hrun placed (Nat.le_refl _)

/-! ### Recursion -/

/-- A loop whose rounds consume a token comes to an end. -/
theorem iterate {test : κ → Bool} {body body' : α → Recognizer κ τ ω α} {m n : Nat}
    (none_at_end : test TokenKind.endOfFile = false) (round : ∀ a, Alike 1 m (body a) (body' a))
    (placed : s.Placed) (hm : s.ahead.count < m) (hn : s.ahead.count < n) (a : α) :
    Ends 0 strategy s (Recognizer.iterate test body n a) (Recognizer.iterate test body' n a) := by
  induction n generalizing s a with
  | zero => exact absurd hn (Nat.not_lt_zero _)
  | succ n ih =>
    by_cases htest : test s.lookahead.kind = true
    · have hpos := placed.count_pos fun hk => by
        rw [hk, none_at_end] at htest
        nomatch htest
      have hround := (round a strategy s placed hm).bind_add fun b t (ht : t.Placed) hcount =>
        ih ht (by omega) (by omega) b
      exact hround.of_eq (Recognizer.iterate_of_test htest n a)
        (Recognizer.iterate_of_test htest n a) (Nat.sub_le_sub_left (Nat.zero_le _) _)
    · rw [Bool.not_eq_true] at htest
      exact .of_value (Recognizer.iterate_of_not_test htest n a)
        (Recognizer.iterate_of_not_test htest n a) placed (Nat.le_refl _)

/-- Going on after a token that may be there. -/
theorem accept_bind {kind : κ} {f f' : Bool → Recognizer κ τ ω β}
    (hseen : s.lookahead.kind = kind →
      Ends k strategy s (Recognizer.advance >>= fun _ => f true)
        (Recognizer.advance >>= fun _ => f' true))
    (hother : s.lookahead.kind ≠ kind → Ends k strategy s (f false) (f' false)) :
    Ends k strategy s (Recognizer.accept kind >>= f) (Recognizer.accept kind >>= f') := by
  by_cases hk : s.lookahead.kind = kind
  · have hrun := Recognizer.accept_of_kind_eq strategy hk
    exact (hseen hk).of_eq (Recognizer.bind_of_value hrun f) (Recognizer.bind_of_value hrun f')
      (Nat.le_refl _)
  · have hrun := Recognizer.accept_of_kind_ne strategy hk
    exact (hother hk).of_eq (Recognizer.bind_of_value hrun f) (Recognizer.bind_of_value hrun f')
      (Nat.le_refl _)

/-- Nested constructs behind a token have fewer tokens ahead of them. -/
theorem behind {m : Nat} {f f' : Token κ → Recognizer κ τ ω β} (placed : s.Placed)
    (hm : s.ahead.count < m + 1) (hk : s.lookahead.kind ≠ TokenKind.endOfFile)
    (h : ∀ a, Alike 0 m (f a) (f' a)) :
    Ends 1 strategy s (Recognizer.advance >>= f) (Recognizer.advance >>= f') := by
  have hpos := placed.count_pos hk
  exact (advance placed).bind_add fun a t ht hcount => h a strategy t ht (by omega)

end Ends

namespace Alike

variable {j k m : Nat} {r r' : Recognizer κ τ ω α} {f f' : α → Recognizer κ τ ω β}

/-- What consumes many tokens consumes few. -/
theorem mono (h : Alike k m r r') (hj : j ≤ k) : Alike j m r r' :=
  fun strategy s placed hm => (h strategy s placed hm).mono hj

/-- Where no state is meant there is nothing to show. -/
theorem zero : Alike k 0 r r' := fun _ _ _ hm => absurd hm (Nat.not_lt_zero _)

/-- Two parts consume what both of them consume. -/
theorem bind_add (hr : Alike j m r r') (hf : ∀ a, Alike k m (f a) (f' a)) :
    Alike (j + k) m (r >>= f) (r' >>= f') := by
  intro strategy s placed hm
  exact (hr strategy s placed hm).bind_add fun a t ht hcount => hf a strategy t ht (by omega)

/-- It is enough that the first part consumes something. -/
theorem bind (hr : Alike j m r r') (hf : ∀ a, Alike 0 m (f a) (f' a)) :
    Alike j m (r >>= f) (r' >>= f') := hr.bind_add hf

/-- A choice does the same as another if its branches do. -/
theorem ite {p : Prop} [Decidable p] {q q' : Recognizer κ τ ω α} (hr : Alike k m r r')
    (hq : Alike k m q q') : Alike k m (if p then r else q) (if p then r' else q') := by
  split
  · exact hr
  · exact hq

/-- What leaves tokens and fuel alone comes to an end. -/
theorem silent (h : Silent r) : Alike 0 m r r := fun _ _ placed _ => .silent h placed

/-- A value is the end. -/
theorem pure (a : α) : Alike 0 m (Pure.pure a : Recognizer κ τ ω α) (Pure.pure a) :=
  .silent (.pure a)

/-- Taking a token consumes it. -/
theorem advance : Alike 1 m (Recognizer.advance : Recognizer κ τ ω _) Recognizer.advance :=
  fun _ _ placed _ => .advance placed

/-- A token may be taken, or left. -/
theorem accept (kind : κ) :
    Alike 0 m (Recognizer.accept kind : Recognizer κ τ ω _) (Recognizer.accept kind) :=
  fun _ _ placed _ => .accept kind placed

/-- A token that is required may be missing, so that none is consumed. -/
theorem mustBe (kind : κ) :
    Alike 0 m (Recognizer.mustBe kind : Recognizer κ τ ω _) (Recognizer.mustBe kind) :=
  fun _ _ placed _ => .mustBe kind placed

/-- What was not expected may be left where it is. -/
theorem unexpected (expected : Expected κ) :
    Alike 0 m (Recognizer.unexpected expected : Recognizer κ τ ω _)
      (Recognizer.unexpected expected) :=
  fun _ _ placed _ => .unexpected expected placed

/-- A loop comes to an end if each of its rounds consumes a token. -/
theorem whileSees {test : κ → Bool} {body body' : α → Recognizer κ τ ω α}
    (none_at_end : test TokenKind.endOfFile = false) (round : ∀ a, Alike 1 m (body a) (body' a))
    (a : α) : Alike 0 m (Recognizer.whileSees test body a) (Recognizer.whileSees test body' a) := by
  intro strategy s placed hm
  have h : Ends 0 strategy s _ _ := .iterate none_at_end round placed hm (Nat.lt_succ_self _) a
  exact h.of_eq rfl rfl (Nat.le_refl _)

/-- One more than the tokens left is fuel enough for a rule that needs no more. -/
theorem withFuel {r : Nat → Recognizer κ τ ω α} (h : ∀ n, Alike k n (r n) (r n)) :
    Alike k m (Recognizer.withFuel r) (Recognizer.withFuel r) := by
  intro strategy s placed _
  have hends := h (s.ahead.count + 1) strategy s placed (Nat.lt_succ_self _)
  exact hends.of_eq rfl rfl (Nat.le_refl _)

/-- The strategy is the same for both. -/
theorem strategy : Alike 0 m (Recognizer.strategy : Recognizer κ τ ω Strategy)
    Recognizer.strategy :=
  fun _ _ placed _ => .of_value rfl rfl placed (Nat.le_refl _)

/-- A rule that keeps notes of its own ends as it does without them. -/
theorem collecting {r : Recognizer κ τ ν Unit} (h : Alike 0 m r r) :
    Alike 0 m (Recognizer.collecting r : Recognizer κ τ ω (List ν)) (Recognizer.collecting r) := by
  intro strategy s placed hm
  have hr := h strategy (s.withNotes []) (placed.congr rfl rfl) hm
  obtain ⟨a, t, hrun, -, hplaced, hcount⟩ | ⟨t, hrun, -, hplaced⟩ := hr.cases_on
  · have hcollected : Recognizer.collecting r strategy s =
        (.value t.notes, t.withNotes s.notes) := by
      simp [Recognizer.collecting, hrun, Outcome.map]
    exact .of_value hcollected hcollected (hplaced.congr rfl rfl) hcount
  · have hcollected : Recognizer.collecting r strategy s = (.abort, t.withNotes s.notes) := by
      simp [Recognizer.collecting, hrun, Outcome.map]
    exact .of_abort hcollected hcollected (hplaced.congr rfl rfl)

/-- Requiring the end of the source adds nothing that could go on. -/
theorem toEnd {start : Recognizer κ τ ω Unit} (h : Alike k m start start) :
    Alike k m start.toEnd start.toEnd :=
  .bind h fun _ => .bind (.silent (.read _)) fun _ => .bind (.silent (.read _)) fun _ =>
    .ite (.pure _) (.unexpected _)

end Alike

/-- Rounds that all consume a token. -/
theorem Rounds.of_alike {m : Nat} {test : κ → Bool} {body : α → Recognizer κ τ ω α}
    (none_at_end : test TokenKind.endOfFile = false) (round : ∀ a, Alike 1 m (body a) (body a)) :
    Rounds m test body := by
  refine ⟨none_at_end, fun a strategy s placed hm _ => (round a strategy s placed hm).fuel, ?_⟩
  intro a strategy s placed hm htest b hb
  have hpos := placed.count_pos fun hk => by
    rw [hk, none_at_end] at htest
    nomatch htest
  have hle := (round a strategy s placed hm).count_le b hb
  omega

/-- A run of a start rule that comes to an end wherever it starts does so on every source. -/
theorem run_ne_outOfFuel {start : Recognizer κ τ ω Unit} (h : ∀ m, Alike 0 m start start)
    (classifier : Classifier κ) (strategy : Strategy) (source : Source) :
    (run classifier start strategy source).1 ≠ .outOfFuel :=
  ((h _).toEnd strategy _ (State.placed_initial classifier source) (Nat.lt_succ_self _)).fuel

/-- A recursive rule comes to an end with more fuel than there are tokens ahead, and more fuel makes
no difference. -/
theorem Recurs.alike {k m n n' : Nat} {rule : Nat → Recognizer κ τ ω α}
    {step : Recognizer κ τ ω α → Recognizer κ τ ω α} (h : Recurs k rule step) (hn : m ≤ n)
    (hn' : m ≤ n') : Alike k m (rule n) (rule n') := by
  induction m generalizing n n' with
  | zero => exact .zero
  | succ m ih =>
    obtain ⟨n, rfl⟩ := Nat.exists_eq_add_of_le' hn
    obtain ⟨n', rfl⟩ := Nat.exists_eq_add_of_le' hn'
    rw [← Nat.add_assoc, ← Nat.add_assoc, h.eq_step, h.eq_step]
    exact h.nests m _ _ (ih (Nat.le_add_left m n) (Nat.le_add_left m n'))

end SinglePass
