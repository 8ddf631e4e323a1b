import Mathlib.Computability.Language
import SinglePass.Proofs.Settling.Passes

/-!
# Rules that settle on the shortest evidence

A recognizer looks at one token ahead and never goes back.  Whether it gets through, and where the
first token stands that it cannot use, is therefore settled by the tokens up to that place, whatever
comes behind them.  `Settles` says this of a family of recognizers and of the language that they
recognize: the kinds before a run have a first part `u` and a next kind `x` such that every run with
the kinds `u` and `x` before it

* either passes over the tokens of `u`, which form a word of the language;
* or stops behind the tokens of `u`, which can be continued to a word of the language.

A family is indexed by the fuel of its recognizers, which has to be enough for the tokens before the
run, and by whatever else they depend on.  There is one closure lemma for each way to put
recognizers together, so a rule of a grammar settles if its parts do.  The recursive rules are
treated by induction on the number of tokens, which is why `Settles` is bounded by it.
-/

namespace SinglePass

variable {κ τ ω α β ι : Type} [TokenKind κ]

/-- A run that has at most `n` tokens before it, those of the kinds `u` and `x` first. -/
structure State.Fits (s : State κ τ ω) (n : Nat) (u : List κ) (x : κ) : Prop where
  ready : s.Ready
  begins : u ++ [x] <+: s.kinds
  fuel : s.kinds.length ≤ n

/-- What a family of recognizers does in front of the given kinds is settled by a first part of
them and the kind behind it. -/
inductive Settled (r : Nat → ι → Recognizer κ τ ω α) (L : Language (Token κ)) (ks : List κ) : Prop
  | passes (u : List κ) (x : κ) (v : List κ) (split : ks = u ++ x :: v)
      (passes : ∀ n i (s : State κ τ ω), s.Fits n u x →
        Passes (r n i) s u.length ∧ s.input.take u.length ∈ L)
  | stops (u : List κ) (x : κ) (v : List κ) (split : ks = u ++ x :: v)
      (stops : ∀ n i (s : State κ τ ω), s.Fits n u x →
        Stops (r n i) s u.length ∧ ∃ more, s.input.take u.length ++ more ∈ L)

/-- In front of at most `m` tokens, the first of a kind that `heads` allows, it is always settled
what a family of recognizers does. -/
structure Settles (m : Nat) (heads : κ → Prop) (r : Nat → ι → Recognizer κ τ ω α)
    (L : Language (Token κ)) : Prop where
  composed : ∀ n i, Composed (r n i)
  inhabited : ∃ ts, ts ∈ L
  settled : ∀ x rest, heads x → Terminated (x :: rest) → (x :: rest).length ≤ m →
    Settled r L (x :: rest)

/-! ## Runs that fit -/

namespace State.Fits

variable {s t : State κ τ ω} {n : Nat} {u v : List κ} {x y : κ}

/-- What fits with little fuel fits with more. -/
theorem mono {n' : Nat} (h : s.Fits n u x) (hn : n ≤ n') : s.Fits n' u x :=
  ⟨h.ready, h.begins, Nat.le_trans h.fuel hn⟩

/-- Behind no tokens, the next kind is the one that follows. -/
theorem lookahead_kind (h : s.Fits n [] x) : s.lookahead.kind = x := by
  obtain ⟨rest, hrest⟩ := h.begins
  exact (List.cons.inj hrest).1.symm

/-- The first of the kinds is the one that is looked at. -/
theorem lookahead_kind_cons (h : s.Fits n (y :: u) x) : s.lookahead.kind = y := by
  obtain ⟨rest, hrest⟩ := h.begins
  exact (List.cons.inj hrest).1.symm

/-- The first of the kinds is that of the token looked at. -/
theorem lookahead_kind_of_split {ks w : List κ} (h : s.Fits n u x)
    (hsplit : y :: ks = u ++ x :: w) : s.lookahead.kind = y := by
  cases u with
  | nil => rw [h.lookahead_kind, ← (List.cons.inj hsplit).1]
  | cons z u => rw [h.lookahead_kind_cons, ← (List.cons.inj hsplit).1]

/-- Fewer tokens are consumed than there are. -/
theorem length_lt (h : s.Fits n u x) : u.length < s.kinds.length := by
  have hle := h.begins.length_le
  rw [List.length_append, List.length_singleton] at hle
  omega

/-- A run that fits a longer part fits every shorter one. -/
theorem left {w w' : List κ} (h : s.Fits n (u ++ v) y) (hsplit : x :: w = v ++ y :: w') :
    s.Fits n u x := by
  refine ⟨h.ready, List.IsPrefix.trans ?_ h.begins, h.fuel⟩
  rw [List.append_assoc, List.prefix_append_right_inj]
  cases v with
  | nil =>
    rw [(List.cons.inj hsplit).1]
    exact List.prefix_refl _
  | cons z v =>
    rw [(List.cons.inj hsplit).1]
    exact ⟨v ++ [y], rfl⟩

/-- Behind a first part the run fits the rest. -/
theorem right (h : s.Fits n (u ++ v) y) (ready : t.Ready) (after : s.After u.length t) :
    t.Fits n v y := by
  obtain ⟨rest, hrest⟩ := h.begins
  refine ⟨ready, ⟨rest, ?_⟩, ?_⟩
  · rw [after.kinds_eq, ← hrest]
    simp only [List.append_assoc, List.drop_left]
  · rw [after.kinds_eq, List.length_drop]
    exact Nat.le_trans (Nat.sub_le _ _) h.fuel

end State.Fits

/-- What ends a source still does so behind some of its tokens. -/
theorem Terminated.right {u ks : List κ} {x : κ} (h : Terminated (u ++ x :: ks)) :
    Terminated (x :: ks) := by
  induction u with
  | nil => exact h
  | cons y u ih =>
    apply ih
    apply h.tail
    rintro rfl
    obtain ⟨before, heq, hmem⟩ := h
    cases before with
    | nil => simp at heq
    | cons z before =>
      obtain ⟨rfl, -⟩ := List.cons.inj heq
      exact hmem List.mem_cons_self

/-! ## What is settled -/

namespace Settled

variable {ι' : Type} {r : Nat → ι → Recognizer κ τ ω α} {L M : Language (Token κ)} {x : κ}
  {u v rest : List κ}

/-- What is settled of a family is settled of every other that does the same in front of the given
kinds, whatever its fuel and its index are. -/
theorem transfer {r' : Nat → ι' → Recognizer κ τ ω α} (h : Settled r L (x :: rest))
    (hrun : ∀ n' i' (s : State κ τ ω), s.Ready → s.lookahead.kind = x → s.kinds.length ≤ n' →
      ∃ n i, s.kinds.length ≤ n ∧ r' n' i' .recovering s = r n i .recovering s) :
    Settled r' L (x :: rest) := by
  cases h with
  | passes u y v hsplit hpasses =>
    refine .passes u y v hsplit ?_
    intro n' i' s hs
    obtain ⟨n, i, hn, heq⟩ := hrun n' i' s hs.ready (hs.lookahead_kind_of_split hsplit) hs.fuel
    obtain ⟨hpass, hword⟩ := hpasses n i s ⟨hs.ready, hs.begins, hn⟩
    exact ⟨hpass.congr heq, hword⟩
  | stops u y v hsplit hstops =>
    refine .stops u y v hsplit ?_
    intro n' i' s hs
    obtain ⟨n, i, hn, heq⟩ := hrun n' i' s hs.ready (hs.lookahead_kind_of_split hsplit) hs.fuel
    obtain ⟨hstop, hword⟩ := hstops n i s ⟨hs.ready, hs.begins, hn⟩
    exact ⟨hstop.congr heq, hword⟩

/-- What is settled for a language is settled for a larger one. -/
theorem mono {ks : List κ} (h : Settled r L ks) (hL : ∀ ts ∈ L, ts ∈ M) : Settled r M ks := by
  cases h with
  | passes u y v hsplit hpasses =>
    refine .passes u y v hsplit ?_
    intro n i s hs
    obtain ⟨hpass, hword⟩ := hpasses n i s hs
    exact ⟨hpass, hL _ hword⟩
  | stops u y v hsplit hstops =>
    refine .stops u y v hsplit ?_
    intro n i s hs
    obtain ⟨hstop, more, hword⟩ := hstops n i s hs
    exact ⟨hstop, more, hL _ hword⟩

section

variable {q : Nat → ι → Recognizer κ τ ω β}

/-- A sequence stops where its first part does. -/
theorem ofStops {f : Nat → ι → α → Recognizer κ τ ω β}
    (hfirst : ∀ n i (s : State κ τ ω), s.Fits n u x →
      Stops (r n i) s u.length ∧ ∃ more, s.input.take u.length ++ more ∈ L)
    (hf : ∀ n i a, Composed (f n i a)) (hM : ∃ us, us ∈ M)
    (hrun : ∀ n i (s : State κ τ ω), s.Fits n u x →
      q n i .recovering s = (r n i >>= f n i) .recovering s) :
    Settled q (L * M) (u ++ x :: v) := by
  obtain ⟨us, hus⟩ := hM
  refine .stops u x v rfl ?_
  intro n i s hs
  obtain ⟨hstop, more, hword⟩ := hfirst n i s hs
  refine ⟨(hstop.bind_left (hf n i)).congr (hrun n i s hs), more ++ us, ?_⟩
  exact Language.mem_mul.2 ⟨_, hword, us, hus, by rw [List.append_assoc]⟩

/-- Behind the tokens that its first part passes over, a sequence does what the rest of it does
there, for which the fuel `fuel n` has to be enough. -/
theorem behind {next : Nat → ι' → Recognizer κ τ ω β} {g : ι → α → ι'}
    (h : Settled next M (x :: v)) (fuel : Nat → Nat) (hfuel : ∀ n, n ≤ u.length + fuel n)
    (hfirst : ∀ n i (s : State κ τ ω), s.Fits n u x →
      Passes (r n i) s u.length ∧ s.input.take u.length ∈ L)
    (hrun : ∀ n i (s : State κ τ ω), s.Fits n u x →
      q n i .recovering s = (r n i >>= fun a => next (fuel n) (g i a)) .recovering s) :
    Settled q (L * M) (u ++ x :: v) := by
  -- the run behind the first part
  have hright : ∀ {n : Nat} {w : List κ} {z : κ} {s t : State κ τ ω}, s.Fits n (u ++ w) z →
      t.Ready → s.After u.length t → t.Fits (fuel n) w z := by
    intro n w z s t hs ready after
    refine ⟨ready, (hs.right ready after).begins, ?_⟩
    rw [after.kinds_eq, List.length_drop]
    have := hs.fuel
    have := hfuel n
    omega
  cases h with
  | passes w z v' hsplit hpasses =>
    refine .passes (u ++ w) z v' (by rw [hsplit, List.append_assoc]) ?_
    intro n i s hs
    obtain ⟨hpass, hword⟩ := hfirst n i s (hs.left hsplit)
    rw [List.length_append]
    constructor
    · refine (hpass.bind fun a t ready after => ?_).congr (hrun n i s (hs.left hsplit))
      exact (hpasses _ (g i a) t (hright hs ready after)).1
    · obtain ⟨a, t, -, -, ready, after, -, -⟩ := hpass
      rw [after.take_append]
      exact Language.mem_mul.2
        ⟨_, hword, _, (hpasses _ (g i a) t (hright hs ready after)).2, rfl⟩
  | stops w z v' hsplit hstops =>
    refine .stops (u ++ w) z v' (by rw [hsplit, List.append_assoc]) ?_
    intro n i s hs
    obtain ⟨hpass, hword⟩ := hfirst n i s (hs.left hsplit)
    rw [List.length_append]
    constructor
    · refine (Stops.bind_right hpass fun a t ready after => ?_).congr (hrun n i s (hs.left hsplit))
      exact (hstops _ (g i a) t (hright hs ready after)).1
    · obtain ⟨a, t, -, -, ready, after, -, -⟩ := hpass
      obtain ⟨-, more, hmore⟩ := hstops _ (g i a) t (hright hs ready after)
      refine ⟨more, ?_⟩
      rw [after.take_append, List.append_assoc]
      exact Language.mem_mul.2 ⟨_, hword, _, hmore, rfl⟩

end

end Settled

/-! ## Families and languages -/

namespace Settles

open Recognizer

variable {m : Nat} {heads : κ → Prop} {r : Nat → ι → Recognizer κ τ ω α}
  {L M : Language (Token κ)}

/-- What settles for many tokens settles for few. -/
theorem le {m' : Nat} (h : Settles m heads r L) (hm : m' ≤ m) : Settles m' heads r L :=
  ⟨h.composed, h.inhabited, fun x rest hx hks hn => h.settled x rest hx hks (Nat.le_trans hn hm)⟩

/-- What settles for many first tokens settles for fewer. -/
theorem restrict {heads' : κ → Prop} (h : Settles m heads r L) (hheads : ∀ x, heads' x → heads x) :
    Settles m heads' r L :=
  ⟨h.composed, h.inhabited, fun x rest hx => h.settled x rest (hheads x hx)⟩

/-- A language may be replaced by a larger one. -/
theorem mono (h : Settles m heads r L) (hL : ∀ ts ∈ L, ts ∈ M) : Settles m heads r M := by
  obtain ⟨ts, hts⟩ := h.inhabited
  exact ⟨h.composed, ⟨ts, hL ts hts⟩, fun x rest hx hks hm => (h.settled x rest hx hks hm).mono hL⟩

/-- Only what the recognizers do in front of the allowed kinds matters, and they may be indexed in
another way. -/
theorem transfer {ι' : Type} {r' : Nat → ι' → Recognizer κ τ ω α} (h : Settles m heads r L)
    (hcomposed : ∀ n i, Composed (r' n i))
    (hrun : ∀ n' i' (s : State κ τ ω), s.Ready → heads s.lookahead.kind → s.kinds.length ≤ n' →
      ∃ n i, s.kinds.length ≤ n ∧ r' n' i' .recovering s = r n i .recovering s) :
    Settles m heads r' L := by
  refine ⟨hcomposed, h.inhabited, ?_⟩
  intro x rest hx hks hm
  refine (h.settled x rest hx hks hm).transfer ?_
  rintro n' i' s hready rfl hn
  exact hrun n' i' s hready hx hn

/-- A family may be indexed in another way. -/
theorem reindex {ι' : Type} (h : Settles m heads r L) (g : ι' → ι) :
    Settles m heads (fun n i => r n (g i)) L :=
  h.transfer (fun n i => h.composed n (g i)) fun n i _ _ _ hn => ⟨n, g i, hn, rfl⟩

/-- More fuel than needed does no harm. -/
theorem moreFuel (h : Settles m heads r L) (g : ι → Nat) :
    Settles m heads (fun n i => r (n + g i) i) L :=
  h.transfer (fun n i => h.composed (n + g i) i) fun n i _ _ _ hn =>
    ⟨n + g i, i, Nat.le_trans hn (Nat.le_add_right n (g i)), rfl⟩

/-- Only what the recognizers do in front of the allowed kinds matters. -/
theorem congr {r' : Nat → ι → Recognizer κ τ ω α} (h : Settles m heads r L)
    (hcomposed : ∀ n i, Composed (r' n i))
    (heq : ∀ n i (s : State κ τ ω), s.Ready → heads s.lookahead.kind → s.kinds.length ≤ n →
      r' n i .recovering s = r n i .recovering s) : Settles m heads r' L :=
  h.transfer hcomposed fun n i s hready hhead hn => ⟨n, i, hn, heq n i s hready hhead hn⟩

/-- In front of the kinds that `p` selects it is enough to consider an alternative, in front of all
others the rest of the alternatives. -/
theorem select {q : Nat → ι → Recognizer κ τ ω α} (p : κ → Prop) [DecidablePred p]
    (hthere : Settles m p r L) (hother : Settles m (fun x => heads x ∧ ¬ p x) q L)
    (heq : ∀ n i (s : State κ τ ω), p s.lookahead.kind →
      q n i .recovering s = r n i .recovering s) : Settles m heads q L := by
  refine ⟨hother.composed, hother.inhabited, ?_⟩
  intro x rest hx hks hm
  by_cases hp : p x
  · have hselected : Settles m p q L := by
      apply hthere.congr hother.composed
      intro n i s _ hk _
      exact heq n i s hk
    exact hselected.settled x rest hp hks hm
  · exact hother.settled x rest ⟨hx, hp⟩ hks hm

/-! ## Sequences -/

/-- What is silent settles for no tokens at all. -/
theorem silent (h : ∀ n i, Silent (r n i)) : Settles m heads r 1 := by
  refine ⟨fun n i => (h n i).composed, ⟨[], Language.nil_mem_one⟩, ?_⟩
  intro x rest _ _ _
  refine .passes [] x rest rfl ?_
  intro n i s hs
  exact ⟨(h n i).passes hs.ready, Language.nil_mem_one⟩

/-- What is put in sequence settles for words that are put together. -/
theorem bind {f : Nat → ι → α → Recognizer κ τ ω β} (hr : Settles m heads r L)
    (hf : Settles m (fun _ => True) (fun n (p : ι × α) => f n p.1 p.2) M) :
    Settles m heads (fun n i => r n i >>= f n i) (L * M) := by
  obtain ⟨ts, hts⟩ := hr.inhabited
  obtain ⟨us, hus⟩ := hf.inhabited
  refine ⟨fun n i => .bind (hr.composed n i) fun a => hf.composed n (i, a),
    ⟨ts ++ us, Language.mem_mul.2 ⟨ts, hts, us, hus, rfl⟩⟩, ?_⟩
  intro x rest hx hks hm
  cases hr.settled x rest hx hks hm with
  | stops u y v hsplit hstops =>
    rw [hsplit]
    exact .ofStops hstops (fun n i a => hf.composed n (i, a)) ⟨us, hus⟩ fun _ _ _ _ => rfl
  | passes u y v hsplit hpasses =>
    rw [hsplit] at hks hm ⊢
    have hlength : (y :: v).length ≤ m := by
      rw [List.length_append] at hm
      omega
    -- what happens behind `u` is settled by what comes there
    exact (hf.settled y v trivial hks.right hlength).behind (g := Prod.mk) id
      (fun n => Nat.le_add_left n _) hpasses fun _ _ _ _ => rfl

/-! ## Tokens -/

/-- A single token of a kind that `heads` allows. -/
def tokens (heads : κ → Prop) : Language (Token κ) := {ts | ∃ t, heads t.kind ∧ ts = [t]}

omit [TokenKind κ] in
/-- A language of single tokens consists of those with a kind of the sort. -/
theorem mem_tokens {heads : κ → Prop} {ts : List (Token κ)} :
    ts ∈ tokens heads ↔ ∃ t, heads t.kind ∧ ts = [t] := Iff.rfl

/-- A token is consumed and what comes next has one fuel less. -/
theorem advance_pred {f : Nat → ι → Token κ → Recognizer κ τ ω β}
    (hf : Settles m (fun _ => True) (fun n (p : ι × Token κ) => f n p.1 p.2) M)
    (hsome : ∃ x, heads x) (hend : ¬ heads TokenKind.endOfFile) :
    Settles (m + 1) heads (fun n i => Recognizer.advance >>= f (n - 1) i) (tokens heads * M) := by
  obtain ⟨kind, hkind⟩ := hsome
  obtain ⟨us, hus⟩ := hf.inhabited
  have htoken : ([⟨kind, "", ⟨1, 1⟩⟩] : List (Token κ)) ∈ tokens heads :=
    mem_tokens.2 ⟨_, hkind, rfl⟩
  refine ⟨fun n i => .bind .advance fun a => hf.composed (n - 1) (i, a),
    ⟨_, Language.mem_mul.2 ⟨_, htoken, us, hus, rfl⟩⟩, ?_⟩
  intro x rest hx hks hm
  have hne : x ≠ TokenKind.endOfFile := by
    rintro rfl
    exact hend hx
  have hterminated := hks.tail hne
  -- The token is not the end, so there is one behind it, and the rest settles there.
  obtain ⟨y, v, rfl⟩ : ∃ y v, rest = y :: v := by
    apply List.exists_cons_of_ne_nil
    rintro rfl
    obtain ⟨before, heq, -⟩ := hterminated
    simp at heq
  refine (hf.settled y v trivial hterminated (by simpa using hm)).behind (u := [x])
    (r := fun _ _ => Recognizer.advance) (g := Prod.mk) (fun n => n - 1) ?_ ?_ fun _ _ _ _ => rfl
  · intro n
    rw [List.length_singleton]
    omega
  · intro n i s hs
    have hlook := hs.lookahead_kind_cons
    refine ⟨passes_advance hs.ready ?_, mem_tokens.2 ⟨s.lookahead, ?_, rfl⟩⟩
    · rw [hlook]
      exact hne
    · rw [hlook]
      exact hx

/-- A token that is taken comes in front of what settles behind it. -/
theorem advance {f : Nat → ι → Token κ → Recognizer κ τ ω β}
    (hf : Settles m (fun _ => True) (fun n (p : ι × Token κ) => f n p.1 p.2) M)
    (hsome : ∃ x, heads x) (hend : ¬ heads TokenKind.endOfFile) :
    Settles m heads (fun n i => Recognizer.advance >>= f n i) (tokens heads * M) :=
  ((hf.advance_pred hsome hend).moreFuel fun _ => 1).le (Nat.le_succ m)

/-- Wherever a token is unexpected the first part is empty. -/
theorem unexpected {f : Nat → ι → Unit → Recognizer κ τ ω β} (expected : Expected κ)
    (hM : ∃ ts, ts ∈ M) (hf : ∀ n i, Composed (f n i ())) :
    Settles m heads (fun n i => Recognizer.unexpected expected >>= f n i) M := by
  refine ⟨fun n i => .bind (.unexpected expected) fun _ => hf n i, hM, ?_⟩
  intro x rest _ _ _
  refine .stops [] x rest rfl ?_
  intro n i s hs
  exact ⟨(stops_unexpected hs.ready expected).bind_left fun _ => hf n i, hM⟩

/-- A rule may end with an unexpected token. -/
theorem lastUnexpected (expected : Expected κ) (hM : ∃ ts, ts ∈ M) :
    Settles m heads (fun _ (_ : ι) => (Recognizer.unexpected expected : Recognizer κ τ ω _)) M :=
  (unexpected (f := fun _ _ _ => pure ()) expected hM fun _ _ => .pure ()).congr
    (fun _ _ => .unexpected expected) fun _ _ _ _ _ _ => rfl

/-- A required token is there, or it is not. -/
theorem mustBe {kind : κ} {f : Nat → ι → Option (Token κ) → Recognizer κ τ ω β}
    (hkind : kind ≠ TokenKind.endOfFile)
    (hsome : Settles m (fun _ => True) (fun n (p : ι × Token κ) => f n p.1 (some p.2)) M)
    (hnone : ∀ n i, Composed (f n i none)) :
    Settles m heads (fun n i => Recognizer.mustBe kind >>= f n i) (tokens (· = kind) * M) := by
  have hcomposed : ∀ n i, Composed (Recognizer.mustBe kind >>= f n i) := by
    intro n i
    refine .bind (.mustBe kind) ?_
    rintro (_ | token)
    · exact hnone n i
    · exact hsome.composed n (i, token)
  have hthere : Settles m (· = kind) (fun n i => Recognizer.advance >>= fun token =>
      f n i (some token)) (tokens (· = kind) * M) :=
    advance (f := fun n i token => f n i (some token)) hsome ⟨kind, rfl⟩ hkind.symm
  obtain ⟨ts, hts⟩ := hthere.inhabited
  refine ⟨hcomposed, ⟨ts, hts⟩, ?_⟩
  intro x rest hx hks hm
  by_cases hk : x = kind
  · have hmustBe := hthere.congr hcomposed (by
      intro n i s hready hhead _
      rw [bind_apply, bind_apply, mustBe_of_kind_eq .recovering hready.calm hhead]
      rfl)
    exact hmustBe.settled x rest hk hks hm
  · refine .stops [] x rest rfl ?_
    intro n i s hs
    refine ⟨(stops_mustBe hs.ready ?_).bind_left ?_, ts, hts⟩
    · rw [hs.lookahead_kind]
      exact hk
    · rintro (_ | token)
      · exact hnone n i
      · exact hsome.composed n (i, token)

/-- What is silent may come behind. -/
theorem thenSilent {f : Nat → ι → α → Recognizer κ τ ω β} (hr : Settles m heads r L)
    (hf : ∀ n i a, Silent (f n i a)) : Settles m heads (fun n i => r n i >>= f n i) L := by
  have hbind := hr.bind (silent fun n (p : ι × α) => hf n p.1 p.2)
  rwa [mul_one] at hbind

/-- What is silent may come before. -/
theorem afterSilent {f : Nat → ι → α → Recognizer κ τ ω β} (hr : ∀ n i, Silent (r n i))
    (hf : Settles m (fun _ => True) (fun n (p : ι × α) => f n p.1 p.2) M) :
    Settles m heads (fun n i => r n i >>= f n i) M := by
  have hsilent : Settles m heads r 1 := silent hr
  have hbind := hsilent.bind hf
  rwa [one_mul] at hbind

/-- The text of a required token may be ignored. -/
theorem require {kind : κ} {f : Nat → ι → Recognizer κ τ ω β}
    (hkind : kind ≠ TokenKind.endOfFile) (hf : Settles m (fun _ => True) f M) :
    Settles m heads (fun n i => Recognizer.mustBe kind >>= fun _ => f n i)
      (tokens (· = kind) * M) :=
  mustBe (f := fun n i _ => f n i) hkind (hf.reindex Prod.fst) hf.composed

/-! ## Choices -/

/-- Looking for a kind compares it with the one that is looked at. -/
theorem sees_apply (kind : κ) (s : State κ τ ω) :
    sees kind .recovering s = (.value (decide (s.lookahead.kind = kind)), s) := rfl

/-- A token that is taken if it has a kind comes in front of one branch, and not of the other. -/
theorem accept {kind : κ} {f : Nat → ι → Bool → Recognizer κ τ ω β}
    (hkind : kind ≠ TokenKind.endOfFile)
    (htrue : Settles m (fun _ => True) (fun n i => f n i true) L)
    (hfalse : Settles m (fun x => heads x ∧ x ≠ kind) (fun n i => f n i false) M) :
    Settles m heads (fun n i => Recognizer.accept kind >>= f n i)
      (tokens (· = kind) * L + M) := by
  have hcomposed : ∀ n i, Composed (Recognizer.accept kind >>= f n i) := by
    intro n i
    refine .bind (.accept kind) ?_
    rintro (_ | _)
    · exact hfalse.composed n i
    · exact htrue.composed n i
  have hthere : Settles m (· = kind) (fun n i => Recognizer.advance >>= fun _ => f n i true)
      (tokens (· = kind) * L) :=
    advance (f := fun n i _ => f n i true) (htrue.reindex Prod.fst) ⟨kind, rfl⟩ hkind.symm
  refine select (· = kind) (hthere.mono fun ts hts => .inl hts)
    ((hfalse.congr hcomposed ?_).mono fun ts hts => .inr hts) ?_
  · rintro n i s - ⟨-, hk⟩ -
    unfold Recognizer.accept
    rw [bind_apply, bind_of_value (sees_apply kind s), if_neg (by simpa using hk)]
    rfl
  · intro n i s hk
    unfold Recognizer.accept
    rw [bind_apply, bind_of_value (sees_apply kind s), if_pos (decide_eq_true hk)]
    rfl

/-! ## Recursion -/

/-- The fuel that a rule takes from the tokens before it is enough. -/
theorem withFuel (h : Settles m heads r L) :
    Settles m heads (fun _ i => Recognizer.withFuel fun n => r n i) L := by
  refine h.transfer (fun _ i => .withFuel fun n => h.composed n i) ?_
  intro n i s _ _ _
  refine ⟨s.kinds.length, i, Nat.le_refl _, ?_⟩
  rw [s.length_kinds]
  rfl

/-- A recursive rule settles if it does so behind a token whenever what is nested settles: by
induction on the number of tokens. -/
theorem recursive (hcomposed : ∀ n i, Composed (r n i)) (hsome : ∃ ts, ts ∈ L)
    (hstep : ∀ m, Settles m (fun _ => True) r L →
      Settles (m + 1) (fun _ => True) (fun n i => r (n - 1 + 1) i) L) (m : Nat) :
    Settles m (fun _ => True) r L := by
  induction m with
  | zero =>
    refine ⟨hcomposed, hsome, ?_⟩
    intro x rest _ _ hm
    simp at hm
  | succ m ih =>
    refine (hstep m ih).congr hcomposed ?_
    intro n i s _ _ hn
    rw [s.length_kinds] at hn
    rw [Nat.sub_add_cancel (Nat.le_trans (Nat.le_add_left 1 _) hn)]

section

variable {test : κ → Bool} {body : Nat → ι → α → Recognizer κ τ ω α}

omit [TokenKind κ] in
/-- Where its test holds, a loop is a round and then the loop with one fuel less. -/
theorem iterate_turn {s : State κ τ ω} {n : Nat} (htest : test s.lookahead.kind = true)
    (hn : s.kinds.length ≤ n) (i : ι) (a : α) (d e : Nat) :
    Recognizer.iterate test (body (n + d) i) (n + e) a .recovering s =
      (body (n + d) i a >>= fun b =>
        Recognizer.iterate test (body (n - 1 + (d + 1)) i) (n - 1 + e) b) .recovering s := by
  rw [s.length_kinds] at hn
  obtain ⟨k, rfl⟩ : ∃ k, n = k + 1 := ⟨n - 1, by omega⟩
  rw [Nat.add_sub_cancel, Nat.add_right_comm k 1 e, Nat.add_assoc k 1 d, Nat.add_comm 1 d]
  exact iterate_of_test htest (k + e) a

/-- The rounds of a loop whose body settles on words of `L`.  In the index, `d` and `e` say by how
much the fuel of the body and that of the loop exceed what is needed. -/
theorem iterate (hbody : Settles m (fun x => test x = true) (fun n (p : ι × α) => body n p.1 p.2) L)
    (hnil : [] ∈ M) (hround : ∀ ts ∈ L, ∀ us ∈ M, ts ++ us ∈ M) (hne : [] ∉ L) :
    Settles m (fun _ => True) (fun n (p : (ι × α) × Nat × Nat) =>
      Recognizer.iterate test (body (n + p.2.1) p.1.1) (n + p.2.2) p.1.2) M := by
  have hcomposed : ∀ n (p : (ι × α) × Nat × Nat),
      Composed (Recognizer.iterate test (body (n + p.2.1) p.1.1) (n + p.2.2) p.1.2) :=
    fun n p => .iterate (fun a => hbody.composed (n + p.2.1) (p.1.1, a)) _ _
  have hmul : ∀ ts ∈ L * M, ts ∈ M := by
    rintro _ ⟨ts, hts, us, hus, rfl⟩
    exact hround ts hts us hus
  -- the body in the index of the loop
  have hfirst : Settles m (fun x => test x = true) (fun n (p : (ι × α) × Nat × Nat) =>
      body (n + p.2.1) p.1.1 p.1.2) L :=
    (hbody.reindex Prod.fst).moreFuel fun p : (ι × α) × Nat × Nat => p.2.1
  refine ⟨hcomposed, ⟨[], hnil⟩, ?_⟩
  -- by the number of tokens: every round consumes one
  intro x rest _ hks hm
  induction hlength : (x :: rest).length using Nat.strongRecOn generalizing x rest with
  | _ length ih =>
    by_cases htest : test x = true
    · have hlook : ∀ {u : List κ} {y : κ} {v : List κ} {n : Nat} {s : State κ τ ω},
          x :: rest = u ++ y :: v → s.Fits n u y → test s.lookahead.kind = true := by
        intro u y v n s hsplit hs
        rw [hs.lookahead_kind_of_split hsplit]
        exact htest
      cases hfirst.settled x rest htest hks hm with
      | stops u y v hsplit hstops =>
        refine Settled.mono (L := L * M) ?_ hmul
        rw [hsplit]
        exact .ofStops hstops (fun n p b => hcomposed (n - 1) ((p.1.1, b), p.2.1 + 1, p.2.2))
          ⟨[], hnil⟩ fun n p s hs => iterate_turn (hlook hsplit hs) hs.fuel _ _ _ _
      | passes u y v hsplit hpasses =>
        by_cases hu : u = []
        · -- a body that consumes nothing contradicts its language
          subst hu
          exact .passes [] y v hsplit fun n p s hs => absurd (hpasses n p s hs).2 hne
        · have hpos : 0 < u.length := List.length_pos_iff.2 hu
          rw [hsplit, List.length_append] at hlength hm
          rw [hsplit] at hks
          have hrest := ih (y :: v).length (by omega) y v hks.right (by omega) rfl
          refine Settled.mono (L := L * M) ?_ hmul
          rw [hsplit]
          exact hrest.behind (g := fun p b => ((p.1.1, b), p.2.1 + 1, p.2.2)) (fun n => n - 1)
            (fun n => by omega) hpasses
            fun n p s hs => iterate_turn (hlook hsplit hs) hs.fuel _ _ _ _
    · refine .passes [] x rest rfl ?_
      rintro n ⟨⟨i, a⟩, d, e⟩ s hs
      obtain ⟨k, hk⟩ : ∃ k, n + e = k + 1 := ⟨n + e - 1, by
        have := hs.fuel
        have := hs.length_lt
        omega⟩
      refine ⟨((Silent.pure a).passes hs.ready).congr ?_, hnil⟩
      simp only [hk]
      refine iterate_of_not_test ?_ k a
      rw [hs.lookahead_kind]
      exact Bool.eq_false_iff.2 htest

variable (body) in
/-- A loop settles on sequences of words of its body. -/
theorem whileSees {a : Nat → ι → α}
    (hbody : Settles m (fun x => test x = true) (fun n (p : ι × α) => body n p.1 p.2) L)
    (hnil : [] ∈ M) (hround : ∀ ts ∈ L, ∀ us ∈ M, ts ++ us ∈ M) (hne : [] ∉ L) :
    Settles m heads (fun n i => Recognizer.whileSees test (body n i) (a n i)) M := by
  have hloop := hbody.iterate hnil hround hne
  refine (hloop.restrict fun _ _ => trivial).transfer
    (fun n i => .whileSees (fun b => hbody.composed n (i, b)) _) ?_
  intro n i s _ _ hn
  refine ⟨s.kinds.length, ((i, a n i), n - s.kinds.length, 0), Nat.le_refl _, ?_⟩
  simp only
  rw [Nat.add_sub_cancel' hn, Nat.add_zero, s.length_kinds]
  rfl

end

end Settles

end SinglePass
