import Mathlib.Algebra.GroupWithZero.Nat
import Mathlib.Data.Nat.Find
import SinglePass.Proofs.Engine.Conservation
import SinglePass.Proofs.Scanning.Lines
import SinglePass.Proofs.Scanning.Stream

/-!
# Scanning comes to an end

A scanner that is called again and again reaches the end of its source, whatever the classifier
does: a token that does not end the source uses up a character, if need be by force.  The classifier
may even be another one with each call, which is all that a state of its own could make of it.

* A single call: `Session.consumed_lt_next`, `Session.next_next`, `Session.lexical_next`.
* `Session.Progresses` says what a sequence of calls does, and `scanning_progresses` that it does so
  on every source.  Draining a scanner makes the calls up to the first that ends the source.
-/

namespace SinglePass

variable {κ τ : Type} [TokenKind κ]

/-- A token that does not end the source counts a character. -/
theorem Cursor.consumed_lt_advance (classifier : Classifier κ) {c : Cursor}
    (h : (c.advance classifier).1.isEnd = false) :
    c.consumed < (c.advance classifier).2.consumed := by
  have hless := remaining_advance_lt classifier c h
  obtain ⟨n, hn⟩ := c.advance_eq_consume classifier
  rw [hn] at hless ⊢
  rw [remaining_consume] at hless
  rw [consumed_consume]
  omega

namespace Session

/-! ## One call -/

variable {s : Session κ τ} {classifier : Classifier κ}

/-- A session is at its end once it has answered with the token that ends the source. -/
theorem atEnd_next (s : Session κ τ) (classifier : Classifier κ) :
    (s.next classifier).2.atEnd = (s.next classifier).1.isEnd := by
  cases hs : s.atEnd with
  | false =>
    rw [next_of_atEnd_eq_false classifier hs]
    rfl
  | true =>
    obtain ⟨token, hend, hnext⟩ := next_of_atEnd hs
    rw [hnext, hs, hend]

/-- Where a call gives another token than the last, it has read that token. -/
theorem cursor_next (h : (s.next classifier).1.isEnd = false) :
    (s.cursor.advance classifier).1.isEnd = false ∧
      (s.next classifier).2.cursor = (s.cursor.advance classifier).2.acknowledge := by
  cases hs : s.atEnd with
  | false =>
    rw [next_of_atEnd_eq_false classifier hs] at h ⊢
    exact ⟨h, rfl⟩
  | true =>
    obtain ⟨token, hend, hnext⟩ := next_of_atEnd hs
    rw [hnext, hend] at h
    nomatch h

/-- A call that does not give the end of the source consumes a character. -/
theorem consumed_lt_next (h : (s.next classifier).1.isEnd = false) :
    s.cursor.consumed < (s.next classifier).2.cursor.consumed := by
  obtain ⟨hend, hcursor⟩ := cursor_next h
  rw [hcursor]
  exact Cursor.consumed_lt_advance classifier hend

/-- So there is one less to be consumed. -/
theorem remaining_next_lt (h : (s.next classifier).1.isEnd = false) :
    (s.next classifier).2.cursor.remaining < s.cursor.remaining := by
  obtain ⟨hend, hcursor⟩ := cursor_next h
  rw [hcursor]
  exact Cursor.remaining_advance_lt classifier s.cursor hend

/-- A call behind the end of the source does nothing and gives the same token again. -/
theorem next_next (h : (s.next classifier).1.isEnd = true) (other : Classifier κ) :
    (s.next classifier).2.next other = s.next classifier := by
  cases hs : s.atEnd with
  | false =>
    rw [next_of_atEnd_eq_false classifier hs] at h ⊢
    exact if_pos h
  | true =>
    obtain ⟨token, -, hnext⟩ := next_of_atEnd hs
    rw [hnext, hnext]

/-- A call records the lexical fault of the token that it reads, and no other. -/
theorem lexical_next (h : s.atEnd = false) (classifier : Classifier κ) :
    (s.next classifier).2.sink.filter Diagnostic.isLexical =
      s.sink.filter Diagnostic.isLexical ++
        ([(s.next classifier).1].filter (TokenKind.isInvalid ·.kind)).map .lexical := by
  rw [next_of_atEnd_eq_false classifier h, List.filter_append, Cursor.filter_isLexical_scan,
    ← flatMap_lexicalFaults, List.flatMap_singleton]

/-! ## Many calls -/

variable (classifiers : Nat → Classifier κ)

/-- The session behind the first `n` calls, each with a classifier of its own. -/
def after (s : Session κ τ) : Nat → Session κ τ
  | 0 => s
  | n + 1 => ((s.after n).next (classifiers n)).2

/-- The token that call `n` gives, counted from zero. -/
def answer (s : Session κ τ) (n : Nat) : Token κ := ((s.after classifiers n).next (classifiers n)).1

/-- The tokens that the first `n` calls give. -/
def answers (s : Session κ τ) (n : Nat) : List (Token κ) :=
  (List.range n).map (s.answer classifiers)

/-- What calling a scanner again and again amounts to. -/
structure Progresses (s : Session κ τ) (calls : Nat) : Prop where
  /-- A call that does not give the end of the source consumes a character. -/
  consumes : ∀ n, (s.answer classifiers n).isEnd = false →
    (s.after classifiers n).cursor.consumed < (s.after classifiers (n + 1)).cursor.consumed
  /-- One of the first calls gives the end of the source. -/
  ends : ∃ n < calls, (s.answer classifiers n).isEnd = true
  /-- From then on every call gives the same token and changes nothing. -/
  repeats : ∀ n, (s.answer classifiers n).isEnd = true → ∀ m, n ≤ m →
    s.answer classifiers m = s.answer classifiers n ∧
      s.after classifiers (m + 1) = s.after classifiers (n + 1)
  /-- Up to the first such call, the lexical faults recorded are those of the invalid tokens. -/
  lexical : ∀ n, (∀ k < n, (s.answer classifiers k).isEnd = false) →
    (s.after classifiers (n + 1)).sink.filter Diagnostic.isLexical =
      s.sink.filter Diagnostic.isLexical ++
        ((s.answers classifiers (n + 1)).filter (TokenKind.isInvalid ·.kind)).map .lexical

/-- One more call gives one more answer. -/
theorem answers_succ (s : Session κ τ) (n : Nat) :
    s.answers classifiers (n + 1) = s.answers classifiers n ++ [s.answer classifiers n] := by
  rw [answers, List.range_succ, List.map_append, List.map_singleton]
  rfl

/-- Calls that do not give the end of the source take a character each. -/
theorem remaining_after {n : Nat} (h : ∀ k < n, (s.answer classifiers k).isEnd = false) :
    (s.after classifiers n).cursor.remaining + n ≤ s.cursor.remaining := by
  induction n with
  | zero => exact Nat.le_refl _
  | succ n ih =>
    have hbefore := ih fun k hk => h k (Nat.lt_succ_of_lt hk)
    have hless : (s.after classifiers (n + 1)).cursor.remaining <
        (s.after classifiers n).cursor.remaining := remaining_next_lt (h n (Nat.lt_succ_self n))
    omega

/-- Among as many calls as there are characters, and one, there is one that gives the end. -/
theorem exists_isEnd_answer (s : Session κ τ) :
    ∃ n ≤ s.cursor.remaining, (s.answer classifiers n).isEnd = true := by
  by_contra hnone
  push Not at hnone
  have hall : ∀ k < s.cursor.remaining + 1, (s.answer classifiers k).isEnd = false :=
    fun k hk => Bool.eq_false_iff.2 (hnone k (Nat.le_of_lt_succ hk))
  have hcount := remaining_after classifiers hall
  omega

/-- **Behind the end, every call answers with the end again**, and changes nothing. -/
theorem repeats_of_isEnd {n : Nat} (h : (s.answer classifiers n).isEnd = true) {m : Nat}
    (hm : n ≤ m) : s.answer classifiers m = s.answer classifiers n ∧
      s.after classifiers (m + 1) = s.after classifiers (n + 1) := by
  induction m, hm using Nat.le_induction with
  | base => exact ⟨rfl, rfl⟩
  | succ m _ ih =>
    have hagain := next_next (s := s.after classifiers n) h (classifiers (m + 1))
    have hstate : s.after classifiers (m + 1) = ((s.after classifiers n).next (classifiers n)).2 :=
      ih.2
    show ((s.after classifiers (m + 1)).next (classifiers (m + 1))).1 = _ ∧
      ((s.after classifiers (m + 1)).next (classifiers (m + 1))).2 = _
    rw [hstate, hagain]
    exact ⟨rfl, rfl⟩

/-- Before the end, every answer that is invalid has been recorded. -/
theorem lexical_after (hs : s.atEnd = false) {n : Nat}
    (h : ∀ k < n, (s.answer classifiers k).isEnd = false) :
    (s.after classifiers (n + 1)).sink.filter Diagnostic.isLexical =
      s.sink.filter Diagnostic.isLexical ++
        ((s.answers classifiers (n + 1)).filter (TokenKind.isInvalid ·.kind)).map .lexical := by
  induction n with
  | zero => exact lexical_next hs (classifiers 0)
  | succ n ih =>
    have hgoesOn : (s.after classifiers (n + 1)).atEnd = false :=
      (atEnd_next _ _).trans (h n (Nat.lt_succ_self n))
    have hcall := lexical_next hgoesOn (classifiers (n + 1))
    rw [ih fun k hk => h k (Nat.lt_succ_of_lt hk), List.append_assoc, ← List.map_append,
      ← List.filter_append] at hcall
    rw [answers_succ]
    exact hcall

/-- Whatever the classifiers do, calling a scanner again and again comes to an end. -/
theorem progresses (hs : s.atEnd = false) {calls : Nat} (hcalls : s.cursor.remaining < calls) :
    s.Progresses classifiers calls where
  consumes _ h := consumed_lt_next h
  ends := by
    obtain ⟨n, hn, hend⟩ := exists_isEnd_answer classifiers s
    exact ⟨n, Nat.lt_of_le_of_lt hn hcalls, hend⟩
  repeats _ h _ hm := repeats_of_isEnd classifiers h hm
  lexical _ h := lexical_after classifiers hs h

end Session

/-! ## Draining -/

/-- Draining a scanner makes calls up to the first that gives the end of the source. -/
theorem Scanner.drainUpTo_after {s : Session κ τ} {classifier : Classifier κ} {last : Nat}
    (hend : (s.answer (fun _ => classifier) last).isEnd = true)
    (hbefore : ∀ k < last, (s.answer (fun _ => classifier) k).isEnd = false) {fuel n : Nat}
    (hn : n ≤ last) (hfuel : last < n + fuel) :
    drainUpTo classifier fuel (some (s.after (fun _ => classifier) n)) =
      ((List.range' n (last + 1 - n)).map (s.answer fun _ => classifier),
        some (s.after (fun _ => classifier) (last + 1))) := by
  induction fuel generalizing n with
  | zero => omega
  | succ fuel ih =>
    have hcall : next classifier (some (s.after (fun _ => classifier) n)) =
        (some (s.answer (fun _ => classifier) n), some (s.after (fun _ => classifier) (n + 1))) :=
      rfl
    rw [drainUpTo, hcall]
    -- The call that gives the end is the last; behind any other the drain goes on.
    obtain rfl | hlt := Nat.eq_or_lt_of_le hn
    · simp only [hend, if_true, Nat.add_sub_cancel_left, List.range'_one, List.map_singleton]
    · obtain ⟨k, hk⟩ : ∃ k, last + 1 - n = k + 1 := ⟨last - n, by omega⟩
      have hrest : last + 1 - (n + 1) = k := by omega
      simp only [hbefore n hlt, Bool.false_eq_true, if_false, hk, List.range'_succ, List.map_cons]
      rw [ih hlt (by omega), hrest]

/-- A source has as much to scan as its lines have characters, and one more for each line. -/
theorem Cursor.remaining_start (source : Source) :
    (Cursor.start source).remaining =
      (source.lines.map String.length).sum + source.lines.length := by
  rw [Cursor.start, remaining_refill, ← source.extent_lines]
  induction source.lines with
  | nil => rfl
  | cons text more ih =>
    rw [List.map_cons, Source.extent, ih, List.map_cons, List.sum_cons, List.length_cons]
    omega

/-- On every source and with any classifiers, calling a scanner comes to an end: after no more calls
than there are characters and lines, and one.  Draining the scanner makes these calls. -/
theorem scanning_progresses (source : Source) (sink : List (Diagnostic κ τ)) :
    (∀ classifiers, (Session.start source sink).Progresses classifiers
      ((source.lines.map String.length).sum + source.lines.length + 1)) ∧
    ∀ classifier : Classifier κ, ∃ last,
      ((Session.start source sink).answer (fun _ => classifier) last).isEnd = true ∧
      (∀ k < last, ((Session.start source sink).answer (fun _ => classifier) k).isEnd = false) ∧
      Scanner.drain classifier (.init source sink) =
        ((Session.start source sink).answers (fun _ => classifier) (last + 1),
          some ((Session.start source sink).after (fun _ => classifier) (last + 1))) := by
  constructor
  · intro classifiers
    apply Session.progresses classifiers rfl
    have hremaining : (Session.start source sink).cursor.remaining =
        (source.lines.map String.length).sum + source.lines.length := Cursor.remaining_start source
    omega
  · intro classifier
    have hsome := Session.exists_isEnd_answer (fun _ => classifier) (Session.start source sink)
    have hends : ∃ n, ((Session.start source sink).answer (fun _ => classifier) n).isEnd = true :=
      hsome.imp fun _ => And.right
    have hbefore : ∀ k < Nat.find hends,
        ((Session.start source sink).answer (fun _ => classifier) k).isEnd = false :=
      fun k hk => Bool.eq_false_iff.2 (Nat.find_min hends hk)
    refine ⟨Nat.find hends, Nat.find_spec hends, hbefore, ?_⟩
    have hfuel : Nat.find hends < 0 + ((Session.start source sink).cursor.remaining + 1) := by
      obtain ⟨n, hn, hend⟩ := hsome
      have hle := Nat.find_min' hends hend
      omega
    rw [Session.answers, List.range_eq_range']
    exact Scanner.drainUpTo_after (Nat.find_spec hends) hbefore (Nat.zero_le _) hfuel

end SinglePass
