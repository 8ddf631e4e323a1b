import SinglePass.Proofs.TokenStream

/-!
# A scanner at work

What a call of a scanner does before and behind the end of its source, and that draining a scanner
gives the tokens of its source.
-/

namespace SinglePass

variable {κ τ : Type} [TokenKind κ]

namespace Cursor

/-- More rounds than there are characters left make no difference. -/
theorem scanUpTo_eq_scanUpTo (classifier : Classifier κ) {m n : Nat} {c : Cursor}
    (hm : c.remaining < m) (hn : c.remaining < n) :
    (c.scanUpTo classifier m : List (Scanned κ τ)) = c.scanUpTo classifier n := by
  induction m generalizing n c with
  | zero => omega
  | succ m ih =>
    obtain ⟨n, rfl⟩ : ∃ k, n = k + 1 := ⟨n - 1, by omega⟩
    rw [scanUpTo, scanUpTo]
    by_cases hend : (c.scan (τ := τ) classifier).1.token.isEnd = true
    · rw [if_pos hend, if_pos hend]
    · rw [if_neg hend, if_neg hend]
      have hlt : (c.scan (τ := τ) classifier).2.remaining < c.remaining :=
        remaining_advance_lt classifier c (Bool.eq_false_iff.2 hend)
      rw [ih (n := n) (by omega) (by omega)]

/-- The stream of a cursor: a token, and what comes behind it unless it ends the source. -/
theorem stream_eq (classifier : Classifier κ) (c : Cursor) :
    (c.stream classifier : List (Scanned κ τ)) =
      if (c.scan (τ := τ) classifier).1.token.isEnd then [(c.scan classifier).1]
      else (c.scan classifier).1 :: (c.scan (τ := τ) classifier).2.stream classifier := by
  rw [stream, scanUpTo]
  by_cases hend : (c.scan (τ := τ) classifier).1.token.isEnd = true
  · rw [if_pos hend, if_pos hend]
  · rw [if_neg hend, if_neg hend, stream]
    have hlt : (c.scan (τ := τ) classifier).2.remaining < c.remaining :=
      remaining_advance_lt classifier c (Bool.eq_false_iff.2 hend)
    rw [scanUpTo_eq_scanUpTo classifier hlt (Nat.lt_succ_self _)]

end Cursor

/-! ## Calling a scanner -/

namespace Session

variable {s : Session κ τ}

/-- Before the token that ends the source, a call reads a token and records what it meets. -/
theorem next_of_atEnd_eq_false (classifier : Classifier κ) (h : s.atEnd = false) :
    s.next classifier =
      ((s.cursor.scan (τ := τ) classifier).1.token,
        ⟨(s.cursor.scan (τ := τ) classifier).2, s.sink ++ (s.cursor.scan classifier).1.faults,
          some (s.cursor.scan (τ := τ) classifier).1.token⟩) := by
  unfold next
  cases hc : s.current? with
  | none => rfl
  | some token =>
    have : token.isEnd = false := by simpa [atEnd, hc] using h
    simp [this]

/-- Behind it a call reads nothing, with whatever classifier. -/
theorem next_of_atEnd (h : s.atEnd = true) :
    ∃ token, token.isEnd = true ∧ ∀ classifier, s.next classifier = (token, s) := by
  unfold next
  cases hc : s.current? with
  | none => simp [atEnd, hc] at h
  | some token =>
    have hend : token.isEnd = true := by simpa [atEnd, hc] using h
    exact ⟨token, hend, fun _ => if_pos hend⟩

end Session

/-! ## Draining a scanner -/

namespace Scanner

/-- Draining a session scans its tokens. -/
theorem tokens_drainUpTo (classifier : Classifier κ) (n : Nat) {session : Session κ τ}
    (h : session.atEnd = false) :
    (drainUpTo classifier n (some session)).1 =
      (session.cursor.scanUpTo (τ := τ) classifier n).map Scanned.token := by
  induction n generalizing session with
  | zero => rfl
  | succ n ih =>
    simp only [drainUpTo, next, Session.next_of_atEnd_eq_false classifier h, Cursor.scanUpTo]
    by_cases hend : (session.cursor.scan (τ := τ) classifier).1.token.isEnd = true
    · rw [if_pos hend, if_pos hend]
      rfl
    · have hgoesOn : Session.atEnd ⟨(session.cursor.scan (τ := τ) classifier).2,
          session.sink ++ (session.cursor.scan classifier).1.faults,
          some (session.cursor.scan (τ := τ) classifier).1.token⟩ = false :=
        Bool.eq_false_iff.2 hend
      rw [if_neg hend, if_neg hend, List.map_cons, ← ih hgoesOn]

/-- Draining a scanner gives all tokens of its source, whatever was recorded before. -/
theorem tokens_drain (classifier : Classifier κ) (source : Source) (sink : List (Diagnostic κ τ)) :
    (drain classifier (init source sink)).1 = source.tokens classifier := by
  rw [← source.map_token_stream (τ := τ)]
  exact tokens_drainUpTo classifier _ rfl

/-- Draining a session records the faults that come with its tokens. -/
theorem sink_drainUpTo (classifier : Classifier κ) (n : Nat) {session : Session κ τ}
    (h : session.atEnd = false) :
    (drainUpTo classifier n (some session)).2.sink? =
      some (session.sink ++
        (session.cursor.scanUpTo classifier n : List (Scanned κ τ)).flatMap Scanned.faults) := by
  induction n generalizing session with
  | zero => simp [drainUpTo, sink?, Cursor.scanUpTo]
  | succ n ih =>
    simp only [drainUpTo, next, Session.next_of_atEnd_eq_false classifier h, Cursor.scanUpTo]
    by_cases hend : (session.cursor.scan (τ := τ) classifier).1.token.isEnd = true
    · rw [if_pos hend, if_pos hend, List.flatMap_singleton]
      rfl
    · have hgoesOn : Session.atEnd ⟨(session.cursor.scan (τ := τ) classifier).2,
          session.sink ++ (session.cursor.scan classifier).1.faults,
          some (session.cursor.scan (τ := τ) classifier).1.token⟩ = false :=
        Bool.eq_false_iff.2 hend
      rw [if_neg hend, if_neg hend, List.flatMap_cons, ← List.append_assoc, ← ih hgoesOn]

/-- Draining a scanner records what the tokens of its source bring with them, behind a failure of
the first line. -/
theorem sink_drain (classifier : Classifier κ) (source : Source) (sink : List (Diagnostic κ τ)) :
    (drain classifier (init source sink)).2.sink? =
      some (sink ++ (Cursor.start source).faults ++
        (source.stream classifier).flatMap Scanned.faults) :=
  sink_drainUpTo classifier _ rfl

end Scanner

end SinglePass
