import Mathlib.Data.List.Forall2
import SinglePass.Proofs.Scanning.Tiling

/-!
# Nothing behind the lines matters

A source may end behind its lines, or fail there, and there may be anything behind a failure.  The
tokens of a language whose lexicon tiles lines are the same in each case, and only the failure
itself is recorded besides (`Source.stream_alike`).

Two cursors in two such sources go side by side (`Cursor.Alike`).  Skipping what is blank counts the
readings to come, which may be more in one source than in the other; that it stops at the same place
is shown line by line, with the promise of the lexicon.
-/

namespace SinglePass

variable {κ τ : Type} [TokenKind κ]

omit [TokenKind κ] in
/-- What can be consumed of a source are its lines. -/
theorem Source.extent_lines (source : Source) :
    Source.extent (source.lines.map .line) = source.extent := by
  induction source with
  | nil => rfl
  | cons reading more ih =>
    cases reading with
    | line text => rw [lines, List.map_cons, extent, extent, ih]
    | failure cause => rfl

/-! ## Cursors -/

namespace Cursor

/-- Two cursors at one place of a line, with the same lines to come. -/
structure Alike (c d : Cursor) : Prop where
  rest_eq : d.rest = c.rest
  lines_eq : d.pending.lines = c.pending.lines
  taken_eq : d.taken = c.taken
  column_eq : d.column = c.column
  consumed_eq : d.consumed = c.consumed
  lined : c.rest = [] ∨ ∃ text, c.rest = text ++ [endOfLine]

/-- Where there is no further line, the cursor stops, at an end or at a failure. -/
theorem refill_of_lines_nil {c : Cursor} (h : c.pending.lines = []) :
    ∃ pending failure, c.refill = ⟨[], pending, c.taken, c.column, c.consumed, failure⟩ ∧
      pending.lines = [] := by
  obtain ⟨rest, pending, taken, column, consumed, failure⟩ := c
  cases pending with
  | nil => exact ⟨_, _, rfl, rfl⟩
  | cons reading more =>
    cases reading with
    | line text => nomatch h
    | failure cause => exact ⟨_, _, rfl, rfl⟩

/-- Refilling takes the next line, if there is one. -/
theorem refill_of_lines_cons {c : Cursor} {text : String} {more : List String}
    (h : c.pending.lines = text :: more) :
    ∃ pending, c.refill = ⟨text.toList ++ [endOfLine], pending, c.taken + 1, 1, c.consumed,
        c.failure⟩ ∧ pending.lines = more := by
  obtain ⟨rest, pending, taken, column, consumed, failure⟩ := c
  cases pending with
  | nil => nomatch h
  | cons reading behind =>
    cases reading with
    | line text' =>
      obtain ⟨rfl, hmore⟩ := List.cons.inj h
      exact ⟨behind, rfl, hmore⟩
    | failure cause => nomatch h

namespace Alike

variable {c d : Cursor}

/-- Cursors that are alike stay so when they are refilled. -/
theorem refill (lines_eq : d.pending.lines = c.pending.lines) (taken_eq : d.taken = c.taken)
    (column_eq : d.column = c.column) (consumed_eq : d.consumed = c.consumed) :
    c.refill.Alike d.refill := by
  cases hlines : c.pending.lines with
  | nil =>
    obtain ⟨pending, failure, hc, hpending⟩ := refill_of_lines_nil hlines
    obtain ⟨pending', failure', hd, hpending'⟩ := refill_of_lines_nil (lines_eq.trans hlines)
    rw [hc, hd]
    exact ⟨rfl, hpending'.trans hpending.symm, taken_eq, column_eq, consumed_eq, .inl rfl⟩
  | cons text more =>
    obtain ⟨pending, hc, hpending⟩ := refill_of_lines_cons hlines
    obtain ⟨pending', hd, hpending'⟩ := refill_of_lines_cons (lines_eq.trans hlines)
    rw [hc, hd]
    exact ⟨rfl, hpending'.trans hpending.symm, congrArg (· + 1) taken_eq, rfl, consumed_eq,
      .inr ⟨text.toList, rfl⟩⟩

/-- Cursors that are alike stay so after a step. -/
theorem step (h : c.Alike d) : c.step.Alike d.step := by
  obtain ⟨rest, pending, taken, column, consumed, failure⟩ := c
  obtain ⟨rest', pending', taken', column', consumed', failure'⟩ := d
  obtain ⟨rfl, hlines, rfl, rfl, rfl, hlined⟩ := h
  rcases rest' with _ | ⟨a, _ | ⟨b, rest'⟩⟩
  · exact ⟨rfl, hlines, rfl, rfl, rfl, .inl rfl⟩
  · exact .refill hlines rfl rfl rfl
  · refine ⟨rfl, hlines, rfl, rfl, rfl, .inr ?_⟩
    obtain hnil | ⟨text, htext⟩ := hlined
    · nomatch hnil
    · cases text with
      | nil => nomatch htext
      | cons a' text => exact ⟨text, (List.cons.inj htext).2⟩

/-- Cursors that are alike stay so as characters are consumed. -/
theorem consume (h : c.Alike d) (n : Nat) : (c.consume n).Alike (d.consume n) := by
  induction n generalizing c d with
  | zero => exact h
  | succ n ih =>
    rw [consume_succ, consume_succ]
    exact ih h.step

/-- Cursors that are alike stay so when failures are acknowledged. -/
theorem acknowledge (h : c.Alike d) : c.acknowledge.Alike d.acknowledge :=
  ⟨h.rest_eq, h.lines_eq, h.taken_eq, h.column_eq, h.consumed_eq, h.lined⟩

/-- Cursors that are alike stand at one position. -/
theorem position_eq (h : c.Alike d) : d.position = c.position := by
  rw [position, position, line, line, h.taken_eq, h.column_eq]

/-- Cursors that are alike have as much left. -/
theorem remaining_eq (h : c.Alike d) : d.remaining = c.remaining := by
  rw [remaining, remaining, exhausted, exhausted, h.rest_eq, ← d.pending.extent_lines,
    h.lines_eq, Source.extent_lines]

/-- Cursors at the beginning of two sources with the same lines. -/
theorem start {source source' : Source} (h : source'.lines = source.lines) :
    (Cursor.start source).Alike (Cursor.start source') :=
  .refill h rfl rfl rfl

end Alike

end Cursor

/-! ## Tokens -/

/-- One token, read with no fault but its own, and perhaps a failure to read. -/
structure Scanned.Alike (n n' : Scanned κ τ) : Prop where
  token_eq : n'.token = n.token
  faults_eq : n.faults.filter (!·.isIo) = Cursor.lexicalFaults n.token
  faults_eq' : n'.faults.filter (!·.isIo) = Cursor.lexicalFaults n.token

namespace Cursor

omit [TokenKind κ] in
/-- A cursor has no other fault than a failure to read. -/
theorem filter_faults (c : Cursor) : (c.faults : List (Diagnostic κ τ)).filter (!·.isIo) = [] := by
  unfold faults
  split <;> rfl

/-- Failures to read apart, a token is read with its own faults. -/
theorem filter_faults_scan (classifier : Classifier κ) (c : Cursor) :
    (c.scan (τ := τ) classifier).1.faults.filter (!·.isIo) =
      lexicalFaults (c.advance classifier).1 := by
  show ((c.advance classifier).2.faults ++ lexicalFaults (c.advance classifier).1).filter _ = _
  rw [List.filter_append, filter_faults, List.nil_append, lexicalFaults]
  split <;> rfl

end Cursor

namespace Lexicon.Tiles

variable {l : Lexicon κ} {gap tail : List Char → Prop} {c d : Cursor}

/-- What is blank is skipped to the same place. -/
theorem skip_alike (h : l.Tiles gap tail) (hcd : c.Alike d) :
    (c.skip l.blank).Alike (d.skip l.blank) := by
  -- A line without a lexeme is left behind, so the induction is on the lines that are pending.
  generalize hn : c.pending.length = n
  induction n using Nat.strongRecOn generalizing c d with
  | ind n ih =>
    have stops (hrest : c.rest = []) : (c.skip l.blank).Alike (d.skip l.blank) := by
      rw [c.skip_of_exhausted _ (Cursor.exhausted_iff.2 hrest),
        d.skip_of_exhausted _ (Cursor.exhausted_iff.2 (hcd.rest_eq.trans hrest))]
      exact hcd
    obtain hrest | ⟨text, htext⟩ := hcd.lined
    · exact stops hrest
    have htext' := hcd.rest_eq.trans htext
    cases h.opens text with
    | nothing behind skipped =>
      rw [Cursor.skip_of_line htext (by rw [htext, skipped]),
        Cursor.skip_of_line htext' (by rw [htext', skipped])]
      have hnext := hcd.consume (text.length + 1)
      obtain hend | ⟨_, _, hlt⟩ := Cursor.consume_line_cases htext
      · rw [Cursor.skip_of_exhausted _ (Cursor.exhausted_iff.2 hend),
          Cursor.skip_of_exhausted _ (Cursor.exhausted_iff.2 (hnext.rest_eq.trans hend))]
        exact hnext
      · exact ih _ (hn ▸ hlt) hnext rfl
    | lexeme before lexeme rest text_eq apart lexeme_ne skipped length_eq ordinary =>
      have hlt : l.blank c.rest < c.rest.length := by
        rw [htext, skipped, text_eq]
        simp only [List.length_append, List.length_singleton]
        omega
      rw [Cursor.skip_of_lt l.blank hlt, Cursor.skip_of_lt l.blank (by rwa [hcd.rest_eq]),
        hcd.rest_eq]
      exact hcd.consume _

/-- The next token is the same. -/
theorem advance_alike (h : l.Tiles gap tail) (hcd : c.Alike d) :
    (d.advance l.classifier).1 = (c.advance l.classifier).1 ∧
      (c.advance l.classifier).2.Alike (d.advance l.classifier).2 := by
  have hlined : d.rest = [] ∨ ∃ text, d.rest = text ++ [endOfLine] := by
    rw [hcd.rest_eq]
    exact hcd.lined
  have hskip := h.skip_alike hcd
  rw [h.advance_eq hcd.lined, h.advance_eq hlined]
  by_cases hrest : (c.skip l.blank).rest = []
  · rw [read_of_rest_nil l hrest, read_of_rest_nil l (hskip.rest_eq.trans hrest),
      hskip.position_eq]
    exact ⟨rfl, hskip⟩
  · rw [read_of_rest_ne_nil l hrest, read_of_rest_ne_nil l (by rwa [hskip.rest_eq]),
      hskip.position_eq, hskip.rest_eq]
    exact ⟨rfl, hskip.consume _⟩

/-- Cursors that are alike scan one token each, and these are alike. -/
theorem scan_alike (h : l.Tiles gap tail) (hcd : c.Alike d) :
    (c.scan (τ := τ) l.classifier).1.Alike (d.scan l.classifier).1 ∧
      (c.scan (τ := τ) l.classifier).2.Alike (d.scan (τ := τ) l.classifier).2 := by
  obtain ⟨htoken, hcursor⟩ := h.advance_alike hcd
  have hfaults' := d.filter_faults_scan (τ := τ) l.classifier
  rw [htoken] at hfaults'
  exact ⟨⟨htoken, c.filter_faults_scan l.classifier, hfaults'⟩, hcursor.acknowledge⟩

/-- Cursors that are alike scan tokens that are alike, up to a bound. -/
theorem scanUpTo_alike (h : l.Tiles gap tail) (hcd : c.Alike d) (n : Nat) :
    List.Forall₂ Scanned.Alike (c.scanUpTo (τ := τ) l.classifier n)
      (d.scanUpTo l.classifier n) := by
  induction n generalizing c d with
  | zero => exact .nil
  | succ n ih =>
    obtain ⟨hscanned, hcursor⟩ := h.scan_alike (τ := τ) hcd
    rw [Cursor.scanUpTo, Cursor.scanUpTo, hscanned.token_eq]
    split
    · exact .cons hscanned .nil
    · exact .cons hscanned (ih hcursor)

end Lexicon.Tiles

/-- Two sources with the same lines are scanned alike, but for failures to read. -/
theorem Source.stream_alike {l : Lexicon κ} {gap tail : List Char → Prop} (h : l.Tiles gap tail)
    {source source' : Source} (hlines : source'.lines = source.lines) :
    List.Forall₂ Scanned.Alike (source.stream (τ := τ) l.classifier)
      (source'.stream l.classifier) := by
  have hstart := (Cursor.Alike.start hlines).acknowledge
  have hstream := h.scanUpTo_alike (τ := τ) hstart
    ((Cursor.start source).acknowledge.remaining + 1)
  rw [Source.stream, Source.stream, Cursor.stream, Cursor.stream, hstart.remaining_eq]
  exact hstream

end SinglePass
