import SinglePass.Proofs.Scanning.Lossless
import SinglePass.Proofs.Scanning.RoundTrip

/-!
# Lines are scanned one by one

Blanks and comments are skipped across the ends of lines, but no token goes on in the next line.  So
the tokens of some lines, followed by more lines, are those of the first ones followed by those of
the others, and a token only sees its own line (`drained_line_by_line`).

The run of the scanner is not cut here.  What a lexicon splits a line into is fixed by the text of
the line (`Lexicon.Splits.unique`), and except for the line numbers it does not depend on where the
line stands (`Lexicon.Splits.map_below`).  Going along the lines, the same holds of `Lexicon.Scans`,
and there it may be put together from parts (`Lexicon.Scans.append`).
-/

namespace SinglePass

variable {κ τ : Type}

/-- The same token some lines further down. -/
def Token.below (n : Nat) (t : Token κ) : Token κ :=
  { t with position := ⟨t.position.line + n, t.position.column⟩ }

/-! ## Lines on their own -/

namespace Lexicon

variable {l : Lexicon κ} {number column : Nat} {text : List Char} {lines more : List String}
  {ts us : List (Token κ)}

namespace Splits

/-- The text of a line decides what it is split into. -/
theorem unique (h : l.Splits number column text ts) (h' : l.Splits number column text us) :
    ts = us := by
  -- Blanks that reach over the end of a line do not stop before a lexeme of it.
  have hapart : ∀ {text before lexeme rest : List Char}, text = before ++ lexeme ++ rest →
      before.length ≠ text.length + 1 := by
    rintro _ before lexeme rest rfl
    simp only [List.length_append]
    omega
  induction h generalizing us with
  | nothing skipped =>
    cases h' with
    | nothing => rfl
    | lexeme text_eq skipped' => exact absurd (skipped'.symm.trans skipped) (hapart text_eq)
  | @lexeme column text before lexeme rest others text_eq skipped length_eq _ ih =>
    cases h' with
    | nothing skipped' => exact absurd (skipped.symm.trans skipped') (hapart text_eq)
    | @lexeme _ _ before' lexeme' rest' others' text_eq' skipped' length_eq' behind =>
      have hsame : before ++ (lexeme ++ rest) = before' ++ (lexeme' ++ rest') := by
        rw [← List.append_assoc, ← List.append_assoc, ← text_eq, ← text_eq']
      obtain ⟨rfl, hbehind⟩ := List.append_inj hsame (skipped.symm.trans skipped')
      have hlength : lexeme.length = lexeme'.length := by
        rw [← length_eq, ← length_eq', hbehind]
      obtain ⟨rfl, rfl⟩ := List.append_inj hbehind hlength
      rw [ih behind]

/-- A line is split in the same way wherever it stands. -/
theorem map_below (h : l.Splits number column text ts) (n : Nat) :
    l.Splits (number + n) column text (ts.map (·.below n)) := by
  induction h with
  | nothing skipped => exact .nothing skipped
  | lexeme text_eq skipped length_eq _ ih => exact .lexeme text_eq skipped length_eq ih

/-- The tokens of a line stand in this line. -/
theorem line_eq (h : l.Splits number column text ts) : ∀ t ∈ ts, t.position.line = number := by
  induction h with
  | nothing _ => simp
  | lexeme _ _ _ _ ih =>
    intro t ht
    rcases List.mem_cons.1 ht with rfl | ht
    · rfl
    · exact ih t ht

end Splits

/-! ## Lines after lines -/

namespace Scans

/-- Lines are scanned in one way only. -/
theorem unique (h : l.Scans number lines ts) (h' : l.Scans number lines us) : ts = us := by
  induction h generalizing us with
  | nil =>
    cases h'
    rfl
  | cons splits _ ih =>
    cases h' with
    | cons splits' others' => rw [splits.unique splits', ih others']

/-- Lines further below have their tokens as much further below. -/
theorem map_below (h : l.Scans number lines ts) (n : Nat) :
    l.Scans (number + n) lines (ts.map (·.below n)) := by
  induction h with
  | nil => exact .nil
  | cons splits _ ih =>
    rw [List.map_append]
    refine .cons (splits.map_below n) ?_
    rwa [Nat.add_right_comm] at ih

/-- Lines may be scanned in two parts. -/
theorem append (h : l.Scans number lines ts) (h' : l.Scans (number + lines.length) more us) :
    l.Scans number (lines ++ more) (ts ++ us) := by
  induction h with
  | nil => exact h'
  | @cons number line lines here others splits _ ih =>
    rw [List.append_assoc]
    refine .cons splits (ih ?_)
    rwa [List.length_cons, Nat.add_comm lines.length, ← Nat.add_assoc] at h'

/-- The tokens of some lines do not stand before the first of these. -/
theorem line_ge (h : l.Scans number lines ts) : ∀ t ∈ ts, number ≤ t.position.line := by
  induction h with
  | nil => simp
  | cons splits _ ih =>
    intro t ht
    rcases List.mem_append.1 ht with ht | ht
    · exact Nat.le_of_eq (splits.line_eq t ht).symm
    · exact Nat.le_of_succ_le (ih t ht)

/-- The tokens that stand on a line are those of this line alone. -/
theorem filter_line (h : l.Scans number lines ts) {i : Nat} (hi : i < lines.length) :
    l.Scans (number + i) [lines[i]] (ts.filter (·.position.line = number + i)) := by
  induction h generalizing i with
  | nil => simp at hi
  | @cons number line lines here others splits scans ih =>
    cases i with
    | zero =>
      have hothers : ∀ t ∈ others, t.position.line ≠ number := fun t ht =>
        Nat.ne_of_gt (scans.line_ge t ht)
      rw [Nat.add_zero, filter_line_append_left splits.line_eq hothers, ← List.append_nil here]
      exact .cons splits .nil
    | succ i =>
      have hhere : ∀ t ∈ here, t.position.line ≠ number + (i + 1) := by
        intro t ht
        have := splits.line_eq t ht
        omega
      have hnumber : number + (i + 1) = number + 1 + i := by omega
      rw [filter_line_append_right hhere, hnumber]
      exact ih (by simpa using hi)

end Scans

end Lexicon

variable [TokenKind κ]

/-! ## Draining -/

/-- A scanner that is put on some lines and drained gives these tokens and one that ends the source,
and finds these of them wrong. -/
structure Scanner.Drains (classifier : Classifier κ) (lines : List String)
    (sink : List (Diagnostic κ τ)) (tokens wrong : List (Token κ)) : Prop where
  tokens_eq : ∃ eof, eof.isEnd = true ∧
    (drain classifier (init (lines.map .line) sink)).1 = tokens ++ [eof]
  ordinary : ∀ t ∈ tokens, t.isEnd = false
  sink_eq : (drain classifier (init (lines.map .line) sink)).2.sink? =
    some (sink ++ wrong.map .lexical)

namespace Lexicon.Tiles

variable {l : Lexicon κ} {gap tail : List Char → Prop}

/-- All lines can be scanned. -/
theorem exists_scans (h : l.Tiles gap tail) (lines : List String) :
    ∃ ts : List (Token κ), l.Scans 1 lines ts := by
  obtain ⟨ts, -, -, hscans, -⟩ := Source.scanned (τ := Unit) h (lines.map .line)
  rw [Source.lines_map_line] at hscans
  exact ⟨ts, hscans⟩

/-- Draining a scanner gives what the lexicon splits the lines into, and its invalid tokens are what
is found wrong. -/
theorem drains (h : l.Tiles gap tail) {lines : List String} {ts : List (Token κ)}
    (hscans : l.Scans 1 lines ts) (sink : List (Diagnostic κ τ)) :
    Scanner.Drains l.classifier lines sink ts (ts.filter (TokenKind.isInvalid ·.kind)) := by
  obtain ⟨us, eof, failure?, hscans', htiled, -⟩ := Source.scanned (τ := τ) h (lines.map .line)
  rw [Source.lines_map_line] at hscans'
  obtain rfl := hscans.unique hscans'
  have htokens : Source.tokens l.classifier (lines.map .line) = ts ++ [eof] := by
    rw [← Source.map_token_stream (τ := τ), htiled.map_token]
  have heof : [eof].filter (TokenKind.isInvalid ·.kind) = [] := by
    rw [List.filter_cons_of_neg, List.filter_nil]
    rw [Token.isEnd_eq_true.1 htiled.ends, h.end_valid]
    exact Bool.false_ne_true
  refine ⟨⟨eof, htiled.ends, ?_⟩, htiled.ordinary, ?_⟩
  · rw [Scanner.tokens_drain, htokens]
  · rw [Scanner.sink_drain_of_readable (Source.readable_map_line lines), htokens,
      List.filter_append, heof, List.append_nil]

end Lexicon.Tiles

/-- A classifier scans the lines of a source one by one. -/
structure Classifier.LineByLine (classifier : Classifier κ) (τ : Type) : Prop where
  /-- Lines followed by others give their tokens followed by those of the others, only further down,
  and the same goes for what is found wrong. -/
  append : ∀ (lines more : List String) (sink sink' sink'' : List (Diagnostic κ τ)),
    ∃ tokens wrong tokens' wrong',
      Scanner.Drains classifier lines sink tokens wrong ∧
        Scanner.Drains classifier more sink' tokens' wrong' ∧
        Scanner.Drains classifier (lines ++ more) sink''
          (tokens ++ tokens'.map (·.below lines.length))
          (wrong ++ wrong'.map (·.below lines.length))
  /-- What is found on a line is what is found when there is no other. -/
  line : ∀ (lines : List String) (i : Nat) (_ : i < lines.length)
    (sink sink' : List (Diagnostic κ τ)),
    ∃ tokens wrong here wrongHere,
      Scanner.Drains classifier lines sink tokens wrong ∧
        Scanner.Drains classifier [lines[i]] sink' here wrongHere ∧
        tokens.filter (·.position.line = i + 1) = here.map (·.below i) ∧
        wrong.filter (·.position.line = i + 1) = wrongHere.map (·.below i)

/-- Tokens are invalid wherever they stand. -/
theorem filter_isInvalid_map_below (n : Nat) (ts : List (Token κ)) :
    (ts.map (·.below n)).filter (TokenKind.isInvalid ·.kind) =
      (ts.filter (TokenKind.isInvalid ·.kind)).map (·.below n) :=
  List.filter_map

/-- **Where lines are cut into gaps and lexemes, sources are scanned line by line.** -/
theorem Lexicon.Tiles.lineByLine {l : Lexicon κ} {gap tail : List Char → Prop}
    (h : l.Tiles gap tail) : l.classifier.LineByLine τ := by
  constructor
  · intro lines more sink sink' sink''
    obtain ⟨ts, hts⟩ := h.exists_scans lines
    obtain ⟨us, hus⟩ := h.exists_scans more
    refine ⟨ts, _, us, _, h.drains hts sink, h.drains hus sink', ?_⟩
    rw [← filter_isInvalid_map_below, ← List.filter_append]
    exact h.drains (hts.append (hus.map_below lines.length)) sink''
  · intro lines i hi sink sink'
    obtain ⟨ts, hts⟩ := h.exists_scans lines
    obtain ⟨us, hus⟩ := h.exists_scans [lines[i]]
    have hline : ts.filter (·.position.line = i + 1) = us.map (·.below i) := by
      have hfilter := hts.filter_line hi
      rw [Nat.add_comm 1 i] at hfilter
      apply hfilter.unique
      rw [Nat.add_comm i 1]
      exact hus.map_below i
    refine ⟨ts, _, us, _, h.drains hts sink, h.drains hus sink', hline, ?_⟩
    rw [List.filter_comm, hline, filter_isInvalid_map_below]

/-- Simple and word lists are scanned line by line. -/
theorem drained_line_by_line :
    Simple.classifier.LineByLine Simple.Ty ∧ WordList.classifier.LineByLine WordList.Ty :=
  ⟨Simple.tiles.lineByLine, WordList.tiles.lineByLine⟩

end SinglePass
