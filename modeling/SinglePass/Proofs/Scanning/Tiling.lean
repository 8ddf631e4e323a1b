import SinglePass.Proofs.Scanning.Layout

/-!
# Lexicons that tile their lines

A lexicon looks at the rest of a line, its end included, and answers how much of it is blank and
how long the first lexeme is.  It `Tiles` lines if these answers never reach into the end of the
line except to skip it, and always cover at least one character.  For such a lexicon moving on by
force is never needed, and the tokens of a source are laid out in its lines (`Source.tiled`).  They
are also those that the lexicon splits each line into on its own (`Source.scanned`).

`Source.lines` are the lines before the first failure.  The token that ends the source stands behind
the last of them, and the failure, if there is one, is reported there.
-/

namespace SinglePass

variable {κ τ : Type} [TokenKind κ]

/-- A token with no fault but its own. -/
def Scanned.ofToken (t : Token κ) : Scanned κ τ := ⟨t, Cursor.lexicalFaults t⟩

/-! ## The promise of a lexicon -/

/-- What a lexicon finds in the rest of a line: nothing but blanks, or a lexeme behind a gap. -/
inductive Lexicon.Opens (l : Lexicon κ) (gap tail : List Char → Prop) (text : List Char) : Prop
  | nothing (behind : tail text) (skipped : l.blank (text ++ [endOfLine]) = text.length + 1)
  | lexeme (before lexeme rest : List Char) (text_eq : text = before ++ lexeme ++ rest)
      (apart : gap before) (lexeme_ne : lexeme ≠ [])
      (skipped : l.blank (text ++ [endOfLine]) = before.length)
      (length_eq : (l.lexeme (lexeme ++ rest ++ [endOfLine])).2 = lexeme.length)
      (ordinary : (l.lexeme (lexeme ++ rest ++ [endOfLine])).1 ≠ TokenKind.endOfFile)

namespace Lexicon.Opens

variable {l : Lexicon κ} {gap tail : List Char → Prop} {c : Char} {text : List Char}

/-- A character that is skipped changes nothing else. -/
theorem cons (h : l.Opens gap tail text) (hgap : ∀ before, gap before → gap (c :: before))
    (htail : tail text → tail (c :: text))
    (hskip : l.blank (c :: text ++ [endOfLine]) = l.blank (text ++ [endOfLine]) + 1) :
    l.Opens gap tail (c :: text) := by
  cases h with
  | nothing behind skipped => exact .nothing (htail behind) (by rw [hskip, skipped]; rfl)
  | lexeme before lexeme rest text_eq apart lexeme_ne skipped length_eq ordinary =>
    exact .lexeme (c :: before) lexeme rest (by rw [text_eq]; rfl) (hgap before apart) lexeme_ne
      (by rw [hskip, skipped]; rfl) length_eq ordinary

/-- A text may begin with a lexeme. -/
theorem of_lexeme (hgap : gap []) (hskip : l.blank (text ++ [endOfLine]) = 0)
    (hpos : 0 < (l.lexeme (text ++ [endOfLine])).2)
    (hle : (l.lexeme (text ++ [endOfLine])).2 ≤ text.length)
    (hordinary : (l.lexeme (text ++ [endOfLine])).1 ≠ TokenKind.endOfFile) :
    l.Opens gap tail text := by
  generalize hk : (l.lexeme (text ++ [endOfLine])).2 = k at hpos hle
  have hlength : (text.take k).length = k := by rw [List.length_take, Nat.min_eq_left hle]
  have hsplit := List.take_append_drop k text
  refine .lexeme [] (text.take k) (text.drop k) hsplit.symm hgap ?_ hskip ?_ ?_
  · intro hnil
    rw [hnil, List.length_nil] at hlength
    omega
  · rw [hsplit, hlength]
    exact hk
  · rw [hsplit]
    exact hordinary

end Lexicon.Opens

/-- A lexicon whose gaps and lexemes fill each line up to its end. -/
structure Lexicon.Tiles (l : Lexicon κ) (gap tail : List Char → Prop) : Prop where
  opens : ∀ text, l.Opens gap tail text
  /-- The end of a source is no lexical fault. -/
  end_valid : TokenKind.isInvalid (TokenKind.endOfFile : κ) = false

/-! ## The lines of a source -/

namespace Source

/-- The lines that can be read. -/
def lines : Source → List String
  | .line text :: more => text :: lines more
  | _ => []

/-- Why the source cannot be read to its end. -/
def failure? : Source → Option String
  | .line _ :: more => failure? more
  | .failure cause :: _ => some cause
  | [] => none

/-- The lines of given texts are these texts. -/
@[simp] theorem lines_map_line (texts : List String) : lines (texts.map .line) = texts := by
  induction texts with
  | nil => rfl
  | cons text texts ih => rw [List.map_cons, lines, ih]

end Source

namespace Cursor

/-! ## Moving along a line -/

/-- Within a line, consuming characters drops them and counts columns. -/
theorem consume_of_lt {c : Cursor} {n : Nat} (h : n < c.rest.length) :
    c.consume n =
      { c with rest := c.rest.drop n, column := c.column + n, consumed := c.consumed + n } := by
  induction n generalizing c with
  | zero => rfl
  | succ n ih =>
    obtain ⟨rest, pending, taken, column, consumed, failure⟩ := c
    rcases rest with _ | ⟨a, _ | ⟨b, rest⟩⟩
    · simp at h
    · simp at h
    · have hlt : n < (b :: rest).length := Nat.lt_of_succ_lt_succ h
      rw [consume_succ, step, ih hlt]
      simp only [List.drop_succ_cons, Nat.add_assoc, Nat.add_comm 1 n]

/-- Within a line the rest of the line stays. -/
theorem consume_within {c : Cursor} {before rest : List Char}
    (h : c.rest = before ++ rest ++ [endOfLine]) :
    c.consume before.length =
      { c with rest := rest ++ [endOfLine], column := c.column + before.length,
               consumed := c.consumed + before.length } := by
  have hlt : before.length < c.rest.length := by
    rw [h, List.length_append, List.length_append, List.length_singleton]
    omega
  rw [consume_of_lt hlt, h, List.append_assoc, List.drop_left]

/-- So it does behind a lexeme with something before it. -/
theorem consume_lexeme {c : Cursor} {before lexeme rest : List Char}
    (h : c.rest = before ++ lexeme ++ rest ++ [endOfLine]) :
    c.consume (before.length + lexeme.length) =
      { c with rest := rest ++ [endOfLine], column := c.column + before.length + lexeme.length,
               consumed := c.consumed + (before.length + lexeme.length) } := by
  rw [← List.length_append, consume_within h, List.length_append, Nat.add_assoc]

/-- The end of a line brings in the next reading. -/
theorem consume_line {c : Cursor} {text : List Char} (h : c.rest = text ++ [endOfLine]) :
    c.consume (text.length + 1) =
      refill { c with rest := [endOfLine], column := c.column + text.length,
                      consumed := c.consumed + text.length + 1 } := by
  have hlt : text.length < c.rest.length := by
    rw [h, List.length_append]
    exact Nat.lt_succ_self _
  rw [consume_add, consume_of_lt hlt, consume_succ, consume_zero, h, List.drop_left]
  rfl

/-! ## Skipping -/

/-- Behind the last line there are no lines to skip. -/
theorem skipLines_of_exhausted (blank : List Char → Nat) {c : Cursor} (h : c.exhausted = true)
    (n : Nat) : skipLines blank n c = c := by
  induction n with
  | zero => exact consume_of_exhausted h _
  | succ n ih =>
    rw [skipLines, consume_of_exhausted h, ih]
    split <;> rfl

/-- Blanks that end before their line does are consumed. -/
theorem skip_of_lt (blank : List Char → Nat) {c : Cursor}
    (h : blank c.rest < c.rest.length) : c.skip blank = c.consume (blank c.rest) := by
  have hne : ¬ ((c.rest.drop (blank c.rest)).isEmpty = true) := by
    rw [List.isEmpty_iff, List.drop_eq_nil_iff]
    omega
  unfold skip
  cases c.pending.length with
  | zero => rfl
  | succ n => rw [skipLines, if_neg hne]

/-- A line that is blank to its end is skipped like any other consumption. -/
theorem skip_of_line {blank : List Char → Nat} {c : Cursor} {text : List Char}
    (h : c.rest = text ++ [endOfLine]) (hblank : blank c.rest = text.length + 1) :
    c.skip blank = (c.consume (text.length + 1)).skip blank := by
  have hnext := consume_line h
  have hnil : (c.rest.drop (blank c.rest)).isEmpty = true := by
    rw [hblank, h, List.isEmpty_iff, List.drop_eq_nil_iff, List.length_append]
    exact Nat.le_refl _
  cases hpending : c.pending with
  | nil =>
    have hend : (c.consume (text.length + 1)).exhausted = true := by
      rw [hnext, exhausted_iff, refill]
      simp only [hpending]
    rw [skip_of_exhausted blank hend, skip, hpending, List.length_nil, skipLines, hblank]
  | cons reading more =>
    have hskip : c.skip blank = skipLines blank more.length (c.consume (text.length + 1)) := by
      rw [skip, hpending, List.length_cons, skipLines, if_pos hnil, hblank]
    cases reading with
    | line next =>
      have hmore : (c.consume (text.length + 1)).pending = more := by
        rw [hnext, refill]
        simp only [hpending]
      rw [hskip, skip, hmore]
    | failure cause =>
      have hend : (c.consume (text.length + 1)).exhausted = true := by
        rw [hnext, exhausted_iff, refill]
        simp only [hpending]
      rw [hskip, skipLines_of_exhausted blank hend, skip_of_exhausted blank hend]

/-- Behind a line stands the next one. -/
theorem consume_line_of_line {c : Cursor} {text : List Char} (h : c.rest = text ++ [endOfLine])
    {next : String} {more : Source} (hpending : c.pending = .line next :: more) :
    ∃ d, c.consume (text.length + 1) = d ∧ d.rest = next.toList ++ [endOfLine] ∧
      d.pending = more ∧ d.taken = c.taken + 1 ∧ d.column = 1 ∧ d.failure = c.failure := by
  refine ⟨_, rfl, ?_⟩
  rw [consume_line h, refill]
  simp only [hpending, and_self]

omit [TokenKind κ] in
/-- Behind the last line the source ends, and a failure is met there. -/
theorem consume_line_of_last {c : Cursor} {text : List Char} (h : c.rest = text ++ [endOfLine])
    (hfailure : c.failure = none) (hlines : c.pending.lines = []) :
    ∃ d, c.consume (text.length + 1) = d ∧ d.rest = [] ∧
      d.position = ⟨c.line, c.column + text.length⟩ ∧
      (d.faults : List (Diagnostic κ τ)) = (c.pending.failure?.map (.io d.position)).toList := by
  refine ⟨_, rfl, ?_⟩
  rw [consume_line h, refill]
  cases hpending : c.pending with
  | nil => exact ⟨rfl, rfl, by simp [faults, hfailure, Source.failure?]⟩
  | cons reading more =>
    cases reading with
    | line next => simp [hpending, Source.lines] at hlines
    | failure cause => exact ⟨rfl, rfl, rfl⟩

/-- Behind a line stands another line, or the source ends there. -/
theorem consume_line_cases {c : Cursor} {text : List Char} (h : c.rest = text ++ [endOfLine]) :
    (c.consume (text.length + 1)).rest = [] ∨
      ∃ next, (c.consume (text.length + 1)).rest = next ++ [endOfLine] ∧
        (c.consume (text.length + 1)).pending.length < c.pending.length := by
  rw [consume_line h, refill]
  cases c.pending with
  | nil => exact .inl rfl
  | cons reading more =>
    cases reading with
    | line next => exact .inr ⟨next.toList, rfl, Nat.lt_succ_self _⟩
    | failure cause => exact .inl rfl

end Cursor

/-! ## Splitting lines -/

namespace Lexicon

/-- The tokens that a lexicon splits the rest of a line into, when it begins at a column. -/
inductive Splits (l : Lexicon κ) (line : Nat) : Nat → List Char → List (Token κ) → Prop
  | nothing {column : Nat} {text : List Char}
      (skipped : l.blank (text ++ [endOfLine]) = text.length + 1) : Splits l line column text []
  | lexeme {column : Nat} {text before lexeme rest : List Char} {others : List (Token κ)}
      (text_eq : text = before ++ lexeme ++ rest)
      (skipped : l.blank (text ++ [endOfLine]) = before.length)
      (length_eq : (l.lexeme (lexeme ++ rest ++ [endOfLine])).2 = lexeme.length)
      (behind : Splits l line (column + before.length + lexeme.length) rest others) :
      Splits l line column text
        (⟨(l.lexeme (lexeme ++ rest ++ [endOfLine])).1, String.ofList lexeme,
          ⟨line, column + before.length⟩⟩ :: others)

/-- The tokens that a lexicon splits lines into, which are counted from a number on. -/
inductive Scans (l : Lexicon κ) : Nat → List String → List (Token κ) → Prop
  | nil {number : Nat} : Scans l number [] []
  | cons {number : Nat} {line : String} {lines : List String} {here more : List (Token κ)}
      (splits : l.Splits number 1 line.toList here) (others : Scans l (number + 1) lines more) :
      Scans l number (line :: lines) (here ++ more)

end Lexicon

/-! ## Reading one token -/

namespace Lexicon

variable {l : Lexicon κ} {gap tail : List Char → Prop} {c : Cursor}

/-- At the end of a source, the token that ends it is read. -/
theorem read_skip_of_exhausted (h : c.rest = []) :
    l.read (c.skip l.blank) = (⟨TokenKind.endOfFile, l.endText, c.position⟩, c) := by
  rw [c.skip_of_exhausted l.blank (Cursor.exhausted_iff.2 h), read_of_rest_nil l h]

/-- A lexeme behind blanks is read where these end. -/
theorem read_skip_of_lexeme {before lexeme rest : List Char}
    (h : c.rest = before ++ lexeme ++ rest ++ [endOfLine])
    (skipped : l.blank c.rest = before.length)
    (length_eq : (l.lexeme (lexeme ++ rest ++ [endOfLine])).2 = lexeme.length) :
    l.read (c.skip l.blank) =
      (⟨(l.lexeme (lexeme ++ rest ++ [endOfLine])).1, String.ofList lexeme,
          ⟨c.line, c.column + before.length⟩⟩,
        c.consume (before.length + lexeme.length)) := by
  have hparts : c.rest = before ++ (lexeme ++ rest) ++ [endOfLine] := by
    rw [h, List.append_assoc before]
  have hbehind := Cursor.consume_within hparts
  have hlt : before.length < c.rest.length := by
    rw [h]
    simp only [List.length_append, List.length_singleton]
    omega
  have hskip := Cursor.skip_of_lt l.blank (skipped ▸ hlt)
  rw [skipped] at hskip
  have hrest : (c.consume before.length).rest = lexeme ++ rest ++ [endOfLine] := by rw [hbehind]
  have hposition : (c.consume before.length).position = ⟨c.line, c.column + before.length⟩ := by
    rw [hbehind]
    rfl
  rw [hskip, read_of_rest_ne_nil l (by rw [hrest]; simp), hrest, length_eq, hposition,
    Cursor.consume_add, List.append_assoc, List.take_left]

namespace Tiles

/-- A token that does not end the source has used up a character without force. -/
theorem consumed_lt_read (h : l.Tiles gap tail)
    (hlined : c.rest = [] ∨ ∃ text, c.rest = text ++ [endOfLine])
    (hend : (l.read (c.skip l.blank)).1.isEnd = false) :
    c.consumed < (l.read (c.skip l.blank)).2.consumed := by
  have exhausted : ∀ d : Cursor, d.rest = [] → (l.read (d.skip l.blank)).1.isEnd = true := by
    intro d hd
    rw [read_skip_of_exhausted hd]
    exact Token.isEnd_eq_true.2 rfl
  generalize hn : c.pending.length = n
  induction n using Nat.strongRecOn generalizing c with
  | ind n ih =>
    rcases hlined with hnil | ⟨text, htext⟩
    · rw [exhausted c hnil] at hend
      cases hend
    · cases h.opens text with
      | nothing behind skipped =>
        rw [Cursor.skip_of_line htext (by rw [htext, skipped])] at hend ⊢
        rcases Cursor.consume_line_cases htext with hnil | ⟨next, hnext, hlt⟩
        · rw [exhausted _ hnil] at hend
          cases hend
        · have hread := ih _ (hn ▸ hlt) (.inr ⟨next, hnext⟩) hend rfl
          rw [Cursor.consumed_consume] at hread
          omega
      | lexeme before lexeme rest text_eq apart lexeme_ne skipped length_eq ordinary =>
        subst text_eq
        have hpos : 0 < lexeme.length := List.length_pos_iff.2 lexeme_ne
        rw [read_skip_of_lexeme htext (by rw [htext, skipped]) length_eq,
          Cursor.consume_lexeme htext]
        show c.consumed < c.consumed + (before.length + lexeme.length)
        omega

/-- Reading never has to move on by force. -/
theorem advance_eq (h : l.Tiles gap tail)
    (hlined : c.rest = [] ∨ ∃ text, c.rest = text ++ [endOfLine]) :
    c.advance l.classifier = l.read (c.skip l.blank) := by
  refine if_neg ?_
  rintro ⟨hend, hstill⟩
  exact absurd hstill (Nat.ne_of_gt (h.consumed_lt_read hlined hend))

/-! ## Scanning one token -/

/-- At the end of a source, the token that ends it brings the failure with it. -/
theorem scan_of_exhausted (h : l.Tiles gap tail) (hrest : c.rest = []) :
    c.scan (τ := τ) l.classifier =
      (⟨⟨TokenKind.endOfFile, l.endText, c.position⟩, c.faults⟩, c.acknowledge) := by
  have hvalid : (Cursor.lexicalFaults ⟨TokenKind.endOfFile, l.endText, c.position⟩ :
      List (Diagnostic κ τ)) = [] := if_neg (by simp [h.end_valid])
  unfold Cursor.scan
  rw [h.advance_eq (.inl hrest), read_skip_of_exhausted hrest]
  simp only [hvalid, List.append_nil]

/-- A line with nothing on it gives no token. -/
theorem scan_of_nothing (h : l.Tiles gap tail) {text : List Char}
    (htext : c.rest = text ++ [endOfLine])
    (skipped : l.blank (text ++ [endOfLine]) = text.length + 1) :
    c.scan (τ := τ) l.classifier = (c.consume (text.length + 1)).scan l.classifier := by
  have hnext : (c.consume (text.length + 1)).rest = [] ∨
      ∃ next, (c.consume (text.length + 1)).rest = next ++ [endOfLine] :=
    (Cursor.consume_line_cases htext).imp_right fun ⟨next, hnext, _⟩ => ⟨next, hnext⟩
  unfold Cursor.scan
  rw [h.advance_eq (.inr ⟨text, htext⟩), h.advance_eq hnext,
    Cursor.skip_of_line htext (by rw [htext, skipped])]

/-- A lexeme gives a token that stands behind the gap, with no fault but its own. -/
theorem scan_of_lexeme (h : l.Tiles gap tail) {before lexeme rest : List Char}
    (hrest : c.rest = before ++ lexeme ++ rest ++ [endOfLine]) (hfailure : c.failure = none)
    (skipped : l.blank c.rest = before.length)
    (length_eq : (l.lexeme (lexeme ++ rest ++ [endOfLine])).2 = lexeme.length) :
    ∃ t : Token κ, t = ⟨(l.lexeme (lexeme ++ rest ++ [endOfLine])).1, String.ofList lexeme,
        ⟨c.line, c.column + before.length⟩⟩ ∧
      c.scan (τ := τ) l.classifier =
        (⟨t, Cursor.lexicalFaults t⟩, c.consume (before.length + lexeme.length)) := by
  refine ⟨_, rfl, ?_⟩
  have hsound : (c.consume (before.length + lexeme.length)).failure = none := by
    rw [Cursor.consume_lexeme hrest]
    exact hfailure
  have hfaults : ((c.consume (before.length + lexeme.length)).faults : List (Diagnostic κ τ)) =
      [] := by
    rw [Cursor.faults, hsound]
  have hacknowledge : (c.consume (before.length + lexeme.length)).acknowledge =
      c.consume (before.length + lexeme.length) := by
    rw [Cursor.acknowledge, ← hsound]
  unfold Cursor.scan
  rw [h.advance_eq (.inr ⟨_, hrest⟩), read_skip_of_lexeme hrest skipped length_eq]
  simp only [hfaults, hacknowledge, List.nil_append]

/-! ## Scanning a line -/

/-- At the end of a source, its stream has the token that ends it, and no other. -/
theorem stream_of_exhausted (h : l.Tiles gap tail) (hrest : c.rest = []) :
    c.stream (τ := τ) l.classifier =
      [⟨⟨TokenKind.endOfFile, l.endText, c.position⟩, c.faults⟩] := by
  rw [Cursor.stream_eq, h.scan_of_exhausted hrest, if_pos (Token.isEnd_eq_true.2 rfl)]

/-- The tokens of the rest of a line are laid out in it; those of the other lines come behind. -/
theorem stream_line (h : l.Tiles gap tail) {text : List Char}
    (htext : c.rest = text ++ [endOfLine]) (hfailure : c.failure = none) :
    ∃ here : List (Token κ), l.Splits c.line c.column text here ∧
      LaidOut gap tail c.column text here ∧
      (∀ t ∈ here, t.position.line = c.line ∧ t.isEnd = false) ∧
      c.stream (τ := τ) l.classifier =
        here.map Scanned.ofToken ++ (c.consume (text.length + 1)).stream l.classifier := by
  generalize hn : text.length = n
  -- Each lexeme leaves a shorter rest of the line, so the induction is on the length of the text.
  induction n using Nat.strongRecOn generalizing c text with
  | ind n ih =>
    cases h.opens text with
    | nothing behind skipped =>
      refine ⟨[], .nothing skipped, .nothing behind, by simp, ?_⟩
      rw [Cursor.stream_eq, h.scan_of_nothing htext skipped, ← Cursor.stream_eq, hn]
      rfl
    | lexeme before lexeme rest text_eq apart lexeme_ne skipped length_eq ordinary =>
      subst text_eq
      have hpos : 0 < lexeme.length := List.length_pos_iff.2 lexeme_ne
      have hlength : (before ++ lexeme ++ rest).length =
          before.length + lexeme.length + rest.length := by
        rw [List.length_append, List.length_append]
      have hbehind := Cursor.consume_lexeme htext
      obtain ⟨t, ht, hscan⟩ := h.scan_of_lexeme (τ := τ) htext hfailure (by rw [htext, skipped])
        length_eq
      have hordinary : t.isEnd = false := by
        rw [ht]
        exact decide_eq_false ordinary
      have hrest : (c.consume (before.length + lexeme.length)).rest = rest ++ [endOfLine] := by
        rw [hbehind]
      obtain ⟨here, hsplits, hlaid, hhere, hstream⟩ := ih rest.length (by omega) hrest
        (by rw [hbehind]; exact hfailure) rfl
      rw [← Cursor.consume_add] at hstream
      have hcolumn : (c.consume (before.length + lexeme.length)).column =
          c.column + before.length + t.text.length := by
        rw [hbehind, ht, String.length_ofList]
      have hline : (c.consume (before.length + lexeme.length)).line = c.line := by
        rw [hbehind]
        rfl
      have htoken : t.text.toList = lexeme := by rw [ht, String.toList_ofList]
      rw [hcolumn] at hlaid
      rw [hline, hcolumn, ← String.length_toList, htoken] at hsplits
      refine ⟨t :: here, ?_, ?_, ?_, ?_⟩
      · rw [ht]
        exact .lexeme rfl skipped length_eq hsplits
      · rw [← htoken]
        refine .token apart ?_ (by rw [ht]) hlaid
        intro hempty
        rw [hempty] at htoken
        exact lexeme_ne htoken.symm
      · intro u hu
        rcases List.mem_cons.1 hu with rfl | hu
        · exact ⟨by rw [ht], hordinary⟩
        · exact ⟨(hhere u hu).1.trans hline, (hhere u hu).2⟩
      · have hnext : before.length + lexeme.length + (rest.length + 1) = n + 1 := by omega
        rw [Cursor.stream_eq, hscan, if_neg (by simp only [hordinary]; exact Bool.false_ne_true),
          hstream, hnext]
        rfl

end Tiles

end Lexicon

/-! ## Scanning a source -/

/-- A stream that goes over lines, counted from a number on: the tokens are laid out in the lines
and bring no fault but their own, and the token that ends the source stands behind the last line and
brings the failure with it. -/
structure Tiled (gap tail : List Char → Prop) (number : Nat) (lines : List String)
    (failure? : Option String) (stream : List (Scanned κ τ)) (ts : List (Token κ))
    (eof : Token κ) : Prop where
  paged : Paged gap tail number lines ts
  ordinary : ∀ t ∈ ts, t.isEnd = false
  ends : eof.isEnd = true
  position_eq : eof.position =
    ⟨max 1 (number - 1 + lines.length), (lines.getLast?.elim 0 String.length) + 1⟩
  stream_eq : stream =
    ts.map Scanned.ofToken ++ [⟨eof, (failure?.map (.io eof.position)).toList⟩]

namespace Tiled

variable {gap tail : List Char → Prop} {lines : List String} {failure? : Option String}
  {stream : List (Scanned κ τ)} {ts : List (Token κ)} {eof : Token κ}

/-- A token stands on one of the lines, and its text is what stands there. -/
theorem within (h : Tiled gap tail 1 lines failure? stream ts eof) {t : Token κ} (ht : t ∈ ts) :
    ∃ (i : Nat) (hi : i < lines.length), t.position.line = i + 1 ∧ 0 < t.text.length ∧
      t.position.column + t.text.length ≤ lines[i].length + 1 ∧
      (lines[i].toList.drop (t.position.column - 1)).take t.text.length = t.text.toList := by
  obtain ⟨hle, hlt⟩ := h.paged.line_bounds t ht
  have hi : t.position.line - 1 < lines.length := by omega
  have hmem : t ∈ ts.filter (·.position.line = 1 + (t.position.line - 1)) := by
    rw [List.mem_filter]
    exact ⟨ht, decide_eq_true (by omega)⟩
  obtain ⟨-, hpos, hend, htext⟩ := (h.paged.laidOut_filter hi).within t hmem
  rw [String.length_toList] at hend
  exact ⟨t.position.line - 1, hi, by omega, hpos, by omega, htext⟩

/-- The end of the source stands behind every token. -/
theorem before_end (h : Tiled gap tail 1 lines failure? stream ts eof) {t : Token κ}
    (ht : t ∈ ts) : t.position < eof.position := by
  obtain ⟨i, hi, hline, hpos, hend, -⟩ := h.within ht
  have hmax : max 1 (1 - 1 + lines.length) = lines.length := by omega
  rw [h.position_eq, Position.lt_def, hmax, hline]
  by_cases hlast : i + 1 = lines.length
  · refine Or.inr ⟨hlast, ?_⟩
    have hget : lines.getLast? = some lines[i] := by
      rw [List.getLast?_eq_getElem?, ← hlast, Nat.add_sub_cancel, List.getElem?_eq_getElem hi]
    rw [hget]
    show t.position.column < lines[i].length + 1
    omega
  · exact Or.inl (by show i + 1 < lines.length; omega)

/-- All tokens stand in reading order. -/
theorem positions_increase (h : Tiled gap tail 1 lines failure? stream ts eof) :
    (ts ++ [eof]).Pairwise fun t u => t.position < u.position := by
  refine List.pairwise_append.2 ⟨h.paged.positions_increase, List.pairwise_singleton _ _, ?_⟩
  intro t ht u hu
  rw [List.mem_singleton.1 hu]
  exact h.before_end ht

/-- The tokens of a stream are those of its lines, and the one that ends it. -/
theorem map_token (h : Tiled gap tail 1 lines failure? stream ts eof) :
    stream.map Scanned.token = ts ++ [eof] := by
  rw [h.stream_eq, List.map_append, List.map_map]
  exact congrArg (· ++ [eof]) (List.map_id ts)

end Tiled

namespace Lexicon.Tiles

variable {l : Lexicon κ} {gap tail : List Char → Prop} {c : Cursor}

/-- The last line is cut into gaps and lexemes up to the end of the source. -/
theorem tiled_of_last (h : l.Tiles gap tail) {line : String}
    (hline : c.rest = line.toList ++ [endOfLine]) (hfailure : c.failure = none)
    (hcolumn : c.column = 1) (htaken : 0 < c.taken) (hlines : c.pending.lines = []) :
    ∃ ts eof, l.Scans c.taken [line] ts ∧ Tiled gap tail c.taken [line] c.pending.failure?
      (c.stream (τ := τ) l.classifier) ts eof := by
  have hnumber : c.line = c.taken := Nat.max_eq_right htaken
  obtain ⟨here, hsplits, hlaid, hhere, hstream⟩ := h.stream_line (τ := τ) hline hfailure
  rw [hcolumn] at hsplits hlaid
  rw [hnumber] at hsplits
  obtain ⟨d, hd, hrest, hposition, hfaults⟩ :=
    Cursor.consume_line_of_last (κ := κ) (τ := τ) hline hfailure hlines
  refine ⟨here ++ [], ⟨TokenKind.endOfFile, l.endText, d.position⟩, .cons hsplits .nil,
    ?_, ?_, ?_, ?_, ?_⟩
  · exact .cons hlaid (fun t ht => (hhere t ht).1.trans hnumber) .nil
  · intro t ht
    rw [List.append_nil] at ht
    exact (hhere t ht).2
  · exact Token.isEnd_eq_true.2 rfl
  · have hmax : max 1 (c.taken - 1 + 1) = c.taken := by omega
    show d.position = ⟨max 1 (c.taken - 1 + 1), line.length + 1⟩
    rw [hposition, hnumber, hcolumn, String.length_toList, hmax, Nat.add_comm]
  · rw [hstream, hd, h.stream_of_exhausted hrest, hfaults, List.append_nil]

/-- A scan from the beginning of a line goes over this line and those behind it. -/
theorem tiled_lines (h : l.Tiles gap tail) {line : String}
    (hline : c.rest = line.toList ++ [endOfLine]) (hfailure : c.failure = none)
    (hcolumn : c.column = 1) (htaken : 0 < c.taken) :
    ∃ ts eof, l.Scans c.taken (line :: c.pending.lines) ts ∧
      Tiled gap tail c.taken (line :: c.pending.lines) c.pending.failure?
        (c.stream (τ := τ) l.classifier) ts eof := by
  generalize hpending : c.pending = pending
  -- By induction on what is still to be read: a line follows this one, or it is the last.
  induction pending generalizing c line with
  | nil =>
    have hlast := h.tiled_of_last (τ := τ) hline hfailure hcolumn htaken (by rw [hpending]; rfl)
    rw [hpending] at hlast
    exact hlast
  | cons reading more ih =>
    cases reading with
    | failure cause =>
      have hlast := h.tiled_of_last (τ := τ) hline hfailure hcolumn htaken (by rw [hpending]; rfl)
      rw [hpending] at hlast
      exact hlast
    | line next =>
      have hnumber : c.line = c.taken := Nat.max_eq_right htaken
      obtain ⟨here, hsplits, hlaid, hhere, hstream⟩ := h.stream_line (τ := τ) hline hfailure
      rw [hcolumn] at hsplits hlaid
      rw [hnumber] at hsplits
      obtain ⟨d, hd, hrest, hmore, htaken', hcolumn', hfailure'⟩ :=
        Cursor.consume_line_of_line hline hpending
      obtain ⟨ts, eof, hscans, hts⟩ :=
        ih hrest (hfailure'.trans hfailure) hcolumn' (htaken' ▸ Nat.succ_pos _) hmore
      rw [htaken'] at hscans hts
      refine ⟨here ++ ts, eof, .cons hsplits hscans, ?_, ?_, hts.ends, ?_, ?_⟩
      · exact .cons hlaid (fun t ht => (hhere t ht).1.trans hnumber) hts.paged
      · intro t ht
        rcases List.mem_append.1 ht with ht | ht
        · exact (hhere t ht).2
        · exact hts.ordinary t ht
      · have hcount : c.taken + 1 - 1 + (next :: Source.lines more).length =
            c.taken - 1 + (line :: next :: Source.lines more).length := by
          simp only [List.length_cons]
          omega
        rw [hts.position_eq, hcount]
        rfl
      · rw [hstream, hd, hts.stream_eq, List.map_append, List.append_assoc]
        rfl

end Lexicon.Tiles

/-- A lexicon that tiles lines scans a source line by line.  A failure on the very first line is met
before any token, and then there is none but the one that ends the source; any other failure comes
with that token. -/
theorem Source.scanned {l : Lexicon κ} {gap tail : List Char → Prop} (h : l.Tiles gap tail)
    (source : Source) :
    ∃ (ts : List (Token κ)) (eof : Token κ) (failure? : Option String),
      l.Scans 1 source.lines ts ∧
        Tiled gap tail 1 source.lines failure? (source.stream (τ := τ) l.classifier) ts eof ∧
        ((Cursor.start source).faults : List (Diagnostic κ τ)) ++
            (failure?.map (.io eof.position)).toList =
          (source.failure?.map (.io eof.position)).toList ∧
        (ts ≠ [] → ((Cursor.start source).faults : List (Diagnostic κ τ)) = []) := by
  have exhausted : ∀ c : Cursor, c.rest = [] → c.failure = none → c.position = ⟨1, 1⟩ →
      Tiled gap tail 1 [] none (c.stream (τ := τ) l.classifier) []
        ⟨TokenKind.endOfFile, l.endText, ⟨1, 1⟩⟩ := by
    intro c hrest hfailure hposition
    refine ⟨.nil, by simp, Token.isEnd_eq_true.2 rfl, rfl, ?_⟩
    rw [h.stream_of_exhausted hrest, Cursor.faults, hfailure, hposition]
    rfl
  cases source with
  | nil => exact ⟨[], _, none, .nil, exhausted _ rfl rfl rfl, rfl, by simp⟩
  | cons reading more =>
    cases reading with
    | failure cause => exact ⟨[], _, none, .nil, exhausted _ rfl rfl rfl, rfl, by simp⟩
    | line line =>
      have hline : (Cursor.start (.line line :: more)).acknowledge.rest =
          line.toList ++ [endOfLine] := rfl
      obtain ⟨ts, eof, hscans, htiled⟩ := h.tiled_lines (τ := τ) hline rfl rfl Nat.one_pos
      exact ⟨ts, eof, Source.failure? more, hscans, htiled, rfl, fun _ => rfl⟩

/-- The tokens of a source are laid out in its lines, and its failure is met where they end. -/
theorem Source.tiled {l : Lexicon κ} {gap tail : List Char → Prop} (h : l.Tiles gap tail)
    (source : Source) :
    ∃ (ts : List (Token κ)) (eof : Token κ) (failure? : Option String),
      Tiled gap tail 1 source.lines failure? (source.stream (τ := τ) l.classifier) ts eof ∧
        ((Cursor.start source).faults : List (Diagnostic κ τ)) ++
            (failure?.map (.io eof.position)).toList =
          (source.failure?.map (.io eof.position)).toList ∧
        (ts ≠ [] → ((Cursor.start source).faults : List (Diagnostic κ τ)) = []) := by
  obtain ⟨ts, eof, failure?, -, htiled⟩ := Source.scanned (τ := τ) h source
  exact ⟨ts, eof, failure?, htiled⟩

/-- The tokens of a source stand in reading order. -/
theorem Lexicon.Tiles.positions_increase {l : Lexicon κ} {gap tail : List Char → Prop}
    (h : l.Tiles gap tail) (source : Source) :
    (source.tokens l.classifier).Pairwise fun t u => t.position < u.position := by
  obtain ⟨ts, eof, failure?, htiled, -⟩ := Source.tiled (τ := Unit) h source
  rw [Source.tokens, htiled.map_token]
  exact htiled.positions_increase

end SinglePass
