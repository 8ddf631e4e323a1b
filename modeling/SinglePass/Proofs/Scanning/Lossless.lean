import Mathlib.Data.List.TakeWhile
import SinglePass.WordList
import SinglePass.Proofs.Scanning.Automaton
import SinglePass.Proofs.Scanning.Tiling

/-!
# Scanning loses nothing

Draining a scanner gives back every character of the lines it was put on: the texts of the tokens,
and between them gaps of blanks.  Each token stands where its text does, the tokens stand in reading
order, and the token that ends the source stands behind all of them.  `drained_lossless` says so
of Simple, where a comment may close a line, and of word lists.
-/

namespace SinglePass

/-! ## Runs of characters -/

/-- A run of characters has the first one if that belongs to it. -/
theorem length_takeWhile_pos {α : Type} {p : α → Bool} {a : α} (as : List α) (hp : p a = true) :
    0 < ((a :: as).takeWhile p).length := by
  rw [List.takeWhile_cons, if_pos hp]
  exact Nat.succ_pos _

/-- A run of characters ends before one that does not belong to it. -/
theorem length_takeWhile_lt {α : Type} {p : α → Bool} {a : α} {as : List α} (hmem : a ∈ as)
    (hp : p a = false) : (as.takeWhile p).length < as.length := by
  have hstart : as.takeWhile p <+: as := List.takeWhile_prefix p
  refine Nat.lt_of_le_of_ne hstart.length_le fun hlength => ?_
  have hall := List.takeWhile_eq_self_iff.1 (hstart.eq_of_length hlength) a hmem
  rw [hp] at hall
  cases hall

/-! ## Simple -/

namespace Simple

/-- What may stand between two tokens of a line. -/
def IsGap (text : List Char) : Prop := ∀ c ∈ text, c ∈ [' ', '\t', '\r', '\n']

/-- What may stand behind the last token of a line: a gap, and a comment if there is one. -/
def IsTail (text : List Char) : Prop :=
  ∃ blank comment, text = blank ++ comment ∧ IsGap blank ∧
    (comment = [] ∨ ['/', '/'] <+: comment)

/-- There are four blank characters. -/
theorem isBlank_iff {c : Char} : isBlank c = true ↔ c ∈ [' ', '\t', '\r', '\n'] := by
  simp [isBlank]

/-- An operator has one character or two. -/
theorem operator_length (cs : List Char) : 0 < (operator cs).2 ∧ (operator cs).2 ≤ 2 := by
  unfold operator
  split <;> simp

/-- An operator does not reach beyond the end of its line. -/
theorem operator_length_singleton (c : Char) : (operator [c, endOfLine]).2 = 1 := by
  unfold operator endOfLine
  split <;> simp_all

/-- No operator has the kind of the end. -/
theorem operator_ordinary (cs : List Char) : (operator cs).1 ≠ .endOfFile := by
  unfold operator
  split <;> simp

/-- No word has the kind of the end. -/
theorem word_ordinary (cs : List Char) : (word cs).1 ≠ .endOfFile := by
  show (Kind.keyword? (String.ofList (cs.takeWhile Char.isAlphanum))).getD .ident ≠ _
  cases hkeyword : Kind.keyword? (String.ofList (cs.takeWhile Char.isAlphanum)) with
  | none => simp
  | some kind =>
    rintro rfl
    exact absurd (List.mem_of_find?_eq_some hkeyword) (by decide)

/-- A number goes on for as long as its digits, and ends before its line does. -/
theorem number_length {cs : List Char} (hmem : endOfLine ∈ cs) :
    digits cs ≤ (number cs).2 ∧ (number cs).2 < cs.length ∧ (number cs).1 ≠ .endOfFile := by
  have hdigit : endOfLine.isDigit = false := by decide
  have hsplit := List.takeWhile_append_dropWhile (p := Char.isDigit) (l := cs)
  unfold number
  split
  · next rest hrest =>
    have hmem' : endOfLine ∈ rest := by
      rw [← hsplit, hrest] at hmem
      rcases List.mem_append.1 hmem with hmem | hmem
      · exact absurd (List.mem_takeWhile_imp hmem) (by simp [hdigit])
      · exact (List.mem_cons.1 hmem).resolve_left (by decide)
    have hlt : digits rest < rest.length := length_takeWhile_lt hmem' hdigit
    have hlength : digits cs + (rest.length + 1) = cs.length := by
      rw [← List.length_cons, ← hrest, digits, ← List.length_append, hsplit]
    split
    · refine ⟨Nat.le_succ _, ?_, by simp⟩
      show digits cs + 1 < cs.length
      omega
    · refine ⟨by omega, ?_, by simp⟩
      show digits cs + 1 + digits rest < cs.length
      omega
  · exact ⟨Nat.le_refl _, length_takeWhile_lt hmem hdigit, by simp⟩

/-- A lexeme has a character, and ends before its line does. -/
theorem lexeme_length (c : Char) (rest : List Char) :
    0 < (lexeme (c :: rest ++ [endOfLine])).2 ∧
      (lexeme (c :: rest ++ [endOfLine])).2 ≤ (c :: rest).length ∧
      (lexeme (c :: rest ++ [endOfLine])).1 ≠ .endOfFile := by
  have hmem : endOfLine ∈ c :: rest ++ [endOfLine] := by simp
  have hlength : (c :: rest ++ [endOfLine]).length = (c :: rest).length + 1 := List.length_append
  rw [List.cons_append, lexeme_cons, ← List.cons_append]
  split
  · next halpha =>
    have hlt : (word (c :: rest ++ [endOfLine])).2 < _ :=
      length_takeWhile_lt (p := Char.isAlphanum) hmem (by decide)
    have halphanum : c.isAlphanum = true := by simp [Char.isAlphanum, halpha]
    exact ⟨length_takeWhile_pos _ halphanum, by omega, word_ordinary _⟩
  · split
    · next hdigit =>
      obtain ⟨hle, hlt, hordinary⟩ := number_length hmem
      have hpos : 0 < digits (c :: rest ++ [endOfLine]) := length_takeWhile_pos _ hdigit
      exact ⟨Nat.lt_of_lt_of_le hpos hle, by omega, hordinary⟩
    · refine ⟨(operator_length _).1, ?_, operator_ordinary _⟩
      cases rest with
      | nil => exact Nat.le_of_eq (operator_length_singleton c)
      | cons d rest => exact (operator_length _).2.trans (by simp)

/-- Without a comment, the gap at the beginning of a text consists of its blanks. -/
theorem blankLength_cons {c : Char} {rest : List Char}
    (h : ¬ (c = '/' ∧ rest.head? = some '/')) :
    blankLength (c :: rest) = if isBlank c then blankLength rest + 1 else 0 := by
  rw [blankLength]
  rintro more rfl rfl
  exact h ⟨rfl, rfl⟩

/-- A comment goes to the end of its line. -/
theorem opens_comment (rest : List Char) : lexicon.Opens IsGap IsTail ('/' :: '/' :: rest) := by
  refine .nothing ⟨[], '/' :: '/' :: rest, rfl, by simp [IsGap], .inr ⟨rest, rfl⟩⟩ ?_
  show (rest ++ [endOfLine]).length + 2 = rest.length + 2 + 1
  rw [List.length_append, List.length_singleton]

/-- A line that opens with a blank goes on as it does behind the blank. -/
theorem opens_blank {c : Char} {rest : List Char} (hc : isBlank c = true)
    (h : lexicon.Opens IsGap IsTail rest) : lexicon.Opens IsGap IsTail (c :: rest) := by
  have hgap : ∀ before, IsGap before → IsGap (c :: before) := fun before hbefore d hd =>
    (List.mem_cons.1 hd).elim (fun heq => heq ▸ isBlank_iff.1 hc) (hbefore d)
  refine h.cons hgap ?_ ((blankLength_cons ?_).trans (if_pos hc))
  · rintro ⟨blank, comment, rfl, hblank, hcomment⟩
    exact ⟨c :: blank, comment, rfl, hgap blank hblank, hcomment⟩
  · rintro ⟨rfl, -⟩
    exact absurd hc (by decide)

/-- A line opens with a lexeme where neither a blank nor a comment stands. -/
theorem opens_lexeme {c : Char} {rest : List Char} (hc : isBlank c = false)
    (h : ¬ (c = '/' ∧ rest.head? = some '/')) : lexicon.Opens IsGap IsTail (c :: rest) := by
  obtain ⟨hpos, hle, hordinary⟩ := lexeme_length c rest
  refine .of_lexeme (by simp [IsGap]) ((blankLength_cons ?_).trans (if_neg ?_)) hpos hle hordinary
  · rintro ⟨hslash, hhead⟩
    cases rest with
    | nil => exact absurd hhead (by decide)
    | cons d rest => exact h ⟨hslash, hhead⟩
  · simp [hc]

/-- The rest of a line is blank, or closed by a comment, or has a lexeme behind its blanks. -/
theorem opens (text : List Char) : lexicon.Opens IsGap IsTail text := by
  induction text with
  | nil => exact .nothing ⟨[], [], rfl, by simp [IsGap], .inl rfl⟩ rfl
  | cons c rest ih =>
    by_cases hc : isBlank c = true
    · exact opens_blank hc ih
    · by_cases hcomment : c = '/' ∧ rest.head? = some '/'
      · obtain ⟨rfl, hhead⟩ := hcomment
        obtain ⟨more, rfl⟩ := List.head?_eq_some_iff.1 hhead
        exact opens_comment more
      · exact opens_lexeme (Bool.eq_false_iff.2 hc) hcomment

/-- The classifier of Simple cuts each line into gaps and lexemes. -/
theorem tiles : lexicon.Tiles IsGap IsTail := ⟨opens, rfl⟩

end Simple

/-! ## Word lists -/

namespace WordList

/-- What may stand around the tokens of a line. -/
def IsGap (text : List Char) : Prop := ∀ c ∈ text, c ∈ [' ', '\t', '\n']

/-- Word lists have three blank characters. -/
theorem isBlank_iff {c : Char} : isBlank c = true ↔ c ∈ [' ', '\t', '\n'] := by
  simp [isBlank]

/-- A lexeme has a character, and ends before its line does. -/
theorem lexeme_length (c : Char) (rest : List Char) :
    0 < (lexeme (c :: rest ++ [endOfLine])).2 ∧
      (lexeme (c :: rest ++ [endOfLine])).2 ≤ (c :: rest).length ∧
      (lexeme (c :: rest ++ [endOfLine])).1 ≠ .endOfFile := by
  by_cases halpha : c.isAlpha = true
  · have hmem : endOfLine ∈ c :: rest ++ [endOfLine] := by simp
    have hlt := length_takeWhile_lt (p := Char.isAlpha) hmem (by decide)
    have hlength : (c :: rest ++ [endOfLine]).length = (c :: rest).length + 1 :=
      List.length_append
    have hlexeme : lexeme (c :: rest ++ [endOfLine]) =
        (.word, ((c :: rest ++ [endOfLine]).takeWhile Char.isAlpha).length) := if_pos halpha
    rw [hlexeme]
    exact ⟨length_takeWhile_pos _ halpha, by show List.length _ ≤ _; omega, by simp⟩
  · have hlexeme : (lexeme (c :: rest ++ [endOfLine])).2 = 1 ∧
        (lexeme (c :: rest ++ [endOfLine])).1 ≠ .endOfFile := by
      simp only [lexeme, List.cons_append, if_neg halpha]
      split <;> simp
    rw [hlexeme.1]
    exact ⟨Nat.one_pos, by simp, hlexeme.2⟩

/-- The rest of a line is blank, or has a lexeme behind its blanks. -/
theorem opens (text : List Char) : lexicon.Opens IsGap IsGap text := by
  induction text with
  | nil => exact .nothing (by simp [IsGap]) rfl
  | cons c rest ih =>
    have hblank : lexicon.blank (c :: rest ++ [endOfLine]) =
        ((c :: (rest ++ [endOfLine])).takeWhile isBlank).length := rfl
    rw [List.takeWhile_cons] at hblank
    by_cases hc : isBlank c = true
    · have hgap : ∀ before, IsGap before → IsGap (c :: before) := fun before hbefore d hd =>
        (List.mem_cons.1 hd).elim (fun heq => heq ▸ isBlank_iff.1 hc) (hbefore d)
      rw [if_pos hc] at hblank
      exact ih.cons hgap (hgap rest) hblank
    · obtain ⟨hpos, hle, hordinary⟩ := lexeme_length c rest
      rw [if_neg hc] at hblank
      exact .of_lexeme (by simp [IsGap]) hblank hpos hle hordinary

/-- The classifier of word lists cuts each line into gaps and lexemes. -/
theorem tiles : lexicon.Tiles IsGap IsGap := ⟨opens, rfl⟩

end WordList

/-! ## Draining -/

section

variable {κ τ : Type} [TokenKind κ]

/-- Some tokens and the one that ends the source give the lines of the source back. -/
structure Lossless (gap tail : List Char → Prop) (lines : List String) (tokens : List (Token κ))
    (eof : Token κ) : Prop where
  /-- The tokens on a line and the gaps around them are the line. -/
  line : ∀ (i : Nat) (hi : i < lines.length),
    LaidOut gap tail 1 lines[i].toList (tokens.filter (·.position.line = i + 1))
  /-- No token reaches beyond its line. -/
  within : ∀ t ∈ tokens, ∃ (i : Nat) (hi : i < lines.length), t.position.line = i + 1 ∧
    (lines[i].toList.drop (t.position.column - 1)).take t.text.length = t.text.toList
  increasing : tokens.Pairwise fun t u => t.position < u.position
  ordinary : ∀ t ∈ tokens, t.isEnd = false
  ends : eof.isEnd = true
  end_position : eof.position =
    ⟨max 1 lines.length, (lines.getLast?.elim 0 String.length) + 1⟩
  before_end : ∀ t ∈ tokens, t.position < eof.position

/-- Where lines are cut into gaps and lexemes, nothing of them is lost. -/
theorem Lexicon.Tiles.lossless {l : Lexicon κ} {gap tail : List Char → Prop}
    (h : l.Tiles gap tail) (lines : List String) (sink : List (Diagnostic κ τ)) :
    ∃ tokens eof, (Scanner.drain l.classifier (Scanner.init (lines.map .line) sink)).1 =
      tokens ++ [eof] ∧ Lossless gap tail lines tokens eof := by
  obtain ⟨tokens, eof, failure?, htiled, -⟩ := Source.tiled (τ := τ) h (lines.map .line)
  rw [Source.lines_map_line] at htiled
  refine ⟨tokens, eof, ?_, ?_⟩
  · rw [Scanner.tokens_drain, ← Source.map_token_stream (τ := τ), htiled.map_token]
  · refine ⟨?_, ?_, htiled.paged.positions_increase, htiled.ordinary, htiled.ends, ?_,
      fun t ht => htiled.before_end ht⟩
    · intro i hi
      have hlaid := htiled.paged.laidOut_filter hi
      rwa [Nat.add_comm] at hlaid
    · intro t ht
      obtain ⟨i, hi, hline, -, -, htext⟩ := htiled.within ht
      exact ⟨i, hi, hline, htext⟩
    · rw [htiled.position_eq, Nat.sub_self, Nat.zero_add]

end

/-- Draining a scanner that was put on some lines gives the lines back, in Simple and in word lists,
whatever was recorded before. -/
theorem drained_lossless (lines : List String) (faults : List (Diagnostic Simple.Kind Simple.Ty))
    (faults' : List (Diagnostic WordList.Kind WordList.Ty)) :
    (∃ tokens eof,
        (Scanner.drain Simple.classifier (Scanner.init (lines.map .line) faults)).1 =
            tokens ++ [eof] ∧
          Lossless Simple.IsGap Simple.IsTail lines tokens eof) ∧
      ∃ tokens eof,
        (Scanner.drain WordList.classifier (Scanner.init (lines.map .line) faults')).1 =
            tokens ++ [eof] ∧
          Lossless WordList.IsGap WordList.IsGap lines tokens eof :=
  ⟨Simple.tiles.lossless lines faults, WordList.tiles.lossless lines faults'⟩

end SinglePass
