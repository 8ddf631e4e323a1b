import SinglePass.Cursor
import SinglePass.Token

/-!
# Classifiers

A classifier reads one token at a cursor.  It may move only by consuming characters, and it
must answer the end of the source where there is nothing left to read; it is free to consume
nothing otherwise.

Most languages only need to say, of the unread rest of a line, how much of it is blank and
which lexeme comes first.  Such a `Lexicon` makes a classifier whose tokens never reach across
the end of a line.
-/

namespace SinglePass

/-- A reader of single tokens. -/
structure Classifier (κ : Type) [TokenKind κ] where
  /-- Read the token at a cursor. -/
  classify : Cursor → Token κ × Cursor
  /-- Reading moves by consuming. -/
  moves : ∀ c, ∃ n, (classify c).2 = c.consume n
  /-- The end of the source is recognised. -/
  ends : ∀ c : Cursor, c.exhausted = true → (classify c).1.kind = TokenKind.endOfFile

/-- The lexemes of a language whose tokens lie within one line. -/
structure Lexicon (κ : Type) where
  /-- Number of blank characters before the first lexeme of the rest of a line. -/
  blank : List Char → Nat
  /-- Kind and length of the lexeme at the beginning of the rest of a line. -/
  lexeme : List Char → κ × Nat
  /-- Text of the token that ends the source. -/
  endText : String

namespace Lexicon

variable {κ : Type} [TokenKind κ]

/-- Read the token at a cursor that has nothing blank before it. -/
def read (l : Lexicon κ) (c : Cursor) : Token κ × Cursor :=
  match c.rest with
  | [] => (⟨TokenKind.endOfFile, l.endText, c.position⟩, c)
  | rest =>
    (⟨(l.lexeme rest).1, String.ofList (rest.take (l.lexeme rest).2), c.position⟩,
      c.consume (l.lexeme rest).2)

/-- At the end of a source, the token that ends it is read. -/
theorem read_of_rest_nil (l : Lexicon κ) {c : Cursor} (h : c.rest = []) :
    l.read c = (⟨TokenKind.endOfFile, l.endText, c.position⟩, c) := by
  simp [read, h]

/-- Before the end of a source, a lexeme is read and consumed. -/
theorem read_of_rest_ne_nil (l : Lexicon κ) {c : Cursor} (h : c.rest ≠ []) :
    l.read c =
      (⟨(l.lexeme c.rest).1, String.ofList (c.rest.take (l.lexeme c.rest).2), c.position⟩,
        c.consume (l.lexeme c.rest).2) := by
  unfold read
  split
  · next heq => exact absurd heq h
  · rfl

/-- The classifier that skips what is blank and reads one lexeme. -/
def classifier (l : Lexicon κ) : Classifier κ where
  classify c := l.read (c.skip l.blank)
  moves c := by
    obtain ⟨m, hm⟩ := c.skip_eq_consume l.blank
    by_cases h : (c.skip l.blank).rest = []
    · exact ⟨m, by rw [read_of_rest_nil l h]; exact hm⟩
    · exact ⟨m + (l.lexeme (c.skip l.blank).rest).2, by
        rw [read_of_rest_ne_nil l h, c.consume_add, ← hm]⟩
  ends c h := by
    rw [c.skip_of_exhausted l.blank h, read_of_rest_nil l (Cursor.exhausted_iff.1 h)]

end Lexicon

end SinglePass
