import SinglePass.Classifier
import SinglePass.Simple.Automaton

/-!
# The lexicon of Simple

Blanks, tabs and carriage returns separate tokens, and `//` begins a comment that runs to the
end of its line.  The lexeme at the beginning of the rest of a line is what the automaton reads
there, which is the longest one:

* a letter followed by letters and digits is a keyword or an identifier;
* digits are an integer literal, and a real literal with a point and a fraction;
* digits and a point without a fraction are a malformed lexeme;
* the operators of two characters win over those of one;
* any other character stands alone and is invalid.

Letters and digits are those of ASCII.
-/

namespace SinglePass.Simple

/-- Is the character blank between tokens? -/
def isBlank (c : Char) : Bool := c = ' ' ∨ c = '\t' ∨ c = '\r' ∨ c = '\n'

/-- Number of characters before the first lexeme of the rest of a line. -/
def blankLength : List Char → Nat
  | [] => 0
  | '/' :: '/' :: rest => rest.length + 2
  | c :: rest => if isBlank c then blankLength rest + 1 else 0

/-- Kind and length of the lexeme at the beginning of the rest of a line. -/
def lexeme (cs : List Char) : Kind × Nat :=
  match cs with
  | [] => (.endOfFile, 0)
  | cs =>
    let (last, length) := Automaton.follow .start cs
    (Automaton.accept last (String.ofList (cs.take length)), length)

/-- The lexeme is what the automaton reads from its start. -/
theorem lexeme_of_ne_nil {cs : List Char} (h : cs ≠ []) :
    lexeme cs =
      (Automaton.accept (Automaton.follow .start cs).1
          (String.ofList (cs.take (Automaton.follow .start cs).2)),
        (Automaton.follow .start cs).2) := by
  obtain ⟨c, rest, rfl⟩ := List.exists_cons_of_ne_nil h
  rfl

/-- The lexicon of Simple. -/
def lexicon : Lexicon Kind where
  blank := blankLength
  lexeme := lexeme
  endText := "<EOF>"

/-- The classifier of Simple. -/
def classifier : Classifier Kind := lexicon.classifier

end SinglePass.Simple
