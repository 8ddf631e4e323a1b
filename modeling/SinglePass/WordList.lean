import SinglePass.Report

/-!
# Word lists

A small language of words, parentheses and semicolons.

```text
list = item ";" { item ";" }     (until ")" or the end)
item = word | "(" list ")"
```

Every word is declared as a variable in the current scope, and a parenthesised list opens a
scope of its own.  The run notes down the words in source order, whether or not their
declaration is accepted.
-/

namespace SinglePass.WordList

/-! ## Vocabulary -/

/-- The kinds of tokens. -/
inductive Kind where
  | word
  | leftParen
  | rightParen
  | semicolon
  | invalid
  | endOfFile
deriving DecidableEq

namespace Kind

/-- The name of a kind. -/
def name : Kind → String
  | word => "Word"
  | leftParen => "LParen"
  | rightParen => "RParen"
  | semicolon => "Semi"
  | invalid => "Invalid"
  | endOfFile => "Eof"

/-- The wording of a kind in diagnostics. -/
def label : Kind → String
  | word => "word"
  | leftParen => "("
  | rightParen => ")"
  | semicolon => ";"
  | invalid => "invalid token"
  | endOfFile => "end of file"

end Kind

instance : TokenKind Kind where
  endOfFile := .endOfFile
  isInvalid kind := kind = .invalid
  label := Kind.label

/-- The types of words. -/
inductive Ty where
  | undefined
  | int
deriving DecidableEq

instance : TypeTag Ty where
  undefined := .undefined
  label
    | .undefined => "Undefined"
    | .int => "Int"

/-! ## Lexemes -/

/-- Is the character blank between tokens? -/
def isBlank (c : Char) : Bool := c = ' ' ∨ c = '\t' ∨ c = '\n'

/-- The lexeme at the beginning of the rest of a line: a run of ASCII letters, or a single
character. -/
def lexeme : List Char → Kind × Nat
  | [] => (.endOfFile, 0)
  | c :: rest =>
    if c.isAlpha then (.word, ((c :: rest).takeWhile Char.isAlpha).length)
    else
      match c with
      | '(' => (.leftParen, 1)
      | ')' => (.rightParen, 1)
      | ';' => (.semicolon, 1)
      | _ => (.invalid, 1)

/-- The lexicon of word lists. -/
def lexicon : Lexicon Kind where
  blank rest := (rest.takeWhile isBlank).length
  lexeme := lexeme
  endText := ""

/-- The classifier of word lists. -/
def classifier : Classifier Kind := lexicon.classifier

/-- The token that a stalling classifier gives for a character without consuming it. -/
def stalled? (c : Cursor) : Option (Token Kind) :=
  match c.rest with
  | '!' :: _ => some ⟨.word, "!", c.position⟩
  | '?' :: _ => some ⟨.invalid, "?", c.position⟩
  | _ => none

/-- A classifier that consumes nothing for `!` and `?`, which the law of classifiers allows.
Scanning has to move on by force there. -/
def stallingClassifier : Classifier Kind where
  classify c := match stalled? c with
    | some token => (token, c)
    | none => classifier.classify c
  moves c := by
    cases stalled? c with
    | some token => exact ⟨0, rfl⟩
    | none => exact classifier.moves c
  ends c h := by
    have : stalled? c = none := by simp [stalled?, Cursor.exhausted_iff.1 h]
    rw [this]
    exact classifier.ends c h

/-! ## Grammar -/

open Recognizer

/-- A rule of word lists; it notes down words. -/
abbrev Rule := Recognizer Kind Ty String

/-- An item and the semicolon after it. -/
def terminatedItem (item : Rule Unit) : Rule Unit := do
  item
  let _ ← mustBe .semicolon

/-- A list of items: one, and more until a list cannot go on. -/
def listOf (item : Rule Unit) : Rule Unit := do
  terminatedItem item
  whileSees (fun kind => kind ≠ .rightParen && kind ≠ .endOfFile) (fun _ => terminatedItem item) ()

/-- An item whose parentheses nest less than `n` deep. -/
def item : Nat → Rule Unit
  | 0 => outOfFuel
  | n + 1 => do
    if ← sees .word then
      let word ← advance
      note word.text
      let _ ← declare (.var word .int)
    else if ← accept .leftParen then
      openScope
      listOf (item n)
      let _ ← mustBe .rightParen
      let _ ← closeScope
    else
      unexpected (.description "a word or '('")

/-- A whole word list. -/
def wordList : Rule Unit := do
  openScope
  withFuel fun n => listOf (item n)
  let _ ← closeScope

/-- Check a word list; the notes of the report are its words. -/
def check (strategy : Strategy) (source : Source) : Report Kind Ty String :=
  parse classifier wordList strategy source

end SinglePass.WordList
