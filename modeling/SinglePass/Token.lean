import SinglePass.Position

/-!
# Tokens

The engine is generic in the vocabulary of a language.  A language supplies a type of token
kinds with an instance of `TokenKind`, which names the kind of the token that ends every
source, says which kinds mark lexical errors, and gives each kind the wording used when a
diagnostic says what was expected.
-/

namespace SinglePass

/-- The vocabulary of a language, as far as the engine has to know it. -/
class TokenKind (κ : Type) where
  [decEq : DecidableEq κ]
  /-- Kind of the token that ends the source. -/
  endOfFile : κ
  /-- Does a token of this kind stand for characters that form no token of the language? -/
  isInvalid : κ → Bool
  /-- Wording of the kind in diagnostics. -/
  label : κ → String

attribute [reducible, instance] TokenKind.decEq

/-- A classified lexeme with the position of its first character. -/
structure Token (κ : Type) where
  kind : κ
  text : String
  position : Position
deriving DecidableEq

namespace Token

variable {κ : Type} [TokenKind κ]

/-- Does this token end the source? -/
def isEnd (t : Token κ) : Bool := t.kind = TokenKind.endOfFile

/-- A token ends the source if its kind is that of the end. -/
@[simp] theorem isEnd_eq_true {t : Token κ} : t.isEnd = true ↔ t.kind = TokenKind.endOfFile := by
  simp [isEnd]

end Token

end SinglePass
