import SinglePass.Symbol

/-!
# The vocabulary of Simple

Simple is a small block-structured language:

```text
PROGRAM demo
WITH n = 10, v AS ARRAY[1:10] OF REAL, i AS INTEGER
IN
    i = 1
    WHILE i <= n DO
        v[i] = 0.5
        i = i + 1
    END
END
```

This module has its token kinds and its types.  Keywords are upper-case and case-sensitive.
-/

namespace SinglePass.Simple

/-! ## Token kinds -/

/-- The kinds of tokens of Simple. -/
inductive Kind where
  | kwProgram | kwWith | kwAs | kwIn | kwEnd
  | kwInteger | kwReal | kwBoolean | kwArray | kwOf
  | kwIf | kwThen | kwElse | kwWhile | kwDo | kwRead | kwWrite
  | kwTrue | kwFalse | kwAnd | kwOr | kwNot
  | ident | intLiteral | realLiteral
  | assign | comma | colon | leftBracket | rightBracket | leftParen | rightParen
  | plus | minus | star | slash
  | equal | notEqual | less | lessEqual | greater | greaterEqual
  /-- A character that starts no token. -/
  | invalidChar
  /-- A malformed lexeme: digits and a point without a fraction. -/
  | invalidToken
  | endOfFile
deriving DecidableEq

namespace Kind

/-- The keywords. -/
def keywords : List Kind :=
  [kwProgram, kwWith, kwAs, kwIn, kwEnd, kwInteger, kwReal, kwBoolean, kwArray, kwOf, kwIf,
    kwThen, kwElse, kwWhile, kwDo, kwRead, kwWrite, kwTrue, kwFalse, kwAnd, kwOr, kwNot]

/-- The spelling of a keyword or operator; for the other kinds, what they are. -/
def spelling : Kind → String
  | kwProgram => "PROGRAM"
  | kwWith => "WITH"
  | kwAs => "AS"
  | kwIn => "IN"
  | kwEnd => "END"
  | kwInteger => "INTEGER"
  | kwReal => "REAL"
  | kwBoolean => "BOOLEAN"
  | kwArray => "ARRAY"
  | kwOf => "OF"
  | kwIf => "IF"
  | kwThen => "THEN"
  | kwElse => "ELSE"
  | kwWhile => "WHILE"
  | kwDo => "DO"
  | kwRead => "READ"
  | kwWrite => "WRITE"
  | kwTrue => "TRUE"
  | kwFalse => "FALSE"
  | kwAnd => "AND"
  | kwOr => "OR"
  | kwNot => "NOT"
  | ident => "identifier"
  | intLiteral => "integer literal"
  | realLiteral => "real literal"
  | assign => "="
  | comma => ","
  | colon => ":"
  | leftBracket => "["
  | rightBracket => "]"
  | leftParen => "("
  | rightParen => ")"
  | plus => "+"
  | minus => "-"
  | star => "*"
  | slash => "/"
  | equal => "=="
  | notEqual => "<>"
  | less => "<"
  | lessEqual => "<="
  | greater => ">"
  | greaterEqual => ">="
  | invalidChar => "invalid character"
  | invalidToken => "invalid token"
  | endOfFile => "<EOF>"

/-- The name of a kind, as the token dump shows it. -/
def name : Kind → String
  | kwProgram => "Program"
  | kwWith => "With"
  | kwAs => "As"
  | kwIn => "In"
  | kwEnd => "End"
  | kwInteger => "Integer"
  | kwReal => "Real"
  | kwBoolean => "Boolean"
  | kwArray => "Array"
  | kwOf => "Of"
  | kwIf => "If"
  | kwThen => "Then"
  | kwElse => "Else"
  | kwWhile => "While"
  | kwDo => "Do"
  | kwRead => "Read"
  | kwWrite => "Write"
  | kwTrue => "True"
  | kwFalse => "False"
  | kwAnd => "And"
  | kwOr => "Or"
  | kwNot => "Not"
  | ident => "Ident"
  | intLiteral => "IntLiteral"
  | realLiteral => "RealLiteral"
  | assign => "Assign"
  | comma => "Comma"
  | colon => "Colon"
  | leftBracket => "LBracket"
  | rightBracket => "RBracket"
  | leftParen => "LParen"
  | rightParen => "RParen"
  | plus => "Plus"
  | minus => "Minus"
  | star => "Star"
  | slash => "Slash"
  | equal => "EqEq"
  | notEqual => "NotEq"
  | less => "Lt"
  | lessEqual => "LtEq"
  | greater => "Gt"
  | greaterEqual => "GtEq"
  | invalidChar => "InvalidChar"
  | invalidToken => "InvalidToken"
  | endOfFile => "Eof"

/-- The keyword with the given spelling. -/
def keyword? (text : String) : Option Kind := keywords.find? fun kind => kind.spelling = text

/-- Does the kind mark characters that form no token? -/
def isInvalid : Kind → Bool
  | invalidChar | invalidToken => true
  | _ => false

/-- Is the kind that of a comparison? -/
def isRelational : Kind → Bool
  | equal | notEqual | less | lessEqual | greater | greaterEqual => true
  | _ => false

end Kind

instance : TokenKind Kind where
  endOfFile := .endOfFile
  isInvalid := Kind.isInvalid
  label := Kind.spelling

/-! ## Types -/

/-- The types of Simple. -/
inductive Ty where
  /-- The type of what is already known to be wrong. -/
  | undefined
  | integer
  | real
  | boolean
deriving DecidableEq

namespace Ty

/-- The name of a type. -/
def name : Ty → String
  | undefined => "Undefined"
  | integer => "Integer"
  | real => "Real"
  | boolean => "Boolean"

/-- Is the type one of numbers? -/
def isNumeric : Ty → Bool
  | integer | real => true
  | _ => false

/-- The type that a keyword names. -/
def ofKeyword? : Kind → Option Ty
  | .kwInteger => some integer
  | .kwReal => some real
  | .kwBoolean => some boolean
  | _ => none

end Ty

instance : TypeTag Ty where
  undefined := .undefined
  label := Ty.name

end SinglePass.Simple
