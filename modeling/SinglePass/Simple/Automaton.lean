import SinglePass.Simple.Vocabulary

/-!
# The automaton of Simple's lexemes

```text
start ─ letter ─▶ word ─ letter or digit ─▶ word
  ├─ digit ─▶ integer ─ digit ─▶ integer
  │              └─ '.' ─▶ point ─ digit ─▶ fraction ─ digit ─▶ fraction
  ├─ '<' ─▶ less ─ '=' ─▶ <=   ─ '>' ─▶ <>
  ├─ '>' ─▶ greater ─ '=' ─▶ >=
  ├─ '=' ─▶ equals ─ '=' ─▶ ==
  └─ other ─▶ a token of one character, or an invalid character
```

The automaton goes from state to state for as long as the next character can extend what it has
read (`follow`).  The state in which it stops says the kind of the lexeme (`accept`).  Letters and
digits are those of ASCII.
-/

namespace SinglePass.Simple.Automaton

/-- Where the automaton stands. -/
inductive State where
  | start
  | word
  | integer
  /-- Behind the point of a number. -/
  | point
  | fraction
  | less
  | greater
  | equals
  /-- At the end of a lexeme that nothing extends. -/
  | done (kind : Kind)
deriving DecidableEq

/-- The state behind the first character of a lexeme. -/
def enter (c : Char) : State :=
  if c.isAlpha then .word
  else if c.isDigit then .integer
  else
    match c with
    | '<' => .less
    | '>' => .greater
    | '=' => .equals
    | ',' => .done .comma
    | ':' => .done .colon
    | '[' => .done .leftBracket
    | ']' => .done .rightBracket
    | '(' => .done .leftParen
    | ')' => .done .rightParen
    | '+' => .done .plus
    | '-' => .done .minus
    | '*' => .done .star
    | '/' => .done .slash
    | _ => .done .invalidChar

/-- The state behind one more character, if it extends what has been read. -/
def step : State → Char → Option State
  | .start, c => some (enter c)
  | .word, c => if c.isAlphanum then some .word else none
  | .integer, c =>
    if c.isDigit then some .integer else if c = '.' then some .point else none
  | .point, c | .fraction, c => if c.isDigit then some .fraction else none
  | .less, c =>
    if c = '=' then some (.done .lessEqual)
    else if c = '>' then some (.done .notEqual)
    else none
  | .greater, c => if c = '=' then some (.done .greaterEqual) else none
  | .equals, c => if c = '=' then some (.done .equal) else none
  | .done _, _ => none

/-- The kind of a text that the automaton has read when it stops in a state. -/
def accept : State → String → Kind
  | .word, text => (Kind.keyword? text).getD .ident
  | .integer, _ => .intLiteral
  | .point, _ => .invalidToken
  | .fraction, _ => .realLiteral
  | .less, _ => .less
  | .greater, _ => .greater
  | .equals, _ => .assign
  | .done kind, _ => kind
  | .start, _ => .invalidChar

/-- The state in which the automaton stops, and the number of characters that it reads. -/
def follow (state : State) : List Char → State × Nat
  | [] => (state, 0)
  | c :: rest =>
    match step state c with
    | none => (state, 0)
    | some next =>
      match follow next rest with
      | (last, n) => (last, n + 1)

/-- The start is never entered again. -/
theorem enter_ne_start (c : Char) : enter c ≠ .start := by
  unfold enter
  split
  · simp
  · split
    · simp
    · split <;> simp

/-- No way leads back to the start. -/
theorem step_ne_start {state next : State} {c : Char} (h : step state c = some next) :
    next ≠ .start := by
  rintro rfl
  fun_cases step state c
  case case1 => exact enter_ne_start c (Option.some.inj h)
  all_goals simp_all [step]

/-- A lexeme that has begun does not reach across the end of its line. -/
theorem step_endOfLine {state : State} (h : state ≠ .start) : step state '\n' = none := by
  cases state with
  | start => exact absurd rfl h
  | _ => rfl

/-- A lexeme that has begun ends where the source does. -/
theorem step_endOfStream {state : State} (h : state ≠ .start) : step state '\x00' = none := by
  cases state with
  | start => exact absurd rfl h
  | _ => rfl

/-- The automaton stops in front of a character for which there is no step. -/
theorem follow_of_none {state : State} {c : Char} (h : step state c = none) (rest : List Char) :
    follow state (c :: rest) = (state, 0) := by
  rw [follow, h]

/-- A step consumes its character. -/
theorem follow_of_some {state next : State} {c : Char} (h : step state c = some next)
    (rest : List Char) :
    follow state (c :: rest) = ((follow next rest).1, (follow next rest).2 + 1) := by
  rw [follow, h]

/-- The first character is always consumed. -/
theorem follow_start (c : Char) (rest : List Char) :
    follow .start (c :: rest) =
      ((follow (enter c) rest).1, (follow (enter c) rest).2 + 1) :=
  follow_of_some rfl rest

/-- A state that is done has no step. -/
theorem follow_done (kind : Kind) (cs : List Char) : follow (.done kind) cs = (.done kind, 0) := by
  cases cs with
  | nil => rfl
  | cons c rest => exact follow_of_none rfl rest

end SinglePass.Simple.Automaton
