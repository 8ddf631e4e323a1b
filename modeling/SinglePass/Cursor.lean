import SinglePass.Source
import SinglePass.Position

/-!
# The character cursor

A cursor stands on a character of a source.  It holds the unread rest of the current line,
closed by a line feed that stands for the line's end, and the readings that are still to
come.  Consuming the last character of a line brings in the next one.  When the source ends
or fails the cursor is exhausted: no character is left, the position stays just past the text
of the last line, and consuming does nothing.

All movement goes through `consume`; `consume_add` says that it composes, and
`remaining_consume` and `consumed_consume` count what it uses up.
-/

namespace SinglePass

/-- The character that stands for the end of a line. -/
def endOfLine : Char := '\n'

/-- The character seen once the source is exhausted. -/
def endOfStream : Char := '\x00'

/-- A place in a source, with everything that is still to be read from there. -/
structure Cursor where
  /-- Unread rest of the current line with its end; empty exactly when exhausted. -/
  rest : List Char
  /-- Readings after the current line. -/
  pending : Source
  /-- Number of lines taken from the source so far. -/
  taken : Nat
  /-- Column of the current character. -/
  column : Nat
  /-- Number of characters consumed so far. -/
  consumed : Nat
  /-- Where and why the source failed, until the failure is reported. -/
  failure : Option (Position × String)

namespace Cursor

/-! ## Looking -/

/-- Line of the current character; an empty source counts as one empty line. -/
def line (c : Cursor) : Nat := max 1 c.taken

/-- Position of the current character. -/
def position (c : Cursor) : Position := ⟨c.line, c.column⟩

/-- Has the source ended or failed? -/
def exhausted (c : Cursor) : Bool := c.rest.isEmpty

/-- The current character. -/
def current (c : Cursor) : Char := c.rest.head?.getD endOfStream

/-- The character `k` places after the current one.  The look never leaves the current line:
past its end every character is an end of line. -/
def peek (c : Cursor) (k : Nat) : Char :=
  if c.exhausted then endOfStream else c.rest[k]?.getD endOfLine

/-- Number of characters that can still be consumed. -/
def remaining (c : Cursor) : Nat :=
  if c.exhausted then 0
  else c.rest.length + Source.extent c.pending

/-! ## Moving -/

/-- Take the next reading of the source. -/
def refill (c : Cursor) : Cursor :=
  match c.pending with
  | [] => { c with rest := [] }
  | .line text :: more =>
    { c with
      rest := text.toList ++ [endOfLine]
      pending := more
      taken := c.taken + 1
      column := 1 }
  | .failure cause :: _ =>
    { c with rest := [], pending := [], failure := some (c.position, cause) }

/-- The cursor on the first character of a source. -/
def start (source : Source) : Cursor :=
  refill ⟨[], source, 0, 1, 0, none⟩

/-- Consume one character. -/
def step (c : Cursor) : Cursor :=
  match c.rest with
  | [] => c
  | [_] => refill { c with consumed := c.consumed + 1 }
  | _ :: rest => { c with rest, column := c.column + 1, consumed := c.consumed + 1 }

/-- Consume up to `n` characters; an exhausted cursor does not move. -/
def consume (c : Cursor) : Nat → Cursor
  | 0 => c
  | n + 1 => if c.exhausted then c else c.step.consume n

/-! ## Laws of movement -/

/-- Consuming nothing changes nothing. -/
@[simp] theorem consume_zero (c : Cursor) : c.consume 0 = c := rfl

/-- A cursor is exhausted if its line is empty. -/
theorem exhausted_iff {c : Cursor} : c.exhausted = true ↔ c.rest = [] := by
  simp [exhausted]

/-- At the end of the source, a step changes nothing. -/
theorem step_of_exhausted {c : Cursor} (h : c.exhausted = true) : c.step = c := by
  rw [exhausted_iff] at h
  simp [step, h]

/-- At the end of the source, consuming changes nothing. -/
theorem consume_of_exhausted {c : Cursor} (h : c.exhausted = true) (n : Nat) :
    c.consume n = c := by
  cases n <;> simp [consume, h]

/-- Consuming begins with a step. -/
theorem consume_succ (c : Cursor) (n : Nat) : c.consume (n + 1) = c.step.consume n := by
  by_cases h : c.exhausted = true
  · rw [step_of_exhausted h, consume_of_exhausted h, consume_of_exhausted h]
  · simp [consume, h]

/-- Consuming composes: only the total number of characters matters. -/
theorem consume_add (c : Cursor) (m n : Nat) : c.consume (m + n) = (c.consume m).consume n := by
  induction m generalizing c with
  | zero => simp
  | succ m ih => rw [Nat.succ_add, consume_succ, consume_succ, ih]

/-! ## Counting characters -/

/-- Behind a line, as much remains as there is in the lines to come. -/
theorem remaining_refill (c : Cursor) : c.refill.remaining = Source.extent c.pending := by
  obtain ⟨_, pending, _, _, _, _⟩ := c
  rcases pending with _ | ⟨_ | _, _⟩ <;>
    simp [refill, remaining, exhausted, Source.extent, String.length_toList]

/-- Refilling consumes no character. -/
@[simp] theorem consumed_refill (c : Cursor) : c.refill.consumed = c.consumed := by
  obtain ⟨_, pending, _, _, _, _⟩ := c
  rcases pending with _ | ⟨_ | _, _⟩ <;> rfl

/-- A step uses up one character, if there is one. -/
theorem remaining_step (c : Cursor) : c.step.remaining = c.remaining - 1 := by
  obtain ⟨rest, pending, taken, column, consumed, failure⟩ := c
  rcases rest with _ | ⟨a, _ | ⟨b, rest⟩⟩
  · simp [step, remaining, exhausted]
  · rw [step, remaining_refill]
    simp [remaining, exhausted]
  · simp [step, remaining, exhausted]

/-- A step counts one character, if there is one. -/
theorem consumed_step {c : Cursor} (h : c.exhausted = false) :
    c.step.consumed = c.consumed + 1 := by
  obtain ⟨rest, pending, taken, column, consumed, failure⟩ := c
  rcases rest with _ | ⟨a, _ | ⟨b, rest⟩⟩
  · simp [exhausted] at h
  · simp [step]
  · rfl

/-- A cursor is exhausted if nothing remains. -/
theorem exhausted_iff_remaining {c : Cursor} : c.exhausted = true ↔ c.remaining = 0 := by
  obtain ⟨_ | ⟨a, rest⟩, pending, taken, column, consumed, failure⟩ := c <;>
    simp [exhausted, remaining]

/-- Consuming uses up as many characters as it is asked to, as far as there are any. -/
theorem remaining_consume (c : Cursor) (n : Nat) : (c.consume n).remaining = c.remaining - n := by
  induction n generalizing c with
  | zero => simp
  | succ n ih =>
    rw [consume_succ, ih, remaining_step]
    omega

/-- Every character that is used up is counted. -/
theorem consumed_consume (c : Cursor) (n : Nat) :
    (c.consume n).consumed = c.consumed + min n c.remaining := by
  induction n generalizing c with
  | zero => simp
  | succ n ih =>
    cases h : c.exhausted with
    | true =>
      have := exhausted_iff_remaining.1 h
      rw [consume_of_exhausted h]
      omega
    | false =>
      have : c.remaining ≠ 0 := fun hr => by simp [exhausted_iff_remaining.2 hr] at h
      rw [consume_succ, ih, consumed_step h, remaining_step]
      omega

/-! ## Crossing lines -/

/-- Skip the blank part of the current line as measured by `blank`; while that is the whole
line, go on with the next one, for at most `n` further lines. -/
def skipLines (blank : List Char → Nat) : Nat → Cursor → Cursor
  | 0, c => c.consume (blank c.rest)
  | n + 1, c =>
    if (c.rest.drop (blank c.rest)).isEmpty then skipLines blank n (c.consume (blank c.rest))
    else c.consume (blank c.rest)

/-- Skip everything that `blank` measures, across lines.  `blank` is given the unread rest of a
line and answers how many of its characters come before the next lexeme. -/
def skip (blank : List Char → Nat) (c : Cursor) : Cursor :=
  skipLines blank c.pending.length c

/-- Skipping moves by consuming. -/
theorem skip_eq_consume (blank : List Char → Nat) (c : Cursor) :
    ∃ n, c.skip blank = c.consume n := by
  suffices ∀ k c, ∃ n, skipLines blank k c = c.consume n from this _ _
  intro k
  induction k with
  | zero => exact fun c => ⟨_, rfl⟩
  | succ k ih =>
    intro c
    rw [skipLines]
    split
    · obtain ⟨n, hn⟩ := ih (c.consume (blank c.rest))
      exact ⟨blank c.rest + n, by rw [hn, consume_add]⟩
    · exact ⟨_, rfl⟩

/-- An exhausted cursor has nothing to skip. -/
theorem skip_of_exhausted (blank : List Char → Nat) {c : Cursor} (h : c.exhausted = true) :
    c.skip blank = c := by
  obtain ⟨n, hn⟩ := skip_eq_consume blank c
  rw [hn, consume_of_exhausted h]

end Cursor

end SinglePass
