import SinglePass.Scanner
import SinglePass.Scope

/-!
# The state of a run

A run of a grammar looks at one token ahead and moves from left to right through the tokens of
its source.  Its state holds the token looked at and those that are still to come, whether the
run is recovering from an unexpected token, the open scopes, the faults recorded so far, and
what the grammar has noted down.

A fault met in reading a token is recorded when the run moves on to that token (`State.shift`).
Moving on and discarding tokens change nothing but the tokens and the recorded faults.
-/

namespace SinglePass

/-- The tokens that are still to come, and how many there are. -/
structure Upcoming (κ τ : Type) where
  tokens : List (Scanned κ τ)
  count : Nat
  count_eq : count = tokens.length

namespace Upcoming

variable {κ τ : Type}

/-- Count the tokens of a list. -/
def ofList (tokens : List (Scanned κ τ)) : Upcoming κ τ := ⟨tokens, tokens.length, rfl⟩

/-- What comes after the first token. -/
def tail (u : Upcoming κ τ) : Upcoming κ τ :=
  ⟨u.tokens.tail, u.count - 1, by rw [u.count_eq, List.length_tail]⟩

/-- The tokens alone tell what is to come. -/
@[ext] theorem ext {u v : Upcoming κ τ} (h : u.tokens = v.tokens) : u = v := by
  obtain ⟨ts, n, hn⟩ := u
  obtain ⟨us, m, hm⟩ := v
  cases h
  cases hn
  cases hm
  rfl

/-- The tokens of a list are those that it was made of. -/
@[simp] theorem tokens_ofList (tokens : List (Scanned κ τ)) : (ofList tokens).tokens = tokens := rfl

/-- Behind the first token there are the others. -/
@[simp] theorem tokens_tail (u : Upcoming κ τ) : u.tail.tokens = u.tokens.tail := rfl

end Upcoming

/-- The state of a run.  `ω` is the type of what the grammar notes down. -/
structure State (κ τ ω : Type) where
  /-- The token that is looked at. -/
  lookahead : Token κ
  /-- The tokens after it, up to the end of the source. -/
  ahead : Upcoming κ τ
  /-- Is the run skipping over something it could not make sense of? -/
  recovering : Bool
  scopes : ScopeStack κ τ
  /-- The faults recorded so far, in the order in which they were met. -/
  sink : List (Diagnostic κ τ)
  /-- What the grammar has noted down so far. -/
  notes : List ω

namespace State

variable {κ τ ω : Type}

/-- Move on by one token, recording the faults met in reading it.  Nothing comes after the end
of the source. -/
def shift (s : State κ τ ω) : State κ τ ω :=
  match s.ahead.tokens with
  | [] => s
  | next :: _ =>
    { s with lookahead := next.token, ahead := s.ahead.tail, sink := s.sink ++ next.faults }

/-- Record a fault. -/
def record (s : State κ τ ω) (d : Diagnostic κ τ) : State κ τ ω :=
  { s with sink := s.sink ++ [d] }

/-- The same state with other notes, possibly of another type. -/
def withNotes {ν : Type} (notes : List ν) (s : State κ τ ω) : State κ τ ν :=
  ⟨s.lookahead, s.ahead, s.recovering, s.scopes, s.sink, notes⟩

/-- At the end of the source, going on changes nothing. -/
theorem shift_of_nil {s : State κ τ ω} (h : s.ahead.tokens = []) : s.shift = s := by
  simp [shift, h]

/-- Going on looks at the next token, and records the faults that come with it. -/
theorem shift_of_cons {s : State κ τ ω} {next : Scanned κ τ} {more : List (Scanned κ τ)}
    (h : s.ahead.tokens = next :: more) :
    s.shift =
      { s with lookahead := next.token, ahead := s.ahead.tail, sink := s.sink ++ next.faults } := by
  simp [shift, h]

/-- Going on leaves one token less ahead. -/
@[simp] theorem shift_tokens (s : State κ τ ω) : s.shift.ahead.tokens = s.ahead.tokens.tail := by
  rw [shift]
  split <;> simp_all

/-- Going on does not end a recovery, nor start one. -/
@[simp] theorem shift_recovering (s : State κ τ ω) : s.shift.recovering = s.recovering := by
  rw [shift]
  split <;> rfl

/-- Going on leaves the scopes alone. -/
@[simp] theorem shift_scopes (s : State κ τ ω) : s.shift.scopes = s.scopes := by
  rw [shift]
  split <;> rfl

/-- Going on leaves the notes alone. -/
@[simp] theorem shift_notes (s : State κ τ ω) : s.shift.notes = s.notes := by
  rw [shift]
  split <;> rfl

variable [TokenKind κ]

/-- A run without a source. -/
def inert : State κ τ ω :=
  ⟨⟨TokenKind.endOfFile, "", ⟨1, 1⟩⟩, .ofList [], false, .empty, [], []⟩

/-- A run at the first token of a source. -/
def initial (classifier : Classifier κ) (source : Source) : State κ τ ω :=
  let cursor := Cursor.start source
  { inert with
    sink := cursor.faults
    ahead := .ofList (cursor.acknowledge.stream classifier) }.shift

/-- Discard tokens, at most as many as the list has, until one of the given kind or the end of
the source turns up. -/
def discard (kind : κ) : List (Scanned κ τ) → State κ τ ω → State κ τ ω
  | [], s => s
  | _ :: more, s =>
    if s.lookahead.kind = kind ∨ s.lookahead.isEnd then s else discard kind more s.shift

/-- Discard tokens until one of the given kind or the end of the source turns up. -/
def discardTo (kind : κ) (s : State κ τ ω) : State κ τ ω := discard kind s.ahead.tokens s

/-- Discarding keeps whatever moving on keeps. -/
theorem discard_preserves {p : State κ τ ω → Prop} (step : ∀ s, p s → p s.shift) (kind : κ)
    (more : List (Scanned κ τ)) {s : State κ τ ω} (h : p s) : p (discard kind more s) := by
  induction more generalizing s with
  | nil => exact h
  | cons _ more ih =>
    rw [discard]
    split
    · exact h
    · exact ih (step s h)

/-- Skipping to a kind does not end a recovery by itself. -/
@[simp] theorem discardTo_recovering (kind : κ) (s : State κ τ ω) :
    (s.discardTo kind).recovering = s.recovering :=
  discard_preserves (p := fun t => t.recovering = s.recovering) (by simp) kind _ rfl

/-- Skipping to a kind leaves the scopes alone. -/
@[simp] theorem discardTo_scopes (kind : κ) (s : State κ τ ω) :
    (s.discardTo kind).scopes = s.scopes :=
  discard_preserves (p := fun t => t.scopes = s.scopes) (by simp) kind _ rfl

/-- Skipping to a kind leaves the notes alone. -/
@[simp] theorem discardTo_notes (kind : κ) (s : State κ τ ω) :
    (s.discardTo kind).notes = s.notes :=
  discard_preserves (p := fun t => t.notes = s.notes) (by simp) kind _ rfl

end State

end SinglePass
