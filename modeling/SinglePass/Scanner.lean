import SinglePass.Classifier
import SinglePass.Diagnostic

/-!
# Scanning

Scanning turns a source into tokens by asking a classifier again and again.  Two rules hold
whatever the classifier does.  A token that does not end the source consumes at least one
character, if need be by force.  And a fault is recorded where it is met: first a failure of
the source, then the lexical fault of an invalid token.

`Cursor.scan` is one such step, and `Cursor.stream` the whole sequence of them up to the end of
the source.  Main statements: a token that does not end the source uses up a character
(`remaining_advance_lt`), and the stream has one token that ends the source, the last one
(`stream_eq_append`).

A `Scanner` offers the same steps one call at a time, with a sink for the faults.
-/

namespace SinglePass

variable {κ τ : Type} [TokenKind κ]

/-- A token with the faults that were met in reading it. -/
structure Scanned (κ τ : Type) where
  token : Token κ
  faults : List (Diagnostic κ τ)

namespace Cursor

/-! ## One token -/

/-- The failure that the cursor has met and nobody has reported yet. -/
def faults (c : Cursor) : List (Diagnostic κ τ) :=
  match c.failure with
  | some (position, cause) => [.io position cause]
  | none => []

/-- The fault of an invalid token. -/
def lexicalFaults (token : Token κ) : List (Diagnostic κ τ) :=
  if TokenKind.isInvalid token.kind then [.lexical token] else []

/-- Mark the failure of the cursor as reported. -/
def acknowledge (c : Cursor) : Cursor := { c with failure := none }

/-- Read one token, moving on by force if a token other than the last consumed nothing. -/
def advance (classifier : Classifier κ) (c : Cursor) : Token κ × Cursor :=
  let read := classifier.classify c
  if read.1.isEnd = false ∧ read.2.consumed = c.consumed then (read.1, read.2.consume 1)
  else read

omit [TokenKind κ] in
/-- Acknowledging failures leaves as much to scan. -/
theorem remaining_acknowledge (c : Cursor) : c.acknowledge.remaining = c.remaining := rfl

/-- Reading a token moves by consuming. -/
theorem advance_eq_consume (classifier : Classifier κ) (c : Cursor) :
    ∃ n, (c.advance classifier).2 = c.consume n := by
  obtain ⟨n, hn⟩ := classifier.moves c
  by_cases h : (classifier.classify c).1.isEnd = false ∧
      (classifier.classify c).2.consumed = c.consumed
  · exact ⟨n + 1, by simp only [advance, h, and_self, if_true]; rw [hn, consume_add]⟩
  · exact ⟨n, by simp only [advance, h, if_false]; exact hn⟩

/-- A token that does not end the source uses up a character. -/
theorem remaining_advance_lt (classifier : Classifier κ) (c : Cursor)
    (h : (c.advance classifier).1.isEnd = false) :
    (c.advance classifier).2.remaining < c.remaining := by
  obtain ⟨n, hn⟩ := classifier.moves c
  have hend : (classifier.classify c).1.isEnd = false := by
    simp only [advance] at h
    split at h <;> exact h
  have hpos : c.remaining ≠ 0 := fun hr => by
    have := classifier.ends c (exhausted_iff_remaining.2 hr)
    simp [Token.isEnd, this] at hend
  by_cases hc : (classifier.classify c).2.consumed = c.consumed
  · simp only [advance, hend, hc, and_self, if_true]
    rw [hn, ← consume_add, remaining_consume]
    omega
  · simp only [advance, hend, hc, and_false, if_false]
    rw [hn, consumed_consume] at hc
    rw [hn, remaining_consume]
    omega

/-- Read one token together with the faults met on the way. -/
def scan (classifier : Classifier κ) (c : Cursor) : Scanned κ τ × Cursor :=
  let read := c.advance classifier
  (⟨read.1, read.2.faults ++ lexicalFaults read.1⟩, read.2.acknowledge)

/-! ## All tokens -/

/-- Read at most `n` tokens, and none after the end of the source. -/
def scanUpTo (classifier : Classifier κ) : Nat → Cursor → List (Scanned κ τ)
  | 0, _ => []
  | n + 1, c =>
    let read := c.scan classifier
    if read.1.token.isEnd then [read.1] else read.1 :: scanUpTo classifier n read.2

/-- All tokens from the cursor to the end of the source.  Every token but the last consumes a
character, so there are no more of them than characters. -/
def stream (classifier : Classifier κ) (c : Cursor) : List (Scanned κ τ) :=
  scanUpTo classifier (c.remaining + 1) c

/-- With enough fuel, the scan ends with the token that ends the source, and not before. -/
theorem scanUpTo_eq_append (classifier : Classifier κ) {n : Nat} {c : Cursor}
    (h : c.remaining < n) :
    ∃ (before : List (Scanned κ τ)) (last : Scanned κ τ),
      scanUpTo classifier n c = before ++ [last] ∧ last.token.isEnd = true ∧
        ∀ s ∈ before, s.token.isEnd = false := by
  induction n generalizing c with
  | zero => omega
  | succ n ih =>
    by_cases hend : (c.advance classifier).1.isEnd = true
    · exact ⟨[], (c.scan classifier).1, by simp [scanUpTo, scan, hend], hend, by simp⟩
    · rw [Bool.not_eq_true] at hend
      have hlt := remaining_advance_lt classifier c hend
      have hn : (c.scan (τ := τ) classifier).2.remaining < n := by
        simp only [scan, remaining_acknowledge]
        omega
      obtain ⟨before, last, heq, hlast, hbefore⟩ := ih hn
      refine ⟨(c.scan classifier).1 :: before, last, ?_, hlast, ?_⟩
      · simp [scanUpTo, heq, show (c.scan classifier).1.token.isEnd = false from hend]
      · intro s hs
        rcases List.mem_cons.1 hs with rfl | hs
        · exact hend
        · exact hbefore s hs

/-- The stream has one token that ends the source, and it comes last. -/
theorem stream_eq_append (classifier : Classifier κ) (c : Cursor) :
    ∃ (before : List (Scanned κ τ)) (last : Scanned κ τ),
      c.stream classifier = before ++ [last] ∧ last.token.isEnd = true ∧
        ∀ s ∈ before, s.token.isEnd = false :=
  scanUpTo_eq_append classifier (Nat.lt_succ_self _)

end Cursor

/-! ## Scanning step by step -/

/-- A source that is being scanned. -/
structure Session (κ τ : Type) where
  cursor : Cursor
  /-- The faults met so far, in the order in which they were met. -/
  sink : List (Diagnostic κ τ)
  /-- The token read last. -/
  current? : Option (Token κ)

namespace Session

/-- Start on a source with a sink that may already hold faults.  A source whose first line
cannot be read has failed before any token is read. -/
def start (source : Source) (sink : List (Diagnostic κ τ)) : Session κ τ :=
  let cursor := Cursor.start source
  ⟨cursor.acknowledge, sink ++ cursor.faults, none⟩

/-- Has the token that ends the source been read? -/
def atEnd (s : Session κ τ) : Bool := s.current?.any (·.isEnd)

/-- Read the next token.  After the end of the source its token is given again and again. -/
def next (classifier : Classifier κ) (s : Session κ τ) : Token κ × Session κ τ :=
  let read := s.cursor.scan classifier
  let fresh := (read.1.token, ⟨read.2, s.sink ++ read.1.faults, some read.1.token⟩)
  match s.current? with
  | none => fresh
  | some token => if token.isEnd then (token, s) else fresh

end Session

/-- A scanner is idle, or at work on a source. -/
abbrev Scanner (κ τ : Type) := Option (Session κ τ)

namespace Scanner

/-- A scanner that has no source. -/
def idle : Scanner κ τ := none

/-- Start on a source, leaving behind whatever was being scanned. -/
def init (source : Source) (sink : List (Diagnostic κ τ)) : Scanner κ τ :=
  some (.start source sink)

/-- The token read last. -/
def current? (s : Scanner κ τ) : Option (Token κ) := s.bind (·.current?)

/-- Has the token that ends the source been read? -/
def atEnd (s : Scanner κ τ) : Bool := s.any (·.atEnd)

/-- Read the next token; an idle scanner has none. -/
def next (classifier : Classifier κ) : Scanner κ τ → Option (Token κ) × Scanner κ τ
  | none => (none, none)
  | some session =>
    let (token, session) := session.next classifier
    (some token, some session)

/-- Record a fault; an idle scanner has nowhere to record it. -/
def push (d : Diagnostic κ τ) : Scanner κ τ → Bool × Scanner κ τ
  | none => (false, none)
  | some session => (true, some { session with sink := session.sink ++ [d] })

/-- The faults met so far, in the order in which they were met. -/
def sink? (s : Scanner κ τ) : Option (List (Diagnostic κ τ)) := s.map (·.sink)

/-- Give up the source and hand out the faults in presentation order. -/
def finish (s : Scanner κ τ) : Option (List (Diagnostic κ τ)) × Scanner κ τ :=
  (s.sink?.map Diagnostic.sort, idle)

/-- Read at most `n` tokens, and none after the end of the source. -/
def drainUpTo (classifier : Classifier κ) : Nat → Scanner κ τ → List (Token κ) × Scanner κ τ
  | 0, s => ([], s)
  | n + 1, s =>
    match s.next classifier with
    | (none, s) => ([], s)
    | (some token, s) =>
      if token.isEnd then ([token], s)
      else
        let (tokens, s) := drainUpTo classifier n s
        (token :: tokens, s)

/-- Read all tokens up to the end of the source. -/
def drain (classifier : Classifier κ) (s : Scanner κ τ) : List (Token κ) × Scanner κ τ :=
  drainUpTo classifier (s.elim 0 (·.cursor.remaining + 1)) s

end Scanner

end SinglePass
