import SinglePass.Report

/-!
# The tokens of a source

The token stream of a source does not depend on what is done with it, so it can be named apart
from any run: `Source.tokens`.  A run starts at its first token with the others ahead.

* `initial_input`: the tokens that a run has before it are those of the source.
* `initial_scansOnly`, `isScanning_of_mem_initial_sink`: all that the tokens bring with them, and
  all that is recorded at the start, are faults of the scanner.
* `faults_eq_lexicalFaults`: if every line can be read, a token brings with it at most its own
  lexical fault.
-/

namespace SinglePass

variable {κ τ ω : Type}

/-- Are the faults of the tokens that are still to come all found by the scanner? -/
def State.ScansOnly (s : State κ τ ω) : Prop :=
  ∀ scanned ∈ s.ahead.tokens, ∀ d ∈ scanned.faults, d.isScanning = true

/-- Going on keeps a run to faults of the scanner in what it has ahead. -/
theorem State.ScansOnly.shift {s : State κ τ ω} (h : s.ScansOnly) : s.shift.ScansOnly := by
  intro scanned hmem
  rw [State.shift_tokens] at hmem
  exact h scanned (List.mem_of_mem_tail hmem)

/-- The tokens that a run has before it, from the one that is looked at. -/
def State.input (s : State κ τ ω) : List (Token κ) :=
  s.lookahead :: s.ahead.tokens.map Scanned.token

/-! ## Faults of the scanner -/

/-- A failure to read is a fault of the scanner. -/
theorem Cursor.isScanning_of_mem_faults {c : Cursor} {d : Diagnostic κ τ} (h : d ∈ c.faults) :
    d.isScanning = true := by
  unfold Cursor.faults at h
  split at h
  · rw [List.mem_singleton.1 h]
    rfl
  · simp at h

variable [TokenKind κ]

/-- An invalid token is a fault of the scanner. -/
theorem Cursor.isScanning_of_mem_lexicalFaults {token : Token κ} {d : Diagnostic κ τ}
    (h : d ∈ Cursor.lexicalFaults token) : d.isScanning = true := by
  unfold Cursor.lexicalFaults at h
  split at h
  · rw [List.mem_singleton.1 h]
    rfl
  · simp at h

/-- All faults that come with a token of a stream are of the scanner. -/
theorem Cursor.isScanning_of_mem_stream {classifier : Classifier κ} {c : Cursor}
    {scanned : Scanned κ τ} (h : scanned ∈ c.stream classifier) :
    ∀ d ∈ scanned.faults, d.isScanning = true := by
  unfold Cursor.stream at h
  generalize c.remaining + 1 = n at h
  induction n generalizing c with
  | zero => simp [scanUpTo] at h
  | succ n ih =>
    have head : ∀ d ∈ (c.scan (τ := τ) classifier).1.faults, d.isScanning = true := by
      intro d hd
      rcases List.mem_append.1 hd with hd | hd
      · exact isScanning_of_mem_faults hd
      · exact isScanning_of_mem_lexicalFaults hd
    rw [scanUpTo] at h
    split at h
    · rw [List.mem_singleton.1 h]
      exact head
    · rcases List.mem_cons.1 h with rfl | h
      · exact head
      · exact ih h

/-! ## The stream of a source -/

/-- Everything that scanning a source gives after its first line has been fetched. -/
def Source.stream (classifier : Classifier κ) (source : Source) : List (Scanned κ τ) :=
  (Cursor.start source).acknowledge.stream classifier

/-- All tokens of a source, the one that ends it included. -/
def Source.tokens (classifier : Classifier κ) (source : Source) : List (Token κ) :=
  (source.stream (τ := Unit) classifier).map Scanned.token

/-- All faults that come with a token of a source are of the scanner. -/
theorem Source.isScanning_of_mem_stream {classifier : Classifier κ} {source : Source}
    {scanned : Scanned κ τ} (h : scanned ∈ source.stream classifier) :
    ∀ d ∈ scanned.faults, d.isScanning = true := Cursor.isScanning_of_mem_stream h

/-- The tokens do not depend on the type of the faults that come with them. -/
theorem Source.map_token_stream (classifier : Classifier κ) (source : Source) :
    (source.stream (τ := τ) classifier).map Scanned.token = source.tokens classifier := by
  unfold Source.tokens Source.stream Cursor.stream
  generalize (Cursor.start source).acknowledge.remaining + 1 = n
  generalize (Cursor.start source).acknowledge = c
  induction n generalizing c with
  | zero => rfl
  | succ n ih =>
    have htoken : (c.scan (τ := τ) classifier).1.token = (c.scan (τ := Unit) classifier).1.token :=
      rfl
    have hrest : (c.scan (τ := τ) classifier).2 = (c.scan (τ := Unit) classifier).2 := rfl
    rw [Cursor.scanUpTo, Cursor.scanUpTo, htoken, hrest]
    split
    · simp only [List.map_cons, List.map_nil, htoken]
    · simp only [List.map_cons, htoken, ih]

/-- The last token of a source ends it, and no other does. -/
theorem Source.tokens_eq_append (classifier : Classifier κ) (source : Source) :
    ∃ (before : List (Token κ)) (last : Token κ), source.tokens classifier = before ++ [last] ∧
      last.isEnd = true ∧ ∀ t ∈ before, t.isEnd = false := by
  obtain ⟨before, last, heq, hlast, hbefore⟩ :=
    Cursor.stream_eq_append (τ := Unit) classifier (Cursor.start source).acknowledge
  refine ⟨before.map Scanned.token, last.token, ?_, hlast, ?_⟩
  · rw [Source.tokens, Source.stream, heq]
    simp
  · intro t ht
    obtain ⟨scanned, hmem, rfl⟩ := List.mem_map.1 ht
    exact hbefore scanned hmem

/-- Every source has a token: the one that ends it. -/
theorem Source.stream_ne_nil (classifier : Classifier κ) (source : Source) :
    source.stream (τ := τ) classifier ≠ [] := by
  obtain ⟨before, last, heq, -⟩ :=
    Cursor.stream_eq_append (τ := τ) classifier (Cursor.start source).acknowledge
  rw [Source.stream, heq]
  simp

/-! ## Sources that can be read -/

/-- Can every line of the source be read? -/
def Source.Readable (source : Source) : Prop := ∀ cause, Reading.failure cause ∉ source

omit [TokenKind κ] in
/-- Lines that are given can be read. -/
theorem Source.readable_map_line (lines : List String) : Source.Readable (lines.map .line) := by
  intro cause hmem
  obtain ⟨line, -, hline⟩ := List.mem_map.1 hmem
  cases hline

namespace Cursor

/-- The cursor has met no failure and has none before it. -/
structure Sound (c : Cursor) : Prop where
  failure_eq : c.failure = none
  pending : Source.Readable c.pending

omit [TokenKind κ] in
/-- A sound cursor has met no failure. -/
theorem Sound.faults_eq {c : Cursor} (h : c.Sound) : (c.faults : List (Diagnostic κ τ)) = [] := by
  unfold faults
  rw [h.failure_eq]

/-- Refilling the line keeps a cursor sound. -/
theorem Sound.refill {c : Cursor} (h : c.Sound) : c.refill.Sound := by
  obtain ⟨rest, pending, taken, column, consumed, failure⟩ := c
  obtain ⟨hfailure, hpending⟩ := h
  cases pending with
  | nil => exact ⟨hfailure, hpending⟩
  | cons reading more =>
    have hmore : Source.Readable more := fun cause hmem =>
      hpending cause (List.mem_cons_of_mem _ hmem)
    cases reading with
    | line text => exact ⟨hfailure, hmore⟩
    | failure cause => exact absurd List.mem_cons_self (hpending cause)

/-- A step keeps a cursor sound. -/
theorem Sound.step {c : Cursor} (h : c.Sound) : c.step.Sound := by
  unfold Cursor.step
  split
  · exact h
  · exact Sound.refill ⟨h.failure_eq, h.pending⟩
  · exact ⟨h.failure_eq, h.pending⟩

/-- Consuming characters keeps a cursor sound. -/
theorem Sound.consume {c : Cursor} (h : c.Sound) (n : Nat) : (c.consume n).Sound := by
  induction n generalizing c with
  | zero => exact h
  | succ n ih =>
    rw [consume_succ]
    exact ih h.step

/-- A cursor at the start of a readable source is sound. -/
theorem Sound.start {source : Source} (h : source.Readable) : (Cursor.start source).Sound :=
  Sound.refill ⟨rfl, h⟩

/-- Acknowledging failures keeps a cursor sound. -/
theorem Sound.acknowledge {c : Cursor} (h : c.Sound) : c.acknowledge.Sound := ⟨rfl, h.pending⟩

/-- Reading from a sound cursor brings no fault but the lexical one of each token. -/
theorem Sound.faults_of_mem_stream {classifier : Classifier κ} {c : Cursor} (h : c.Sound)
    {scanned : Scanned κ τ} (hmem : scanned ∈ c.stream classifier) :
    scanned.faults = lexicalFaults scanned.token := by
  unfold Cursor.stream at hmem
  generalize c.remaining + 1 = n at hmem
  induction n generalizing c with
  | zero => simp [scanUpTo] at hmem
  | succ n ih =>
    obtain ⟨k, hk⟩ := c.advance_eq_consume classifier
    have hnext : (c.advance classifier).2.Sound := by
      rw [hk]
      exact h.consume k
    have head : (c.scan (τ := τ) classifier).1.faults =
        lexicalFaults (c.scan (τ := τ) classifier).1.token := by
      change (c.advance classifier).2.faults ++ lexicalFaults (c.advance classifier).1 = _
      rw [hnext.faults_eq, List.nil_append]
      rfl
    rw [scanUpTo] at hmem
    split at hmem
    · rw [List.mem_singleton.1 hmem]
      exact head
    · rcases List.mem_cons.1 hmem with rfl | hmem
      · exact head
      · exact ih hnext.acknowledge hmem

end Cursor

/-- If every line can be read, a token brings with it at most its own lexical fault. -/
theorem Source.faults_eq_lexicalFaults {classifier : Classifier κ} {source : Source}
    (h : source.Readable) {scanned : Scanned κ τ} (hmem : scanned ∈ source.stream classifier) :
    scanned.faults = Cursor.lexicalFaults scanned.token :=
  (Cursor.Sound.start h).acknowledge.faults_of_mem_stream hmem

/-! ## The start of a run -/

/-- A run begins at the first token, with the failure of the first line and the faults of that
token recorded, and everything else ahead. -/
theorem State.initial_eq (classifier : Classifier κ) (source : Source) :
    ∃ (first : Scanned κ τ) (more : List (Scanned κ τ)),
      source.stream classifier = first :: more ∧
      (State.initial classifier source : State κ τ ω) =
        ⟨first.token, .ofList more, false, .empty, (Cursor.start source).faults ++ first.faults,
          []⟩ := by
  obtain ⟨first, more, heq⟩ := List.exists_cons_of_ne_nil (source.stream_ne_nil (τ := τ) classifier)
  refine ⟨first, more, heq, ?_⟩
  have hahead : (Upcoming.ofList (source.stream (τ := τ) classifier)).tokens = first :: more := heq
  unfold State.initial
  rw [State.shift_of_cons hahead]
  congr 1
  apply Upcoming.ext
  rw [Upcoming.tokens_tail]
  exact congrArg List.tail heq

/-- A run does not begin by recovering. -/
theorem State.initial_recovering (classifier : Classifier κ) (source : Source) :
    (State.initial classifier source : State κ τ ω).recovering = false := by
  obtain ⟨first, more, -, hinitial⟩ := State.initial_eq (τ := τ) (ω := ω) classifier source
  rw [hinitial]

/-- The tokens before a run at its start are those of the source. -/
theorem State.initial_input (classifier : Classifier κ) (source : Source) :
    (State.initial classifier source : State κ τ ω).input = source.tokens classifier := by
  obtain ⟨first, more, hstream, hinitial⟩ := State.initial_eq (τ := τ) (ω := ω) classifier source
  rw [hinitial, ← source.map_token_stream (τ := τ) classifier, hstream]
  rfl

/-- A run begins with faults of the scanner only in what it has ahead. -/
theorem State.initial_scansOnly (classifier : Classifier κ) (source : Source) :
    (State.initial classifier source : State κ τ ω).ScansOnly := by
  obtain ⟨first, more, hstream, hinitial⟩ := State.initial_eq (τ := τ) (ω := ω) classifier source
  intro scanned hmem
  rw [hinitial] at hmem
  have hin : scanned ∈ source.stream classifier := by
    rw [hstream]
    exact List.mem_cons_of_mem _ hmem
  exact Source.isScanning_of_mem_stream hin

/-- A run begins with faults of the scanner only in its sink. -/
theorem State.isScanning_of_mem_initial_sink (classifier : Classifier κ) (source : Source)
    {d : Diagnostic κ τ} (h : d ∈ (State.initial classifier source : State κ τ ω).sink) :
    d.isScanning = true := by
  obtain ⟨first, more, hstream, hinitial⟩ := State.initial_eq (τ := τ) (ω := ω) classifier source
  rw [hinitial] at h
  rcases List.mem_append.1 h with h | h
  · exact Cursor.isScanning_of_mem_faults h
  · have hin : first ∈ source.stream classifier := by
      rw [hstream]
      exact List.mem_cons_self
    exact Source.isScanning_of_mem_stream hin d h

end SinglePass
