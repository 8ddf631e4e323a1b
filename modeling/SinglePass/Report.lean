import SinglePass.Binding

/-!
# Runs and their reports

A run starts at the first token of a source, applies the start rule of a grammar, and requires
the end of the source after it.  Its report holds every fault that was recorded, in
presentation order, and the state in which the run ended.
-/

namespace SinglePass

/-- What is known when a run has ended. -/
structure Report (κ τ ω : Type) where
  /-- The faults, in presentation order. -/
  errors : List (Diagnostic κ τ)
  /-- Was the run still recovering? -/
  recovering : Bool
  /-- The scopes that were still open. -/
  scopes : ScopeStack κ τ
  /-- What the grammar has noted down. -/
  notes : List ω

namespace Report

variable {κ τ ω : Type}

/-- The report on a run that ended in the given state. -/
def ofState (s : State κ τ ω) : Report κ τ ω :=
  ⟨Diagnostic.sort s.sink, s.recovering, s.scopes, s.notes⟩

/-- Was no fault found? -/
def succeeded (r : Report κ τ ω) : Bool := r.errors.isEmpty

/-- The messages of the faults. -/
def messages [TokenKind κ] [TypeTag τ] (r : Report κ τ ω) : List String :=
  r.errors.map Diagnostic.message

/-- A report is a success if it lists no error. -/
theorem succeeded_iff {r : Report κ τ ω} : r.succeeded = true ↔ r.errors = [] := by
  simp [succeeded]

end Report

variable {κ τ ω : Type} [TokenKind κ]

/-- Apply a start rule and require the end of the source after it. -/
def Recognizer.toEnd (start : Recognizer κ τ ω Unit) : Recognizer κ τ ω Unit := do
  start
  mustEnd

/-- Run a start rule on a source: how it ends, and the state it leaves behind. -/
def run (classifier : Classifier κ) (start : Recognizer κ τ ω Unit) (strategy : Strategy)
    (source : Source) : Outcome Unit × State κ τ ω :=
  start.toEnd strategy (.initial classifier source)

/-- Run a start rule on a source and report. -/
def parse (classifier : Classifier κ) (start : Recognizer κ τ ω Unit) (strategy : Strategy)
    (source : Source) : Report κ τ ω :=
  .ofState (run classifier start strategy source).2

end SinglePass
