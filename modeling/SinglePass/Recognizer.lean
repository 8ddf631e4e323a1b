import SinglePass.State
import SinglePass.Strategy

/-!
# Recognizers

A grammar is written as recognizers, one for each rule.  A recognizer looks at one token ahead,
consumes tokens from left to right, keeps the scopes and notes down what it finds, all in one
pass.  It ends in one of three ways: with a value, by giving up, or by running out of the fuel
that bounds its nesting.

What a fault does depends on the strategy of the run.

* `failFast`: the fault is recorded and the recognizer gives up.
* `recovering`: an unexpected token is recorded and the run starts to recover.  While it does,
  no fault of grammar or meaning is recorded, and requiring a token of some kind (`mustBe`)
  discards tokens until one of that kind turns up; then the run goes on as before.

Recursive rules take fuel.  Every round of a loop and every nested rule consumes a token first,
so the number of tokens left is always enough (`withFuel`).
-/

namespace SinglePass

/-- How a recognizer ends. -/
inductive Outcome (α : Type) where
  | value (a : α)
  | abort
  | outOfFuel

/-- The same ending with another value. -/
def Outcome.map {α β : Type} (f : α → β) : Outcome α → Outcome β
  | .value a => .value (f a)
  | .abort => .abort
  | .outOfFuel => .outOfFuel

/-- A grammar rule at work: under a strategy it turns a state into an outcome and the state it
leaves behind, also when it gives up. -/
def Recognizer (κ τ ω α : Type) : Type := Strategy → State κ τ ω → Outcome α × State κ τ ω

namespace Recognizer

variable {κ τ ω α β : Type}

/-! ## Sequencing -/

/-- End with a value. -/
protected def pure (a : α) : Recognizer κ τ ω α := fun _ s => (.value a, s)

/-- Go on with the value, if there is one. -/
protected def bind (r : Recognizer κ τ ω α) (f : α → Recognizer κ τ ω β) : Recognizer κ τ ω β :=
  fun strategy s =>
    match r strategy s with
    | (.value a, s) => f a strategy s
    | (.abort, s) => (.abort, s)
    | (.outOfFuel, s) => (.outOfFuel, s)

instance : Monad (Recognizer κ τ ω) where
  pure := Recognizer.pure
  bind := Recognizer.bind

/-- A value leaves the state as it is. -/
theorem pure_apply (a : α) (strategy : Strategy) (s : State κ τ ω) :
    (pure a : Recognizer κ τ ω α) strategy s = (.value a, s) := rfl

/-- What is put in sequence goes on only from a value. -/
theorem bind_apply (r : Recognizer κ τ ω α) (f : α → Recognizer κ τ ω β)
    (strategy : Strategy) (s : State κ τ ω) :
    (r >>= f) strategy s =
      match r strategy s with
      | (.value a, s) => f a strategy s
      | (.abort, s) => (.abort, s)
      | (.outOfFuel, s) => (.outOfFuel, s) := rfl

/-- Behind a value, the second part goes on. -/
theorem bind_of_value {r : Recognizer κ τ ω α} {strategy : Strategy} {s t : State κ τ ω} {a : α}
    (h : r strategy s = (.value a, t)) (f : α → Recognizer κ τ ω β) :
    (r >>= f) strategy s = f a strategy t := by
  rw [bind_apply, h]

/-- Where the first part gives up, so does the whole. -/
theorem bind_of_abort {r : Recognizer κ τ ω α} {strategy : Strategy} {s t : State κ τ ω}
    (h : r strategy s = (.abort, t)) (f : α → Recognizer κ τ ω β) :
    (r >>= f) strategy s = (.abort, t) := by
  rw [bind_apply, h]

/-- Where the first part runs out of fuel, so does the whole. -/
theorem bind_of_outOfFuel {r : Recognizer κ τ ω α} {strategy : Strategy} {s t : State κ τ ω}
    (h : r strategy s = (.outOfFuel, t)) (f : α → Recognizer κ τ ω β) :
    (r >>= f) strategy s = (.outOfFuel, t) := by
  rw [bind_apply, h]

/-- A choice between rules is made before they run. -/
theorem ite_apply (p : Prop) [Decidable p] (r t : Recognizer κ τ ω α) (strategy : Strategy)
    (s : State κ τ ω) :
    (if p then r else t) strategy s = if p then r strategy s else t strategy s := by
  split <;> rfl

/-- Give up. -/
def abort : Recognizer κ τ ω α := fun _ s => (.abort, s)

/-- End for want of fuel. -/
def outOfFuel : Recognizer κ τ ω α := fun _ s => (.outOfFuel, s)

/-- Look at the state. -/
def read (f : State κ τ ω → α) : Recognizer κ τ ω α := fun _ s => (.value (f s), s)

/-- Change the state. -/
def change (f : State κ τ ω → State κ τ ω) : Recognizer κ τ ω Unit := fun _ s => (.value (), f s)

/-- The strategy of the run. -/
def strategy : Recognizer κ τ ω Strategy := fun strategy s => (.value strategy, s)

/-- Note something down. -/
def note (w : ω) : Recognizer κ τ ω Unit := change fun s => { s with notes := s.notes ++ [w] }

/-- Run a rule of a grammar with notes of its own, and hand out those. -/
def collecting {ν : Type} (r : Recognizer κ τ ν Unit) : Recognizer κ τ ω (List ν) :=
  fun strategy s =>
    let ended := r strategy (s.withNotes [])
    (ended.1.map fun _ => ended.2.notes, ended.2.withNotes s.notes)

/-- Run a rule and hand out how it ended, even if it gave up. -/
def attempt (r : Recognizer κ τ ω α) : Recognizer κ τ ω (Outcome α) :=
  fun strategy s => (.value (r strategy s).1, (r strategy s).2)

/-! ## Tokens -/

/-- The token that is looked at. -/
def lookahead : Recognizer κ τ ω (Token κ) := read (·.lookahead)

/-- Consume the token that is looked at. -/
def advance : Recognizer κ τ ω (Token κ) := fun _ s => (.value s.lookahead, s.shift)

variable [TokenKind κ]

/-- Has the token that is looked at this kind? -/
def sees (kind : κ) : Recognizer κ τ ω Bool := read fun s => s.lookahead.kind = kind

/-- Has the token that is looked at one of these kinds? -/
def seesAny (kinds : List κ) : Recognizer κ τ ω Bool := read fun s => s.lookahead.kind ∈ kinds

/-- Is the end of the source looked at? -/
def atEnd : Recognizer κ τ ω Bool := read (·.lookahead.isEnd)

/-- Consume the token that is looked at if it has this kind, and say whether it had. -/
def accept (kind : κ) : Recognizer κ τ ω Bool := do
  if ← sees kind then
    let _ ← advance
    return true
  else
    return false

/-! ## Faults -/

/-- Hand a fault of meaning to the strategy. -/
def report (d : Diagnostic κ τ) : Recognizer κ τ ω Unit := fun strategy s =>
  match strategy with
  | .failFast => (.abort, s.record d)
  | .recovering => (.value (), if s.recovering then s else s.record d)

/-- The token that is looked at is not what the rule needs. -/
def unexpected (expected : Expected κ) : Recognizer κ τ ω Unit := fun strategy s =>
  match strategy with
  | .failFast => (.abort, s.record (.unexpected s.lookahead expected))
  | .recovering =>
    (.value (),
      { (if s.recovering then s else s.record (.unexpected s.lookahead expected)) with
        recovering := true })

/-- Discard tokens up to one of this kind and end the recovery with it; if the end of the source
comes first, the run stays recovering. -/
def resynchronize (kind : κ) : Recognizer κ τ ω (Option (Token κ)) := fun strategy s =>
  if (s.discardTo kind).lookahead.kind = kind then
    (do return some (← advance)) strategy { s.discardTo kind with recovering := false }
  else
    (.value none, s.discardTo kind)

/-- Require a token of this kind: it is consumed, or the token looked at is unexpected.  While
recovering, skip to such a token. -/
def mustBe (kind : κ) : Recognizer κ τ ω (Option (Token κ)) := do
  if ← read (·.recovering) then
    resynchronize kind
  else if ← sees kind then
    return some (← advance)
  else
    unexpected (.kind kind)
    return none

/-- Require the end of the source, unless recovery has given up on the rest. -/
def mustEnd : Recognizer κ τ ω Unit := do
  if (← read (·.recovering)) || (← atEnd) then
    return
  else
    unexpected (.kind TokenKind.endOfFile)

/-! ## Laws of faults -/

omit [TokenKind κ] in
/-- A run that stops at its first fault records it and gives up. -/
theorem report_failFast (d : Diagnostic κ τ) (s : State κ τ ω) :
    report d .failFast s = (.abort, s.record d) := rfl

omit [TokenKind κ] in
/-- A recovering run records a fault of meaning, unless it is skipping. -/
theorem report_recovering (d : Diagnostic κ τ) (s : State κ τ ω) :
    report d .recovering s = (.value (), if s.recovering then s else s.record d) := rfl

/-- A token of the required kind is consumed. -/
theorem mustBe_of_kind_eq {kind : κ} {s : State κ τ ω} (strategy : Strategy)
    (hr : s.recovering = false) (hk : s.lookahead.kind = kind) :
    mustBe kind strategy s = (.value (some s.lookahead), s.shift) := by
  simp [mustBe, bind_apply, pure_apply, read, sees, advance, hr, hk]

/-- The first token of another kind ends a run that stops at its first fault. -/
theorem mustBe_failFast_of_kind_ne {kind : κ} {s : State κ τ ω} (hr : s.recovering = false)
    (hk : s.lookahead.kind ≠ kind) :
    mustBe kind .failFast s = (.abort, s.record (.unexpected s.lookahead (.kind kind))) := by
  simp [mustBe, bind_apply, read, sees, unexpected, hr, hk]

/-- The first token of another kind makes a run recover. -/
theorem mustBe_recovering_of_kind_ne {kind : κ} {s : State κ τ ω} (hr : s.recovering = false)
    (hk : s.lookahead.kind ≠ kind) :
    mustBe kind .recovering s =
      (.value none,
        { s.record (.unexpected s.lookahead (.kind kind)) with recovering := true }) := by
  simp [mustBe, bind_apply, pure_apply, read, sees, unexpected, hr, hk]

/-- While recovering, requiring a kind skips to it. -/
theorem mustBe_of_recovering {kind : κ} {s : State κ τ ω} (strategy : Strategy)
    (hr : s.recovering = true) : mustBe kind strategy s = resynchronize kind strategy s := by
  simp [mustBe, bind_apply, read, hr]

/-! ## Recursion -/

omit [TokenKind κ] in
/-- Run a rule with as much fuel as there are tokens left. -/
def withFuel (r : Nat → Recognizer κ τ ω α) : Recognizer κ τ ω α :=
  fun strategy s => r (s.ahead.count + 1) strategy s

omit [TokenKind κ] in
/-- Repeat a rule, for at most `n` rounds, while the kind of the token looked at passes the
test. -/
def iterate (test : κ → Bool) (body : α → Recognizer κ τ ω α) : Nat → α → Recognizer κ τ ω α
  | 0, _ => outOfFuel
  | n + 1, a => do
    if test (← lookahead).kind then
      iterate test body n (← body a)
    else
      return a

omit [TokenKind κ] in
/-- A loop goes on at a token that passes its test. -/
theorem iterate_of_test {test : κ → Bool} {body : α → Recognizer κ τ ω α} {strategy : Strategy}
    {s : State κ τ ω} (h : test s.lookahead.kind = true) (n : Nat) (a : α) :
    iterate test body (n + 1) a strategy s = (body a >>= iterate test body n) strategy s := by
  have hlook : lookahead strategy s = (.value s.lookahead, s) := rfl
  rw [iterate, bind_of_value hlook, if_pos h]

omit [TokenKind κ] in
/-- A loop ends at a token that does not pass its test. -/
theorem iterate_of_not_test {test : κ → Bool} {body : α → Recognizer κ τ ω α} {strategy : Strategy}
    {s : State κ τ ω} (h : test s.lookahead.kind = false) (n : Nat) (a : α) :
    iterate test body (n + 1) a strategy s = (.value a, s) := by
  have hlook : lookahead strategy s = (.value s.lookahead, s) := rfl
  rw [iterate, bind_of_value hlook, if_neg (by simp [h]), pure_apply]

omit [TokenKind κ] in
/-- Repeat a rule that consumes tokens while the kind of the token looked at passes the test. -/
def whileSees (test : κ → Bool) (body : α → Recognizer κ τ ω α) (a : α) : Recognizer κ τ ω α :=
  withFuel fun n => iterate test body n a

end Recognizer

end SinglePass
