import SinglePass.Proofs.Discipline
import SinglePass.Proofs.Walk

/-!
# The type rules in a run that is not recovering

In a recovering run that is not skipping over anything, a type rule records exactly the faults
that the walk of a syntax tree lists for it, answers the type that the walk computes, and leaves
everything else as it is.  One lemma for each rule says so; `State.recordAll` is the only change
of state in them.

What the rules of indexing do in any run is to hand those faults to the strategy one after the other
(`Recognizer.reportAll`).
-/

namespace SinglePass

variable {κ τ ω α β : Type}

/-- Record faults in their order. -/
def State.recordAll (s : State κ τ ω) (faults : List (Diagnostic κ τ)) : State κ τ ω :=
  { s with sink := s.sink ++ faults }

namespace State

/-- Recording faults does not end a recovery, nor start one. -/
@[simp] theorem recordAll_recovering (s : State κ τ ω) (faults : List (Diagnostic κ τ)) :
    (s.recordAll faults).recovering = s.recovering := rfl

/-- Recording faults leaves the scopes alone. -/
@[simp] theorem recordAll_scopes (s : State κ τ ω) (faults : List (Diagnostic κ τ)) :
    (s.recordAll faults).scopes = s.scopes := rfl

/-- Recording no faults changes nothing. -/
@[simp] theorem recordAll_nil (s : State κ τ ω) : s.recordAll [] = s := by
  unfold recordAll
  rw [List.append_nil]

/-- Recording faults in two parts records them all. -/
@[simp] theorem recordAll_recordAll (s : State κ τ ω) (faults more : List (Diagnostic κ τ)) :
    (s.recordAll faults).recordAll more = s.recordAll (faults ++ more) := by
  unfold recordAll
  rw [List.append_assoc]

/-- A single fault is recorded like a list of one. -/
theorem record_eq_recordAll (s : State κ τ ω) (d : Diagnostic κ τ) :
    s.record d = s.recordAll [d] := rfl

end State

namespace Recognizer

variable {s : State κ τ ω}

/-- A run that is not recovering records what is reported. -/
theorem report_calm (hr : s.recovering = false) (d : Diagnostic κ τ) :
    report d .recovering s = (.value (), s.recordAll [d]) := by
  rw [report_recovering, hr, State.record_eq_recordAll]
  rfl

/-- Hand faults of meaning to the strategy, one after the other. -/
def reportAll : List (Diagnostic κ τ) → Recognizer κ τ ω Unit
  | [] => return
  | d :: more => do
    report d
    reportAll more

/-- Faults are reported one after the other. -/
theorem reportAll_append (faults more : List (Diagnostic κ τ)) :
    (reportAll (faults ++ more) : Recognizer κ τ ω Unit) = (do
      reportAll faults
      reportAll more) := by
  induction faults with
  | nil => rfl
  | cons d faults ih =>
    show (report d >>= fun _ => reportAll (faults ++ more)) =
      (report d >>= fun _ => reportAll faults) >>= fun _ => reportAll more
    rw [ih, bind_assoc]

/-- A run that is not recovering records all of them. -/
theorem reportAll_calm (hr : s.recovering = false) (faults : List (Diagnostic κ τ)) :
    reportAll faults .recovering s = (.value (), s.recordAll faults) := by
  induction faults generalizing s with
  | nil => rw [State.recordAll_nil, reportAll, pure_apply]
  | cons d more ih =>
    rw [reportAll, bind_of_value (report_calm hr d), ih (by simpa using hr),
      State.recordAll_recordAll, List.singleton_append]

end Recognizer

namespace Simple

open Recognizer

variable {s : State Kind Ty ω}

/-- A fault on a condition is one fault or none. -/
theorem reportFaultIf_eq (p : Prop) [Decidable p] (token : Token Kind) (fault : Fault) :
    (reportFaultIf p token fault : Rule ω Unit) = reportAll (faultIf p token fault) := by
  unfold reportFaultIf faultIf
  split
  · exact (bind_pure _).symm
  · rfl

/-- A fault on a condition is recorded if it holds. -/
theorem reportFaultIf_calm (hr : s.recovering = false) (p : Prop) [Decidable p]
    (token : Token Kind) (fault : Fault) :
    reportFaultIf p token fault .recovering s =
      (.value (), s.recordAll (faultIf p token fault)) := by
  rw [reportFaultIf_eq, reportAll_calm hr]

/-- Two types conflict if they are known and differ. -/
theorem expectType_eq (token : Token Kind) (found expected : Ty) :
    (expectType token found expected : Rule ω Bool) =
      if found = expected ∨ found = .undefined ∨ expected = .undefined then return true
      else do
        report (.typeConflict token found expected)
        return false := by
  have hiff : (found = expected ∨ TypeTag.isUndefined found ∨ TypeTag.isUndefined expected) ↔
      (found = expected ∨ found = .undefined ∨ expected = .undefined) := by
    simp [TypeTag.isUndefined, TypeTag.undefined]
  unfold expectType
  simp only [hiff]

/-- If the answer is thrown away, the fault is what is left of the comparison. -/
theorem expectType_bind (token : Token Kind) (found expected : Ty) (r : Rule ω α) :
    (do
      let _ ← expectType token found expected
      r) = (do
      reportAll (conflictFaults token found expected)
      r : Rule ω α) := by
  rw [expectType_eq]
  unfold conflictFaults
  split
  · rfl
  · rw [reportAll, bind_assoc, bind_assoc]
    rfl

/-- Two types are compared, and a conflict between them is recorded. -/
theorem expectType_calm (hr : s.recovering = false) (token : Token Kind) (found expected : Ty) :
    expectType token found expected .recovering s =
      (.value (conflictFaults token found expected).isEmpty,
        s.recordAll (conflictFaults token found expected)) := by
  rw [expectType_eq]
  unfold conflictFaults
  split
  · rw [State.recordAll_nil, pure_apply]
    rfl
  · rw [bind_of_value (report_calm hr _)]
    rfl

/-! ## Names -/

/-- A name is looked up, and recorded if it is not declared. -/
theorem resolve_calm (hr : s.recovering = false) (token : Token Kind) :
    resolve token .recovering s =
      (.value (s.scopes.get? token.text),
        s.recordAll (unboundFaults token (s.scopes.get? token.text))) := by
  unfold unboundFaults
  cases hfound : s.scopes.get? token.text with
  | none =>
    rw [resolve_of_get?_eq_none .recovering hfound, hr, State.record_eq_recordAll]
    rfl
  | some symbol =>
    rw [resolve_of_get?_eq_some .recovering hfound, Option.isNone_some,
      if_neg Bool.false_ne_true, State.recordAll_nil]

/-- The target of an assignment is recorded if it is a constant. -/
theorem checkTarget_calm (hr : s.recovering = false) (name : Token Kind)
    (symbol? : Option (Symbol Kind Ty)) :
    checkTarget name symbol? .recovering s =
      (.value (), s.recordAll (targetFaults name symbol?)) :=
  reportFaultIf_calm hr _ _ _

/-- A name without indices has the type of its symbol, and is recorded if that is an array. -/
theorem unindexed_calm (hr : s.recovering = false) (name : Token Kind)
    (symbol? : Option (Symbol Kind Ty)) :
    unindexed name symbol? .recovering s =
      (.value (accessType symbol? false), s.recordAll (accessFaults name symbol? [])) := by
  cases symbol? with
  | none => rw [accessFaults, State.recordAll_nil, unindexed, pure_apply, accessType]
  | some symbol =>
    cases hshape : symbol.shape? with
    | none =>
      have hrule : unindexed name (some symbol) = (pure symbol.type : Rule ω Ty) := by
        simp only [unindexed, hshape]
      have hfaults : accessFaults name (some symbol) [] = [] := by
        simp [accessFaults, hshape, faultIf]
      rw [hrule, hfaults, State.recordAll_nil, pure_apply]
      simp [accessType, hshape]
    | some shape =>
      have hrule : unindexed name (some symbol) =
          (do reportFault name (.arrayNotIndexed name.text); return .undefined : Rule ω Ty) := by
        simp only [unindexed, hshape]
      have hfaults : accessFaults name (some symbol) [] =
          [.custom name (Fault.arrayNotIndexed name.text).message] := by
        simp [accessFaults, hshape]
      rw [hrule, hfaults, reportFault, bind_of_value (report_calm hr _), pure_apply]
      simp [accessType, hshape]

/-- Checking an index hands its faults to the strategy. -/
theorem checkIndex_eq (name : Token Kind) (shape : Shape) (d : Nat) (index : Operand) :
    (checkIndex name shape d index : Rule ω Unit) =
      reportAll (indexFaults name shape d [index]) := by
  unfold checkIndex
  rw [expectType_bind, indexFaults, indexFaults, List.append_nil, reportAll_append]
  congr 1
  funext _
  cases index.constant with
  | none => rfl
  | some value =>
    cases shape.bounds? d with
    | none => rfl
    | some bounds => exact reportFaultIf_eq _ _ _

/-- The faults of the first index come before those of the rest. -/
theorem indexFaults_eq_append (name : Token Kind) (shape : Shape) (d : Nat) (index : Operand)
    (rest : List Operand) :
    indexFaults name shape d (index :: rest) =
      indexFaults name shape d [index] ++ indexFaults name shape (d + 1) rest := by
  simp only [indexFaults, List.append_nil]

/-- So does checking indices one after the other. -/
theorem checkIndices_eq (name : Token Kind) (shape : Shape) (d : Nat) (indices : List Operand) :
    (checkIndices name shape d indices : Rule ω Unit) =
      reportAll (indexFaults name shape d indices) := by
  induction indices generalizing d with
  | nil => rfl
  | cons index rest ih =>
    rw [checkIndices, checkIndex_eq, ih, indexFaults_eq_append name shape d index rest,
      reportAll_append]

/-- A name with indices has the type of the elements, and each fault of an index is recorded. -/
theorem indexed_calm (hr : s.recovering = false) (name : Token Kind)
    (symbol? : Option (Symbol Kind Ty)) {indices : List Operand} (hne : indices ≠ []) :
    indexed name symbol? indices .recovering s =
      (.value (accessType symbol? true), s.recordAll (accessFaults name symbol? indices)) := by
  cases symbol? with
  | none => rw [accessFaults, State.recordAll_nil, indexed, pure_apply, accessType]
  | some symbol =>
    cases hshape : symbol.shape? with
    | none =>
      have hrule : indexed name (some symbol) indices =
          (do reportFault name (.notAnArray name.text symbol.sort.label)
              return .undefined : Rule ω Ty) := by
        simp only [indexed, hshape]
      have hfaults : accessFaults name (some symbol) indices =
          [.custom name (Fault.notAnArray name.text symbol.sort.label).message] := by
        simp [accessFaults, hshape, faultIf, hne]
      rw [hrule, hfaults, reportFault, bind_of_value (report_calm hr _), pure_apply]
      simp [accessType, hshape]
    -- The number of the indices is judged first, and then each index.
    | some shape =>
      have hrule : indexed name (some symbol) indices =
          (do reportFaultIf (indices.length ≠ shape.rank) name
                (.indexCount name.text shape.rank indices.length)
              checkIndices name shape 1 indices
              return symbol.type : Rule ω Ty) := by
        simp only [indexed, hshape]
      have hfaults : accessFaults name (some symbol) indices =
          faultIf (indices.length ≠ shape.rank) name
              (.indexCount name.text shape.rank indices.length) ++
            indexFaults name shape 1 indices := by
        simp only [accessFaults, hshape, if_neg hne]
      rw [hrule, hfaults, bind_of_value (reportFaultIf_calm hr _ _ _),
        checkIndices_eq, bind_of_value (reportAll_calm (by simpa using hr) _), pure_apply,
        State.recordAll_recordAll]
      simp [accessType, hshape]

/-! ## Operators -/

/-- The type of two operands joined by an operator of `Term` or `SimpleExpr`. -/
def binaryType (op : Token Kind) (left right : Operand) : Ty :=
  if op.kind = .kwAnd ∨ op.kind = .kwOr then .boolean
  else if left.type.isNumeric ∧ left.type = right.type then left.type
  else .undefined

/-- A logical operator records a conflict for each operand that is no truth value. -/
theorem logical_calm (hr : s.recovering = false) (left right : Operand) :
    logical left right .recovering s =
      (.value .boolean, s.recordAll (conflictFaults left.token left.type .boolean ++
        conflictFaults right.token right.type .boolean)) := by
  unfold logical
  rw [bind_of_value (expectType_calm hr _ _ _),
    bind_of_value (expectType_calm (by simpa using hr) _ _ _), pure_apply,
    State.recordAll_recordAll]

/-- Numbers have a known type. -/
theorem isNumeric_ne_undefined {type : Ty} (h : type.isNumeric = true) : type ≠ .undefined := by
  rintro rfl
  simp [Ty.isNumeric] at h

/-- Two known types are without a conflict if they are equal. -/
theorem conflictFaults_isEmpty {token : Token Kind} {found expected : Ty} (hf : found ≠ .undefined)
    (he : expected ≠ .undefined) :
    (conflictFaults token found expected).isEmpty = true ↔ found = expected := by
  unfold conflictFaults
  by_cases h : found = expected
  · simp [h]
  · simp [h, hf, he]

/-- An arithmetic operator answers the type of its operands, and records what does not fit. -/
theorem arithmetic_calm (hr : s.recovering = false) (op : Token Kind) (left right : Operand) :
    arithmetic op left right .recovering s =
      (.value (if left.type.isNumeric ∧ left.type = right.type then left.type else .undefined),
        s.recordAll (if left.type = .undefined ∨ right.type = .undefined then []
          else if left.type.isNumeric then conflictFaults right.token right.type left.type
          else [.custom op (Fault.notNumeric op.text).message])) := by
  unfold arithmetic
  by_cases hundef : left.type = .undefined ∨ right.type = .undefined
  · have htype : ¬ (left.type.isNumeric = true ∧ left.type = right.type) := by
      rintro ⟨hnum, heq⟩
      rcases hundef with h | h
      · exact isNumeric_ne_undefined hnum h
      · exact isNumeric_ne_undefined hnum (heq.trans h)
    rw [if_pos hundef, if_pos hundef, if_neg htype, State.recordAll_nil, pure_apply]
  · rw [if_neg hundef, if_neg hundef]
    by_cases hnum : left.type.isNumeric = true
    · have hempty := @conflictFaults_isEmpty right.token _ _ (fun h => hundef (.inr h))
        (isNumeric_ne_undefined hnum)
      rw [if_pos hnum, if_pos hnum, bind_of_value (expectType_calm hr _ _ _)]
      by_cases heq : right.type = left.type
      · rw [if_pos (hempty.2 heq), if_pos ⟨hnum, heq.symm⟩, pure_apply]
      · rw [if_neg fun h => heq (hempty.1 h), if_neg fun h => heq h.2.symm, pure_apply]
    · rw [if_neg hnum, if_neg hnum, if_neg fun h => hnum h.1, reportFault,
        bind_of_value (report_calm hr _), pure_apply]

/-- Operands are combined into one that starts where the left one does, and has no constant. -/
theorem combine_calm {s : State Kind Ty (Symbol Kind Ty)} (hr : s.recovering = false)
    (op : Token Kind) (left right : Operand) :
    combine op left right .recovering s =
      (.value ⟨binaryType op left right, left.token, none⟩,
        s.recordAll (binaryFaults op left right)) := by
  unfold combine binaryType binaryFaults
  by_cases hlogical : op.kind = .kwAnd ∨ op.kind = .kwOr
  · rw [if_pos hlogical, if_pos hlogical, if_pos hlogical,
      bind_of_value (logical_calm hr left right), pure_apply]
  · rw [if_neg hlogical, if_neg hlogical, if_neg hlogical,
      bind_of_value (arithmetic_calm hr op left right), pure_apply]

/-- A comparison answers a truth value, and records what does not fit. -/
theorem relational_calm (hr : s.recovering = false) (op : Token Kind) (left right : Operand) :
    relational op left right .recovering s =
      (.value .boolean, s.recordAll (comparisonFaults op left right)) := by
  unfold relational comparisonFaults
  split
  · rw [State.recordAll_nil, pure_apply]
  · split
    · rw [bind_of_value (expectType_calm hr _ _ _), pure_apply]
    · rw [reportFault, bind_of_value (report_calm hr _), pure_apply]

/-- A sign answers the type of its operand, and is recorded if that is no number. -/
theorem negation_calm (hr : s.recovering = false) (op : Token Kind) (operand : Operand) :
    negation op operand .recovering s =
      (.value (if operand.type.isNumeric then operand.type else .undefined),
        s.recordAll (negationFaults op operand)) := by
  unfold negation negationFaults faultIf
  by_cases hundef : operand.type = .undefined
  · simp [hundef, pure_apply, Ty.isNumeric]
  · by_cases hnum : operand.type.isNumeric = true
    · simp [hundef, hnum, pure_apply]
    · rw [if_neg hundef, if_neg hnum, reportFault, bind_of_value (report_calm hr _), pure_apply]
      simp [hundef, hnum]

/-- A negation answers a truth value, and records an operand that is none. -/
theorem complement_calm (hr : s.recovering = false) (operand : Operand) :
    complement operand .recovering s =
      (.value .boolean, s.recordAll (conflictFaults operand.token operand.type .boolean)) := by
  unfold complement
  rw [bind_of_value (expectType_calm hr _ _ _), pure_apply]

/-- A condition is recorded if it is no truth value. -/
theorem condition_calm (hr : s.recovering = false) (operand : Operand) :
    condition operand .recovering s =
      (.value (), s.recordAll (conflictFaults operand.token operand.type .boolean)) := by
  unfold condition
  rw [bind_of_value (expectType_calm hr _ _ _), pure_apply]

/-- The value of an assignment is recorded if its type is not that of the target. -/
theorem assignable_calm (hr : s.recovering = false) (target : Ty) (value : Operand) :
    assignable target value .recovering s =
      (.value (), s.recordAll (conflictFaults value.token value.type target)) := by
  unfold assignable
  rw [bind_of_value (expectType_calm hr _ _ _), pure_apply]

/-! ## Literals -/

/-- A literal has the value of its digits, and is recorded if these do not fit. -/
theorem intValue_calm {s : State Kind Ty (Symbol Kind Ty)} (hr : s.recovering = false)
    (token : Token Kind) :
    intValue token .recovering s =
      (.value (Expr.literalValue token), s.recordAll (Expr.literalFaults token)) := by
  unfold intValue Expr.literalValue Expr.literalFaults faultIf
  cases intValue? token.text with
  | none =>
    simp only [reportFault]
    rw [bind_of_value (report_calm hr _), pure_apply]
    rfl
  | some value => simp [pure_apply]

end Simple

end SinglePass
