import SinglePass.Proofs.Rules

/-!
# The faults of indexing

What is wrong with an array and its indices can be listed without running anything
(`indexingFaults`): first that there are too many indices or too few of them, then of each index
that it is no integer, and behind that, that its value lies outside of its dimension.  An index that
has no dimension is still an index, and an index of the wrong type still has a value.

`indexed_effect` says that indexing hands these faults to the strategy and does nothing else.  The
induction over the indices is that of `checkIndices_eq`, where the rule is the same as reporting a
list; what becomes of a list of faults is a matter of the strategy alone
(`Recognizer.handsOver_reportAll`).
-/

namespace SinglePass

variable {κ τ ω α : Type}

/-! ## Faults and strategies -/

/-- From a state a recognizer hands some faults to the strategy, and ends with a value unless one of
them makes it give up. -/
structure HandsOver (faults : List (Diagnostic κ τ)) (a : α) (s : State κ τ ω)
    (r : Recognizer κ τ ω α) : Prop where
  /-- A run that is not recovering records all of them. -/
  recorded : s.recovering = false → r .recovering s = (.value a, s.recordAll faults)
  /-- A run that is recovering records none. -/
  suppressed : s.recovering = true → r .recovering s = (.value a, s)
  /-- A run that fails fast goes on if there are none. -/
  accepted : faults = [] → r .failFast s = (.value a, s)
  /-- It records the first one and gives up if there are some. -/
  stopped : ∀ d more, faults = d :: more → r .failFast s = (.abort, s.record d)

namespace Recognizer

variable {s : State κ τ ω}

/-- While a run is recovering, faults are not recorded. -/
theorem reportAll_of_recovering (hr : s.recovering = true) (faults : List (Diagnostic κ τ)) :
    reportAll faults .recovering s = (.value (), s) := by
  induction faults with
  | nil => rfl
  | cons d more ih =>
    have hreport : report d .recovering s = (.value (), s) := by
      rw [report_recovering, hr, if_pos rfl]
    rw [reportAll, bind_of_value hreport, ih]

/-- Faults are handed over before a value is answered. -/
theorem handsOver_reportAll (faults : List (Diagnostic κ τ)) (a : α) (s : State κ τ ω) :
    HandsOver faults a s (do
      reportAll faults
      return a) := by
  constructor
  · intro hr
    exact bind_of_value (reportAll_calm hr faults) _
  · intro hr
    exact bind_of_value (reportAll_of_recovering hr faults) _
  · rintro rfl
    rfl
  · rintro d more rfl
    rw [reportAll, bind_assoc]
    exact bind_of_abort (report_failFast d s) _

end Recognizer

namespace Simple

open Recognizer

/-! ## The list of faults -/

/-- What is wrong with an index of an array, if its dimension has these bounds. -/
def Operand.faultsAgainst (name : Token Kind) (bounds? : Option Bounds) (index : Operand) :
    Faults :=
  (if index.type = .integer ∨ index.type = .undefined then []
    else [.typeConflict index.token index.type .integer]) ++
  match index.constant, bounds? with
  | some value, some bounds =>
    if bounds.lower ≤ value ∧ value ≤ bounds.upper then []
    else [.custom index.token (Fault.outOfBounds value bounds name.text).message]
  | _, _ => []

/-- What is wrong with an array of these dimensions and its indices. -/
def indexingFaults (name : Token Kind) (dims : List Bounds) (indices : List Operand) : Faults :=
  (if indices.length = dims.length then []
    else [.custom name (Fault.indexCount name.text dims.length indices.length).message]) ++
  indices.zipIdx.flatMap fun (index, i) => index.faultsAgainst name dims[i]?

/-- The faults of a single index are those against its dimension. -/
theorem indexFaults_singleton (name : Token Kind) (dims : List Bounds) (d : Nat)
    (index : Operand) :
    indexFaults name ⟨dims⟩ (d + 1) [index] = index.faultsAgainst name dims[d]? := by
  have hconflict : conflictFaults index.token index.type .integer =
      if index.type = .integer ∨ index.type = .undefined then []
      else [.typeConflict index.token index.type .integer] := by
    simp [conflictFaults]
  have hbounds : ∀ value (bounds : Bounds),
      faultIf (bounds.contains value = false) index.token (.outOfBounds value bounds name.text) =
        if bounds.lower ≤ value ∧ value ≤ bounds.upper then []
        else [.custom index.token (Fault.outOfBounds value bounds name.text).message] := by
    intro value bounds
    unfold faultIf
    by_cases hcontains : bounds.contains value = true
    · rw [if_pos (Bounds.contains_eq_true.1 hcontains), if_neg (by simp [hcontains])]
    · rw [if_neg (mt Bounds.contains_eq_true.2 hcontains),
        if_pos (Bool.eq_false_iff.2 hcontains)]
  rw [indexFaults, indexFaults, List.append_nil, hconflict, Shape.bounds?_succ]
  simp only [hbounds]
  rfl

/-- The walk over the indices counts their dimensions. -/
theorem indexFaults_eq_flatMap (name : Token Kind) (dims : List Bounds) (d : Nat)
    (indices : List Operand) :
    indexFaults name ⟨dims⟩ (d + 1) indices =
      (indices.zipIdx d).flatMap fun (index, i) => index.faultsAgainst name dims[i]? := by
  induction indices generalizing d with
  | nil => rfl
  | cons index rest ih =>
    rw [List.zipIdx_cons, List.flatMap_cons, indexFaults_eq_append name ⟨dims⟩ (d + 1) index rest,
      indexFaults_singleton, ih (d + 1)]

/-- An array of one dimension with two indices, the first of which is no integer: it is compared
with the bounds, and the second is not. -/
example (name first second : Token Kind) :
    indexingFaults name [⟨1, 10⟩] [⟨.real, first, some 11⟩, ⟨.integer, second, some 99⟩] =
      [.custom name (Fault.indexCount name.text 1 2).message,
        .typeConflict first .real .integer,
        .custom first (Fault.outOfBounds 11 ⟨1, 10⟩ name.text).message] := rfl

/-! ## Indexing -/

/-- The check of indices reports their faults, and answers the type of the elements. -/
theorem indexed_array_eq (name token : Token Kind) (type : Ty) (dims : List Bounds)
    (indices : List Operand) :
    (indexed name (some (.array token type dims)) indices : Rule ω Ty) = (do
      reportAll (indexingFaults name dims indices)
      return type) := by
  have hcount : faultIf (indices.length ≠ dims.length) name
      (.indexCount name.text dims.length indices.length) =
        if indices.length = dims.length then []
        else [.custom name (Fault.indexCount name.text dims.length indices.length).message] := by
    simp [faultIf]
  show (reportFaultIf (indices.length ≠ dims.length) name
      (.indexCount name.text dims.length indices.length) >>= fun _ =>
        checkIndices name ⟨dims⟩ 1 indices >>= fun _ => pure type) = _
  rw [reportFaultIf_eq, checkIndices_eq, hcount, indexFaults_eq_flatMap, ← bind_assoc,
    ← reportAll_append]
  rfl

/-- Indexing an array hands exactly its faults to the strategy and answers the type of the elements;
indexing anything else is one fault, and indexing what is not declared is none. -/
theorem indexed_effect (name : Token Kind) (indices : List Operand) (s : State Kind Ty ω) :
    (∀ token type dims, HandsOver (indexingFaults name dims indices) type s
        (indexed name (some (.array token type dims)) indices)) ∧
      (∀ symbol : Symbol Kind Ty, (∀ shape, symbol.sort ≠ .array shape) →
        HandsOver [.custom name (Fault.notAnArray name.text symbol.sort.label).message] .undefined s
          (indexed name (some symbol) indices)) ∧
      HandsOver [] .undefined s (indexed name none indices) := by
  refine ⟨?_, ?_, ?_⟩
  · intro token type dims
    rw [indexed_array_eq]
    exact handsOver_reportAll _ type s
  · intro symbol hsort
    have hshape : symbol.shape? = none := by
      unfold Symbol.shape?
      split
      · next shape hshape => exact absurd hshape (hsort shape)
      · rfl
    have hrule : (indexed name (some symbol) indices : Rule ω Ty) = (do
        reportAll [.custom name (Fault.notAnArray name.text symbol.sort.label).message]
        return .undefined) := by
      simp only [indexed, hshape, reportFault, reportAll, bind_assoc, pure_bind]
    rw [hrule]
    exact handsOver_reportAll _ _ s
  · exact handsOver_reportAll [] _ s

end Simple

end SinglePass
