import SinglePass.Binding
import SinglePass.Simple.Vocabulary

/-!
# The type rules of Simple

An operand is what a rule knows of an expression that has been recognised: its type, its first
token, and its value if it is an integer literal, possibly negated.  The rules here take
operands and symbols, report what is wrong, and answer the type of the construct.  The type
`undefined` marks a construct that is already wrong, and silences every rule that meets it.
-/

namespace SinglePass.Simple

open Recognizer

variable {ω : Type}

/-- A rule of Simple at work; `ω` is the type of its notes. -/
abbrev Rule (ω α : Type) := Recognizer Kind Ty ω α

/-- A recognised expression. -/
structure Operand where
  type : Ty
  /-- The first token of the expression, to which its faults are bound. -/
  token : Token Kind
  /-- The value of an integer literal. -/
  constant : Option Int64

/-! ## Faults of Simple -/

/-- The faults of meaning that only Simple knows. -/
inductive Fault where
  /-- A constant is assigned to. -/
  | constantTarget (name : String)
  /-- An array is used without indices. -/
  | arrayNotIndexed (name : String)
  /-- Something other than an array is indexed. -/
  | notAnArray (name sort : String)
  /-- The number of indices is not that of the dimensions. -/
  | indexCount (name : String) (dimensions indices : Nat)
  /-- A literal index lies outside its dimension. -/
  | outOfBounds (index : Int64) (bounds : Bounds) (name : String)
  /-- An operator is applied to something other than numbers. -/
  | notNumeric (operator : String)
  /-- An array dimension has no indices. -/
  | sizeNotPositive (size : Int64)
  /-- The ends of an array dimension are in the wrong order. -/
  | boundsReversed (lower upper : Int64)
  /-- An integer literal does not fit into 64 bits. -/
  | literalTooLarge (text : String)

/-- The wording of a fault. -/
def Fault.message : Fault → String
  | constantTarget name => "Constant '" ++ name ++ "' cannot be assigned"
  | arrayNotIndexed name => "Array '" ++ name ++ "' must be indexed"
  | notAnArray name sort => "'" ++ name ++ "' is a " ++ sort ++ ", not an array"
  | indexCount name dimensions indices =>
    "Array '" ++ name ++ "' has " ++ toString dimensions ++ " dimension(s) but "
      ++ toString indices ++ " index(es) given"
  | outOfBounds index bounds name =>
    "Index " ++ toString index.toInt ++ " is out of bounds " ++ toString bounds.lower.toInt ++ ":"
      ++ toString bounds.upper.toInt ++ " of '" ++ name ++ "'"
  | notNumeric operator => "Operator '" ++ operator ++ "' requires numeric operands"
  | sizeNotPositive size => "Array size " ++ toString size.toInt ++ " must be positive"
  | boundsReversed lower upper =>
    "Lower bound " ++ toString lower.toInt ++ " exceeds upper bound " ++ toString upper.toInt
  | literalTooLarge text => "Integer literal '" ++ text ++ "' is out of range"

/-- Hand a fault of Simple to the strategy. -/
def reportFault (token : Token Kind) (fault : Fault) : Rule ω Unit :=
  report (.custom token fault.message)

/-- Hand a fault of Simple to the strategy if a condition holds. -/
def reportFaultIf (p : Prop) [Decidable p] (token : Token Kind) (fault : Fault) : Rule ω Unit :=
  if p then reportFault token fault else return

/-! ## Names -/

/-- The target of an assignment or of `READ` must not be a constant. -/
def checkTarget (name : Token Kind) (symbol? : Option (Symbol Kind Ty)) : Rule ω Unit :=
  reportFaultIf (symbol?.any Symbol.isConst) name (.constantTarget name.text)

/-- The type of a name without indices.  A name that is not declared has been reported. -/
def unindexed (name : Token Kind) : Option (Symbol Kind Ty) → Rule ω Ty
  | none => return .undefined
  | some symbol =>
    match symbol.shape? with
    | some _ => do
      reportFault name (.arrayNotIndexed name.text)
      return .undefined
    | none => return symbol.type

/-- Check the index of dimension `d`: it is an integer, and a literal lies in the bounds. -/
def checkIndex (name : Token Kind) (shape : Shape) (d : Nat) (index : Operand) : Rule ω Unit := do
  let _ ← expectType index.token index.type .integer
  match index.constant, shape.bounds? d with
  | some value, some bounds =>
    reportFaultIf (bounds.contains value = false) index.token (.outOfBounds value bounds name.text)
  | _, _ => return

/-- Check indices from dimension `d` on. -/
def checkIndices (name : Token Kind) (shape : Shape) : Nat → List Operand → Rule ω Unit
  | _, [] => return
  | d, index :: rest => do
    checkIndex name shape d index
    checkIndices name shape (d + 1) rest

/-- The type of a name with indices: that of the elements of an array. -/
def indexed (name : Token Kind) (symbol? : Option (Symbol Kind Ty)) (indices : List Operand) :
    Rule ω Ty :=
  match symbol? with
  | none => return .undefined
  | some symbol =>
    match symbol.shape? with
    | none => do
      reportFault name (.notAnArray name.text symbol.sort.label)
      return .undefined
    | some shape => do
      reportFaultIf (indices.length ≠ shape.rank) name
        (.indexCount name.text shape.rank indices.length)
      checkIndices name shape 1 indices
      return symbol.type

/-! ## Operators -/

/-- `+ - * /` take numbers of one type, which is that of the result. -/
def arithmetic (op : Token Kind) (left right : Operand) : Rule ω Ty :=
  if left.type = .undefined ∨ right.type = .undefined then
    return .undefined
  else if left.type.isNumeric then do
    if ← expectType right.token right.type left.type then
      return left.type
    else
      return .undefined
  else do
    reportFault op (.notNumeric op.text)
    return .undefined

/-- `AND` and `OR` take and give Booleans. -/
def logical (left right : Operand) : Rule ω Ty := do
  let _ ← expectType left.token left.type .boolean
  let _ ← expectType right.token right.type .boolean
  return .boolean

/-- `==` and `<>` compare any two operands of one type, the other comparisons only numbers.  The
result is a Boolean in any case. -/
def relational (op : Token Kind) (left right : Operand) : Rule ω Ty :=
  if left.type = .undefined ∨ right.type = .undefined then
    return .boolean
  else if op.kind = .equal ∨ op.kind = .notEqual ∨ left.type.isNumeric then do
    let _ ← expectType right.token right.type left.type
    return .boolean
  else do
    reportFault op (.notNumeric op.text)
    return .boolean

/-- The sign `-` takes and gives a number. -/
def negation (op : Token Kind) (operand : Operand) : Rule ω Ty :=
  if operand.type = .undefined then
    return .undefined
  else if operand.type.isNumeric then
    return operand.type
  else do
    reportFault op (.notNumeric op.text)
    return .undefined

/-- `NOT` takes and gives a Boolean. -/
def complement (operand : Operand) : Rule ω Ty := do
  let _ ← expectType operand.token operand.type .boolean
  return .boolean

/-! ## Statements -/

/-- The condition of `IF` and `WHILE` is a Boolean. -/
def condition (operand : Operand) : Rule ω Unit := do
  let _ ← expectType operand.token operand.type .boolean

/-- The value of an assignment has the type of its target. -/
def assignable (target : Ty) (value : Operand) : Rule ω Unit := do
  let _ ← expectType value.token value.type target

end SinglePass.Simple
