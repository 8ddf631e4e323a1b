import SinglePass.Token
import SinglePass.Bounds

/-!
# Symbols

A symbol is what a declared name stands for: the declaring token, whose text is the name, a
type tag of the language, and the sort of thing that was declared.  A language supplies its
type tags with an instance of `TypeTag`, one of which marks a type that is not known.
-/

namespace SinglePass

/-- The types of a language, as far as the engine has to know them. -/
class TypeTag (τ : Type) where
  [decEq : DecidableEq τ]
  /-- The type of what is already known to be wrong, or is not known at all. -/
  undefined : τ
  /-- Wording of the type in diagnostics. -/
  label : τ → String

attribute [reducible, instance] TypeTag.decEq

/-- Is this the tag of an unknown type? -/
def TypeTag.isUndefined {τ : Type} [TypeTag τ] (t : τ) : Bool := t = (undefined : τ)

/-- A formal parameter of a function. -/
structure Parameter (τ : Type) where
  type : τ
  name : String
deriving DecidableEq

/-- The parameters of a function, counted from one. -/
structure Signature (τ : Type) where
  params : List (Parameter τ)
deriving DecidableEq

namespace Signature

variable {τ : Type}

/-- Parameter `i`, counted from one. -/
def param? (s : Signature τ) : Nat → Option (Parameter τ)
  | 0 => none
  | i + 1 => s.params[i]?

/-- Number of parameters. -/
def arity (s : Signature τ) : Nat := s.params.length

/-- Type of parameter `i`; unknown if there is none. -/
def paramType [TypeTag τ] (s : Signature τ) (i : Nat) : τ :=
  (s.param? i).elim TypeTag.undefined Parameter.type

/-- Name of parameter `i`; empty if there is none. -/
def paramName (s : Signature τ) (i : Nat) : String := (s.param? i).elim "" Parameter.name

end Signature

/-- What sort of thing a name was declared to be.  The type of an array symbol is the type of
its elements, and the type of a function symbol the type of its result. -/
inductive SymbolSort (τ : Type) where
  | var
  | const
  | array (shape : Shape)
  | function (signature : Signature τ)
deriving DecidableEq

/-- Wording of the sort in diagnostics. -/
def SymbolSort.label {τ : Type} : SymbolSort τ → String
  | .var => "variable"
  | .const => "constant"
  | .array _ => "array"
  | .function _ => "function"

/-- A declared name. -/
structure Symbol (κ τ : Type) where
  /-- The declaring token; its text is the name. -/
  token : Token κ
  type : τ
  sort : SymbolSort τ

namespace Symbol

variable {κ τ : Type}

/-- The declared name. -/
def name (s : Symbol κ τ) : String := s.token.text

/-- A variable. -/
def var (token : Token κ) (type : τ) : Symbol κ τ := ⟨token, type, .var⟩

/-- A constant. -/
def const (token : Token κ) (type : τ) : Symbol κ τ := ⟨token, type, .const⟩

/-- An array with the given index ranges. -/
def array (token : Token κ) (type : τ) (dims : List Bounds) : Symbol κ τ :=
  ⟨token, type, .array ⟨dims⟩⟩

/-- An array whose ranges are given by their ends. -/
def arrayOfEnds (token : Token κ) (type : τ) (ends : List (Int64 × Int64)) : Symbol κ τ :=
  array token type (ends.map fun (lower, upper) => .ofEnds lower upper)

/-- An array whose ranges are given by their sizes. -/
def arrayOfSizes (token : Token κ) (type : τ) (sizes : List Int64) : Symbol κ τ :=
  array token type (sizes.map .ofSize)

/-- A function with the given result type and parameters. -/
def function (token : Token κ) (type : τ) (params : List (Parameter τ)) : Symbol κ τ :=
  ⟨token, type, .function ⟨params⟩⟩

/-- The shape of an array. -/
def shape? (s : Symbol κ τ) : Option Shape :=
  match s.sort with
  | .array shape => some shape
  | _ => none

/-- The signature of a function. -/
def signature? (s : Symbol κ τ) : Option (Signature τ) :=
  match s.sort with
  | .function signature => some signature
  | _ => none

/-- Is this a constant? -/
def isConst (s : Symbol κ τ) : Bool :=
  match s.sort with
  | .const => true
  | _ => false

end Symbol

end SinglePass
