/-!
# Index ranges and array shapes

A dimension of an array is an inclusive range of 64-bit indices.  Ranges can be given by their
ends or by a size; malformed ones become the one-element range `0:0`, so that a range built by
`ofEnds` or `ofSize` is never empty.  The number of indices of a range is a 64-bit word, which
is one too small for the range of all indices: there it saturates.

The dimensions of a shape are counted from one, and a dimension that does not exist has size 0
and ends 0.
-/

namespace SinglePass

/-- An inclusive range of indices; empty when `upper < lower`. -/
structure Bounds where
  lower : Int64
  upper : Int64
deriving DecidableEq

namespace Bounds

/-- The range that stands in for a malformed one. -/
def degenerate : Bounds := ⟨0, 0⟩

/-- The range with the given ends; ends in the wrong order are malformed. -/
def ofEnds (lower upper : Int64) : Bounds :=
  if lower ≤ upper then ⟨lower, upper⟩ else degenerate

/-- The range of `size` indices from 0; a size that is not positive is malformed. -/
def ofSize (size : Int64) : Bounds :=
  if 0 < size then ⟨0, size - 1⟩ else degenerate

/-- The largest 64-bit word. -/
def maxSize : Nat := 18446744073709551615

/-- Number of indices in the range, at most the largest 64-bit word. -/
def size (b : Bounds) : UInt64 :=
  .ofNat (min (b.upper.toInt + 1 - b.lower.toInt).toNat maxSize)

/-- Is the index in the range? -/
def contains (b : Bounds) (index : Int64) : Bool :=
  b.lower ≤ index && index ≤ b.upper

/-- A range holds what lies between its ends. -/
theorem contains_eq_true {b : Bounds} {index : Int64} :
    b.contains index = true ↔ b.lower ≤ index ∧ index ≤ b.upper := by
  simp [contains]

end Bounds

/-- The dimensions of an array. -/
structure Shape where
  dims : List Bounds
deriving DecidableEq

namespace Shape

/-- Number of dimensions. -/
def rank (s : Shape) : Nat := s.dims.length

/-- Range of dimension `d`, counted from one. -/
def bounds? (s : Shape) : Nat → Option Bounds
  | 0 => none
  | d + 1 => s.dims[d]?

/-- Number of indices of dimension `d`. -/
def size (s : Shape) (d : Nat) : UInt64 := (s.bounds? d).elim 0 Bounds.size

/-- Smallest index of dimension `d`. -/
def lower (s : Shape) (d : Nat) : Int64 := (s.bounds? d).elim 0 Bounds.lower

/-- Largest index of dimension `d`. -/
def upper (s : Shape) (d : Nat) : Int64 := (s.bounds? d).elim 0 Bounds.upper

/-- Is the index one of dimension `d`? -/
def inBounds (s : Shape) (d : Nat) (index : Int64) : Bool :=
  (s.bounds? d).any (·.contains index)

/-- There is no dimension 0. -/
@[simp] theorem bounds?_zero (s : Shape) : s.bounds? 0 = none := rfl

/-- Dimensions count from 1. -/
@[simp] theorem bounds?_succ (s : Shape) (d : Nat) : s.bounds? (d + 1) = s.dims[d]? := rfl

end Shape

end SinglePass
