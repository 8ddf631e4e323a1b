import Mathlib.Data.Nat.Digits.Defs
import SinglePass.Proofs.Ranges
import SinglePass.Proofs.Scanning.RoundTrip
import SinglePass.Proofs.Walk

/-!
# Integer literals and their signs

The text of an integer literal is a number in decimal digits, of any length
(`decimalValue_eq_ofDigits`) and with any number of zeros in front (`decimalValue_zeros`).  As a
word of 64 bits it is that number, or 0 if it is too large (`toInt_literalValue`).  So the smallest
word never comes up: the values of literals, with any number of signs, lie between the largest word
and its negative (`Small`), where a sign can always be turned around (`Small.toInt_neg`).

The same holds of the ends of the ranges that are made of such values (`SmallRange`).
-/

namespace SinglePass.Simple

/-! ## Digits -/

/-- The digits of a text, the last one first. -/
def digitsOf (text : String) : List Nat := text.toList.reverse.map fun c => c.toNat - '0'.toNat

/-- The value of a text of digits is that of its digits to the base ten. -/
theorem decimalValue_eq_ofDigits (text : String) :
    decimalValue text = Nat.ofDigits 10 (digitsOf text) := by
  have hfold : ∀ cs : List Char,
      cs.reverse.foldl (fun value c => value * 10 + (c.toNat - '0'.toNat)) 0 =
        Nat.ofDigits 10 (cs.map fun c => c.toNat - '0'.toNat) := by
    intro cs
    induction cs with
    | nil => rfl
    | cons c cs ih =>
      rw [List.reverse_cons, List.foldl_append, ih, List.map_cons, Nat.ofDigits_cons,
        List.foldl_cons, List.foldl_nil]
      omega
  have hvalue := hfold text.toList.reverse
  rwa [List.reverse_reverse] at hvalue

/-- Zeros in front make no difference. -/
theorem decimalValue_zeros (zeros : Nat) (cs : List Char) :
    decimalValue (String.ofList (List.replicate zeros '0' ++ cs)) =
      decimalValue (String.ofList cs) := by
  unfold decimalValue
  rw [String.toList_ofList, String.toList_ofList, List.foldl_append]
  congr 1
  induction zeros with
  | zero => rfl
  | succ zeros ih => exact ih

/-- The text of an integer literal consists of digits. -/
theorem Lexeme.areDigits {text : List Char} (h : Lexeme .intLiteral text) : AreDigits text := by
  generalize hkind : Kind.intLiteral = kind at h
  cases h with
  | keyword mem => exact absurd (hkind ▸ mem) (by decide)
  | operator mem => exact absurd (hkind ▸ mem) (by decide)
  | integer digits => exact digits
  | _ => nomatch hkind

/-- The text of an integer literal of a source is made of digits. -/
theorem areDigits_of_mem_tokens {source : Source} {t : Token Kind}
    (h : t ∈ source.tokens classifier) (hkind : t.kind = .intLiteral) :
    AreDigits t.text.toList := by
  rw [← Source.map_token_stream (τ := Ty)] at h
  obtain ⟨scanned, hmem, rfl⟩ := List.mem_map.mp h
  have hlined : (Cursor.start source).acknowledge.Lined :=
    (Cursor.Reached.acknowledge .start : Cursor.Reached source _).lined
  have hend : scanned.token.isEnd = false := by
    rw [Bool.eq_false_iff, ne_eq, Token.isEnd_eq_true, hkind]
    decide
  have hlexeme := ((meaningful_of_mem_stream hlined hmem).lexeme hend).1
  rw [hkind] at hlexeme
  exact hlexeme.areDigits

/-! ## Words -/

/-- Is the word the value of a literal, with a sign or without? -/
def Small (v : Int64) : Prop := -(maxLiteral : Int) ≤ v.toInt ∧ v.toInt ≤ maxLiteral

/-- Zero is the value of a literal. -/
theorem small_zero : Small 0 := by
  rw [Small, Int64.toInt_zero]
  decide

namespace Small

variable {v : Int64}

/-- Turning the sign around does not wrap around. -/
theorem toInt_neg (h : Small v) : (-v).toInt = -v.toInt := by
  obtain ⟨hmin, hmax⟩ := h
  rw [maxLiteral] at hmin hmax
  rw [Int64.toInt_neg, Int.bmod_eq_of_le (by omega) (by omega)]

/-- The predecessor of what a literal gives does not wrap around. -/
theorem toInt_pred (h : Small v) : (v - 1).toInt = v.toInt - 1 := by
  obtain ⟨hmin, hmax⟩ := h
  have hone : (1 : Int64).toInt = 1 := rfl
  rw [maxLiteral] at hmin hmax
  rw [Int64.toInt_sub, hone, Int.bmod_eq_of_le (by omega) (by omega)]

/-- The value of a literal with a sign is small, too. -/
theorem neg (h : Small v) : Small (-v) := by
  have hneg := h.toInt_neg
  obtain ⟨hmin, hmax⟩ := h
  rw [Small, hneg]
  omega

end Small

/-- Does the word lie between the largest one and its negative, so that a change of sign is
exact? -/
structure Negatable (v : Int64) : Prop where
  lower : -(2 ^ 63 - 1) ≤ v.toInt
  upper : v.toInt ≤ 2 ^ 63 - 1
  neg : (-v).toInt = -v.toInt

/-- A small word can be negated without wrapping around. -/
theorem Small.negatable {v : Int64} (h : Small v) : Negatable v := ⟨h.1, h.2, h.toInt_neg⟩

/-- The number of an integer literal; one that is too large counts as 0. -/
def literalNumber (literal : Token Kind) : Nat :=
  if decimalValue literal.text ≤ maxLiteral then decimalValue literal.text else 0

/-- No literal counts for more than the greatest one. -/
theorem literalNumber_le (literal : Token Kind) : literalNumber literal ≤ maxLiteral := by
  unfold literalNumber
  split
  · assumption
  · exact Nat.zero_le _

/-- The word of a literal is the number that its digits stand for. -/
theorem toInt_literalValue (literal : Token Kind) :
    (Expr.literalValue literal).toInt = literalNumber literal := by
  unfold Expr.literalValue literalNumber intValue?
  split
  · next h =>
    rw [maxLiteral] at h
    rw [Option.getD_some, Int64.toInt_ofNat_of_lt (by omega)]
  · rfl

/-- The word of a literal is small. -/
theorem small_literalValue (literal : Token Kind) : Small (Expr.literalValue literal) := by
  have hle := literalNumber_le literal
  rw [Small, toInt_literalValue]
  omega

/-- A literal is at fault if its number does not fit into 64 bits. -/
theorem literalFaults_eq (literal : Token Kind) :
    Expr.literalFaults literal = if decimalValue literal.text ≤ maxLiteral then []
      else [.custom literal (Fault.literalTooLarge literal.text).message] := by
  unfold Expr.literalFaults faultIf intValue?
  by_cases h : decimalValue literal.text ≤ maxLiteral <;> simp [h]

/-! ## Ranges -/

/-- A range that is not empty, between values of literals. -/
structure SmallRange (b : Bounds) : Prop where
  lower_ge : -(maxLiteral : Int) ≤ b.lower.toInt
  lower_le : b.lower.toInt ≤ b.upper.toInt
  upper_le : b.upper.toInt ≤ maxLiteral

/-- The single index that stands in for a range is 0. -/
theorem smallRange_degenerate : SmallRange .degenerate := by
  constructor <;> decide

/-- Small ends give a small range, in whichever order they come. -/
theorem smallRange_ofEnds {lower upper : Int64} (hlower : Small lower) (hupper : Small upper) :
    SmallRange (.ofEnds lower upper) := by
  by_cases h : lower.toInt ≤ upper.toInt
  · rw [Bounds.ofEnds_of_le h]
    exact ⟨hlower.1, h, hupper.2⟩
  · rw [Bounds.ofEnds_of_lt (Int.not_le.mp h)]
    exact smallRange_degenerate

/-- A small size gives a small range, positive or not. -/
theorem smallRange_ofSize {size : Int64} (hsize : Small size) : SmallRange (.ofSize size) := by
  have hlower : (Bounds.ofSize size).lower.toInt = 0 := by
    rw [Bounds.ofSize_lower, Int64.toInt_zero]
  have hupper := Bounds.ofSize_upper size
  have hmax := hsize.2
  rw [maxLiteral] at hmax
  constructor
  · rw [hlower]
    decide
  · omega
  · rw [maxLiteral]
    omega

end SinglePass.Simple
