import Mathlib.Data.Set.Card
import Mathlib.Data.Int.Interval
import SinglePass.Symbol

/-!
# The ranges of an array, counted

The size of a range is the number of indices in it, for every pair of ends, also for ends in the
wrong order; only the range of all indices has one index more than a word can say
(`Bounds.Counted`).  What a range answers is worked out in words, and no step of that wraps around:
the ends are apart by a word, and its successor is taken unless it is the largest one
(`Bounds.size_eq_words`).

The two ways to make a range without spelling out its bounds never make an empty one
(`Bounds.ofEnds_size_ne_zero`, `Bounds.ofSize_size_ne_zero`).  A shape says of its dimensions, which
are counted from one, what their ranges say, and of all others that there is nothing in them
(`Shape.Answers`).  `arrays_counted` puts the three together for the three ways to make an array.
-/

namespace SinglePass

namespace Bounds

variable {b : Bounds} {lower upper size i : Int64}

/-! ## The number of indices -/

/-- A range holds an index that lies between the integers at its ends. -/
theorem contains_iff_toInt :
    b.contains i = true ↔ b.lower.toInt ≤ i.toInt ∧ i.toInt ≤ b.upper.toInt := by
  rw [contains_eq_true, Int64.le_iff_toInt_le, Int64.le_iff_toInt_le]

/-- A range does not hold what lies outside of the integers at its ends. -/
theorem contains_eq_false :
    b.contains i = false ↔ ¬ (b.lower.toInt ≤ i.toInt ∧ i.toInt ≤ b.upper.toInt) := by
  rw [← Bool.not_eq_true, contains_iff_toInt]

/-- The indices of a range. -/
def indices (b : Bounds) : Set Int64 := {i | b.contains i = true}

/-- The indices of a range are those between the integers at its ends. -/
theorem mem_indices : i ∈ b.indices ↔ b.lower.toInt ≤ i.toInt ∧ i.toInt ≤ b.upper.toInt :=
  contains_iff_toInt

/-- A word is told by its integer. -/
theorem toInt_injective : Function.Injective Int64.toInt := fun _ _ => Int64.toInt_inj.mp

/-- The indices of a range are the integers between its ends. -/
theorem image_indices (b : Bounds) :
    Int64.toInt '' b.indices = {n | b.lower.toInt ≤ n ∧ n ≤ b.upper.toInt} := by
  ext n
  simp only [Set.mem_image, mem_indices, Set.mem_ofPred_eq]
  constructor
  · rintro ⟨i, hi, rfl⟩
    exact hi
  · intro hn
    have hmin := b.lower.le_toInt
    have hmax := b.upper.toInt_lt
    have htoInt : (Int64.ofInt n).toInt = n := Int64.toInt_ofInt_of_le (by omega) (by omega)
    exact ⟨Int64.ofInt n, by rwa [htoInt], htoInt⟩

/-- A range has as many indices as there are integers between its ends. -/
theorem ncard_indices (b : Bounds) :
    b.indices.ncard = (b.upper.toInt + 1 - b.lower.toInt).toNat := by
  have hbetween : {n | b.lower.toInt ≤ n ∧ n ≤ b.upper.toInt} =
      (Finset.Icc b.lower.toInt b.upper.toInt : Set Int) := (Finset.coe_Icc _ _).symm
  rw [← Set.ncard_image_of_injective b.indices toInt_injective, image_indices, hbetween,
    Set.ncard_coe_finset, Int.card_Icc]

/-- The range of all indices. -/
def whole : Bounds := ⟨Int64.minValue, Int64.maxValue⟩

/-- The range of all words has the least and the greatest of them at its ends. -/
theorem eq_whole_iff :
    b = whole ↔ b.lower.toInt = -9223372036854775808 ∧ b.upper.toInt = 9223372036854775807 := by
  rw [whole, mk.injEq, ← Int64.toInt_inj, ← Int64.toInt_inj]
  rfl

/-- Only the range of all indices has more of them than the largest word says. -/
theorem ncard_indices_le (hb : b ≠ whole) : b.indices.ncard ≤ maxSize := by
  have hne := mt eq_whole_iff.mpr hb
  have hmin := b.lower.le_toInt
  have hmax := b.upper.toInt_lt
  rw [ncard_indices, maxSize]
  omega

/-- The size of a range is the number of its indices, up to the greatest word. -/
theorem size_toNat (b : Bounds) : b.size.toNat = min b.indices.ncard maxSize := by
  rw [ncard_indices, size, UInt64.toNat_ofNat']
  exact Nat.mod_eq_of_lt (Nat.lt_of_le_of_lt (Nat.min_le_right _ _) (by decide))

/-- Only the range of all words has more indices than a word can tell. -/
theorem size_toNat_of_ne_whole (hb : b ≠ whole) : b.size.toNat = b.indices.ncard := by
  rw [size_toNat, Nat.min_eq_left (ncard_indices_le hb)]

/-- Only a range without indices has size 0. -/
theorem size_eq_zero_iff : b.size = 0 ↔ ∀ i, b.contains i = false := by
  have hzero : b.size = 0 ↔ b.upper.toInt < b.lower.toInt := by
    rw [← UInt64.toNat_inj, size_toNat, ncard_indices, maxSize, UInt64.toNat_zero]
    omega
  rw [hzero]
  constructor
  · intro hlt i
    rw [contains_eq_false]
    omega
  · intro hnone
    have hlower := contains_eq_false.mp (hnone b.lower)
    omega

/-! ## The arithmetic of words -/

/-- How far apart the ends are, as a word. -/
def distance (b : Bounds) : UInt64 := b.upper.toUInt64 - b.lower.toUInt64

/-- The word of an index is the index, or too large by the number of all words. -/
theorem toNat_toUInt64 (i : Int64) :
    (i.toUInt64.toNat : Int) = i.toInt ∨ (i.toUInt64.toNat : Int) = i.toInt + 2 ^ 64 := by
  have hword : i.toInt = (i.toUInt64.toNat : Int).bmod (2 ^ 64) := by
    rw [← UInt64.toNat_toBitVec, Int64.toBitVec_toUInt64, ← BitVec.toInt_eq_toNat_bmod]
    rfl
  have hlt := i.toUInt64.toNat_lt
  rw [hword, Int.bmod]
  omega

/-- The distance of ends in the right order does not wrap around. -/
theorem distance_toNat (h : b.lower ≤ b.upper) :
    (b.distance.toNat : Int) = b.upper.toInt - b.lower.toInt := by
  have hle := Int64.le_iff_toInt_le.mp h
  have hmin := b.lower.le_toInt
  have hmax := b.upper.toInt_lt
  have hl := toNat_toUInt64 b.lower
  have hu := toNat_toUInt64 b.upper
  have hlword := b.lower.toUInt64.toNat_lt
  have huword := b.upper.toUInt64.toNat_lt
  rw [distance, UInt64.toNat_sub]
  omega

/-- The size of a range without anything but words: the successor of the distance, which is taken
unless there is none. -/
theorem size_eq_words (b : Bounds) :
    b.size = if b.lower ≤ b.upper then
        if b.distance.toNat < maxSize then b.distance + 1 else b.distance
      else 0 := by
  split
  case isTrue h =>
    have hd := distance_toNat h
    have hlt := b.distance.toNat_lt
    -- The size counts the indices as integers, so adding one in words can only wrap at the top.
    have hsize : b.size.toNat = min (b.distance.toNat + 1) maxSize := by
      rw [size_toNat, ncard_indices]
      omega
    rw [maxSize] at hsize ⊢
    split <;> rw [← UInt64.toNat_inj, hsize]
    · rw [UInt64.toNat_add, UInt64.toNat_one]
      omega
    · omega
  case isFalse h =>
    rw [Int64.le_iff_toInt_le] at h
    rw [size_eq_zero_iff]
    intro i
    rw [contains_eq_false]
    omega

/-- The predecessor of a positive index does not wrap around. -/
theorem toInt_pred (h : 0 < i) : (i - 1).toInt = i.toInt - 1 := by
  have hpos : 1 ≤ i.toInt := Int64.lt_iff_toInt_lt.mp h
  exact Int64.toInt_sub_of_le i 1 (by decide) (Int64.le_iff_toInt_le.mpr hpos)

/-! ## Ranges that are never empty -/

/-- Ends in the right order are kept. -/
theorem ofEnds_of_le (h : lower.toInt ≤ upper.toInt) : ofEnds lower upper = ⟨lower, upper⟩ :=
  if_pos (Int64.le_iff_toInt_le.mpr h)

/-- Ends in the wrong order give a single index. -/
theorem ofEnds_of_lt (h : upper.toInt < lower.toInt) : ofEnds lower upper = degenerate := by
  refine if_neg fun hle => ?_
  rw [Int64.le_iff_toInt_le] at hle
  omega

/-- A size gives the indices from 0 on. -/
theorem ofSize_of_pos (h : 1 ≤ size.toInt) : ofSize size = ⟨0, size - 1⟩ :=
  if_pos (Int64.lt_iff_toInt_lt.mpr (Int.lt_of_lt_of_le Int.zero_lt_one h))

/-- A size that is not positive gives a single index. -/
theorem ofSize_of_lt (h : size.toInt < 1) : ofSize size = degenerate := by
  refine if_neg fun hpos => ?_
  have hone : 1 ≤ size.toInt := Int64.lt_iff_toInt_lt.mp hpos
  omega

/-- A range that is made of its ends is never empty. -/
theorem ofEnds_le (lower upper : Int64) :
    (ofEnds lower upper).lower.toInt ≤ (ofEnds lower upper).upper.toInt := by
  by_cases h : lower.toInt ≤ upper.toInt
  · rwa [ofEnds_of_le h]
  · rw [ofEnds_of_lt (by omega)]
    decide

/-- The indices of a size start with 0. -/
theorem ofSize_lower (size : Int64) : (ofSize size).lower = 0 := by
  by_cases h : 1 ≤ size.toInt
  · rw [ofSize_of_pos h]
  · rw [ofSize_of_lt (by omega)]
    rfl

/-- The last index of a size is one below it, or 0. -/
theorem ofSize_upper (size : Int64) : (ofSize size).upper.toInt = max size.toInt 1 - 1 := by
  by_cases h : 1 ≤ size.toInt
  · rw [ofSize_of_pos h, toInt_pred (Int64.lt_iff_toInt_lt.mpr h)]
    omega
  · rw [ofSize_of_lt (by omega)]
    simp only [degenerate, Int64.toInt_zero]
    omega

/-- A range with its ends in order has a size. -/
theorem size_ne_zero (h : b.lower.toInt ≤ b.upper.toInt) : b.size ≠ 0 := by
  intro hzero
  have hnone := contains_eq_false.mp (size_eq_zero_iff.mp hzero b.lower)
  omega

/-- A range that is made of its ends has a size. -/
theorem ofEnds_size_ne_zero (lower upper : Int64) : (ofEnds lower upper).size ≠ 0 :=
  size_ne_zero (ofEnds_le lower upper)

/-- A range that is made of a size has a size. -/
theorem ofSize_size_ne_zero (size : Int64) : (ofSize size).size ≠ 0 := by
  refine size_ne_zero ?_
  rw [ofSize_lower, ofSize_upper, Int64.toInt_zero]
  omega

/-- A range that is made of a size has this size, or 1. -/
theorem ofSize_size (size : Int64) : ((ofSize size).size.toNat : Int) = max size.toInt 1 := by
  have hlt := size.toInt_lt
  rw [size_toNat, ncard_indices, ofSize_lower, ofSize_upper, Int64.toInt_zero, maxSize]
  omega

/-! ## What a range says -/

/-- A range contains the indices between its ends, its size counts them, and nothing wraps around on
the way to that. -/
structure Counted (b : Bounds) : Prop where
  contains_iff : ∀ i, b.contains i = true ↔ b.lower.toInt ≤ i.toInt ∧ i.toInt ≤ b.upper.toInt
  size_eq : b ≠ whole →
    b.size.toNat = {i : Int64 | b.lower.toInt ≤ i.toInt ∧ i.toInt ≤ b.upper.toInt}.ncard
  size_whole : b = whole → b.size.toNat = 2 ^ 64 - 1
  size_eq_zero_iff : b.size = 0 ↔ ∀ i, b.contains i = false
  distance_eq : b.lower ≤ b.upper → (b.distance.toNat : Int) = b.upper.toInt - b.lower.toInt
  /-- The successor is taken of no word but those that have one. -/
  size_eq_words : b.size = if b.lower ≤ b.upper then
      if b.distance.toNat < maxSize then b.distance + 1 else b.distance
    else 0

/-- **A range counts its indices**, over all words. -/
theorem counted (b : Bounds) : b.Counted where
  contains_iff _ := contains_iff_toInt
  size_eq hb := by
    rw [size_toNat_of_ne_whole hb]
    simp only [indices, contains_iff_toInt]
  size_whole hb := by
    subst hb
    decide
  size_eq_zero_iff := size_eq_zero_iff
  distance_eq := distance_toNat
  size_eq_words := size_eq_words b

/-- What becomes of ends and of a size, in the right order or not, positive or not. -/
structure Coerced (lower upper size : Int64) : Prop where
  ofEnds_eq : ofEnds lower upper = if lower.toInt ≤ upper.toInt then ⟨lower, upper⟩ else ⟨0, 0⟩
  ofSize_lower : (ofSize size).lower = 0
  ofSize_upper : (ofSize size).upper.toInt = max size.toInt 1 - 1
  ofSize_size : ((ofSize size).size.toNat : Int) = max size.toInt 1
  /-- The predecessor of a size is taken of no size but those that have one. -/
  pred_eq : 0 < size → (size - 1).toInt = size.toInt - 1

/-- **Ranges that cannot be built as asked for are coerced** to a single index. -/
theorem coerced (lower upper size : Int64) : Coerced lower upper size where
  ofEnds_eq := by
    split
    case isTrue h => exact ofEnds_of_le h
    case isFalse h => exact ofEnds_of_lt (by omega)
  ofSize_lower := ofSize_lower size
  ofSize_upper := ofSize_upper size
  ofSize_size := ofSize_size size
  pred_eq := toInt_pred

end Bounds

/-! ## What a shape says -/

namespace Shape

/-- A shape says of its dimensions what their ranges say, and of what is none of its dimensions that
nothing is in it. -/
structure Answers (shape : Shape) (dims : List Bounds) : Prop where
  rank_eq : shape.rank = dims.length
  bounds?_eq : ∀ d, (h : d < dims.length) → shape.bounds? (d + 1) = some dims[d]
  size_eq : ∀ d, (h : d < dims.length) → shape.size (d + 1) = dims[d].size
  lower_eq : ∀ d, (h : d < dims.length) → shape.lower (d + 1) = dims[d].lower
  upper_eq : ∀ d, (h : d < dims.length) → shape.upper (d + 1) = dims[d].upper
  outside : ∀ d, ¬ (1 ≤ d ∧ d ≤ shape.rank) →
    shape.size d = 0 ∧ shape.lower d = 0 ∧ shape.upper d = 0
  inBounds_iff : ∀ d i, shape.inBounds d i = true ↔ (1 ≤ d ∧ d ≤ shape.rank) ∧
    (shape.lower d).toInt ≤ i.toInt ∧ i.toInt ≤ (shape.upper d).toInt

variable {shape : Shape} {d : Nat}

/-- A shape has bounds for each of its dimensions. -/
theorem bounds?_of_between (h : 1 ≤ d ∧ d ≤ shape.rank) : ∃ b, shape.bounds? d = some b := by
  obtain ⟨d, rfl⟩ : ∃ n, d = n + 1 := ⟨d - 1, by omega⟩
  exact ⟨_, List.getElem?_eq_getElem h.2⟩

/-- A shape has bounds for no other dimension. -/
theorem bounds?_of_not_between (h : ¬ (1 ≤ d ∧ d ≤ shape.rank)) : shape.bounds? d = none := by
  cases d with
  | zero => rfl
  | succ d =>
    rw [rank] at h
    exact List.getElem?_eq_none (by omega)

/-- An index is in bounds if its dimension exists and the index lies in it. -/
theorem inBounds_iff (d : Nat) (i : Int64) :
    shape.inBounds d i = true ↔ (1 ≤ d ∧ d ≤ shape.rank) ∧
      (shape.lower d).toInt ≤ i.toInt ∧ i.toInt ≤ (shape.upper d).toInt := by
  by_cases h : 1 ≤ d ∧ d ≤ shape.rank
  · obtain ⟨b, hb⟩ := bounds?_of_between h
    simp only [inBounds, lower, upper, hb, Option.any_some, Option.elim_some,
      Bounds.contains_iff_toInt, h, and_self, true_and]
  · simp only [inBounds, bounds?_of_not_between h, Option.any_none, Bool.false_eq_true, h,
      false_and]

/-- A shape of ranges that are not empty has no empty dimension. -/
theorem size_ne_zero (hdims : ∀ b ∈ shape.dims, b.size ≠ 0) (h : 1 ≤ d ∧ d ≤ shape.rank) :
    shape.size d ≠ 0 := by
  obtain ⟨d, rfl⟩ : ∃ n, d = n + 1 := ⟨d - 1, by omega⟩
  rw [size, bounds?_succ, List.getElem?_eq_getElem h.2, Option.elim_some]
  exact hdims _ (List.getElem_mem h.2)

/-- **A shape answers with the dimensions that it was made of**, and with 0 for any other. -/
theorem answers (dims : List Bounds) : Answers ⟨dims⟩ dims where
  rank_eq := rfl
  bounds?_eq d h := List.getElem?_eq_getElem h
  size_eq d h := by rw [size, bounds?_succ, List.getElem?_eq_getElem h, Option.elim_some]
  lower_eq d h := by rw [lower, bounds?_succ, List.getElem?_eq_getElem h, Option.elim_some]
  upper_eq d h := by rw [upper, bounds?_succ, List.getElem?_eq_getElem h, Option.elim_some]
  outside d h := by
    simp only [size, lower, upper, bounds?_of_not_between h, Option.elim_none, and_self]
  inBounds_iff := inBounds_iff

end Shape

/-! ## Arrays -/

variable {κ τ : Type}

/-- Every range counts its indices, ranges made of ends or of a size are as wide as these say and
never empty, and an array says of each of its dimensions what the range that it was made with
says. -/
theorem arrays_counted (token : Token κ) (type : τ) :
    (∀ b : Bounds, b.Counted) ∧
    (∀ lower upper size, Bounds.Coerced lower upper size) ∧
    (∀ dims, ∃ shape, (Symbol.array token type dims).shape? = some shape ∧ shape.Answers dims) ∧
    (∀ ends, ∃ shape, (Symbol.arrayOfEnds token type ends).shape? = some shape ∧
      shape.Answers (ends.map fun (lower, upper) => .ofEnds lower upper) ∧
      ∀ d, 1 ≤ d ∧ d ≤ shape.rank → shape.size d ≠ 0) ∧
    (∀ sizes, ∃ shape, (Symbol.arrayOfSizes token type sizes).shape? = some shape ∧
      shape.Answers (sizes.map .ofSize) ∧
      ∀ d, 1 ≤ d ∧ d ≤ shape.rank → shape.size d ≠ 0) := by
  refine ⟨Bounds.counted, Bounds.coerced, ?_, ?_, ?_⟩
  · intro dims
    exact ⟨⟨dims⟩, rfl, Shape.answers dims⟩
  · intro ends
    refine ⟨_, rfl, Shape.answers _, fun d hd => Shape.size_ne_zero ?_ hd⟩
    rintro b hb
    obtain ⟨⟨lower, upper⟩, -, rfl⟩ := List.mem_map.mp hb
    exact Bounds.ofEnds_size_ne_zero lower upper
  · intro sizes
    refine ⟨_, rfl, Shape.answers _, fun d hd => Shape.size_ne_zero ?_ hd⟩
    rintro b hb
    obtain ⟨size, -, rfl⟩ := List.mem_map.mp hb
    exact Bounds.ofSize_size_ne_zero size

end SinglePass
