/-!
# Source positions

A position is a line and a column, both counted from one.  Positions are ordered in reading
order: by line, then by column.  This is the order in which diagnostics are presented, so the
module proves what a stable sort by position needs: the order is total, transitive and
antisymmetric.
-/

namespace SinglePass

/-- A place in a source, counted from line 1, column 1. -/
structure Position where
  line : Nat
  column : Nat
deriving DecidableEq

namespace Position

/-! ## Reading order -/

instance : LE Position :=
  ⟨fun p q => p.line < q.line ∨ p.line = q.line ∧ p.column ≤ q.column⟩

instance : LT Position :=
  ⟨fun p q => p.line < q.line ∨ p.line = q.line ∧ p.column < q.column⟩

instance (p q : Position) : Decidable (p ≤ q) :=
  inferInstanceAs (Decidable (p.line < q.line ∨ p.line = q.line ∧ p.column ≤ q.column))

instance (p q : Position) : Decidable (p < q) :=
  inferInstanceAs (Decidable (p.line < q.line ∨ p.line = q.line ∧ p.column < q.column))

/-- A position is before another one, or the same, if its line is, or its column in the same line.
-/
theorem le_def {p q : Position} :
    p ≤ q ↔ p.line < q.line ∨ p.line = q.line ∧ p.column ≤ q.column := Iff.rfl

/-- A position is strictly before another one if its line is, or its column in the same line. -/
theorem lt_def {p q : Position} :
    p < q ↔ p.line < q.line ∨ p.line = q.line ∧ p.column < q.column := Iff.rfl

/-- The order of positions is reflexive. -/
theorem le_refl (p : Position) : p ≤ p := Or.inr ⟨rfl, Nat.le_refl _⟩

/-- The order of positions is transitive. -/
theorem le_trans {p q r : Position} (hpq : p ≤ q) (hqr : q ≤ r) : p ≤ r := by
  rw [le_def] at *
  omega

/-- Of two positions, one is before the other. -/
theorem le_total (p q : Position) : p ≤ q ∨ q ≤ p := by
  simp only [le_def]
  omega

/-- Positions that are before each other are the same. -/
theorem le_antisymm {p q : Position} (hpq : p ≤ q) (hqp : q ≤ p) : p = q := by
  obtain ⟨l, c⟩ := p
  obtain ⟨l', c'⟩ := q
  simp only [le_def] at hpq hqp
  have hl : l = l' := by omega
  have hc : c = c' := by omega
  rw [hl, hc]

/-- What is not before another position comes strictly behind it. -/
theorem not_le {p q : Position} : ¬ p ≤ q ↔ q < p := by
  simp only [le_def, lt_def]
  omega

/-- What is strictly before another position is before it. -/
theorem le_of_lt {p q : Position} (h : p < q) : p ≤ q := by
  rw [lt_def] at h
  rw [le_def]
  omega

/-- What is before a position that is strictly before another one is so, too. -/
theorem lt_of_le_of_lt {p q r : Position} (h : p ≤ q) (h' : q < r) : p < r := by
  rw [le_def] at h
  rw [lt_def] at h' ⊢
  omega

/-- No position is strictly before itself. -/
theorem lt_irrefl {p : Position} : ¬ p < p := by
  rw [lt_def]
  omega

/-! ## Printing -/

/-- A position prints as `(line,column)`. -/
def display (p : Position) : String :=
  "(" ++ toString p.line ++ "," ++ toString p.column ++ ")"

end Position

end SinglePass
