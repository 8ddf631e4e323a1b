import SinglePass.Proofs.Scanning.Stream

/-!
# Where tokens lie in their lines

Scanning loses nothing: a line is what the tokens found on it say, with gaps between them.
`LaidOut` says this of a line and its tokens, and `Paged` of the lines of a source.  Both speak of
columns and line numbers, so they say where each token stands as well.
-/

namespace SinglePass

variable {κ τ : Type}

/-! ## Lines -/

/-- How tokens lie in the rest of a line that begins at a column.  A `gap` is what may stand before
a token, a `tail` what may stand behind the last one. -/
inductive LaidOut (gap tail : List Char → Prop) : Nat → List Char → List (Token κ) → Prop
  | nothing {column : Nat} {text : List Char} (behind : tail text) :
      LaidOut gap tail column text []
  | token {column : Nat} {before rest : List Char} {t : Token κ} {more : List (Token κ)}
      (apart : gap before) (text_ne : t.text ≠ "")
      (column_eq : t.position.column = column + before.length)
      (others : LaidOut gap tail (column + before.length + t.text.length) rest more) :
      LaidOut gap tail column (before ++ t.text.toList ++ rest) (t :: more)

namespace LaidOut

variable {gap tail : List Char → Prop} {column : Nat} {text : List Char} {ts : List (Token κ)}

/-- Every token has a text, and it lies within its line. -/
theorem within (h : LaidOut gap tail column text ts) :
    ∀ t ∈ ts, column ≤ t.position.column ∧ 0 < t.text.length ∧
      t.position.column + t.text.length ≤ column + text.length ∧
      (text.drop (t.position.column - column)).take t.text.length = t.text.toList := by
  induction h with
  | nothing _ => simp
  | @token column before rest t more _ text_ne column_eq _ ih =>
    have hlength : 0 < t.text.length := Nat.pos_of_ne_zero (mt String.length_eq_zero_iff.1 text_ne)
    intro u hu
    simp only [List.length_append, String.length_toList]
    rcases List.mem_cons.1 hu with rfl | hu
    · refine ⟨by omega, hlength, by omega, ?_⟩
      rw [column_eq, Nat.add_sub_cancel_left, List.append_assoc, List.drop_left,
        ← String.length_toList, List.take_left]
    · obtain ⟨hle, hpos, hend, htake⟩ := ih u hu
      refine ⟨by omega, hpos, by omega, ?_⟩
      have hskip : u.position.column - column = (before ++ t.text.toList).length +
          (u.position.column - (column + before.length + t.text.length)) := by
        simp only [List.length_append, String.length_toList]
        omega
      rw [hskip, ← List.drop_drop, List.drop_left, htake]

/-- The tokens of a line stand in the order of their columns. -/
theorem columns_increase (h : LaidOut gap tail column text ts) :
    ts.Pairwise fun t u => t.position.column < u.position.column := by
  induction h with
  | nothing _ => exact .nil
  | @token _ _ _ t _ _ text_ne column_eq others ih =>
    refine List.pairwise_cons.2 ⟨fun u hu => ?_, ih⟩
    have hlength : 0 < t.text.length := Nat.pos_of_ne_zero (mt String.length_eq_zero_iff.1 text_ne)
    have hle := (others.within u hu).1
    omega

end LaidOut

/-- If only the first tokens stand on a line, they are those that stand on it. -/
theorem filter_line_append_left {here more : List (Token κ)} {n : Nat}
    (hhere : ∀ t ∈ here, t.position.line = n) (hmore : ∀ t ∈ more, t.position.line ≠ n) :
    (here ++ more).filter (·.position.line = n) = here := by
  have hall : here.filter (·.position.line = n) = here :=
    List.filter_eq_self.2 fun t ht => decide_eq_true (hhere t ht)
  have hnone : more.filter (·.position.line = n) = [] :=
    List.filter_eq_nil_iff.2 fun t ht => by simpa using hmore t ht
  rw [List.filter_append, hall, hnone, List.append_nil]

/-- If they stand on another line, they do not count. -/
theorem filter_line_append_right {here more : List (Token κ)} {n : Nat}
    (hhere : ∀ t ∈ here, t.position.line ≠ n) :
    (here ++ more).filter (·.position.line = n) = more.filter (·.position.line = n) := by
  have hnone : here.filter (·.position.line = n) = [] :=
    List.filter_eq_nil_iff.2 fun t ht => by simpa using hhere t ht
  rw [List.filter_append, hnone, List.nil_append]

/-- How tokens lie in lines that are counted from a number on. -/
inductive Paged (gap tail : List Char → Prop) : Nat → List String → List (Token κ) → Prop
  | nil {number : Nat} : Paged gap tail number [] []
  | cons {number : Nat} {line : String} {lines : List String} {here more : List (Token κ)}
      (laidOut : LaidOut gap tail 1 line.toList here)
      (line_eq : ∀ t ∈ here, t.position.line = number)
      (others : Paged gap tail (number + 1) lines more) :
      Paged gap tail number (line :: lines) (here ++ more)

namespace Paged

variable {gap tail : List Char → Prop} {number : Nat} {lines : List String} {ts : List (Token κ)}

/-- Every token stands on one of the lines. -/
theorem line_bounds (h : Paged gap tail number lines ts) :
    ∀ t ∈ ts, number ≤ t.position.line ∧ t.position.line < number + lines.length := by
  induction h with
  | nil => simp
  | cons _ line_eq _ ih =>
    intro t ht
    rw [List.length_cons]
    rcases List.mem_append.1 ht with ht | ht
    · have := line_eq t ht
      omega
    · have := ih t ht
      omega

/-- The tokens that stand on a line are those laid out in it. -/
theorem laidOut_filter (h : Paged gap tail number lines ts) {i : Nat} (hi : i < lines.length) :
    LaidOut gap tail 1 (lines[i]).toList (ts.filter (·.position.line = number + i)) := by
  induction h generalizing i with
  | nil => simp at hi
  | @cons number line lines here more laidOut line_eq others ih =>
    cases i with
    | zero =>
      have hmore : ∀ t ∈ more, t.position.line ≠ number := fun t ht =>
        Nat.ne_of_gt (others.line_bounds t ht).1
      rw [Nat.add_zero, filter_line_append_left line_eq hmore]
      exact laidOut
    | succ i =>
      have hhere : ∀ t ∈ here, t.position.line ≠ number + (i + 1) := by
        intro t ht
        have := line_eq t ht
        omega
      have hnumber : number + (i + 1) = number + 1 + i := by omega
      rw [filter_line_append_right hhere, hnumber]
      exact ih (by simpa using hi)

/-- Tokens stand in reading order. -/
theorem positions_increase (h : Paged gap tail number lines ts) :
    ts.Pairwise fun t u => t.position < u.position := by
  induction h with
  | nil => exact .nil
  | cons laidOut line_eq others ih =>
    refine List.pairwise_append.2 ⟨?_, ih, ?_⟩
    · refine laidOut.columns_increase.imp_of_mem fun {t u} ht hu h => ?_
      exact Position.lt_def.2 (Or.inr ⟨(line_eq t ht).trans (line_eq u hu).symm, h⟩)
    · intro t ht u hu
      have := line_eq t ht
      have := (others.line_bounds u hu).1
      exact Position.lt_def.2 (Or.inl (by omega))

end Paged

end SinglePass
