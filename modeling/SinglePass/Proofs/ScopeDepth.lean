import SinglePass.Scope

/-!
# How far out a name is bound

Looking a name up and counting how far out it is bound are two walks of their own through the levels
of a scope.  The count says nothing of whether the name is bound at all: the outermost level counts
for every name that the others do not bind.  Still both walks come to one level
(`depth_reaches_binding`): going out as often as the count says leads to the level that answers the
look-up, and no level before it binds the name.

`Scope.outward?` goes out a number of levels; everything is by induction on the levels.
-/

namespace SinglePass

variable {κ τ : Type}

namespace Scope

/-- The scope that is a number of levels out, if there are so many. -/
def outward? : Nat → Scope κ τ → Option (Scope κ τ)
  | 0, s => some s
  | n + 1, s => s.outer?.bind (outward? n)

/-- Going outward from a nested scope goes on from the scope around it. -/
theorem outward?_succ_nested (n : Nat) (table : Table κ τ) (outer : Scope κ τ) :
    outward? (n + 1) (nested table outer) = outward? n outer := rfl

/-! ## Going out -/

/-- One can go out as long as there are levels. -/
theorem isSome_outward?_iff {n : Nat} {s : Scope κ τ} :
    (s.outward? n).isSome = true ↔ n < s.levels.length := by
  induction n generalizing s with
  | zero => cases s <;> simp [outward?, levels]
  | succ n ih =>
    cases s with
    | outermost table => simp [outward?, outer?, levels]
    | nested table outer =>
      rw [outward?_succ_nested, ih, levels, List.length_cons, Nat.succ_lt_succ_iff]

/-! ## The level of a name -/

/-- The level that the count leads to answers the look-up. -/
theorem exists_outward?_depth (s : Scope κ τ) (name : String) :
    ∃ reached, s.outward? (s.depth name) = some reached ∧
      reached.local? name = s.get? name := by
  induction s with
  | outermost table => exact ⟨outermost table, rfl, rfl⟩
  | nested table outer ih =>
    cases hget : table.get? name with
    | some symbol =>
      have hdepth : (nested table outer).depth name = 0 := by
        simp [depth, Table.isDefined, hget]
      refine ⟨nested table outer, by rw [hdepth]; rfl, ?_⟩
      rw [local?, get?, hget]
      exact hget
    | none =>
      have hdepth : (nested table outer).depth name = outer.depth name + 1 := by
        simp [depth, Table.isDefined, hget]
      obtain ⟨reached, hreached, hlocal⟩ := ih
      refine ⟨reached, by rw [hdepth, outward?_succ_nested, hreached], ?_⟩
      rw [hlocal, get?, hget]

/-- The levels before it do not bind the name. -/
theorem exists_outward?_of_lt_depth {s : Scope κ τ} {name : String} {n : Nat}
    (h : n < s.depth name) :
    ∃ passed, s.outward? n = some passed ∧ passed.local? name = none := by
  induction s generalizing n with
  | outermost table => nomatch h
  | nested table outer ih =>
    rw [depth] at h
    split at h
    · nomatch h
    · next hdefined =>
      cases n with
      | zero =>
        refine ⟨nested table outer, rfl, ?_⟩
        rw [local?, ← Option.not_isSome_iff_eq_none]
        exact hdefined
      | succ n => exact ih (Nat.lt_of_succ_lt_succ h)

/-- The depth of a name is that of some level. -/
theorem depth_lt_length_levels (s : Scope κ τ) (name : String) :
    s.depth name < s.levels.length := by
  obtain ⟨reached, hreached, -⟩ := s.exists_outward?_depth name
  rw [← isSome_outward?_iff, hreached]
  rfl

/-- A name that no level binds counts for the outermost one. -/
theorem depth_of_unbound {s : Scope κ τ} {name : String}
    (h : ∀ table ∈ s.levels, name ∉ table.names) : s.depth name + 1 = s.levels.length := by
  induction s with
  | outermost table => rfl
  | nested table outer ih =>
    obtain ⟨hhere, hothers⟩ := List.forall_mem_cons.1 h
    rw [← Table.isDefined_iff_mem_names] at hhere
    rw [depth, if_neg hhere, ih hothers, levels, List.length_cons]

/-! ## One level more -/

/-- An empty level is passed by every name. -/
theorem depth_nested_empty (s : Scope κ τ) (name : String) :
    (nested .empty s).depth name = s.depth name + 1 := rfl

/-- An empty level on top finds nothing by itself. -/
theorem get?_nested_empty (s : Scope κ τ) (name : String) :
    (nested .empty s).get? name = s.get? name := rfl

end Scope

/-- On every scope the count of levels and the look-up agree for every name.  The count is less than
the number of levels.  Going out that often succeeds, comes to a scope whose innermost level answers
what the look-up answers, and passes only scopes that do not bind the name themselves.  For a name
that is bound nowhere the count is the number of enclosing levels, and with a scope opened inside
every count is one more while every look-up stays the same. -/
theorem depth_reaches_binding (s : Scope κ τ) (name : String) :
    s.depth name < s.levels.length ∧
      (∃ reached, s.outward? (s.depth name) = some reached ∧
        reached.local? name = s.get? name) ∧
      (∀ n < s.depth name, ∃ passed, s.outward? n = some passed ∧ passed.local? name = none) ∧
      ((∀ table ∈ s.levels, name ∉ table.names) → s.depth name + 1 = s.levels.length) ∧
      ∀ level, ∃ inner, (ScopeStack.openScope ⟨some s, level⟩).current? = some inner ∧
        inner.outer? = some s ∧ inner.depth name = s.depth name + 1 ∧
        inner.get? name = s.get? name :=
  ⟨s.depth_lt_length_levels name, s.exists_outward?_depth name,
    fun _ => Scope.exists_outward?_of_lt_depth, Scope.depth_of_unbound,
    fun _ => ⟨.nested .empty s, rfl, rfl, s.depth_nested_empty name, s.get?_nested_empty name⟩⟩

end SinglePass
