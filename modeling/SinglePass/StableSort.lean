/-!
# Stable sorting

Sorting by insertion, along an order given as a test.  Two elements that the test allows in
either order keep their order, so the result is the only ordered arrangement in which equal
elements stand as before.

Main statements: `stableSort_perm`, `stableSort_pairwise`, `stableSort_stable`, `filter_stableSort`
and `stableSort_sublist` for a part of a list, and `stableSort_eq_self` for a list that is in order.
-/

namespace SinglePass

variable {α : Type}

/-- Insert an element before the first one that may stand after it. -/
def insertSorted (le : α → α → Bool) (a : α) : List α → List α
  | [] => [a]
  | b :: rest => if le a b then a :: b :: rest else b :: insertSorted le a rest

/-- Sort a list, keeping the order of elements that are equal in the given order. -/
def stableSort (le : α → α → Bool) : List α → List α
  | [] => []
  | a :: rest => insertSorted le a (stableSort le rest)

/-- There is nothing to sort in an empty list. -/
@[simp] theorem stableSort_nil (le : α → α → Bool) : stableSort le [] = [] := rfl

/-- Sorting inserts the first element into the rest, sorted. -/
@[simp] theorem stableSort_cons (le : α → α → Bool) (a : α) (rest : List α) :
    stableSort le (a :: rest) = insertSorted le a (stableSort le rest) := rfl

/-- Inserting only changes the order. -/
theorem insertSorted_perm (le : α → α → Bool) (a : α) (as : List α) :
    (insertSorted le a as).Perm (a :: as) := by
  induction as with
  | nil => exact .refl _
  | cons b rest ih =>
    rw [insertSorted]
    split
    · exact .refl _
    · exact (ih.cons b).trans (.swap a b rest)

/-- Sorting only rearranges. -/
theorem stableSort_perm (le : α → α → Bool) (as : List α) : (stableSort le as).Perm as := by
  induction as with
  | nil => exact .refl _
  | cons a rest ih => exact (insertSorted_perm le a _).trans (ih.cons a)

/-- Sorting keeps the elements. -/
theorem mem_stableSort {le : α → α → Bool} {a : α} {as : List α} :
    a ∈ stableSort le as ↔ a ∈ as := (stableSort_perm le as).mem_iff

/-- Sorting keeps their number. -/
@[simp] theorem length_stableSort (le : α → α → Bool) (as : List α) :
    (stableSort le as).length = as.length := (stableSort_perm le as).length_eq

/-- Inserting into a sorted list gives a sorted one. -/
theorem insertSorted_pairwise {le : α → α → Bool}
    (total : ∀ a b, le a b = true ∨ le b a = true)
    (trans : ∀ a b c, le a b = true → le b c = true → le a c = true)
    (a : α) {as : List α} (h : as.Pairwise (le · · = true)) :
    (insertSorted le a as).Pairwise (le · · = true) := by
  induction as with
  | nil => simp [insertSorted]
  | cons b rest ih =>
    obtain ⟨hb, hrest⟩ := List.pairwise_cons.1 h
    rw [insertSorted]
    split
    · next hab =>
      refine List.pairwise_cons.2 ⟨fun c hc => ?_, h⟩
      rcases List.mem_cons.1 hc with rfl | hc
      · exact hab
      · exact trans a b c hab (hb c hc)
    · next hab =>
      refine List.pairwise_cons.2 ⟨fun c hc => ?_, ih hrest⟩
      rcases List.mem_cons.1 ((insertSorted_perm le a rest).mem_iff.1 hc) with rfl | hc
      · exact (total c b).resolve_left hab
      · exact hb c hc

/-- A sorted list is in order. -/
theorem stableSort_pairwise {le : α → α → Bool}
    (total : ∀ a b, le a b = true ∨ le b a = true)
    (trans : ∀ a b c, le a b = true → le b c = true → le a c = true) (as : List α) :
    (stableSort le as).Pairwise (le · · = true) := by
  induction as with
  | nil => exact .nil
  | cons a rest ih => exact insertSorted_pairwise total trans a ih

/-- Sorting keeps the order of elements that may stand either way. -/
theorem stableSort_stable {le : α → α → Bool} {R : α → α → Prop} {as : List α}
    (h : as.Pairwise R) : (stableSort le as).Pairwise fun a b => le b a = true → R a b := by
  have insert : ∀ (a : α) (bs : List α), (∀ b ∈ bs, R a b) →
      bs.Pairwise (fun a b => le b a = true → R a b) →
      (insertSorted le a bs).Pairwise fun a b => le b a = true → R a b := by
    intro a bs ha hbs
    induction bs with
    | nil => exact List.pairwise_singleton _ _
    | cons b bs ih =>
      obtain ⟨hb, hrest⟩ := List.pairwise_cons.1 hbs
      rw [insertSorted]
      split
      · exact List.pairwise_cons.2 ⟨fun c hc _ => ha c hc, hbs⟩
      · next hab =>
        refine List.pairwise_cons.2 ⟨fun c hc => ?_, ih (fun c hc =>
          ha c (List.mem_cons_of_mem _ hc)) hrest⟩
        obtain rfl | hc := List.mem_cons.1 ((insertSorted_perm le a bs).mem_iff.1 hc)
        · exact fun hle => absurd hle hab
        · exact hb c hc
  induction as with
  | nil => exact .nil
  | cons a rest ih =>
    obtain ⟨ha, hrest⟩ := List.pairwise_cons.1 h
    exact insert a _ (fun b hb => ha b (mem_stableSort.1 hb)) (ih hrest)

/-- What may stand before all of a list goes to its front. -/
theorem insertSorted_of_forall {le : α → α → Bool} {a : α} {as : List α}
    (h : ∀ b ∈ as, le a b = true) : insertSorted le a as = a :: as := by
  cases as with
  | nil => rfl
  | cons b rest => rw [insertSorted, if_pos (h b List.mem_cons_self)]

/-- Leaving elements out may come before inserting or behind it. -/
theorem filter_insertSorted {le : α → α → Bool}
    (trans : ∀ a b c, le a b = true → le b c = true → le a c = true) (p : α → Bool) (a : α)
    {as : List α} (h : as.Pairwise (le · · = true)) :
    (insertSorted le a as).filter p =
      if p a then insertSorted le a (as.filter p) else as.filter p := by
  induction as with
  | nil => rw [insertSorted, List.filter_cons]; rfl
  | cons b rest ih =>
    obtain ⟨hb, hrest⟩ := List.pairwise_cons.1 h
    rw [insertSorted]
    by_cases hab : le a b = true
    · have hfront : ∀ c ∈ (b :: rest).filter p, le a c = true := by
        intro c hc
        obtain rfl | hc := List.mem_cons.1 (List.mem_filter.1 hc).1
        · exact hab
        · exact trans a b c hab (hb c hc)
      rw [if_pos hab, List.filter_cons, insertSorted_of_forall hfront]
    · rw [if_neg hab, List.filter_cons, ih hrest, List.filter_cons]
      by_cases hpb : p b = true
      · rw [if_pos hpb, if_pos hpb, insertSorted, if_neg hab]
        split <;> rfl
      · rw [if_neg hpb, if_neg hpb]

/-- A part of a list is sorted as it is in the whole list. -/
theorem filter_stableSort {le : α → α → Bool}
    (total : ∀ a b, le a b = true ∨ le b a = true)
    (trans : ∀ a b c, le a b = true → le b c = true → le a c = true) (p : α → Bool)
    (as : List α) : (stableSort le as).filter p = stableSort le (as.filter p) := by
  induction as with
  | nil => rfl
  | cons a rest ih =>
    rw [stableSort_cons, filter_insertSorted trans p a (stableSort_pairwise total trans rest), ih,
      List.filter_cons]
    split <;> rfl

/-- A list that is in order stays as it is. -/
theorem stableSort_eq_self {le : α → α → Bool} {as : List α}
    (h : as.Pairwise (le · · = true)) : stableSort le as = as := by
  induction as with
  | nil => rfl
  | cons a rest ih =>
    obtain ⟨ha, hrest⟩ := List.pairwise_cons.1 h
    rw [stableSort_cons, ih hrest, insertSorted_of_forall ha]

/-- Inserting keeps the order of what is there. -/
theorem sublist_insertSorted (le : α → α → Bool) (a : α) (as : List α) :
    as.Sublist (insertSorted le a as) := by
  induction as with
  | nil => exact List.nil_sublist _
  | cons b rest ih =>
    rw [insertSorted]
    split
    · exact List.sublist_cons_self a _
    · exact ih.cons_cons b

/-- What is inserted into a part of a sorted list goes to the same place in the whole list. -/
theorem insertSorted_sublist {le : α → α → Bool}
    (trans : ∀ a b c, le a b = true → le b c = true → le a c = true) (a : α) {as bs : List α}
    (h : as.Sublist bs) (hbs : bs.Pairwise (le · · = true)) :
    (insertSorted le a as).Sublist (insertSorted le a bs) := by
  induction h with
  | slnil => exact List.Sublist.refl _
  | @cons as bs b h ih =>
    obtain ⟨hb, hrest⟩ := List.pairwise_cons.1 hbs
    by_cases hab : le a b = true
    · have hfront : ∀ c ∈ as, le a c = true := fun c hc => trans a b c hab (hb c (h.subset hc))
      rw [insertSorted_of_forall hfront, insertSorted, if_pos hab]
      exact (h.cons b).cons_cons a
    · rw [insertSorted, if_neg hab]
      exact (ih hrest).cons b
  | @cons_cons as bs b h ih =>
    rw [insertSorted, insertSorted]
    split
    · exact (h.cons_cons b).cons_cons a
    · exact (ih (List.pairwise_cons.1 hbs).2).cons_cons b

/-- A part of a list, sorted, is a part of the sorted list. -/
theorem stableSort_sublist {le : α → α → Bool}
    (total : ∀ a b, le a b = true ∨ le b a = true)
    (trans : ∀ a b c, le a b = true → le b c = true → le a c = true) {as bs : List α}
    (h : as.Sublist bs) : (stableSort le as).Sublist (stableSort le bs) := by
  induction h with
  | slnil => exact List.Sublist.refl _
  | cons b _ ih => exact ih.trans (sublist_insertSorted le b _)
  | @cons_cons _ bs b _ ih =>
    exact insertSorted_sublist trans b ih (stableSort_pairwise total trans bs)

end SinglePass
