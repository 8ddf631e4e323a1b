import Mathlib.Algebra.BigOperators.Group.List.Basic
import SinglePass.Proofs.Scanning.Calls

/-!
# A cursor is an index

Reading line by line comes to reading one text: the lines that can be read, each closed by the
character that ends it (`Source.flatten`).  An index of this text is a place in one of the lines
(`Source.Locates`), and a cursor that has been asked to consume that many characters stands there,
however the asking was done.  Behind the text it stays where it is.

* `Source.exists_locates`: every index has its line.
* `Cursor.consume_offset`: the cursor at the beginning of a line, by induction on the lines before.
* `Cursor.consume_indexes`: what the cursor shows at each index, and behind the last.
-/

namespace SinglePass

/-! ## The text of some lines -/

namespace Source

/-- The characters of some lines, each line closed by its end. -/
def flatten (lines : List String) : List Char :=
  lines.flatMap fun line => line.toList ++ [endOfLine]

/-- Number of characters before line `i`, which is counted from zero. -/
def offset (lines : List String) (i : Nat) : Nat := (flatten (lines.take i)).length

/-- Index `n` of the text of some lines is place `j` of line `i`, all counted from zero.  The last
place of a line is that of its end. -/
structure Locates (lines : List String) (n i : Nat) (line : String) (j : Nat) : Prop where
  line_eq : lines[i]? = some line
  place_le : j ≤ line.length
  index_eq : offset lines i + j = n

/-- No lines have no characters. -/
@[simp] theorem flatten_nil : flatten [] = [] := rfl

/-- The characters of the first line come first, with the end of that line. -/
@[simp] theorem flatten_cons (line : String) (more : List String) :
    flatten (line :: more) = line.toList ++ endOfLine :: flatten more := by
  simp [flatten]

/-- The characters of lines in two parts are those of both. -/
@[simp] theorem flatten_append (lines more : List String) :
    flatten (lines ++ more) = flatten lines ++ flatten more := by
  simp [flatten]

/-- What can be consumed of a source is its text. -/
theorem length_flatten_lines (source : Source) : (flatten source.lines).length = source.extent := by
  rw [← source.extent_lines]
  induction source.lines with
  | nil => rfl
  | cons line more ih =>
    simp only [flatten_cons, List.length_append, String.length_toList, List.length_cons, ih,
      List.map_cons, extent]
    omega

section

variable {lines : List String} {line : String} {n i j : Nat}

/-- A line cuts the text into what is before, the line with its end, and what is behind. -/
theorem flatten_eq_of_getElem? (h : lines[i]? = some line) :
    flatten lines =
      flatten (lines.take i) ++ (line.toList ++ endOfLine :: flatten (lines.drop (i + 1))) := by
  obtain ⟨hi, rfl⟩ := List.getElem?_eq_some_iff.1 h
  conv_lhs => rw [← List.take_append_drop i lines, List.drop_eq_getElem_cons hi]
  rw [flatten_append, flatten_cons]

/-- A line begins one character behind the end of the one before it. -/
theorem offset_succ (h : lines[i]? = some line) :
    offset lines (i + 1) = offset lines i + (line.length + 1) := by
  rw [offset, offset, List.take_add_one, h, flatten_append, List.length_append]
  simp [String.length_toList]

/-- Every index of the text lies in a line. -/
theorem exists_locates (h : n < (flatten lines).length) :
    ∃ i line j, Locates lines n i line j := by
  induction lines generalizing n with
  | nil => simp at h
  | cons first more ih =>
    rcases Nat.lt_or_ge first.length n with hlt | hle
    · have hmore : n - (first.length + 1) < (flatten more).length := by
        simp [String.length_toList] at h
        omega
      rcases ih hmore with ⟨i, line, j, hline, hj, hindex⟩
      refine ⟨i + 1, line, j, by simpa using hline, hj, ?_⟩
      simp [offset, String.length_toList] at hindex ⊢
      omega
    · exact ⟨0, first, n, rfl, hle, by simp [offset]⟩

/-- From an index on, the text begins with the rest of its line. -/
theorem Locates.drop_flatten (h : Locates lines n i line j) :
    (flatten lines).drop n =
      line.toList.drop j ++ [endOfLine] ++ flatten (lines.drop (i + 1)) := by
  have hj : j ≤ line.toList.length := by
    rw [String.length_toList]
    exact h.place_le
  rw [flatten_eq_of_getElem? h.line_eq, ← h.index_eq, offset, ← List.drop_drop, List.drop_left,
    List.drop_append_of_le_length hj, List.append_assoc]
  rfl

end

end Source

/-! ## Cursors at an index -/

namespace Cursor

open Source

/-- Consuming in several goes is consuming as much in one. -/
theorem foldl_consume (c : Cursor) (counts : List Nat) :
    counts.foldl consume c = c.consume counts.sum := by
  induction counts generalizing c with
  | nil => rfl
  | cons count counts ih => rw [List.foldl_cons, ih, List.sum_cons, consume_add]

/-- The cursor stands at the beginning of line `i`, which is counted from zero. -/
structure Begins (lines : List String) (i : Nat) (line : String) (c : Cursor) : Prop where
  rest_eq : c.rest = line.toList ++ [endOfLine]
  pending_eq : c.pending.lines = lines.drop (i + 1)
  taken_eq : c.taken = i + 1
  column_eq : c.column = 1

/-- What a cursor shows that has been asked to consume `n` characters of some lines. -/
structure Indexes (lines : List String) (n : Nat) (c : Cursor) : Prop where
  consumed_eq : c.consumed = min n (flatten lines).length
  exhausted_iff : c.exhausted = true ↔ (flatten lines).length ≤ n
  /-- Within the text, the cursor stands in the line that has the index. -/
  located : n < (flatten lines).length → ∃ i line j, Locates lines n i line j
  position_eq : ∀ {i line j}, Locates lines n i line j → c.position = ⟨i + 1, j + 1⟩
  rest_eq : ∀ {i line j}, Locates lines n i line j → c.rest = line.toList.drop j ++ [endOfLine]
  current_eq : n < (flatten lines).length → (flatten lines)[n]? = some c.current
  peek_eq : ∀ {i line j}, Locates lines n i line j → ∀ k,
    if j + k ≤ line.length then (flatten lines)[n + k]? = some (c.peek k) else c.peek k = endOfLine
  /-- Behind the text, the cursor stands behind the last line and does not move. -/
  behind : (flatten lines).length ≤ n →
    c.current = endOfStream ∧ (∀ k, c.peek k = endOfStream) ∧ c.rest = [] ∧
      c.position = ⟨max 1 lines.length, lines.getLast?.elim 0 String.length + 1⟩ ∧
      ∀ k, c.consume k = c

section

variable {source : Source} {lines : List String} {line : String} {n i j : Nat} {c : Cursor}

/-- As many characters are consumed as are asked for, or all there are. -/
theorem consumed_consume_start (source : Source) (n : Nat) :
    ((start source).consume n).consumed = min n (flatten source.lines).length := by
  rw [consumed_consume, start, consumed_refill, remaining_refill, length_flatten_lines]
  exact Nat.zero_add _

/-- A source is exhausted by as many characters as it has. -/
theorem exhausted_consume_start_iff :
    ((start source).consume n).exhausted = true ↔ (flatten source.lines).length ≤ n := by
  rw [exhausted_iff_remaining, remaining_consume, start, remaining_refill, length_flatten_lines]
  exact Nat.sub_eq_zero_iff_le

/-- Behind a line, the cursor stands at the beginning of the next one. -/
theorem Begins.consume_line (h : c.Begins lines i line) {next : String}
    (hnext : lines[i + 1]? = some next) :
    (c.consume (line.length + 1)).Begins lines (i + 1) next := by
  have hlines : c.pending.lines = next :: lines.drop (i + 2) := by
    obtain ⟨hi, rfl⟩ := List.getElem?_eq_some_iff.1 hnext
    rw [h.pending_eq, List.drop_eq_getElem_cons hi]
  rw [← String.length_toList, Cursor.consume_line h.rest_eq]
  generalize hd : ({ c with rest := _, column := _, consumed := _ } : Cursor) = d
  have hcoming : d.pending.lines = next :: lines.drop (i + 2) := by rw [← hd, ← hlines]
  obtain ⟨pending, hrefill, hpending⟩ := refill_of_lines_cons hcoming
  rw [hrefill]
  refine ⟨rfl, hpending, ?_, rfl⟩
  rw [← hd, ← h.taken_eq]

/-- As many characters as there are before a line lead to its beginning. -/
theorem consume_offset (h : source.lines[i]? = some line) :
    ((start source).consume (offset source.lines i)).Begins source.lines i line := by
  induction i generalizing line with
  | zero =>
    obtain ⟨hi, rfl⟩ := List.getElem?_eq_some_iff.1 h
    obtain ⟨pending, hrefill, hpending⟩ := refill_of_lines_cons
      (c := ⟨[], source, 0, 1, 0, none⟩) (List.drop_eq_getElem_cons hi)
    rw [start, hrefill]
    exact ⟨rfl, hpending, rfl, rfl⟩
  | succ i ih =>
    obtain ⟨hi, -⟩ := List.getElem?_eq_some_iff.1 h
    have hline := List.getElem?_eq_getElem (Nat.lt_of_succ_lt hi)
    rw [offset_succ hline, consume_add]
    exact (ih hline).consume_line h

/-- As many characters as an index says lead to its place in its line. -/
theorem consume_of_locates (h : Locates source.lines n i line j) :
    ((start source).consume n).rest = line.toList.drop j ++ [endOfLine] ∧
      ((start source).consume n).position = ⟨i + 1, j + 1⟩ := by
  obtain ⟨hline, hj, rfl⟩ := h
  have hbegins := consume_offset hline
  rw [consume_add]
  generalize (start source).consume (offset source.lines i) = c at hbegins ⊢
  have hlength : line.toList.length = line.length := String.length_toList
  have hlt : j < c.rest.length := by
    rw [hbegins.rest_eq, List.length_append, hlength]
    exact Nat.lt_succ_of_le hj
  rw [consume_of_lt hlt, hbegins.rest_eq, List.drop_append_of_le_length (hlength ▸ hj), position,
    Cursor.line, hbegins.taken_eq, hbegins.column_eq, Nat.add_comm 1 j]
  exact ⟨rfl, congrArg (Position.mk · (j + 1)) (Nat.max_eq_right (Nat.succ_pos i))⟩

/-- Behind the last line, the cursor stands where a further character of that line would. -/
theorem Begins.consume_last (h : c.Begins lines i line) (hlast : i + 1 = lines.length) :
    (c.consume (line.length + 1)).position = ⟨i + 1, line.length + 1⟩ := by
  have hlines : c.pending.lines = [] := by
    rw [h.pending_eq, hlast, List.drop_length]
  rw [← String.length_toList, Cursor.consume_line h.rest_eq]
  generalize hd : ({ c with rest := _, column := _, consumed := _ } : Cursor) = d
  obtain ⟨pending, failure, hrefill, -⟩ := refill_of_lines_nil (c := d) (by rw [← hd, ← hlines])
  have htaken : d.taken = i + 1 := by rw [← hd, ← h.taken_eq]
  have hcolumn : d.column = line.toList.length + 1 := by rw [← hd, Nat.add_comm, ← h.column_eq]
  rw [hrefill, position, Cursor.line, htaken, hcolumn]
  exact congrArg (Position.mk · _) (Nat.max_eq_right (Nat.succ_pos i))

/-- All characters lead behind the last line. -/
theorem position_consume_length (source : Source) :
    ((start source).consume (flatten source.lines).length).position =
      ⟨max 1 source.lines.length, source.lines.getLast?.elim 0 String.length + 1⟩ := by
  rcases hlast : source.lines.getLast? with _ | last
  · have hnil := List.getLast?_eq_none_iff.1 hlast
    obtain ⟨pending, failure, hrefill, -⟩ :=
      refill_of_lines_nil (c := ⟨[], source, 0, 1, 0, none⟩) hnil
    rw [hnil, flatten_nil, List.length_nil, consume_zero, start, hrefill]
    rfl
  · have hpos : 0 < source.lines.length := by
      apply List.length_pos_iff.2
      rintro hnil
      simp [hnil] at hlast
    have hcount : source.lines.length - 1 + 1 = source.lines.length := Nat.sub_add_cancel hpos
    have hline : source.lines[source.lines.length - 1]? = some last := by
      rw [← List.getLast?_eq_getElem?, hlast]
    have hlength : (flatten source.lines).length =
        offset source.lines (source.lines.length - 1) + (last.length + 1) := by
      rw [← offset_succ hline, hcount, offset, List.take_length]
    rw [hlength, consume_add, (consume_offset hline).consume_last hcount, hcount,
      Nat.max_eq_right hpos]
    rfl

/-- The cursor that has been asked to consume `n` characters of a source shows index `n` of its
text. -/
theorem consume_indexes (source : Source) (n : Nat) :
    ((start source).consume n).Indexes source.lines n where
  consumed_eq := consumed_consume_start source n
  exhausted_iff := exhausted_consume_start_iff
  located := exists_locates
  position_eq h := (consume_of_locates h).2
  rest_eq h := (consume_of_locates h).1
  current_eq h := by
    obtain ⟨i, line, j, hlocates⟩ := exists_locates h
    have hrest := (consume_of_locates hlocates).1
    have hdrop := hlocates.drop_flatten
    rw [← hrest] at hdrop
    rw [← List.head?_drop, hdrop, current]
    cases hc : ((start source).consume n).rest with
    | nil => simp [hc] at hrest
    | cons a rest => rfl
  peek_eq {i line j} h k := by
    have hrest := (consume_of_locates h).1
    have hdrop := h.drop_flatten
    rw [← hrest] at hdrop
    have hlength : ((start source).consume n).rest.length = line.length - j + 1 := by
      simp [hrest, String.length_toList]
    have hshown : ((start source).consume n).exhausted = false := by
      simp [exhausted, hrest]
    have hj := h.place_le
    rw [peek, hshown, if_neg Bool.false_ne_true, ← List.getElem?_drop, hdrop]
    split
    · have hk : k < ((start source).consume n).rest.length := by omega
      rw [List.getElem?_append_left hk, List.getElem?_eq_getElem hk]
      rfl
    · rw [List.getElem?_eq_none (by omega)]
      rfl
  -- Beyond the text the cursor stays where it was when the text was over.
  behind h := by
    have hend := exhausted_consume_start_iff.2 h
    have hrest := exhausted_iff.1 hend
    refine ⟨by simp [current, hrest], fun k => by simp [peek, hend], hrest, ?_,
      consume_of_exhausted hend⟩
    have hwhole : ((start source).consume (flatten source.lines).length).exhausted = true :=
      exhausted_consume_start_iff.2 (Nat.le_refl _)
    rw [← Nat.add_sub_of_le h, consume_add, consume_of_exhausted hwhole]
    exact position_consume_length source

end

/-- **A cursor is an index into the text of its source.**  Only the number of characters that it has
been asked to consume matters, and it shows what stands at that index. -/
theorem consumptions_index (source : Source) (counts : List Nat) :
    counts.foldl consume (start source) = (start source).consume counts.sum ∧
      (counts.foldl consume (start source)).Indexes source.lines counts.sum := by
  rw [foldl_consume]
  exact ⟨rfl, consume_indexes source counts.sum⟩

end Cursor

end SinglePass
