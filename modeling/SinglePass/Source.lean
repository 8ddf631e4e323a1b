/-!
# Sources of text lines

A source is the list of answers that reading it line by line gives: lines without their
terminator, or a failure with its cause.  Nothing is read after a failure.

A text and a sequence of bytes are cut into lines by the same rule (`cutLines`): a line feed
ends a line, one carriage return directly before that line feed belongs to the terminator, and
a final line feed starts no further line.  A carriage return elsewhere, also at the very end,
stays in its line.  Bytes are cut before they are decoded, and a line that is not valid UTF-8
cannot be read.
-/

namespace SinglePass

/-- What reading the next line of a source gives. -/
inductive Reading where
  /-- A line, without its terminator. -/
  | line (text : String)
  /-- The line cannot be read, for the given reason. -/
  | failure (cause : String)
deriving DecidableEq

/-- The answers of a source that is read line by line. -/
abbrev Source := List Reading

/-! ## Cutting into lines -/

/-- Cut a sequence at each `feed`, dropping one `ret` directly before it. -/
def cutLines {α : Type} [DecidableEq α] (feed ret : α) : List α → List (List α)
  | [] => []
  | c :: rest =>
    if c = feed then
      [] :: cutLines feed ret rest
    else if c = ret ∧ rest.head? = some feed then
      cutLines feed ret rest
    else
      match cutLines feed ret rest with
      | [] => [[c]]
      | line :: lines => (c :: line) :: lines

section

variable {α : Type} [DecidableEq α] {feed ret : α}

/-- A text without characters has no lines. -/
@[simp] theorem cutLines_nil : cutLines feed ret ([] : List α) = [] := rfl

/-- A line feed ends a line. -/
@[simp] theorem cutLines_feed (rest : List α) :
    cutLines feed ret (feed :: rest) = [] :: cutLines feed ret rest := by
  simp [cutLines]

/-- No line holds the character that ends lines. -/
theorem not_mem_of_mem_cutLines {line s : List α} (h : line ∈ cutLines feed ret s) :
    feed ∉ line := by
  induction s generalizing line with
  | nil => simp at h
  | cons c rest ih =>
    rw [cutLines] at h
    split at h
    · rcases List.mem_cons.1 h with rfl | h
      · simp
      · exact ih h
    · next hc =>
      split at h
      · exact ih h
      · split at h
        · simp only [List.mem_singleton] at h
          simp [h, Ne.symm hc]
        · next first more heq =>
          rcases List.mem_cons.1 h with rfl | h
          · simp [Ne.symm hc, ih (heq ▸ List.mem_cons_self)]
          · exact ih (heq ▸ List.mem_cons_of_mem _ h)

end

namespace Source

/-- The lines of a text. -/
def ofText (text : String) : Source :=
  (cutLines '\n' '\r' text.toList).map fun line => .line (String.ofList line)

/-- One line given by its bytes. -/
def decodeLine (bytes : List UInt8) : Reading :=
  match String.fromUTF8? bytes.toByteArray with
  | some text => .line text
  | none => .failure "stream did not contain valid UTF-8"

/-- The lines of a sequence of bytes. -/
def ofBytes (bytes : List UInt8) : Source :=
  (cutLines 10 13 bytes).map decodeLine

/-- Number of characters before the end of the source or its first failure, counting the end of
each line as one. -/
def extent : Source → Nat
  | .line text :: more => text.length + 1 + extent more
  | _ => 0

end Source

end SinglePass
