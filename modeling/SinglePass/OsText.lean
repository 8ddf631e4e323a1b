/-!
# Names and paths of the system

To the system, names and paths are bytes.  Most of them are texts in UTF-8, but none has to be.
Where one is shown, whatever is not valid in it is replaced (`display`): each run of bytes that
begins a character without going on to its end, and each byte that begins none.
-/

namespace SinglePass

/-- A name or a path of the system. -/
abbrev OsText := List UInt8

/-- The bytes of a text. -/
def utf8 (text : String) : OsText := text.toList.flatMap String.utf8EncodeChar

/-- The text that some bytes encode, if they are valid. -/
def textOf? (bytes : OsText) : Option String := String.fromUTF8? bytes.toByteArray

/-- The byte of a slash. -/
def slash : UInt8 := 47

/-- The byte of a full stop. -/
def dot : UInt8 := 46

/-! ## Showing names and paths -/

/-- A character of several bytes that has begun. -/
structure Begun where
  /-- What its bytes so far hold. -/
  bits : Nat
  /-- Number of bytes behind the next one. -/
  behind : Nat
  /-- The least and the greatest value of the next byte. -/
  least : Nat
  greatest : Nat

/-- The character that is shown for what is not valid. -/
def replacement : Char := '\uFFFD'

/-- What a byte gives that a character begins with: the character, or one that has begun. -/
def beginChar (b : UInt8) : List Char × Option Begun :=
  let v := b.toNat
  if v < 0x80 then ([Char.ofNat v], none)
  else if 0xC2 ≤ v ∧ v ≤ 0xDF then ([], some ⟨v - 0xC0, 0, 0x80, 0xBF⟩)
  else if 0xE0 ≤ v ∧ v ≤ 0xEF then
    ([], some ⟨v - 0xE0, 1, if v = 0xE0 then 0xA0 else 0x80, if v = 0xED then 0x9F else 0xBF⟩)
  else if 0xF0 ≤ v ∧ v ≤ 0xF4 then
    ([], some ⟨v - 0xF0, 2, if v = 0xF0 then 0x90 else 0x80, if v = 0xF4 then 0x8F else 0xBF⟩)
  else ([replacement], none)

/-- What one more byte gives.  A byte that does not continue what has begun begins anew. -/
def continueChar : Option Begun → UInt8 → List Char × Option Begun
  | none, b => beginChar b
  | some c, b =>
    if c.least ≤ b.toNat ∧ b.toNat ≤ c.greatest then
      match c.behind with
      | 0 => ([Char.ofNat (c.bits * 64 + b.toNat % 64)], none)
      | behind + 1 => ([], some ⟨c.bits * 64 + b.toNat % 64, behind, 0x80, 0xBF⟩)
    else (replacement :: (beginChar b).1, (beginChar b).2)

/-- The characters that are shown for some bytes, behind those of a character that has begun. -/
def decodeLossy : Option Begun → List UInt8 → List Char
  | none, [] => []
  | some _, [] => [replacement]
  | begun, b :: rest => (continueChar begun b).1 ++ decodeLossy (continueChar begun b).2 rest

/-- How a name or a path is shown. -/
def display (bytes : OsText) : String := String.ofList (decodeLossy none bytes)

/-! ## Texts are shown as they are -/

/-- A number below 256 is that of its byte. -/
theorem toNat_ofNat_of_lt {n : Nat} (h : n < 256) : (UInt8.ofNat n).toNat = n := by
  rw [UInt8.toNat_ofNat', Nat.mod_eq_of_lt h]

/-- The first byte of two. -/
theorem beginChar_two {m : Nat} (hm : 2 ≤ m) (hlt : m < 32) :
    beginChar (UInt8.ofNat (m + 192)) = ([], some ⟨m, 0, 0x80, 0xBF⟩) := by
  rw [beginChar, toNat_ofNat_of_lt (by omega), if_neg (by omega), if_pos (by omega),
    Nat.add_sub_cancel]

/-- The first byte of three. -/
theorem beginChar_three {m : Nat} (hlt : m < 16) :
    beginChar (UInt8.ofNat (m + 224)) =
      ([], some ⟨m, 1, if m = 0 then 0xA0 else 0x80, if m = 13 then 0x9F else 0xBF⟩) := by
  have hzero : m + 224 = 0xE0 ↔ m = 0 := by omega
  have hlast : m + 224 = 0xED ↔ m = 13 := by omega
  rw [beginChar, toNat_ofNat_of_lt (by omega), if_neg (by omega), if_neg (by omega),
    if_pos (by omega), Nat.add_sub_cancel]
  simp only [hzero, hlast]

/-- The first byte of four. -/
theorem beginChar_four {m : Nat} (hlt : m < 5) :
    beginChar (UInt8.ofNat (m + 240)) =
      ([], some ⟨m, 2, if m = 0 then 0x90 else 0x80, if m = 4 then 0x8F else 0xBF⟩) := by
  have hzero : m + 240 = 0xF0 ↔ m = 0 := by omega
  have hlast : m + 240 = 0xF4 ↔ m = 4 := by omega
  rw [beginChar, toNat_ofNat_of_lt (by omega), if_neg (by omega), if_neg (by omega),
    if_neg (by omega), if_pos (by omega), Nat.add_sub_cancel]
  simp only [hzero, hlast]

/-- A byte that continues a character, within its bounds. -/
theorem continueChar_of_le {bits behind least greatest m : Nat} (hm : m < 64)
    (hleast : least ≤ m + 128) (hgreatest : m + 128 ≤ greatest) :
    continueChar (some ⟨bits, behind, least, greatest⟩) (UInt8.ofNat (m + 128)) =
      match behind with
      | 0 => ([Char.ofNat (bits * 64 + m)], none)
      | behind + 1 => ([], some ⟨bits * 64 + m, behind, 0x80, 0xBF⟩) := by
  have hmod : (m + 128) % 64 = m := by omega
  rw [continueChar, toNat_ofNat_of_lt (by omega), if_pos ⟨hleast, hgreatest⟩, hmod]

/-- The bytes of a character are shown as that character. -/
theorem decodeLossy_utf8EncodeChar (c : Char) (rest : List UInt8) :
    decodeLossy none (String.utf8EncodeChar c ++ rest) = c :: decodeLossy none rest := by
  have hvalid : c.val.toNat < 0xD800 ∨ 0xDFFF < c.val.toNat ∧ c.val.toNat < 0x110000 := c.valid
  have hc : Char.ofNat c.val.toNat = c := Char.ofNat_toNat c
  unfold String.utf8EncodeChar
  generalize c.val.toNat = n at hvalid hc ⊢
  dsimp only
  split
  · have hbegin : beginChar (UInt8.ofNat n) = ([c], none) := by
      rw [beginChar, toNat_ofNat_of_lt (by omega), if_pos (by omega), hc]
    simp only [List.cons_append, List.nil_append, decodeLossy, continueChar, hbegin]
  split
  · have hn : n / 64 % 32 * 64 + n % 64 = n := by omega
    simp (disch := omega) only [List.cons_append, List.nil_append, decodeLossy]
    rw [continueChar, beginChar_two (by omega) (by omega)]
    simp only [List.nil_append]
    rw [continueChar_of_le (by omega) (by omega) (by omega), hn, hc]
    rfl
  split
  · have hn : (n / 4096 % 16 * 64 + n / 64 % 64) * 64 + n % 64 = n := by omega
    simp (disch := omega) only [List.cons_append, List.nil_append, decodeLossy]
    rw [continueChar, beginChar_three (by omega)]
    simp only [List.nil_append]
    rw [continueChar_of_le (by omega) (by split <;> omega) (by split <;> omega)]
    simp only [List.nil_append]
    rw [continueChar_of_le (by omega) (by omega) (by omega), hn, hc]
    rfl
  · have hn : ((n / 262144 % 8 * 64 + n / 4096 % 64) * 64 + n / 64 % 64) * 64 + n % 64 = n := by
      omega
    simp (disch := omega) only [List.cons_append, List.nil_append, decodeLossy]
    rw [continueChar, beginChar_four (by omega)]
    simp only [List.nil_append]
    rw [continueChar_of_le (by omega) (by split <;> omega) (by split <;> omega)]
    simp only [List.nil_append]
    rw [continueChar_of_le (by omega) (by omega) (by omega)]
    simp only [List.nil_append]
    rw [continueChar_of_le (by omega) (by omega) (by omega), hn, hc]
    rfl

/-- A text is shown as it is. -/
theorem display_utf8 (text : String) : display (utf8 text) = text := by
  have hchars : ∀ cs : List Char, decodeLossy none (cs.flatMap String.utf8EncodeChar) = cs := by
    intro cs
    induction cs with
    | nil => rfl
    | cons c cs ih => rw [List.flatMap_cons, decodeLossy_utf8EncodeChar, ih]
  rw [display, utf8, hchars, String.ofList_toList]

end SinglePass
