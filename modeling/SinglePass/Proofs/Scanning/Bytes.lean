import SinglePass.Simple.Check

/-!
# Texts and bytes

A text is cut into lines by its characters, and bytes are cut into lines before anyone knows what
characters they are.  Both come to the same: the bytes of a line feed and of a carriage return stand
for these characters alone, so the lines of the encoding of a text are the encodings of its lines
(`Source.ofBytes_encode`).

What the lines are is said a second time, by cutting at every line feed first (`linesOfPieces`): the
program, which goes over its input once, finds those lines (`cutLines_eq_linesOfPieces`).

`Simple.entry_points_agree` draws this together for programs of Simple.
-/

namespace SinglePass

/-! ## Cutting at every line feed -/

section

variable {α : Type} [DecidableEq α]

/-- A piece without the carriage return at its end, if it has one. -/
def dropReturn (ret : α) (piece : List α) : List α :=
  if piece.getLast? = some ret then piece.dropLast else piece

/-- The lines of a sequence, from the pieces between its line feeds.  A piece before a line feed is
a line and loses one carriage return.  What is behind the last line feed is a line as it is, if
there is anything. -/
def linesOfPieces (ret : α) : List (List α) → List (List α)
  | [] => []
  | [last] => if last = [] then [] else [last]
  | piece :: next :: more => dropReturn ret piece :: linesOfPieces ret (next :: more)

variable {feed ret : α}

/-- The first piece loses its carriage return, if others follow. -/
theorem linesOfPieces_cons {piece : List α} {more : List (List α)} (h : more ≠ []) :
    linesOfPieces ret (piece :: more) = dropReturn ret piece :: linesOfPieces ret more := by
  obtain ⟨next, more, rfl⟩ := List.exists_cons_of_ne_nil h
  rfl

/-- A carriage return is dropped only where it comes last. -/
theorem dropReturn_cons {c : α} {piece : List α} (h : piece ≠ [] ∨ c ≠ ret) :
    dropReturn ret (c :: piece) = c :: dropReturn ret piece := by
  cases piece with
  | nil =>
    have hc : c ≠ ret := h.resolve_left (fun hne => hne rfl)
    simp [dropReturn, hc]
  | cons d piece =>
    rw [dropReturn, dropReturn, List.getLast?_cons_cons]
    split <;> rfl

/-- A sequence whose first piece is empty, and not the only one, begins with a line feed. -/
theorem head?_of_splitOn {s : List α} {more : List (List α)} (h : s.splitOn feed = [] :: more)
    (hmore : more ≠ []) : s.head? = some feed := by
  cases s with
  | nil =>
    rw [List.splitOn_nil] at h
    exact absurd (List.cons.inj h).2.symm hmore
  | cons c rest =>
    obtain ⟨piece, pieces, hrest⟩ := List.exists_cons_of_ne_nil (List.splitOn_ne_nil feed rest)
    rw [List.splitOn_cons_eq_if_modifyHead, hrest] at h
    by_cases hc : c = feed
    · rw [hc, List.head?_cons]
    · rw [if_neg (by simpa using hc)] at h
      nomatch h

/-- Going over a sequence once finds the lines that are cut out of it. -/
theorem cutLines_eq_linesOfPieces (s : List α) :
    cutLines feed ret s = linesOfPieces ret (s.splitOn feed) := by
  induction s with
  | nil => simp [linesOfPieces]
  | cons c rest ih =>
    obtain ⟨piece, more, hrest⟩ := List.exists_cons_of_ne_nil (List.splitOn_ne_nil feed rest)
    rw [List.splitOn_cons_eq_if_modifyHead, hrest]
    by_cases hfeed : c = feed
    · rw [hfeed, cutLines_feed, if_pos (by simp), linesOfPieces_cons (List.cons_ne_nil _ _), ih,
        hrest]
      rfl
    rw [if_neg (by simpa using hfeed), List.modifyHead_cons, cutLines, if_neg hfeed]
    by_cases hreturn : c = ret ∧ rest.head? = some feed
    · -- the carriage return is the whole piece before the line feed
      obtain ⟨rfl, hhead⟩ := hreturn
      obtain ⟨behind, rfl⟩ := List.head?_eq_some_iff.1 hhead
      rw [List.splitOn_cons_eq_if_modifyHead, if_pos (by simp)] at hrest
      obtain ⟨rfl, rfl⟩ := List.cons.inj hrest
      rw [if_pos ⟨rfl, hhead⟩, ih, List.splitOn_cons_eq_if_modifyHead, if_pos (by simp),
        linesOfPieces_cons (List.splitOn_ne_nil _ _), linesOfPieces_cons (List.splitOn_ne_nil _ _)]
      simp [dropReturn]
    rw [if_neg hreturn, ih, hrest]
    by_cases hmore : more = []
    · subst hmore
      by_cases hpiece : piece = [] <;> simp [linesOfPieces, hpiece]
    · have hkeeps : piece ≠ [] ∨ c ≠ ret := by
        by_cases hpiece : piece = []
        · subst hpiece
          exact .inr fun hc => hreturn ⟨hc, head?_of_splitOn hrest hmore⟩
        · exact .inl hpiece
      rw [linesOfPieces_cons hmore, linesOfPieces_cons hmore, dropReturn_cons hkeeps]

/-! ## Cutting what stands for something else -/

/-- What neither ends a line nor belongs to an end goes to the front of the first line. -/
theorem cutLines_append {front : List α} (hfront : front ≠ []) (hfeed : feed ∉ front)
    (hret : ret ∉ front) (s : List α) :
    cutLines feed ret (front ++ s) =
      (front ++ (cutLines feed ret s).headD []) :: (cutLines feed ret s).tail := by
  induction front with
  | nil => exact absurd rfl hfront
  | cons c front ih =>
    have hc : c ≠ feed := fun heq => hfeed (heq ▸ List.mem_cons_self)
    have hc' : ¬ (c = ret ∧ (front ++ s).head? = some feed) := fun h =>
      hret (h.1 ▸ List.mem_cons_self)
    rw [List.cons_append, cutLines, if_neg hc, if_neg hc']
    by_cases hempty : front = []
    · subst hempty
      rw [List.nil_append]
      cases cutLines feed ret s <;> rfl
    · rw [ih hempty (fun h => hfeed (List.mem_cons_of_mem _ h))
        (fun h => hret (List.mem_cons_of_mem _ h))]
      rfl

/-- A character that does not end a line goes to the front of the first line. -/
theorem cutLines_cons {c : α} {s : List α} (hfeed : c ≠ feed)
    (hret : ¬ (c = ret ∧ s.head? = some feed)) :
    cutLines feed ret (c :: s) =
      (c :: (cutLines feed ret s).headD []) :: (cutLines feed ret s).tail := by
  rw [cutLines, if_neg hfeed, if_neg hret]
  cases cutLines feed ret s <;> rfl

end

/-! ## The encoding of a text -/

namespace Source

/-- The bytes of a text. -/
def encode (text : String) : List UInt8 := text.toUTF8.data.toList

/-- The bytes of a sequence of characters. -/
def encodeChars (cs : List Char) : List UInt8 := cs.flatMap String.utf8EncodeChar

/-- The bytes of some characters are those of their text. -/
theorem encode_ofList (cs : List Char) : encode (String.ofList cs) = encodeChars cs := by
  rw [encode, String.toUTF8_eq_toByteArray, String.toByteArray_ofList, List.utf8Encode,
    List.toList_data_toByteArray]
  rfl

/-- The bytes of a text are those of its characters. -/
theorem encode_eq_encodeChars (text : String) : encode text = encodeChars text.toList := by
  rw [← encode_ofList, String.ofList_toList]

/-- The bytes of a first character come before those of the rest. -/
theorem encodeChars_cons (c : Char) (cs : List Char) :
    encodeChars (c :: cs) = String.utf8EncodeChar c ++ encodeChars cs := List.flatMap_cons

/-- The bytes of a text give the text back. -/
theorem decodeLine_encode (text : String) : decodeLine (encode text) = .line text := by
  have hbytes : (encode text).toByteArray = text.toUTF8 :=
    ByteArray.ext (Array.toList_inj.1 List.toList_data_toByteArray)
  have htext : String.fromUTF8? text.toUTF8 = some text := by
    rw [String.fromUTF8?, String.toUTF8_eq_toByteArray, dif_pos text.isValidUTF8]
    rfl
  rw [decodeLine, hbytes, htext]

/-- Bytes that are not those of a text cannot be read. -/
theorem decodeLine_of_ne_encode {bytes : List UInt8} (h : ∀ text, bytes ≠ encode text) :
    decodeLine bytes = .failure "stream did not contain valid UTF-8" := by
  have hinvalid : ¬ bytes.toByteArray.IsValidUTF8 := fun hvalid =>
    h (.ofByteArray bytes.toByteArray hvalid) List.toList_data_toByteArray.symm
  rw [decodeLine, String.fromUTF8?, dif_neg hinvalid]

/-- A line of bytes is that of a text, or it cannot be read. -/
theorem decodeLine_cases (bytes : List UInt8) :
    (∃ text, bytes = encode text ∧ decodeLine bytes = .line text) ∨
      (∀ text, bytes ≠ encode text) ∧
        decodeLine bytes = .failure "stream did not contain valid UTF-8" := by
  by_cases h : ∃ text, bytes = encode text
  · obtain ⟨text, rfl⟩ := h
    exact .inl ⟨text, rfl, decodeLine_encode text⟩
  · have hne : ∀ text, bytes ≠ encode text := fun text heq => h ⟨text, heq⟩
    exact .inr ⟨hne, decodeLine_of_ne_encode hne⟩

/-- A byte below 128 stands for the character with its number.  It is a character of its own, since
all bytes of the longer encodings are above. -/
theorem toNat_eq_of_mem_utf8EncodeChar {c : Char} {b : UInt8} (h : b ∈ String.utf8EncodeChar c)
    (hb : b.toNat < 128) : c.toNat = b.toNat := by
  have hlarge (n m : Nat) (hm : 128 ≤ m) (hn : n + m < 256) : b ≠ UInt8.ofNat (n + m) := by
    rintro rfl
    rw [UInt8.toNat_ofNat', Nat.mod_eq_of_lt hn] at hb
    omega
  revert h
  fun_cases String.utf8EncodeChar c with
  | case1 v hv =>
    intro h
    obtain rfl := List.mem_singleton.1 h
    have hlt : c.val.toNat < 256 := by omega
    rw [UInt8.toNat_ofNat', Nat.mod_eq_of_lt hlt]
    rfl
  | case2 =>
    simp only [List.mem_cons, List.not_mem_nil, or_false]
    rintro (h | h) <;> exact absurd h (hlarge _ _ (by omega) (by omega))
  | case3 =>
    simp only [List.mem_cons, List.not_mem_nil, or_false]
    rintro (h | h | h) <;> exact absurd h (hlarge _ _ (by omega) (by omega))
  | case4 =>
    simp only [List.mem_cons, List.not_mem_nil, or_false]
    rintro (h | h | h | h) <;> exact absurd h (hlarge _ _ (by omega) (by omega))

/-- The byte of a line feed or a carriage return stands for that character alone. -/
theorem eq_of_mem_utf8EncodeChar {c d : Char} {b : UInt8} (h : b ∈ String.utf8EncodeChar c)
    (hb : b.toNat < 128) (hd : d.toNat = b.toNat) : c = d :=
  Char.toNat_inj.1 ((toNat_eq_of_mem_utf8EncodeChar h hb).trans hd.symm)

/-- Only a line feed has the byte of a line feed in front. -/
theorem head?_encodeChars {cs : List Char} (h : (encodeChars cs).head? = some 10) :
    cs.head? = some '\n' := by
  cases cs with
  | nil => nomatch h
  | cons c rest =>
    obtain ⟨b, bytes, hbytes⟩ :=
      List.exists_cons_of_ne_nil (String.utf8EncodeChar_ne_nil (c := c))
    rw [encodeChars_cons, hbytes, List.cons_append, List.head?_cons] at h
    have hmem : 10 ∈ String.utf8EncodeChar c := by
      rw [hbytes, Option.some.inj h]
      exact List.mem_cons_self
    rw [List.head?_cons, eq_of_mem_utf8EncodeChar hmem (by decide) (d := '\n') rfl]

/-- The bytes of a character that ends no line go to the front of the first line. -/
theorem cutLines_utf8EncodeChar {c : Char} {cs : List Char} (hfeed : c ≠ '\n')
    (hreturn : ¬ (c = '\r' ∧ cs.head? = some '\n')) :
    cutLines 10 13 (String.utf8EncodeChar c ++ encodeChars cs) =
      (String.utf8EncodeChar c ++ (cutLines 10 13 (encodeChars cs)).headD []) ::
        (cutLines 10 13 (encodeChars cs)).tail := by
  by_cases hc : c = '\r'
  · subst hc
    exact cutLines_cons (by decide) fun h => hreturn ⟨rfl, head?_encodeChars h.2⟩
  · refine cutLines_append String.utf8EncodeChar_ne_nil ?_ ?_ _
    · exact fun h => hfeed (eq_of_mem_utf8EncodeChar h (by decide) rfl)
    · exact fun h => hc (eq_of_mem_utf8EncodeChar h (by decide) rfl)

/-- The lines of the encoding are the encodings of the lines. -/
theorem cutLines_encodeChars (cs : List Char) :
    cutLines 10 13 (encodeChars cs) = (cutLines '\n' '\r' cs).map encodeChars := by
  induction cs with
  | nil => rfl
  | cons c cs ih =>
    rw [encodeChars_cons]
    by_cases hfeed : c = '\n'
    · subst hfeed
      change cutLines 10 13 (10 :: encodeChars cs) = _
      rw [cutLines_feed, cutLines_feed, ih]
      rfl
    by_cases hreturn : c = '\r' ∧ cs.head? = some '\n'
    · obtain ⟨rfl, hhead⟩ := hreturn
      have hbytes : (encodeChars cs).head? = some 10 := by
        obtain ⟨rest, rfl⟩ := List.head?_eq_some_iff.1 hhead
        rfl
      change cutLines 10 13 (13 :: encodeChars cs) = _
      rw [cutLines, if_neg (by decide), if_pos ⟨rfl, hbytes⟩, cutLines, if_neg hfeed,
        if_pos ⟨rfl, hhead⟩, ih]
    · rw [cutLines_utf8EncodeChar hfeed hreturn, cutLines_cons hfeed hreturn, ih, List.map_cons,
        encodeChars_cons, List.map_tail]
      cases cutLines '\n' '\r' cs <;> rfl

/-- Reading the bytes of a text gives the lines of the text. -/
theorem ofBytes_encode (text : String) : ofBytes (encode text) = ofText text := by
  rw [ofBytes, ofText, encode_eq_encodeChars, cutLines_encodeChars, List.map_map]
  refine List.map_congr_left fun line _ => ?_
  rw [Function.comp_apply, ← encode_ofList, decodeLine_encode]

end Source

namespace Simple

/-- **The entry points agree.**  A text and its bytes have one report.  Bytes are read line by line:
they are cut at each line feed, less one carriage return in front of it, and there is no line behind
a final line feed.  A line that is not the encoding of a text cannot be read. -/
theorem entry_points_agree (strategy : Strategy) :
    (∀ text, checkText strategy text = checkBytes strategy (Source.encode text)) ∧
      (∀ bytes, checkBytes strategy bytes =
        check strategy ((linesOfPieces 13 (bytes.splitOn 10)).map Source.decodeLine)) ∧
      (∀ text, checkText strategy text =
        check strategy ((linesOfPieces '\r' (text.toList.splitOn '\n')).map fun line =>
          .line (String.ofList line))) ∧
      ∀ bytes, (∃ text, bytes = Source.encode text ∧ Source.decodeLine bytes = .line text) ∨
        (∀ text, bytes ≠ Source.encode text) ∧
          Source.decodeLine bytes = .failure "stream did not contain valid UTF-8" := by
  refine ⟨fun text => ?_, fun bytes => ?_, fun text => ?_, Source.decodeLine_cases⟩
  · rw [checkText, checkBytes, Source.ofBytes_encode]
  · rw [checkBytes, Source.ofBytes, cutLines_eq_linesOfPieces]
  · rw [checkText, Source.ofText, cutLines_eq_linesOfPieces]

end Simple

end SinglePass
