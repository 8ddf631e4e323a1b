import SinglePass.Proofs.Scanning.Bytes
import SinglePass.Proofs.Scanning.Flattened
import SinglePass.Proofs.Scanning.LongestMatch

/-!
# Lexemes that are written are read back

Lexemes of Simple that are written in a row, with blanks between them, are what scanning the text
gives (`written_round_trip`).  A text that `Spells` some lexemes still does so when it is cut into
lines (`Spells.relined`), although a line loses a carriage return at its end.  From there on the
induction goes along the text and the cursor together (`Spells.stream`): a blank is skipped, and a
lexeme is the longest one where it stands, because no longer one reaches over the blank behind it.

What a scan gives are lexemes again (`meaningful_of_mem_stream`), so they may be written anew.
-/

namespace SinglePass

/-- What a token says, apart from its position. -/
def Token.content {κ : Type} (t : Token κ) : κ × String := (t.kind, t.text)

/-! ## Cutting and closing lines -/

namespace Source

/-- A text with each of its lines closed by a line feed alone. -/
def relined (text : List Char) : List Char :=
  flatten ((cutLines '\n' '\r' text).map String.ofList)

/-- The source of a text consists of its lines, all of them readable. -/
theorem ofText_eq_map (text : String) :
    ofText text = ((cutLines '\n' '\r' text.toList).map String.ofList).map .line := by
  rw [List.map_map]
  rfl

/-- The lines of the source are those that the text is cut into. -/
theorem lines_ofText (text : String) :
    (ofText text).lines = (cutLines '\n' '\r' text.toList).map String.ofList := by
  rw [ofText_eq_map, lines_map_line]

/-- A text can be read to its end. -/
theorem readable_ofText (text : String) : (ofText text).Readable := by
  rw [ofText_eq_map]
  exact readable_map_line _

variable {c : Char} {front s : List Char}

/-- A line feed ends a line as it does before. -/
theorem relined_feed (s : List Char) : relined ('\n' :: s) = '\n' :: relined s := by
  rw [relined, cutLines_feed, List.map_cons, flatten_cons, String.toList_ofList]
  rfl

/-- A carriage return in front of a line feed is left out. -/
theorem relined_return (s : List Char) : relined ('\r' :: '\n' :: s) = relined ('\n' :: s) := by
  rw [relined, cutLines, if_neg (by decide), if_pos ⟨rfl, rfl⟩, relined]

/-- A text with a character has a line. -/
theorem cutLines_ne_nil (h : s ≠ []) : cutLines '\n' '\r' s ≠ [] := by
  induction s with
  | nil => exact absurd rfl h
  | cons c rest ih =>
    rw [cutLines]
    split
    · exact List.cons_ne_nil _ _
    · split
      · next hreturn =>
        apply ih
        rintro hnil
        simp [hnil] at hreturn
      · split <;> exact List.cons_ne_nil _ _

/-- What is put before the first line of a text stands before the whole of it. -/
theorem flatten_headD_tail (front s : List Char) :
    flatten (((front ++ (cutLines '\n' '\r' s).headD []) :: (cutLines '\n' '\r' s).tail).map
        String.ofList) =
      front ++ if s = [] then ['\n'] else relined s := by
  rw [List.map_cons, flatten_cons, String.toList_ofList, List.append_assoc]
  split
  · next h =>
    rw [h]
    rfl
  · next h =>
    obtain ⟨line, more, hlines⟩ := List.exists_cons_of_ne_nil (cutLines_ne_nil h)
    rw [relined, hlines, List.map_cons, flatten_cons, String.toList_ofList]
    rfl

/-- A part without line ends is read as it is, and ends its line if it comes last. -/
theorem relined_append (hfront : front ≠ []) (hfeed : '\n' ∉ front) (hreturn : '\r' ∉ front)
    (s : List Char) : relined (front ++ s) = front ++ if s = [] then ['\n'] else relined s := by
  rw [relined, cutLines_append hfront hfeed hreturn, flatten_headD_tail]

/-- A character that ends no line is read as it is, and ends its line if it comes last. -/
theorem relined_cons (hfeed : c ≠ '\n') (hreturn : ¬ (c = '\r' ∧ s.head? = some '\n')) :
    relined (c :: s) = c :: if s = [] then ['\n'] else relined s := by
  rw [relined, cutLines_cons hfeed hreturn]
  exact flatten_headD_tail [c] s

end Source

/-- If every line can be read, draining a scanner records the invalid tokens and nothing else. -/
theorem Scanner.sink_drain_of_readable {κ τ : Type} [TokenKind κ] {source : Source}
    (h : source.Readable) (classifier : Classifier κ) (sink : List (Diagnostic κ τ)) :
    (drain classifier (init source sink)).2.sink? =
      some (sink ++ ((source.tokens classifier).filter (TokenKind.isInvalid ·.kind)).map
        .lexical) := by
  rw [sink_drain, (Cursor.Sound.start h).faults_eq, List.append_nil,
    List.flatMap_congr fun scanned hmem => Source.faults_eq_lexicalFaults h hmem,
    ← flatMap_lexicalFaults, ← source.map_token_stream (τ := τ), List.flatMap_map]

namespace Simple

open Cursor Source

variable {kind : Kind} {c : Cursor} {a b : Char} {text rest s : List Char}
  {contents : List (Kind × String)}

/-! ## Lexemes among blanks -/

/-- No lexeme has the kind of the end. -/
theorem Lexeme.ordinary (h : Lexeme kind text) : kind ≠ .endOfFile := by
  have hkeywords : Kind.endOfFile ∉ Kind.keywords := by decide
  have hoperators : Kind.endOfFile ∉ operators := by decide
  cases h with
  | keyword mem => exact fun heq => hkeywords (heq ▸ mem)
  | operator mem => exact fun heq => hoperators (heq ▸ mem)
  | _ => exact Kind.noConfusion

instance (text : List Char) : Decidable (IsGap text) :=
  decidable_of_iff (text.all isBlank = true) (by simp only [IsGap, List.all_eq_true, isBlank_iff])

/-- A text that does not begin with a blank is no gap. -/
theorem not_isGap_of_head? (hhead : text.head? = some a) (ha : isBlank a = false) :
    ¬ IsGap text := by
  intro hgap
  exact ne_of_isBlank (isBlank_iff.2 (hgap a (List.mem_of_head? hhead))) ha rfl

/-- A letter or a digit is not blank. -/
theorem isBlank_of_isAlphanum (h : a.isAlphanum = true) : isBlank a = false := by
  apply Bool.eq_false_iff.2
  intro hblank
  have hnone : [' ', '\t', '\r', '\n'].any Char.isAlphanum = false := by decide
  have hfalse := List.any_eq_false.1 hnone a (isBlank_iff.1 hblank)
  exact hfalse h

/-- A lexeme that is not blank itself has no blank in it. -/
theorem Lexeme.isBlank_eq_false (h : Lexeme kind text) (hsolid : ¬ IsGap text) :
    ∀ a ∈ text, isBlank a = false := by
  have hspellings : ∀ kind ∈ Kind.keywords ++ operators,
      kind.spelling.toList.any isBlank = false := by decide
  have hword {a : Char} (ha : IsLetter a ∨ IsDigit a) : isBlank a = false :=
    isBlank_of_isAlphanum (isAlphanum_iff.2 ha)
  cases h with
  | keyword mem =>
    have hnone := hspellings kind (List.mem_append_left _ mem)
    exact fun a ha => Bool.eq_false_iff.2 (List.any_eq_false.1 hnone a ha)
  | ident letter others =>
    intro a ha
    rcases List.mem_cons.1 ha with rfl | ha
    · exact hword (.inl letter)
    · exact hword (others a ha)
  | integer digits => exact fun a ha => hword (.inr (digits.2 a ha))
  | real digits others =>
    intro a ha
    rcases List.mem_append.1 ha with ha | ha
    · exact hword (.inr (digits.2 a ha))
    · rcases List.mem_cons.1 ha with rfl | ha
      · rfl
      · exact hword (.inr (others.2 a ha))
  | malformed digits =>
    intro a ha
    rcases List.mem_append.1 ha with ha | ha
    · exact hword (.inr (digits.2 a ha))
    · rw [List.mem_singleton.1 ha]
      rfl
  | operator mem =>
    have hnone := hspellings kind (List.mem_append_right _ mem)
    exact fun a ha => Bool.eq_false_iff.2 (List.any_eq_false.1 hnone a ha)
  | @stray stray _ _ _ =>
    intro a ha
    obtain rfl := List.mem_singleton.1 ha
    apply Bool.eq_false_iff.2
    intro hblank
    apply hsolid
    intro d hd
    rw [List.mem_singleton.1 hd]
    exact isBlank_iff.1 hblank

/-- A lexeme that is no gap begins with a character that is not blank. -/
theorem Lexeme.exists_head (h : Lexeme kind text) (hsolid : ¬ IsGap text) :
    ∃ first more, text = first :: more ∧ isBlank first = false := by
  obtain ⟨first, more, rfl⟩ := List.exists_cons_of_ne_nil h.ne_nil
  exact ⟨first, more, rfl, h.isBlank_eq_false hsolid first List.mem_cons_self⟩

/-- A slash is a lexeme of its own. -/
theorem Lexeme.eq_slash (h : Lexeme kind text) (hhead : text.head? = some '/') : text = ['/'] := by
  have hoperators : ∀ kind ∈ operators, kind.spelling.toList.head? = some '/' →
      kind.spelling.toList = ['/'] := by decide
  rcases h.operator_of_other hhead (mt isAlpha_iff.2 (by decide)) (mt isDigit_iff.2 (by decide))
    with ⟨hkind, rfl⟩ | rfl
  · exact hoperators kind hkind hhead
  · rfl

/-- No longer lexeme reaches over a blank. -/
theorem Lexeme.longest (h : Lexeme kind text) (hsolid : ¬ IsGap text) (hb : isBlank b = true) :
    Longest (text ++ b :: rest) kind text := by
  refine ⟨h, List.prefix_append _ _, ?_⟩
  intro kind' text' h' hstarts
  by_contra hlonger
  -- A longer one would begin with this one and the blank, and no lexeme has a blank in it.
  have hbehind : text ++ [b] <+: text ++ b :: rest := ⟨rest, by simp⟩
  have hover : text ++ [b] <+: text' := by
    refine List.prefix_of_prefix_length_le hbehind hstarts ?_
    rw [List.length_append, List.length_singleton]
    omega
  obtain ⟨first, more, htext, hfirst⟩ := h.exists_head hsolid
  have hsolid' : ¬ IsGap text' := by
    refine not_isGap_of_head? ?_ hfirst
    obtain ⟨behind, rfl⟩ := hover
    rw [htext]
    rfl
  have hmem : b ∈ text' := hover.subset (List.mem_append_right _ List.mem_cons_self)
  exact ne_of_isBlank hb (h'.isBlank_eq_false hsolid' b hmem) rfl

/-- A lexeme before a blank is read as it stands. -/
theorem read_skip_of_lexeme (hlined : c.Lined) (h : Lexeme kind text) (hsolid : ¬ IsGap text)
    (hb : isBlank b = true) (hrest : c.rest = text ++ b :: rest) :
    lexicon.read (c.skip lexicon.blank) =
      (⟨kind, String.ofList text, c.position⟩, c.consume text.length) := by
  obtain ⟨first, more, htext, hfirst⟩ := h.exists_head hsolid
  have hcurrent : c.current = first := by
    rw [current, hrest, htext]
    rfl
  have hne : c.rest ≠ [] := by
    rw [hrest]
    simp
  have hcomment : ¬ AtComment c := by
    rintro ⟨hslash, hpeek⟩
    have hhead : text.head? = some '/' := by rw [htext, ← hslash, hcurrent]; rfl
    rw [peek, if_neg (mt exhausted_iff.1 hne), hrest, h.eq_slash hhead] at hpeek
    exact ne_of_isBlank hb rfl hpeek
  rw [skip_of_stop (hcurrent ▸ hfirst) hcomment]
  obtain ⟨kind', text', behind, _, -, hlongest, -, -, hread⟩ :=
    read_longest hlined hne (hcurrent ▸ hfirst)
  obtain ⟨rfl, rfl⟩ := hlongest.unique (hrest ▸ h.longest hsolid hb)
  exact hread

/-! ## Texts that spell lexemes -/

/-- A text that consists of some lexemes, none of them blank, with a blank between any two. -/
inductive Spells : List (Kind × String) → List Char → Prop
  | nil : Spells [] []
  | blank {contents : List (Kind × String)} {a : Char} {s : List Char} (blank : isBlank a = true)
      (more : Spells contents s) : Spells contents (a :: s)
  | lexeme {contents : List (Kind × String)} {kind : Kind} {text : String} {s : List Char}
      (lexeme : Lexeme kind text.toList) (solid : ¬ IsGap text.toList)
      (apart : ∀ a ∈ s.head?, isBlank a = true) (more : Spells contents s) :
      Spells ((kind, text) :: contents) (text.toList ++ s)

/-- A gap in front leaves what is spelled behind it. -/
theorem Spells.append_gap (h : Spells contents s) (hgap : IsGap text) :
    Spells contents (text ++ s) := by
  induction text with
  | nil => exact h
  | cons a text ih =>
    exact .blank (isBlank_iff.2 (hgap a List.mem_cons_self))
      (ih fun b hb => hgap b (List.mem_cons_of_mem _ hb))

/-- What is blank in front of a text is blank in front of its lines. -/
theorem head?_relined (h : ∀ a ∈ s.head?, isBlank a = true) :
    ∀ a ∈ (relined s).head?, isBlank a = true := by
  cases s with
  | nil => exact fun a ha => nomatch ha
  | cons c rest =>
    have hc : isBlank c = true := h c rfl
    by_cases hfeed : c = '\n'
    · rw [hfeed, relined_feed]
      exact fun a ha => (Option.some.inj ha) ▸ rfl
    · by_cases hreturn : c = '\r' ∧ rest.head? = some '\n'
      · obtain ⟨rfl, hrest⟩ := hreturn
        obtain ⟨more, rfl⟩ := List.head?_eq_some_iff.1 hrest
        rw [relined_return, relined_feed]
        exact fun a ha => (Option.some.inj ha) ▸ rfl
      · rw [relined_cons hfeed hreturn]
        exact fun a ha => (Option.some.inj ha) ▸ hc

/-- Cutting a text into lines leaves the lexemes that it spells as they are. -/
theorem Spells.relined (h : Spells contents s) : Spells contents (relined s) := by
  have hend : isBlank '\n' = true := rfl
  induction h with
  | nil => exact .nil
  | @blank contents a s hblank more ih =>
    by_cases hfeed : a = '\n'
    · rw [hfeed, relined_feed]
      exact .blank hend ih
    · by_cases hreturn : a = '\r' ∧ s.head? = some '\n'
      · obtain ⟨rfl, hhead⟩ := hreturn
        obtain ⟨rest, rfl⟩ := List.head?_eq_some_iff.1 hhead
        rw [relined_return]
        exact ih
      · rw [relined_cons hfeed hreturn]
        split
        · next hnil => exact .blank hblank (.blank hend (hnil ▸ more))
        · exact .blank hblank ih
  | @lexeme contents kind text s hlexeme hsolid apart more ih =>
    have hblanks : ∀ a ∈ [' ', '\t', '\r', '\n'], a ∉ text.toList := by
      intro a ha hmem
      exact ne_of_isBlank (isBlank_iff.2 ha) (hlexeme.isBlank_eq_false hsolid a hmem) rfl
    rw [relined_append hlexeme.ne_nil (hblanks '\n' (by decide)) (hblanks '\r' (by decide))]
    split
    · next hnil =>
      exact .lexeme hlexeme hsolid (fun a ha => (Option.some.inj ha) ▸ hend)
        (.blank hend (hnil ▸ more))
    · exact .lexeme hlexeme hsolid (head?_relined apart) ih

/-! ## Scanning them -/

/-- Cursors from which the same is skipped have the same tokens before them. -/
theorem stream_eq_of_skip_eq {d : Cursor} (hc : c.Lined) (hd : d.Lined)
    (h : c.skip lexicon.blank = d.skip lexicon.blank) :
    (c.stream classifier : List (Scanned Kind Ty)) = d.stream classifier := by
  have hscan : c.scan (τ := Ty) classifier = d.scan classifier := by
    unfold Cursor.scan
    rw [classifier, tiles.advance_eq hc, tiles.advance_eq hd, h]
  rw [stream_eq classifier c, stream_eq classifier d, hscan]

/-- The first token before a cursor is the one that is read there. -/
theorem stream_of_lexeme (hlined : c.Lined) (hsound : c.Sound) (h : Lexeme kind text)
    (hsolid : ¬ IsGap text) (hb : isBlank b = true) (hrest : c.rest = text ++ b :: rest) :
    (c.stream (τ := Ty) classifier).map (·.token.content) =
      (kind, String.ofList text) ::
        ((c.consume text.length).stream (τ := Ty) classifier).map (·.token.content) := by
  have hread : c.advance classifier = _ :=
    (tiles.advance_eq hlined).trans (read_skip_of_lexeme hlined h hsolid hb hrest)
  have hacknowledge : (c.consume text.length).acknowledge = c.consume text.length := by
    rw [acknowledge, ← (hsound.consume text.length).failure_eq]
  have hordinary : (c.scan (τ := Ty) classifier).1.token.isEnd = false := by
    show (c.advance classifier).1.isEnd = false
    rw [hread]
    exact decide_eq_false h.ordinary
  have hnext : (c.scan (τ := Ty) classifier).2 = c.consume text.length := by
    show (c.advance classifier).2.acknowledge = _
    rw [hread]
    exact hacknowledge
  rw [stream_eq, if_neg (by simp [hordinary]), List.map_cons, hnext]
  show (c.advance classifier).1.content :: _ = _
  rw [hread]
  rfl

/-- A lexeme that stands at an index has a blank behind it in its own line. -/
theorem rest_of_lexeme {lines : List String} {n i j : Nat} {line : String}
    (hlocates : Locates lines n i line j) (h : Lexeme kind text) (hsolid : ¬ IsGap text)
    (hdrop : (flatten lines).drop n = text ++ s) (hs : ∀ b ∈ s.head?, isBlank b = true) :
    ∃ b rest, isBlank b = true ∧ line.toList.drop j ++ [endOfLine] = text ++ b :: rest := by
  rw [hlocates.drop_flatten] at hdrop
  have hend : isBlank endOfLine = true := rfl
  have htext : text <+: text ++ s := List.prefix_append _ _
  have hline : line.toList.drop j ++ [endOfLine] <+: text ++ s := hdrop ▸ List.prefix_append _ _
  have hstarts : text <+: line.toList.drop j := by
    refine List.prefix_of_prefix_length_le htext ((List.prefix_append _ _).trans hline) ?_
    by_contra hlonger
    have hover : line.toList.drop j ++ [endOfLine] <+: text := by
      refine List.prefix_of_prefix_length_le hline htext ?_
      rw [List.length_append, List.length_singleton]
      omega
    have hmem := hover.subset (List.mem_append_right _ List.mem_cons_self)
    exact ne_of_isBlank hend (h.isBlank_eq_false hsolid endOfLine hmem) rfl
  obtain ⟨behind, hbehind⟩ := hstarts
  rw [← hbehind, List.append_assoc, List.append_assoc] at hdrop
  obtain rfl := List.append_cancel_left hdrop
  obtain ⟨b, rest, hb⟩ := List.exists_cons_of_ne_nil
    (List.append_ne_nil_of_right_ne_nil behind (List.cons_ne_nil endOfLine []))
  refine ⟨b, rest, hs b ?_, ?_⟩
  · rw [← List.append_assoc, hb]
    rfl
  · rw [← hbehind, List.append_assoc, hb]

/-- From an index on where a text spells lexemes, scanning gives these. -/
theorem Spells.stream {source : Source} (hsource : source.Readable) {n : Nat}
    (h : Spells contents ((flatten source.lines).drop n)) :
    (((start source).consume n).stream (τ := Ty) classifier).map (·.token.content) =
      contents ++ [(.endOfFile, "<EOF>")] := by
  have hlined (n : Nat) : ((start source).consume n).Lined := (Lined.refill _).consume n
  generalize hs : (flatten source.lines).drop n = s at h
  have lt_of_ne_nil {n : Nat} {s : List Char} (hs : (flatten source.lines).drop n = s)
      (hne : s ≠ []) : n < (flatten source.lines).length := by
    by_contra hle
    exact hne (hs ▸ List.drop_eq_nil_iff.2 (Nat.le_of_not_lt hle))
  -- Along the text: what is left of it is what stands behind the index of the cursor.
  induction h generalizing n with
  | nil =>
    have hend := exhausted_consume_start_iff.2 (List.drop_eq_nil_iff.1 hs)
    rw [classifier, tiles.stream_of_exhausted (exhausted_iff.1 hend)]
    rfl
  | @blank contents a s hblank more ih =>
    have hcurrent : ((start source).consume n).current = a := by
      have hget := (consume_indexes source n).current_eq (lt_of_ne_nil hs (List.cons_ne_nil _ _))
      rw [← List.head?_drop, hs] at hget
      exact (Option.some.inj hget).symm
    have hnext : (flatten source.lines).drop (n + 1) = s := by
      rw [← List.drop_drop, hs]
      rfl
    rw [stream_eq_of_skip_eq (hlined n) ((hlined n).consume 1)
      (skip_of_blank (hlined n) (hcurrent ▸ hblank)), ← consume_add]
    exact ih hnext
  | @lexeme contents kind text s hlexeme hsolid apart more ih =>
    obtain ⟨i, line, j, hlocates⟩ :=
      exists_locates (lt_of_ne_nil hs (List.append_ne_nil_of_left_ne_nil hlexeme.ne_nil s))
    obtain ⟨b, rest, hb, hline⟩ := rest_of_lexeme hlocates hlexeme hsolid hs apart
    have hrest := ((consume_indexes source n).rest_eq hlocates).trans hline
    have hnext : (flatten source.lines).drop (n + text.toList.length) = s := by
      rw [← List.drop_drop, hs, List.drop_left]
    rw [stream_of_lexeme (hlined n) ((Sound.start hsource).consume n) hlexeme hsolid hb hrest,
      String.ofList_toList, ← consume_add, ih hnext]
    rfl

/-- What scanning a text gives that spells some lexemes. -/
theorem Spells.tokens {text : String} (h : Spells contents text.toList) :
    ((ofText text).tokens classifier).map Token.content = contents ++ [(.endOfFile, "<EOF>")] := by
  have hreadable := readable_ofText text
  have hstart : (start (ofText text)).acknowledge = (start (ofText text)).consume 0 := by
    rw [acknowledge, ← (Sound.start hreadable).failure_eq, consume_zero]
  have hspells : Spells contents ((flatten (ofText text).lines).drop 0) := by
    rw [lines_ofText, List.drop_zero]
    exact h.relined
  rw [← Source.map_token_stream (τ := Ty), Source.stream, hstart, List.map_map]
  exact hspells.stream hreadable

/-! ## Writing lexemes -/

/-- A lexeme to be written behind a gap. -/
structure Written where
  gap : String
  kind : Kind
  text : String

/-- The text of some lexemes with the gaps before them, and of what stands behind. -/
def write (behind : String) : List Written → String
  | [] => behind
  | w :: more => w.gap ++ w.text ++ write behind more

/-- May the lexemes be written like this?  Between any two there is a gap. -/
structure Writable (ws : List Written) (behind : String) : Prop where
  lexemes : ∀ w ∈ ws, Lexeme w.kind w.text.toList
  /-- No lexeme is a blank character. -/
  solid : ∀ w ∈ ws, ¬ IsGap w.text.toList
  gaps : ∀ w ∈ ws, IsGap w.gap.toList
  apart : ∀ w ∈ ws.tail, w.gap ≠ ""
  behind : IsGap behind.toList

/-- Behind a lexeme that is written there is a gap, or nothing. -/
theorem head?_write {ws : List Written} {behind : String} (hgaps : ∀ w ∈ ws, IsGap w.gap.toList)
    (hapart : ∀ w ∈ ws, w.gap ≠ "") (hbehind : IsGap behind.toList) :
    ∀ a ∈ (write behind ws).toList.head?, isBlank a = true := by
  intro a ha
  apply isBlank_iff.2
  cases ws with
  | nil => exact hbehind a (List.mem_of_head? ha)
  | cons w more =>
    apply hgaps w List.mem_cons_self a
    have hne : w.gap.toList ≠ [] := mt String.toList_eq_nil_iff.1 (hapart w List.mem_cons_self)
    rw [write, String.toList_append, String.toList_append, List.append_assoc,
      List.head?_append_of_ne_nil _ hne] at ha
    exact List.mem_of_head? ha

/-- What is written spells what was to be written. -/
theorem Writable.spells {ws : List Written} {behind : String} (h : Writable ws behind) :
    Spells (ws.map fun w => (w.kind, w.text)) (write behind ws).toList := by
  induction ws with
  | nil =>
    have hnil := Spells.nil.append_gap h.behind
    rwa [List.append_nil] at hnil
  | cons w more ih =>
    have hmore : Writable more behind :=
      ⟨fun v hv => h.lexemes v (List.mem_cons_of_mem _ hv),
        fun v hv => h.solid v (List.mem_cons_of_mem _ hv),
        fun v hv => h.gaps v (List.mem_cons_of_mem _ hv),
        fun v hv => h.apart v (List.mem_of_mem_tail hv), h.behind⟩
    rw [write, String.toList_append, String.toList_append, List.append_assoc]
    apply Spells.append_gap _ (h.gaps w List.mem_cons_self)
    exact .lexeme (h.lexemes w List.mem_cons_self) (h.solid w List.mem_cons_self)
      (head?_write hmore.gaps h.apart h.behind) (ih hmore)

/-! ## Writing what was scanned -/

/-- A token is the end of the source, or a lexeme that is not blank. -/
def Meaningful (t : Token Kind) : Prop :=
  t.content = (.endOfFile, "<EOF>") ∨ Lexeme t.kind t.text.toList ∧ ¬ IsGap t.text.toList

/-- A token before the end is a lexeme, and no gap. -/
theorem Meaningful.lexeme {t : Token Kind} (h : Meaningful t) (hend : t.isEnd = false) :
    Lexeme t.kind t.text.toList ∧ ¬ IsGap t.text.toList := by
  refine h.resolve_left fun hcontent => ?_
  have hkind : t.kind = .endOfFile := congrArg Prod.fst hcontent
  rw [Token.isEnd_eq_true.2 hkind] at hend
  nomatch hend

/-- A token that ends the source has its fixed text. -/
theorem Meaningful.content_eq {t : Token Kind} (h : Meaningful t) (hend : t.isEnd = true) :
    t.content = (.endOfFile, "<EOF>") :=
  h.resolve_right fun ⟨hlexeme, _⟩ => hlexeme.ordinary (Token.isEnd_eq_true.1 hend)

/-- What is read as a token is a lexeme that is no gap, or the end. -/
theorem meaningful_advance (hlined : c.Lined) : Meaningful (c.advance classifier).1 := by
  have hread : c.advance classifier = lexicon.read (c.skip lexicon.blank) :=
    tiles.advance_eq hlined
  have hskips := skipsTrivia_skip hlined
  rw [hread]
  by_cases hrest : (c.skip lexicon.blank).rest = []
  · rw [Lexicon.read_of_rest_nil _ hrest]
    exact .inl rfl
  · obtain ⟨kind, text, behind, _, hline, hlongest, -, -, hread⟩ :=
      read_longest (hskips.lined hlined) hrest hskips.stops.1
    rw [hread]
    refine .inr ?_
    rw [String.toList_ofList]
    refine ⟨hlongest.lexeme, not_isGap_of_head? ?_ hskips.stops.1⟩
    obtain ⟨a, more, rfl⟩ := List.exists_cons_of_ne_nil hlongest.lexeme.ne_nil
    rw [current, hline]
    rfl

/-- Whatever is scanned, its tokens are lexemes up to the one that ends it. -/
theorem meaningful_of_mem_stream (hlined : c.Lined) {scanned : Scanned Kind Ty}
    (hmem : scanned ∈ c.stream classifier) : Meaningful scanned.token := by
  unfold Cursor.stream at hmem
  generalize c.remaining + 1 = n at hmem
  induction n generalizing c with
  | zero => nomatch hmem
  | succ n ih =>
    have hhead : Meaningful (c.scan (τ := Ty) classifier).1.token := meaningful_advance hlined
    rw [Cursor.scanUpTo] at hmem
    split at hmem
    · rw [List.mem_singleton.1 hmem]
      exact hhead
    · rcases List.mem_cons.1 hmem with rfl | hmem
      · exact hhead
      · obtain ⟨k, hk⟩ := c.advance_eq_consume classifier
        have hnext : (c.scan (τ := Ty) classifier).2.Lined := by
          show (c.advance classifier).2.Lined
          rw [hk]
          exact hlined.consume k
        exact ih hnext hmem

/-- Lexemes with single blanks between them are spelled by the text. -/
theorem spells_intercalate {tokens : List (Token Kind)}
    (h : ∀ t ∈ tokens, Lexeme t.kind t.text.toList ∧ ¬ IsGap t.text.toList) :
    Spells (tokens.map Token.content) (" ".intercalate (tokens.map (·.text))).toList := by
  induction tokens with
  | nil => exact .nil
  | cons t more ih =>
    obtain ⟨hlexeme, hsolid⟩ := h t List.mem_cons_self
    have hmore := ih fun u hu => h u (List.mem_cons_of_mem _ hu)
    cases more with
    | nil =>
      have hlast := Spells.lexeme hlexeme hsolid (s := []) (fun _ ha => nomatch ha) .nil
      rwa [List.append_nil] at hlast
    | cons u more =>
      have htext : " ".intercalate ((t :: u :: more).map (·.text)) =
          t.text ++ " " ++ " ".intercalate ((u :: more).map (·.text)) :=
        String.intercalate_cons_cons
      rw [htext, String.toList_append, String.toList_append, List.append_assoc]
      exact .lexeme hlexeme hsolid (fun a ha => (Option.some.inj ha) ▸ rfl) (.blank rfl hmore)

/-- Draining a scanner on a text that spells some lexemes gives these, and records the invalid ones
among them. -/
theorem Spells.drain {text : String} (h : Spells contents text.toList)
    (sink : List (Diagnostic Kind Ty)) :
    ∃ tokens eof after, Scanner.drain classifier (.init (.ofText text) sink) =
        (tokens ++ [eof], after) ∧
      tokens.map Token.content = contents ∧ eof.content = (.endOfFile, "<EOF>") ∧
      after.sink? = some (sink ++ (tokens.filter (·.kind.isInvalid)).map .lexical) := by
  obtain ⟨tokens, eof, htokens, hend, -⟩ := (ofText text).tokens_eq_append classifier
  have hcontent := h.tokens
  rw [htokens, List.map_append] at hcontent
  obtain ⟨hcontents, heof⟩ := List.append_inj' hcontent rfl
  have hsink := Scanner.sink_drain_of_readable (readable_ofText text) classifier sink
  have hvalid : eof.kind.isInvalid = false := by
    rw [Token.isEnd_eq_true.1 hend]
    rfl
  have hlast : [eof].filter (·.kind.isInvalid) = [] := by simp [hvalid]
  have hinvalid : (tokens ++ [eof]).filter (·.kind.isInvalid) =
      tokens.filter (·.kind.isInvalid) := by
    rw [List.filter_append, hlast, List.append_nil]
  have hdrain := Scanner.tokens_drain classifier (ofText text) sink
  rw [htokens] at hdrain hsink
  generalize Scanner.drain classifier (.init (ofText text) sink) = drained at hdrain hsink ⊢
  obtain ⟨drained, after⟩ := drained
  obtain rfl : drained = tokens ++ [eof] := hdrain
  refine ⟨tokens, eof, after, rfl, hcontents, (List.cons.inj heof).1, hsink.trans ?_⟩
  rw [← hinvalid]
  rfl

/-- **Lexemes that are written are read back.**  Written in a row with blanks between them, lexemes
are what scanning gives, and each invalid one is recorded once.  So the lexemes of any source may be
written anew, with single blanks between them. -/
theorem written_round_trip :
    (∀ (ws : List Written) (behind : String), Writable ws behind →
      ∀ sink : List (Diagnostic Kind Ty), ∃ tokens eof after,
        Scanner.drain classifier (.init (.ofText (write behind ws)) sink) =
            (tokens ++ [eof], after) ∧
          tokens.map Token.content = ws.map (fun w => (w.kind, w.text)) ∧
          eof.content = (.endOfFile, "<EOF>") ∧
          after.sink? = some (sink ++ (tokens.filter (·.kind.isInvalid)).map .lexical)) ∧
    ∀ (source : Source) (sink sink' : List (Diagnostic Kind Ty)), ∃ tokens eof,
      (Scanner.drain classifier (.init source sink)).1 = tokens ++ [eof] ∧ eof.isEnd = true ∧
        (Scanner.drain classifier
            (.init (.ofText (" ".intercalate (tokens.map (·.text)))) sink')).1.map Token.content =
          (tokens ++ [eof]).map Token.content := by
  refine ⟨fun ws behind h sink => h.spells.drain sink, fun source sink sink' => ?_⟩
  obtain ⟨before, last, hstream, hend, hbefore⟩ :=
    stream_eq_append (τ := Ty) classifier (start source).acknowledge
  have hmeaning : ∀ scanned ∈ before ++ [last], Meaningful scanned.token := by
    intro scanned hmem
    rw [← hstream] at hmem
    exact meaningful_of_mem_stream (c := (start source).acknowledge) (Lined.refill _) hmem
  have hlexemes : ∀ t ∈ before.map Scanned.token,
      Lexeme t.kind t.text.toList ∧ ¬ IsGap t.text.toList := by
    intro t ht
    obtain ⟨scanned, hmem, rfl⟩ := List.mem_map.1 ht
    exact (hmeaning scanned (List.mem_append_left _ hmem)).lexeme (hbefore scanned hmem)
  have hlast : last.token.content = (.endOfFile, "<EOF>") :=
    (hmeaning last (List.mem_append_right _ List.mem_cons_self)).content_eq hend
  refine ⟨before.map Scanned.token, last.token, ?_, hend, ?_⟩
  · rw [Scanner.tokens_drain, ← Source.map_token_stream (τ := Ty), Source.stream, hstream,
      List.map_append]
    rfl
  · rw [Scanner.tokens_drain, (spells_intercalate hlexemes).tokens, List.map_append,
      List.map_singleton, hlast]

/-- A malformed number and a point on its own, with the end of a line between them. -/
theorem round_trip_malformed_number :
    Writable [⟨" ", .invalidToken, "7."⟩, ⟨"\r\n", .invalidChar, "."⟩] "" ∧
      ∃ tokens eof after,
        Scanner.drain (τ := Ty) classifier (.init (.ofText " 7.\r\n.") []) =
            (tokens ++ [eof], after) ∧
          tokens.map Token.content = [(.invalidToken, "7."), (.invalidChar, ".")] ∧
          after.sink? = some (tokens.map .lexical) := by
  have hwritable : Writable [⟨" ", .invalidToken, "7."⟩, ⟨"\r\n", .invalidChar, "."⟩] "" := by
    refine ⟨?_, by decide, by decide, by decide, by decide⟩
    intro w hw
    rcases List.mem_pair.1 hw with rfl | rfl
    · have hseven : AreDigits ['7'] := by decide
      exact .malformed hseven
    · exact .stray (by decide) (by decide) (by decide)
  obtain ⟨tokens, eof, after, hdrain, hcontents, -, hsink⟩ :=
    written_round_trip.1 _ _ hwritable []
  have htext : write "" [⟨" ", .invalidToken, "7."⟩, ⟨"\r\n", .invalidChar, "."⟩] =
      " 7.\r\n." := by decide
  rw [htext] at hdrain
  refine ⟨hwritable, tokens, eof, after, hdrain, hcontents, ?_⟩
  have hinvalid : ∀ t ∈ tokens, t.kind.isInvalid = true := by
    intro t ht
    have hmem := List.mem_map_of_mem (f := Token.content) ht
    rw [hcontents] at hmem
    have hkinds : ∀ content ∈ [(Kind.invalidToken, "7."), (.invalidChar, ".")],
        content.1.isInvalid = true := by decide
    exact hkinds _ hmem
  rw [hsink, List.filter_eq_self.2 hinvalid, List.nil_append]

end Simple

end SinglePass
