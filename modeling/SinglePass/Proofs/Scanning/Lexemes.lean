import Mathlib.Data.List.TakeWhile
import SinglePass.Proofs.Scanning.Lossless

/-!
# The lexemes of Simple

What the tokens of Simple look like, apart from how they are found: a `Lexeme` is a word, a number,
an operator, or a single character that is none of these, and its form says its kind.

The lexeme that is found at the beginning of a text is the longest one that stands there
(`lexeme_longest`).  No text has two kinds (`Lexeme.kind_eq`), so there is no second one of that
length.
-/

namespace SinglePass.Simple

/-! ## Characters -/

/-- Is the character an ASCII letter? -/
def IsLetter (c : Char) : Prop := 'A' ≤ c ∧ c ≤ 'Z' ∨ 'a' ≤ c ∧ c ≤ 'z'

/-- Is the character an ASCII digit? -/
def IsDigit (c : Char) : Prop := '0' ≤ c ∧ c ≤ '9'

instance (c : Char) : Decidable (IsLetter c) := inferInstanceAs (Decidable (_ ∨ _))

instance (c : Char) : Decidable (IsDigit c) := inferInstanceAs (Decidable (_ ∧ _))

/-- Letters are what the library takes for letters. -/
theorem isAlpha_iff {c : Char} : c.isAlpha = true ↔ IsLetter c := by
  show (c.isUpper || c.isLower) = true ↔ _
  rw [Bool.or_eq_true]
  refine or_congr decide_eq_true_iff ?_
  show (decide ('a' ≤ c) && decide (c ≤ 'z')) = true ↔ _
  rw [Bool.and_eq_true]
  exact and_congr decide_eq_true_iff decide_eq_true_iff

/-- Digits are what the library takes for digits. -/
theorem isDigit_iff {c : Char} : c.isDigit = true ↔ IsDigit c := by
  show (decide ('0' ≤ c) && decide (c ≤ '9')) = true ↔ _
  rw [Bool.and_eq_true]
  exact and_congr decide_eq_true_iff decide_eq_true_iff

/-- Letters and digits are what the library takes for either. -/
theorem isAlphanum_iff {c : Char} : c.isAlphanum = true ↔ IsLetter c ∨ IsDigit c := by
  show (c.isAlpha || c.isDigit) = true ↔ _
  rw [Bool.or_eq_true, isAlpha_iff, isDigit_iff]

/-- No digit is a letter. -/
theorem IsDigit.not_isLetter {c : Char} (h : IsDigit c) : ¬ IsLetter c := by
  have hnine : ('9' : Char).val.toNat = 57 := rfl
  have hupper : ('A' : Char).val.toNat = 65 := rfl
  have hlower : ('a' : Char).val.toNat = 97 := rfl
  simp only [IsDigit, IsLetter, Char.le_def, UInt32.le_iff_toNat_le] at h ⊢
  omega

/-! ## Lexemes -/

/-- Digits, and at least one of them. -/
def AreDigits (text : List Char) : Prop := text ≠ [] ∧ ∀ c ∈ text, IsDigit c

instance (text : List Char) : Decidable (AreDigits text) :=
  decidable_of_iff (text ≠ [] ∧ text.all Char.isDigit = true) (by
    simp only [AreDigits, List.all_eq_true, isDigit_iff])

/-- The operators.  An operator that begins with another one stands before it. -/
def operators : List Kind :=
  [.equal, .notEqual, .lessEqual, .greaterEqual, .less, .greater, .assign, .comma, .colon,
    .leftBracket, .rightBracket, .leftParen, .rightParen, .plus, .minus, .star, .slash]

/-- The texts of tokens, with their kinds. -/
inductive Lexeme : Kind → List Char → Prop
  /-- A keyword is a word with the spelling of the keyword. -/
  | keyword {kind : Kind} (mem : kind ∈ Kind.keywords) : Lexeme kind kind.spelling.toList
  /-- Any other word is an identifier. -/
  | ident {first : Char} {rest : List Char} (letter : IsLetter first)
      (others : ∀ c ∈ rest, IsLetter c ∨ IsDigit c)
      (ordinary : ∀ kind ∈ Kind.keywords, kind.spelling.toList ≠ first :: rest) :
      Lexeme .ident (first :: rest)
  | integer {whole : List Char} (digits : AreDigits whole) : Lexeme .intLiteral whole
  | real {whole fraction : List Char} (digits : AreDigits whole) (others : AreDigits fraction) :
      Lexeme .realLiteral (whole ++ '.' :: fraction)
  /-- A number must not end in its point. -/
  | malformed {whole : List Char} (digits : AreDigits whole) :
      Lexeme .invalidToken (whole ++ ['.'])
  | operator {kind : Kind} (mem : kind ∈ operators) : Lexeme kind kind.spelling.toList
  /-- A character that begins nothing else. -/
  | stray {c : Char} (no_letter : ¬ IsLetter c) (no_digit : ¬ IsDigit c)
      (no_operator : ∀ kind ∈ operators, kind.spelling.toList ≠ [c]) : Lexeme .invalidChar [c]

/-- The longest lexeme at the beginning of a text. -/
structure Longest (cs : List Char) (kind : Kind) (text : List Char) : Prop where
  lexeme : Lexeme kind text
  starts : text <+: cs
  longest : ∀ {kind' text'}, Lexeme kind' text' → text' <+: cs → text'.length ≤ text.length

/-! ## What a lexeme begins with -/

section

variable {kind : Kind} {c : Char} {text rest : List Char}

/-- The characters that operators begin with. -/
def operatorStarts : List Char :=
  ['<', '>', '=', ',', ':', '[', ']', '(', ')', '+', '-', '*', '/']

/-- What is true of the first characters of some spellings is true of each. -/
theorem head_of_spelling {kinds : List Kind} {p : Char → Bool}
    (h : ∀ kind ∈ kinds, kind.spelling.toList.head?.all p = true) (mem : kind ∈ kinds)
    (hhead : kind.spelling.toList.head? = some c) : p c = true := by
  have hall := h kind mem
  rwa [hhead] at hall

/-- Digits begin with a digit. -/
theorem AreDigits.head {whole : List Char} (h : AreDigits whole) (hstarts : whole <+: text)
    (hhead : text.head? = some c) : IsDigit c := by
  obtain ⟨d, rest, rfl⟩ := List.exists_cons_of_ne_nil h.1
  obtain ⟨more, rfl⟩ := hstarts
  obtain rfl : d = c := by simpa using hhead
  exact h.2 d List.mem_cons_self

/-- A lexeme has a character. -/
theorem Lexeme.ne_nil (h : Lexeme kind text) : text ≠ [] := by
  have hkeywords : ∀ kind ∈ Kind.keywords, kind.spelling.toList ≠ [] := by decide
  have hoperators : ∀ kind ∈ operators, kind.spelling.toList ≠ [] := by decide
  cases h with
  | keyword mem => exact hkeywords kind mem
  | ident => exact List.cons_ne_nil _ _
  | integer digits => exact digits.1
  | real => simp
  | malformed => simp
  | operator mem => exact hoperators kind mem
  | stray => exact List.cons_ne_nil _ _

/-- A lexeme that a text starts with begins as this does. -/
theorem Lexeme.head?_eq (h : Lexeme kind text) (hstarts : text <+: c :: rest) :
    text.head? = some c := by
  obtain ⟨d, more, rfl⟩ := List.exists_cons_of_ne_nil h.ne_nil
  rw [List.head?_cons, (List.cons_prefix_cons.1 hstarts).1]

/-- A lexeme that begins with a letter is a word. -/
theorem Lexeme.word_of_letter (h : Lexeme kind text) (hhead : text.head? = some c)
    (hc : IsLetter c) : ∀ d ∈ text, IsLetter d ∨ IsDigit d := by
  cases h with
  | keyword mem =>
    have hwords : ∀ kind ∈ Kind.keywords, kind.spelling.toList.all Char.isAlphanum = true := by
      decide
    exact fun d hd => isAlphanum_iff.1 (List.all_eq_true.1 (hwords kind mem) d hd)
  | ident letter others =>
    intro d hd
    rcases List.mem_cons.1 hd with rfl | hd
    · exact .inl letter
    · exact others d hd
  | integer digits => exact absurd hc (digits.head (List.prefix_refl _) hhead).not_isLetter
  | real digits => exact absurd hc (digits.head (List.prefix_append _ _) hhead).not_isLetter
  | malformed digits => exact absurd hc (digits.head (List.prefix_append _ _) hhead).not_isLetter
  | operator mem =>
    have hother := head_of_spelling (p := fun d => !d.isAlpha) (by decide) mem hhead
    exact absurd (isAlpha_iff.2 hc) (by simpa using hother)
  | stray no_letter =>
    obtain rfl := Option.some.inj hhead
    exact absurd hc no_letter

/-- A lexeme that begins with a digit is a number, with or without a point. -/
theorem Lexeme.number_of_digit (h : Lexeme kind text) (hhead : text.head? = some c)
    (hc : IsDigit c) : ∃ whole, AreDigits whole ∧ (text = whole ∨
      ∃ fraction, (∀ d ∈ fraction, IsDigit d) ∧ text = whole ++ '.' :: fraction) := by
  cases h with
  | keyword mem =>
    have hother := head_of_spelling (p := fun d => !d.isDigit) (by decide) mem hhead
    exact absurd (isDigit_iff.2 hc) (by simpa using hother)
  | ident letter =>
    obtain rfl := Option.some.inj hhead
    exact absurd letter hc.not_isLetter
  | integer digits => exact ⟨_, digits, .inl rfl⟩
  | real digits others => exact ⟨_, digits, .inr ⟨_, others.2, rfl⟩⟩
  | malformed digits => exact ⟨_, digits, .inr ⟨[], by simp, rfl⟩⟩
  | operator mem =>
    have hother := head_of_spelling (p := fun d => !d.isDigit) (by decide) mem hhead
    exact absurd (isDigit_iff.2 hc) (by simpa using hother)
  | stray _ no_digit =>
    obtain rfl := Option.some.inj hhead
    exact absurd hc no_digit

/-- Any other lexeme is an operator, or a single character that begins none. -/
theorem Lexeme.operator_of_other (h : Lexeme kind text) (hhead : text.head? = some c)
    (hletter : ¬ IsLetter c) (hdigit : ¬ IsDigit c) :
    (kind ∈ operators ∧ text = kind.spelling.toList) ∨ text = [c] := by
  cases h with
  | keyword mem =>
    exact absurd (isAlpha_iff.1 (head_of_spelling (by decide) mem hhead)) hletter
  | ident letter =>
    obtain rfl := Option.some.inj hhead
    exact absurd letter hletter
  | integer digits => exact absurd (digits.head (List.prefix_refl _) hhead) hdigit
  | real digits => exact absurd (digits.head (List.prefix_append _ _) hhead) hdigit
  | malformed digits => exact absurd (digits.head (List.prefix_append _ _) hhead) hdigit
  | operator mem => exact .inl ⟨mem, rfl⟩
  | stray =>
    obtain rfl := Option.some.inj hhead
    exact .inr rfl

end

/-! ## Words -/

section

variable {kind : Kind} {c : Char} {text rest whole fraction after cs : List Char}

/-- The word at the beginning of a text is the longest lexeme there. -/
theorem word_longest (hc : IsLetter c) :
    ∃ kind text, word (c :: rest) = (kind, text.length) ∧ Longest (c :: rest) kind text := by
  have htext : (c :: rest).takeWhile Char.isAlphanum = c :: rest.takeWhile Char.isAlphanum :=
    List.takeWhile_cons_of_pos (isAlphanum_iff.2 (.inl hc))
  refine ⟨_, (c :: rest).takeWhile Char.isAlphanum, rfl, ?_, List.takeWhile_prefix _, ?_⟩
  · cases hkeyword : Kind.keyword? (String.ofList ((c :: rest).takeWhile Char.isAlphanum)) with
    | none =>
      rw [Option.getD_none, htext]
      refine .ident hc (fun d hd => isAlphanum_iff.1 (List.mem_takeWhile_imp hd)) ?_
      intro kind hkind hspelling
      have hne := List.find?_eq_none.1 hkeyword kind hkind
      rw [htext, ← hspelling, String.ofList_toList] at hne
      exact hne (decide_eq_true rfl)
    | some kind =>
      have hspelling : kind.spelling = String.ofList ((c :: rest).takeWhile Char.isAlphanum) := by
        simpa using List.find?_some hkeyword
      rw [Option.getD_some, ← String.toList_ofList (l := (c :: rest).takeWhile _), ← hspelling]
      exact .keyword (List.mem_of_find?_eq_some hkeyword)
  · intro kind' text' h hstarts
    have hword := h.word_of_letter (h.head?_eq hstarts) hc
    obtain ⟨more, hmore⟩ := hstarts
    rw [← hmore, List.takeWhile_append_of_pos fun d hd => isAlphanum_iff.2 (hword d hd),
      List.length_append]
    exact Nat.le_add_right _ _

/-! ## Numbers -/

/-- Digits in front count. -/
theorem digits_append (h : ∀ d ∈ whole, IsDigit d) :
    digits (whole ++ rest) = whole.length + digits rest := by
  rw [digits, List.takeWhile_append_of_pos fun d hd => isDigit_iff.2 (h d hd), List.length_append,
    digits]

/-- A number with a point goes on for as long as there are digits behind it. -/
theorem number_of_point (h : ∀ d ∈ whole, IsDigit d) :
    number (whole ++ '.' :: after) =
      if digits after = 0 then (.invalidToken, whole.length + 1)
      else (.realLiteral, whole.length + 1 + digits after) := by
  have hdigits : digits (whole ++ '.' :: after) = whole.length := digits_append h
  have hrest : (whole ++ '.' :: after).dropWhile Char.isDigit = '.' :: after :=
    List.dropWhile_append_of_pos fun d hd => isDigit_iff.2 (h d hd)
  simp only [number, hrest, hdigits]

/-- A number without a point consists of its digits. -/
theorem number_of_no_point (h : (cs.dropWhile Char.isDigit).head? ≠ some '.') :
    number cs = (.intLiteral, digits cs) := by
  unfold number
  split
  · next after hrest =>
    rw [hrest] at h
    exact absurd rfl h
  · rfl

/-- A number is at least as long as its digits. -/
theorem digits_le_number (cs : List Char) : digits cs ≤ (number cs).2 := by
  unfold number
  split
  · split <;> simp only <;> omega
  · exact Nat.le_refl _

/-- A lexeme that begins with a digit is no longer than the number that is read. -/
theorem Lexeme.length_le_number (h : Lexeme kind text) (hhead : text.head? = some c)
    (hc : IsDigit c) (more : List Char) : text.length ≤ (number (text ++ more)).2 := by
  rcases h.number_of_digit hhead hc with ⟨whole, hwhole, rfl | ⟨fraction, hfraction, rfl⟩⟩
  · have hdigits : digits (text ++ more) = _ := digits_append hwhole.2
    have hle := digits_le_number (text ++ more)
    omega
  · have hdigits : digits (fraction ++ more) = _ := digits_append hfraction
    rw [List.append_assoc, List.cons_append, number_of_point hwhole.2, List.length_append,
      List.length_cons]
    split <;> simp only <;> omega

/-- The number at the beginning of a text is the longest lexeme there. -/
theorem number_longest (hc : IsDigit c) :
    ∃ kind text, number (c :: rest) = (kind, text.length) ∧ Longest (c :: rest) kind text := by
  have hlongest : ∀ {kind text}, Lexeme kind text → text <+: c :: rest →
      text.length ≤ (number (c :: rest)).2 := by
    rintro kind text h hstarts
    have hhead := h.head?_eq hstarts
    obtain ⟨more, hmore⟩ := hstarts
    rw [← hmore]
    exact h.length_le_number hhead hc more
  have hsplit := List.takeWhile_append_dropWhile (p := Char.isDigit) (l := c :: rest)
  have hwhole : AreDigits ((c :: rest).takeWhile Char.isDigit) := by
    refine ⟨?_, fun d hd => isDigit_iff.1 (List.mem_takeWhile_imp hd)⟩
    rw [List.takeWhile_cons_of_pos (isDigit_iff.2 hc)]
    exact List.cons_ne_nil _ _
  -- The point decides: there is none, or one with a fraction behind it, or one without.
  by_cases hpoint : ((c :: rest).dropWhile Char.isDigit).head? = some '.'
  · obtain ⟨after, hafter⟩ := List.head?_eq_some_iff.1 hpoint
    rw [hafter] at hsplit
    generalize (c :: rest).takeWhile Char.isDigit = whole at hsplit hwhole
    rw [← hsplit, number_of_point hwhole.2] at hlongest ⊢
    by_cases hzero : digits after = 0
    · rw [if_pos hzero] at hlongest ⊢
      refine ⟨_, whole ++ ['.'], by rw [List.length_append]; rfl, .malformed hwhole, ?_, ?_⟩
      · exact ⟨after, by simp⟩
      · rw [List.length_append]
        exact hlongest
    · rw [if_neg hzero] at hlongest ⊢
      have hfraction : AreDigits (after.takeWhile Char.isDigit) :=
        ⟨fun hnil => hzero (by rw [digits, hnil]; rfl),
          fun d hd => isDigit_iff.1 (List.mem_takeWhile_imp hd)⟩
      have hlength : (whole ++ '.' :: after.takeWhile Char.isDigit).length =
          whole.length + 1 + digits after := by
        rw [List.length_append, List.length_cons, digits]
        omega
      refine ⟨_, whole ++ '.' :: after.takeWhile Char.isDigit, by rw [hlength],
        .real hwhole hfraction, ?_, ?_⟩
      · exact List.prefix_append_right_inj _ |>.2 (List.cons_prefix_cons.2
          ⟨rfl, List.takeWhile_prefix _⟩)
      · rw [hlength]
        exact hlongest
  · rw [number_of_no_point hpoint] at hlongest ⊢
    exact ⟨_, _, rfl, .integer hwhole, List.takeWhile_prefix _, hlongest⟩

/-! ## Operators -/

/-- An operator is no longer than the operator that is read. -/
theorem length_le_operator (h : kind ∈ operators) (more : List Char) :
    kind.spelling.toList.length ≤ (operator (kind.spelling.toList ++ more)).2 := by
  have hshort : ∀ kind ∈ operators, kind.spelling.toList.length = 1 ∨
      kind ∈ [Kind.equal, .notEqual, .lessEqual, .greaterEqual] := by decide
  rcases hshort kind h with hone | hlong
  · rw [hone]
    exact (operator_length _).1
  · simp only [List.mem_cons, List.not_mem_nil, or_false] at hlong
    rcases hlong with rfl | rfl | rfl | rfl <;> exact Nat.le_refl 2

/-- A text begins with an operator, or with a character that begins none. -/
theorem operator_cases (cs : List Char) :
    (∃ kind ∈ operators, operator cs = (kind, kind.spelling.toList.length) ∧
        kind.spelling.toList <+: cs) ∨
      operator cs = (.invalidChar, 1) ∧ ∀ c ∈ cs.head?, c ∉ operatorStarts := by
  fun_cases operator cs
  case case18 _ _ less _ greater _ assign comma colon left right opens closes plus minus star
    slash =>
    refine .inr ⟨rfl, fun c hc hstart => ?_⟩
    obtain ⟨rest, rfl⟩ := List.head?_eq_some_iff.1 hc
    simp only [operatorStarts, List.mem_cons, List.not_mem_nil, or_false] at hstart
    rcases hstart with
      rfl | rfl | rfl | rfl | rfl | rfl | rfl | rfl | rfl | rfl | rfl | rfl | rfl
    exacts [less rest rfl, greater rest rfl, assign rest rfl, comma rest rfl, colon rest rfl,
      left rest rfl, right rest rfl, opens rest rfl, closes rest rfl, plus rest rfl,
      minus rest rfl, star rest rfl, slash rest rfl]
  all_goals
    refine .inl ⟨_, ?_, rfl, _, rfl⟩
    decide

/-- Operators begin with certain characters. -/
theorem head_mem_operatorStarts (h : kind ∈ operators)
    (hhead : kind.spelling.toList.head? = some c) : c ∈ operatorStarts :=
  List.contains_iff_mem.1 (head_of_spelling (by decide) h hhead)

/-- The operator or the single character at the beginning of a text is the longest lexeme there. -/
theorem operator_longest (hletter : ¬ IsLetter c) (hdigit : ¬ IsDigit c) :
    ∃ kind text, operator (c :: rest) = (kind, text.length) ∧ Longest (c :: rest) kind text := by
  rcases operator_cases (c :: rest) with ⟨kind, hkind, hoperator, hstarts⟩ | ⟨hoperator, hstart⟩
  · refine ⟨kind, _, hoperator, .operator hkind, hstarts, ?_⟩
    intro kind' text' h hstarts'
    rcases h.operator_of_other (h.head?_eq hstarts') hletter hdigit with ⟨hkind', rfl⟩ | rfl
    · obtain ⟨more, hmore⟩ := hstarts'
      have hle := length_le_operator hkind' more
      rwa [hmore, hoperator] at hle
    · exact List.length_pos_iff.2 (Lexeme.operator hkind).ne_nil
  · have hstray : ∀ kind ∈ operators, kind.spelling.toList.head? ≠ some c := fun kind hkind hhead =>
      hstart c rfl (head_mem_operatorStarts hkind hhead)
    refine ⟨_, [c], hoperator, .stray hletter hdigit ?_, ⟨rest, rfl⟩, ?_⟩
    · intro kind hkind hspelling
      exact hstray kind hkind (by rw [hspelling]; rfl)
    · intro kind' text' h hstarts'
      have hhead := h.head?_eq hstarts'
      rcases h.operator_of_other hhead hletter hdigit with ⟨hkind', rfl⟩ | rfl
      · exact absurd hhead (hstray kind' hkind')
      · exact Nat.le_refl _

/-! ## All lexemes -/

/-- The lexeme that is found at the beginning of a text is the longest one there. -/
theorem lexeme_longest (h : cs ≠ []) :
    ∃ kind text, lexeme cs = (kind, text.length) ∧ Longest cs kind text := by
  obtain ⟨c, rest, rfl⟩ := List.exists_cons_of_ne_nil h
  by_cases hletter : IsLetter c
  · rw [lexeme_cons, if_pos (isAlpha_iff.2 hletter)]
    exact word_longest hletter
  · rw [lexeme_cons, if_neg (mt isAlpha_iff.1 hletter)]
    by_cases hdigit : IsDigit c
    · rw [if_pos (isDigit_iff.2 hdigit)]
      exact number_longest hdigit
    · rw [if_neg (mt isDigit_iff.1 hdigit)]
      exact operator_longest hletter hdigit

/-- Where digits come first, a number is read. -/
theorem lexeme_of_digits (h : AreDigits whole) (hstarts : whole <+: cs) :
    lexeme cs = number cs := by
  obtain ⟨more, rfl⟩ := hstarts
  obtain ⟨d, others, rfl⟩ := List.exists_cons_of_ne_nil h.1
  have hd : IsDigit d := h.2 d List.mem_cons_self
  rw [List.cons_append, lexeme_cons, if_neg (mt isAlpha_iff.1 hd.not_isLetter),
    if_pos (isDigit_iff.2 hd)]

/-- The kind that is found for a lexeme is its own. -/
theorem Lexeme.kind_eq (h : Lexeme kind text) : (lexeme text).1 = kind := by
  have hkeywords : ∀ kind ∈ Kind.keywords, (lexeme kind.spelling.toList).1 = kind := by decide
  have hoperators : ∀ kind ∈ operators, (lexeme kind.spelling.toList).1 = kind := by decide
  cases h with
  | keyword mem => exact hkeywords kind mem
  | @ident first others letter hothers ordinary =>
    have hword : (first :: others).takeWhile Char.isAlphanum = first :: others := by
      refine List.takeWhile_eq_self_iff.2 fun d hd => isAlphanum_iff.2 ?_
      rcases List.mem_cons.1 hd with rfl | hd
      · exact .inl letter
      · exact hothers d hd
    have hkeyword : Kind.keyword? (String.ofList (first :: others)) = none := by
      refine List.find?_eq_none.2 fun kind hkind hspelling => ordinary kind hkind ?_
      rw [of_decide_eq_true hspelling, String.toList_ofList]
    rw [lexeme_cons, if_pos (isAlpha_iff.2 letter), word, hword, hkeyword, Option.getD_none]
  | integer digits =>
    rw [lexeme_of_digits digits (List.prefix_refl _), number_of_no_point]
    rw [List.dropWhile_eq_nil_iff.2 fun d hd => isDigit_iff.2 (digits.2 d hd)]
    simp
  | @real whole fraction digits others =>
    rw [lexeme_of_digits digits (List.prefix_append _ _), number_of_point digits.2, if_neg]
    rw [← List.append_nil fraction, digits_append others.2]
    have hpos := List.length_pos_iff.2 others.1
    omega
  | malformed digits =>
    rw [lexeme_of_digits digits (List.prefix_append _ _), number_of_point digits.2]
    rfl
  | operator mem => exact hoperators kind mem
  | stray no_letter no_digit no_operator =>
    rw [lexeme_cons, if_neg (mt isAlpha_iff.1 no_letter), if_neg (mt isDigit_iff.1 no_digit)]
    rcases operator_cases [_] with ⟨kind, hkind, -, hstarts⟩ | ⟨hoperator, -⟩
    · have hnil := (Lexeme.operator hkind).ne_nil
      refine absurd (List.IsPrefix.eq_of_length hstarts ?_) (no_operator kind hkind)
      exact Nat.le_antisymm hstarts.length_le (List.length_pos_iff.2 hnil)
    · rw [hoperator]

/-- No text is a lexeme of two kinds. -/
theorem Lexeme.unique {kind' : Kind} (h : Lexeme kind text) (h' : Lexeme kind' text) :
    kind = kind' :=
  h.kind_eq.symm.trans h'.kind_eq

/-- There is only one longest lexeme. -/
theorem Longest.unique {kind' : Kind} {text' : List Char} (h : Longest cs kind text)
    (h' : Longest cs kind' text') : kind = kind' ∧ text = text' := by
  have hlength := Nat.le_antisymm (h'.longest h.lexeme h.starts) (h.longest h'.lexeme h'.starts)
  have htext : text = text' := by
    rw [List.prefix_iff_eq_take.1 h.starts, List.prefix_iff_eq_take.1 h'.starts, hlength]
  subst htext
  exact ⟨h.lexeme.unique h'.lexeme, rfl⟩

end

end SinglePass.Simple
