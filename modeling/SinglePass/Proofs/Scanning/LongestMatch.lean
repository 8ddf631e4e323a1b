import SinglePass.Proofs.Scanning.Lexemes

/-!
# Simple reads the longest lexeme

At any cursor that scanning a source can come to (`Cursor.Reached`), the classifier of Simple goes
on behind what stands before the next token, round by round: a blank, the end of a line, or a
comment up to the end of its line (`SkipsTrivia`).  There it follows the automaton, character by
character (`Follows`).  What it reads is the longest lexeme of the rest of the line, and it stops
right behind it (`classify_longest`).

The lexicon measures the blank part of a line in one go, and a comment with the end of its line.
`skip_of_drop` says that this comes to the same as going piece by piece.  It runs the automaton on
the rest of the line, and `follows_start` says that the loop at the cursor reads the same.
-/

namespace SinglePass

namespace Cursor

/-- The cursors that scanning a source can come to. -/
inductive Reached (source : Source) : Cursor → Prop
  | start : Reached source (start source)
  | consume {c : Cursor} (n : Nat) (before : Reached source c) : Reached source (c.consume n)
  | acknowledge {c : Cursor} (before : Reached source c) : Reached source c.acknowledge

/-- The rest of a line is closed by its end. -/
def Lined (c : Cursor) : Prop := c.rest = [] ∨ ∃ text, c.rest = text ++ [endOfLine]

variable {source : Source} {c : Cursor} {n : Nat}

/-- A line that is refilled ends as a line does. -/
theorem Lined.refill (c : Cursor) : c.refill.Lined := by
  obtain ⟨rest, pending, taken, column, consumed, failure⟩ := c
  rcases pending with _ | ⟨text | cause, more⟩
  · exact .inl rfl
  · exact .inr ⟨text.toList, rfl⟩
  · exact .inl rfl

/-- A step leaves a cursor in a line that ends as one does. -/
theorem Lined.step (h : c.Lined) : c.step.Lined := by
  obtain ⟨rest, pending, taken, column, consumed, failure⟩ := c
  rcases rest with _ | ⟨a, _ | ⟨b, rest⟩⟩
  · exact h
  · apply Lined.refill
  · obtain hnil | ⟨_ | ⟨a', text⟩, htext⟩ := h
    · nomatch hnil
    · nomatch htext
    · exact .inr ⟨text, (List.cons.inj htext).2⟩

/-- Consuming characters leaves a cursor in a line that ends as one does. -/
theorem Lined.consume (h : c.Lined) (n : Nat) : (c.consume n).Lined := by
  induction n generalizing c with
  | zero => exact h
  | succ n ih =>
    rw [consume_succ]
    exact ih h.step

/-- Wherever a source is consumed, the cursor is in a line that ends as one does. -/
theorem Reached.lined (h : Reached source c) : c.Lined := by
  induction h with
  | start => apply Lined.refill
  | consume n _ ih => exact ih.consume n
  | acknowledge _ ih => exact ih

/-- A cursor that is not exhausted stands before some text and the end of its line. -/
theorem Lined.exists_text (h : c.Lined) (hrest : c.rest ≠ []) :
    ∃ text, c.rest = text ++ [endOfLine] :=
  h.resolve_left hrest

/-- Consuming characters within a line drops them. -/
theorem rest_consume (h : n < c.rest.length) : (c.consume n).rest = c.rest.drop n := by
  rw [consume_of_lt h]

/-- Where a character is looked at, the line has not ended. -/
theorem ne_nil_of_current_ne (h : c.current ≠ endOfStream) : c.rest ≠ [] := by
  rintro hrest
  simp [current, hrest] at h

/-- The character at the cursor is the first one of the rest of the line. -/
theorem rest_eq_cons (h : c.current ≠ endOfStream) : ∃ more, c.rest = c.current :: more := by
  obtain ⟨a, more, hrest⟩ := List.exists_cons_of_ne_nil (ne_nil_of_current_ne h)
  exact ⟨more, by simp [current, hrest]⟩

end Cursor

namespace Simple

open Cursor Automaton

variable {source : Source} {c d : Cursor} {n : Nat} {text : List Char}

/-! ## What stands before a token -/

/-- Does a comment begin at the cursor? -/
def AtComment (c : Cursor) : Prop := c.current = '/' ∧ c.peek 1 = '/'

/-- Going on behind what stands before a token leads from one cursor to another. -/
inductive SkipsTrivia : Cursor → Cursor → Prop
  | stop {c : Cursor} (blank : isBlank c.current = false) (comment : ¬ AtComment c) :
      SkipsTrivia c c
  /-- The end of a line is blank, too. -/
  | blank {c d : Cursor} (blank : isBlank c.current = true) (more : SkipsTrivia (c.consume 1) d) :
      SkipsTrivia c d
  /-- A comment leads to the end of its line. -/
  | comment {c d : Cursor} (comment : AtComment c)
      (more : SkipsTrivia (c.consume (c.rest.length - 1)) d) : SkipsTrivia c d

/-- The blanks of a line are no longer than the line. -/
theorem blankLength_le (cs : List Char) : blankLength cs ≤ cs.length := by
  fun_induction blankLength cs with
  | case1 => exact Nat.le_refl _
  | case2 => simp
  | case3 _ _ _ _ ih => exact Nat.succ_le_succ ih
  | case4 => exact Nat.zero_le _

/-- Some of the blank part of a line may be consumed first. -/
theorem skip_of_drop (hrest : c.rest = text ++ [endOfLine]) (hn : n ≤ text.length)
    (hblank : blankLength c.rest = n + blankLength (c.rest.drop n)) :
    c.skip lexicon.blank = (c.consume n).skip lexicon.blank := by
  have hlength : c.rest.length = text.length + 1 := by rw [hrest, List.length_append]; rfl
  have hdrop : (c.consume n).rest = c.rest.drop n := rest_consume (by omega)
  have hbehind : (c.consume n).rest = text.drop n ++ [endOfLine] := by
    rw [hdrop, hrest, List.drop_append_of_le_length hn]
  have htext : (text.drop n).length = text.length - n := List.length_drop
  have hcount : (c.rest.drop n).length = text.length - n + 1 := by rw [List.length_drop]; omega
  rcases Nat.eq_or_lt_of_le (blankLength_le (c.rest.drop n)) with heq | hlt
  · rw [hcount] at heq
    have hline : lexicon.blank c.rest = text.length + 1 := by
      show blankLength c.rest = _
      omega
    have hline' : lexicon.blank (c.consume n).rest = (text.drop n).length + 1 := by
      rw [hdrop, htext]
      exact heq
    have hsum : n + ((text.drop n).length + 1) = text.length + 1 := by omega
    rw [skip_of_line hrest hline, skip_of_line hbehind hline', ← consume_add, hsum]
  · have hlt' : lexicon.blank c.rest < c.rest.length := by
      show blankLength c.rest < _
      omega
    rw [skip_of_lt lexicon.blank hlt', skip_of_lt lexicon.blank (by rwa [hdrop]), ← consume_add,
      hdrop]
    exact congrArg c.consume hblank

/-- A blank differs from what is none. -/
theorem ne_of_isBlank {a b : Char} (ha : isBlank a = true) (hb : isBlank b = false) : a ≠ b := by
  rintro rfl
  rw [ha] at hb
  nomatch hb

/-- A blank at the cursor is skipped, and the end of a line like any other. -/
theorem skip_of_blank (hlined : c.Lined) (hblank : isBlank c.current = true) :
    c.skip lexicon.blank = (c.consume 1).skip lexicon.blank := by
  have hne : c.current ≠ endOfStream := ne_of_isBlank hblank rfl
  obtain ⟨more, hmore⟩ := rest_eq_cons hne
  have hslash : ¬ (c.current = '/' ∧ more.head? = some '/') :=
    fun h => ne_of_isBlank hblank rfl h.1
  have hlength : blankLength c.rest = blankLength more + 1 := by
    rw [hmore, blankLength_cons hslash, if_pos hblank]
  obtain ⟨text, htext⟩ := hlined.exists_text (ne_nil_of_current_ne hne)
  cases text with
  | nil =>
    have hnil : more = [] := (List.cons.inj (hmore.symm.trans htext)).2
    apply skip_of_line htext
    show blankLength c.rest = 1
    rw [hlength, hnil]
    rfl
  | cons a text =>
    apply skip_of_drop htext (Nat.succ_pos _)
    rw [hlength, hmore, List.drop_one, List.tail_cons, Nat.add_comm]

/-- A comment takes up all of the rest of its line. -/
theorem rest_of_comment (hlined : c.Lined) (hcomment : AtComment c) :
    ∃ more, c.rest = '/' :: '/' :: (more ++ [endOfLine]) := by
  obtain ⟨hfirst, hsecond⟩ := hcomment
  have hne : c.current ≠ endOfStream := by
    rw [hfirst]
    decide
  have hrest := ne_nil_of_current_ne hne
  obtain ⟨text, htext⟩ := hlined.exists_text hrest
  have hpeek : c.peek 1 = c.rest[1]?.getD endOfLine := by
    rw [peek, if_neg (mt exhausted_iff.1 hrest)]
  rw [current, htext] at hfirst
  rw [hpeek, htext] at hsecond
  rcases text with _ | ⟨a, _ | ⟨b, more⟩⟩
  · exact absurd hfirst (by decide)
  · have hend : endOfLine = '/' := hsecond
    exact absurd hend (by decide)
  · obtain rfl : a = '/' := hfirst
    obtain rfl : b = '/' := hsecond
    exact ⟨more, htext⟩

/-- A comment at the cursor is skipped up to the end of its line. -/
theorem skip_of_comment (hlined : c.Lined) (hcomment : AtComment c) :
    c.skip lexicon.blank = (c.consume (c.rest.length - 1)).skip lexicon.blank := by
  obtain ⟨more, hmore⟩ := rest_of_comment hlined hcomment
  have hlength : c.rest.length - 1 = more.length + 2 := by
    rw [hmore, List.length_cons, List.length_cons, List.length_append]
    rfl
  have hend : c.rest.drop (more.length + 2) = [endOfLine] := by
    rw [hmore, List.drop_succ_cons, List.drop_succ_cons, List.drop_left]
  have htext : c.rest = ('/' :: '/' :: more) ++ [endOfLine] := hmore
  rw [hlength]
  apply skip_of_drop htext (Nat.le_refl (more.length + 2))
  rw [hend, hmore, blankLength, List.length_append, Nat.add_right_comm]
  rfl

/-- Where neither a blank nor a comment stands, nothing is skipped. -/
theorem skip_of_stop (hblank : isBlank c.current = false) (hcomment : ¬ AtComment c) :
    c.skip lexicon.blank = c := by
  cases hrest : c.rest with
  | nil => exact skip_of_exhausted lexicon.blank (exhausted_iff.2 hrest)
  | cons a more =>
    have ha : c.current = a := by rw [current, hrest]; rfl
    have hslash : ¬ (a = '/' ∧ more.head? = some '/') := by
      rintro ⟨hfirst, hsecond⟩
      refine hcomment ⟨ha.trans hfirst, ?_⟩
      obtain ⟨behind, rfl⟩ := List.head?_eq_some_iff.1 hsecond
      rw [peek, if_neg (mt exhausted_iff.1 (by simp [hrest])), hrest]
      rfl
    have hzero : lexicon.blank c.rest = 0 := by
      show blankLength c.rest = 0
      rw [hrest, blankLength_cons hslash, if_neg (by rw [← ha, hblank]; exact Bool.false_ne_true)]
    have hlt : lexicon.blank c.rest < c.rest.length := by
      rw [hzero, hrest]
      exact Nat.succ_pos _
    rw [skip_of_lt lexicon.blank hlt, hzero, consume_zero]

/-! ## Skipping it -/

/-- Going on round by round leads to where the lexicon does. -/
theorem SkipsTrivia.skip_eq (h : SkipsTrivia c d) (hlined : c.Lined) :
    c.skip lexicon.blank = d := by
  induction h with
  | stop blank comment => exact skip_of_stop blank comment
  | blank blank _ ih => rw [skip_of_blank hlined blank, ih (hlined.consume 1)]
  | comment comment _ ih => rw [skip_of_comment hlined comment, ih (hlined.consume _)]

/-- Each round uses up a character, so there is a last one. -/
theorem skipsTrivia_skip (hlined : c.Lined) : SkipsTrivia c (c.skip lexicon.blank) := by
  generalize hn : c.remaining = n
  induction n using Nat.strongRecOn generalizing c with
  | ind n ih =>
    have goes (k : Nat) (hk : 0 < k) (hne : c.current ≠ endOfStream) :
        SkipsTrivia (c.consume k) ((c.consume k).skip lexicon.blank) := by
      have hpos : c.remaining ≠ 0 := fun hzero =>
        ne_nil_of_current_ne hne (exhausted_iff.1 (exhausted_iff_remaining.2 hzero))
      have hless := c.remaining_consume k
      exact ih _ (by omega) (hlined.consume k) rfl
    by_cases hblank : isBlank c.current = true
    · rw [skip_of_blank hlined hblank]
      exact .blank hblank (goes 1 Nat.one_pos (ne_of_isBlank hblank rfl))
    · by_cases hcomment : AtComment c
      · obtain ⟨more, hmore⟩ := rest_of_comment hlined hcomment
        rw [skip_of_comment hlined hcomment]
        refine .comment hcomment (goes _ (by simp [hmore]) ?_)
        rw [hcomment.1]
        decide
      · rw [skip_of_stop (Bool.eq_false_iff.2 hblank) hcomment]
        exact .stop (Bool.eq_false_iff.2 hblank) hcomment

/-- What is left behind stands before a token, if there is one. -/
theorem SkipsTrivia.stops (h : SkipsTrivia c d) : isBlank d.current = false ∧ ¬ AtComment d := by
  induction h with
  | stop blank comment => exact ⟨blank, comment⟩
  | blank _ _ ih => exact ih
  | comment _ _ ih => exact ih

/-- Skipping trivia leaves a cursor in a line that ends as one does. -/
theorem SkipsTrivia.lined (h : SkipsTrivia c d) (hlined : c.Lined) : d.Lined := by
  obtain ⟨n, hn⟩ := c.skip_eq_consume lexicon.blank
  rw [← h.skip_eq hlined, hn]
  exact hlined.consume n

/-! ## Following the automaton -/

/-- Following the automaton at a cursor reads a text, and leads to a state and a cursor. -/
inductive Follows :
    Automaton.State → Cursor → List Char → Automaton.State → Cursor → Prop
  /-- The current character does not extend what has been read. -/
  | stop {state : Automaton.State} {c : Cursor} (ends : step state c.current = none) :
      Follows state c [] state c
  | more {state next last : Automaton.State} {c d : Cursor} {text : List Char}
      (extends_to : step state c.current = some next)
      (rest : Follows next (c.consume 1) text last d) :
      Follows state c (c.current :: text) last d

/-- There is one way to go at each character. -/
theorem Follows.unique {state last last' : Automaton.State} {d' : Cursor} {text' : List Char}
    (h : Follows state c text last d) (h' : Follows state c text' last' d') :
    text' = text ∧ last' = last ∧ d' = d := by
  induction h generalizing text' with
  | stop ends =>
    cases h' with
    | stop => exact ⟨rfl, rfl, rfl⟩
    | more extends_to =>
      rw [ends] at extends_to
      nomatch extends_to
  | more extends_to _ ih =>
    cases h' with
    | stop ends =>
      rw [ends] at extends_to
      nomatch extends_to
    | more extends_to' rest' =>
      rw [extends_to] at extends_to'
      obtain rfl := Option.some.inj extends_to'
      obtain ⟨rfl, rfl, rfl⟩ := ih rest'
      exact ⟨rfl, rfl, rfl⟩

/-- One character further stands the rest of the line behind it. -/
theorem rest_consume_one (hlined : c.Lined) {a : Char} {more : List Char}
    (hrest : c.rest = a :: more) (ha : a ≠ endOfLine) : (c.consume 1).rest = more := by
  have hmore : more ≠ [] := by
    rintro rfl
    obtain ⟨text, htext⟩ := hlined.exists_text (by simp [hrest])
    rw [hrest] at htext
    cases text with
    | nil => exact ha (List.cons.inj htext).1
    | cons => simp at htext
  rw [rest_consume (by rw [hrest, List.length_cons]; simpa [Nat.pos_iff_ne_zero] using hmore),
    hrest, List.drop_one, List.tail_cons]

/-- A round of the loop: a step of the automaton at the cursor, and one on the rest of the line. -/
theorem Follows.round {state next : Automaton.State} {a : Char} {more : List Char}
    (hrest : c.rest = a :: more) (hstep : step state a = some next)
    (h : Follows next (c.consume 1) (more.take (follow next more).2) (follow next more).1
      ((c.consume 1).consume (follow next more).2)) :
    Follows state c (c.rest.take (follow state c.rest).2) (follow state c.rest).1
      (c.consume (follow state c.rest).2) := by
  have hcurrent : c.current = a := by rw [current, hrest]; rfl
  rw [hrest, follow_of_some hstep, List.take_succ_cons, Nat.add_comm, consume_add, ← hcurrent]
  exact .more (hcurrent ▸ hstep) h

/-- Once a lexeme has begun, the loop reads what the automaton does on the rest of the line. -/
theorem follows_of_ne_start {state : Automaton.State} (hlined : c.Lined) (hstate : state ≠ .start) :
    Follows state c (c.rest.take (follow state c.rest).2) (follow state c.rest).1
      (c.consume (follow state c.rest).2) := by
  generalize hcs : c.rest = cs
  induction cs generalizing c state with
  | nil =>
    have hcurrent : c.current = endOfStream := by rw [current, hcs]; rfl
    exact .stop (hcurrent ▸ step_endOfStream hstate)
  | cons a more ih =>
    cases hstep : step state a with
    | none =>
      have hcurrent : c.current = a := by rw [current, hcs]; rfl
      rw [follow_of_none hstep]
      exact .stop (hcurrent ▸ hstep)
    | some next =>
      have ha : a ≠ endOfLine := by
        rintro rfl
        rw [endOfLine, step_endOfLine hstate] at hstep
        nomatch hstep
      have h := ih (hlined.consume 1) (step_ne_start hstep) (rest_consume_one hlined hcs ha)
      rw [← hcs]
      exact .round hcs hstep h

/-- Where a line goes on, the loop reads what the automaton does from its start. -/
theorem follows_start (hlined : c.Lined) (hrest : c.rest ≠ []) (hline : c.current ≠ endOfLine) :
    Follows .start c (c.rest.take (follow .start c.rest).2) (follow .start c.rest).1
      (c.consume (follow .start c.rest).2) := by
  obtain ⟨a, more, hcs⟩ := List.exists_cons_of_ne_nil hrest
  have hcurrent : c.current = a := by rw [current, hcs]; rfl
  have hmore := rest_consume_one hlined hcs (hcurrent ▸ hline)
  have h := follows_of_ne_start (hlined.consume 1) (enter_ne_start a)
  rw [hmore] at h
  exact .round hcs rfl h

/-! ## Reading a token -/

/-- What the classifier of Simple reads where neither a blank nor a comment stands. -/
theorem read_longest (hlined : d.Lined) (hrest : d.rest ≠ []) (hblank : isBlank d.current = false) :
    ∃ kind text behind last, d.rest = text ++ behind ++ [endOfLine] ∧ Longest d.rest kind text ∧
      Follows .start d text last (d.consume text.length) ∧
      accept last (String.ofList text) = kind ∧
      lexicon.read d = (⟨kind, String.ofList text, d.position⟩, d.consume text.length) := by
  obtain ⟨line, hline⟩ := hlined.exists_text hrest
  obtain ⟨kind, text, hlexeme, hlongest⟩ := lexeme_longest hrest
  have hlength : text.length ≤ line.length := by
    cases line with
    | nil =>
      rw [current, hline] at hblank
      exact absurd hblank (by decide)
    | cons a line =>
      have hle := (lexeme_length a line).2.1
      rwa [← hline, hlexeme] at hle
  have hstarts : text <+: line := by
    refine List.prefix_of_prefix_length_le hlongest.starts ?_ hlength
    rw [hline]
    exact List.prefix_append _ _
  have htake : d.rest.take text.length = text := (List.prefix_iff_eq_take.1 hlongest.starts).symm
  obtain ⟨behind, rfl⟩ := hstarts
  have hfound : lexicon.lexeme d.rest = (kind, text.length) := hlexeme
  rw [lexeme_of_ne_nil hrest, Prod.mk.injEq] at hlexeme
  obtain ⟨haccept, hcount⟩ := hlexeme
  have hfollows := follows_start hlined hrest (ne_of_isBlank (b := d.current) rfl hblank).symm
  rw [hcount, htake] at haccept hfollows
  refine ⟨kind, text, behind, _, hline, hlongest, hfollows, haccept, ?_⟩
  rw [Lexicon.read_of_rest_ne_nil _ hrest, hfound, htake]

/-- **Simple reads the longest lexeme.**  At every cursor, what stands before a token is skipped, in
one way only.  Behind it stands the end of the source, or the longest lexeme of the rest of the
line, which has a kind of its own and does not reach the end of its line.  The automaton reads just
this lexeme, in one way only, and stops in a state that accepts it as that kind; so does the
classifier, which stops right behind. -/
theorem classify_longest (h : Reached source c) :
    ∃ d, (∀ d', SkipsTrivia c d' ↔ d' = d) ∧
      (d.exhausted = true → classifier.classify c = (⟨.endOfFile, "<EOF>", d.position⟩, d)) ∧
      (d.exhausted = false → ∃ kind text behind last,
        d.rest = text ++ behind ++ [endOfLine] ∧ text ≠ [] ∧
          (∀ kind' text', Longest d.rest kind' text' ↔ kind' = kind ∧ text' = text) ∧
          (∀ text' last' d', Follows .start d text' last' d' ↔
            text' = text ∧ last' = last ∧ d' = d.consume text.length) ∧
          accept last (String.ofList text) = kind ∧
          classifier.classify c =
            (⟨kind, String.ofList text, d.position⟩, d.consume text.length) ∧
          (d.consume text.length).rest = behind ++ [endOfLine]) := by
  -- All is told from the cursor behind the trivia, where the classifier begins to read.
  have hskips := skipsTrivia_skip h.lined
  have hread : classifier.classify c = lexicon.read (c.skip lexicon.blank) := rfl
  rw [hread]
  generalize hd : c.skip lexicon.blank = d at hskips ⊢
  refine ⟨d, fun d' => ⟨fun h' => (h'.skip_eq h.lined).symm.trans hd, fun h' => h' ▸ hskips⟩,
    fun hend => Lexicon.read_of_rest_nil lexicon (exhausted_iff.1 hend), fun hgoes => ?_⟩
  have hrest : d.rest ≠ [] := by
    rintro hnil
    rw [exhausted_iff.2 hnil] at hgoes
    nomatch hgoes
  obtain ⟨kind, text, behind, last, hline, hlongest, hfollows, haccept, hread⟩ :=
    read_longest (hskips.lined h.lined) hrest hskips.stops.1
  refine ⟨kind, text, behind, last, hline, hlongest.lexeme.ne_nil, fun kind' text' => ?_,
    fun text' last' d' => ?_, haccept, hread, ?_⟩
  · constructor
    · exact fun h' => h'.unique hlongest
    · rintro ⟨rfl, rfl⟩
      exact hlongest
  · constructor
    · exact hfollows.unique
    · rintro ⟨rfl, rfl, rfl⟩
      exact hfollows
  · have hlt : text.length < d.rest.length := by
      rw [hline, List.append_assoc, List.length_append, List.length_append, List.length_singleton]
      omega
    rw [rest_consume hlt, hline, List.append_assoc, List.drop_left]

/-- A number that ends in its point, behind a comment and the end of its line. -/
theorem classify_malformed_number :
    Reached [.line "x // y", .line " 7."] ((start [.line "x // y", .line " 7."]).consume 1) ∧
      ∃ d, SkipsTrivia ((start [.line "x // y", .line " 7."]).consume 1) d ∧
        d.rest = ['7', '.', '\n'] ∧ Longest d.rest .invalidToken ['7', '.'] ∧
        Follows .start d ['7', '.'] .point (d.consume 2) ∧
        classifier.classify ((start [.line "x // y", .line " 7."]).consume 1) =
          (⟨.invalidToken, "7.", ⟨2, 2⟩⟩, d.consume 2) := by
  have hreached : Reached [.line "x // y", .line " 7."]
      ((start [.line "x // y", .line " 7."]).consume 1) := .consume 1 .start
  obtain ⟨d, hskips, -, hreads⟩ := classify_longest hreached
  obtain rfl : Cursor.skip lexicon.blank _ = d := (hskips _).1 (skipsTrivia_skip hreached.lined)
  obtain ⟨kind, text, behind, last, -, -, hlongest, hfollows, -, hread, -⟩ := hreads rfl
  have htoken : (⟨.invalidToken, "7.", ⟨2, 2⟩⟩ : Token Kind) = ⟨kind, String.ofList text, _⟩ :=
    congrArg Prod.fst hread
  obtain ⟨rfl, htext, -⟩ := Token.mk.inj htoken
  obtain rfl : ['7', '.'] = text := by rw [← String.toList_ofList (l := text), ← htext]; rfl
  have hlined := (skipsTrivia_skip hreached.lined).lined hreached.lined
  obtain ⟨-, hlast, -⟩ := (hfollows _ _ _).1 (follows_start hlined (by decide) (by decide))
  obtain rfl : Automaton.State.point = last := hlast
  exact ⟨hreached, _, (hskips _).2 rfl, rfl, (hlongest _ _).2 ⟨rfl, rfl⟩,
    (hfollows _ _ _).2 ⟨rfl, rfl, rfl⟩, hread⟩

end Simple

end SinglePass
