import SinglePass.Simple.Lexicon

/-!
# What the automaton reads

Told apart by the first character, the automaton of Simple reads a word, a number or an operator
(`lexeme_cons`), each of which is given here by its form and without states: a run of letters and
digits, digits with a point and a fraction, and the longest of a few texts.
-/

namespace SinglePass.Simple

open Automaton

/-- Length of the run of ASCII digits at the beginning of a text. -/
def digits (cs : List Char) : Nat := (cs.takeWhile Char.isDigit).length

/-- A digit in front counts. -/
theorem digits_cons_of_pos {c : Char} (h : c.isDigit = true) (rest : List Char) :
    digits (c :: rest) = digits rest + 1 := by
  rw [digits, List.takeWhile_cons_of_pos h]
  rfl

/-- Digits end in front of anything else. -/
theorem digits_cons_of_neg {c : Char} (h : ¬ c.isDigit = true) (rest : List Char) :
    digits (c :: rest) = 0 := by
  rw [digits, List.takeWhile_cons_of_neg h]
  rfl

/-- Kind and length of the number at the beginning of a text that begins with a digit. -/
def number (cs : List Char) : Kind × Nat :=
  match cs.dropWhile Char.isDigit with
  | '.' :: rest =>
    if digits rest = 0 then (.invalidToken, digits cs + 1)
    else (.realLiteral, digits cs + 1 + digits rest)
  | _ => (.intLiteral, digits cs)

/-- Kind and length of the word at the beginning of a text that begins with a letter. -/
def word (cs : List Char) : Kind × Nat :=
  let text := cs.takeWhile Char.isAlphanum
  ((Kind.keyword? (String.ofList text)).getD .ident, text.length)

/-- Kind and length of the operator at the beginning of a text; a character that begins no
operator is invalid. -/
def operator : List Char → Kind × Nat
  | '<' :: '=' :: _ => (.lessEqual, 2)
  | '<' :: '>' :: _ => (.notEqual, 2)
  | '<' :: _ => (.less, 1)
  | '>' :: '=' :: _ => (.greaterEqual, 2)
  | '>' :: _ => (.greater, 1)
  | '=' :: '=' :: _ => (.equal, 2)
  | '=' :: _ => (.assign, 1)
  | ',' :: _ => (.comma, 1)
  | ':' :: _ => (.colon, 1)
  | '[' :: _ => (.leftBracket, 1)
  | ']' :: _ => (.rightBracket, 1)
  | '(' :: _ => (.leftParen, 1)
  | ')' :: _ => (.rightParen, 1)
  | '+' :: _ => (.plus, 1)
  | '-' :: _ => (.minus, 1)
  | '*' :: _ => (.star, 1)
  | '/' :: _ => (.slash, 1)
  | _ => (.invalidChar, 1)

/-! ## Runs of the automaton -/

/-- In a state that only certain characters lead on from, and these back to it, the automaton reads
all such characters. -/
theorem follow_run {state : State} {p : Char → Bool}
    (hstep : ∀ c, step state c = if p c = true then some state else none) (cs : List Char) :
    follow state cs = (state, (cs.takeWhile p).length) := by
  induction cs with
  | nil => rfl
  | cons c rest ih =>
    by_cases hc : p c = true
    · rw [follow_of_some ((hstep c).trans (if_pos hc)), ih, List.takeWhile_cons_of_pos hc]
      rfl
    · rw [follow_of_none ((hstep c).trans (if_neg hc)), List.takeWhile_cons_of_neg hc]
      rfl

/-- In the fraction of a number the automaton reads all digits. -/
theorem follow_fraction (cs : List Char) : follow .fraction cs = (.fraction, digits cs) :=
  follow_run (fun _ => rfl) cs

/-- Behind a point the automaton goes on if there is a digit. -/
theorem follow_point (cs : List Char) :
    follow .point cs = if digits cs = 0 then (.point, 0) else (.fraction, digits cs) := by
  cases cs with
  | nil => rfl
  | cons c rest =>
    by_cases hc : c.isDigit = true
    · have hstep : step .point c = some .fraction := if_pos hc
      rw [follow_of_some hstep, follow_fraction, digits_cons_of_pos hc,
        if_neg (Nat.succ_ne_zero _)]
    · have hstep : step .point c = none := if_neg hc
      rw [follow_of_none hstep, digits_cons_of_neg hc, if_pos rfl]

/-- The number is one digit longer if a digit is put before it. -/
theorem number_cons {c : Char} (hc : c.isDigit = true) (rest : List Char) :
    number (c :: rest) = ((number rest).1, (number rest).2 + 1) := by
  rw [number, number, List.dropWhile_cons_of_pos hc, digits_cons_of_pos hc]
  split
  · split
    · rfl
    · simp only [Prod.mk.injEq, true_and]
      omega
  · rfl

/-- Behind a digit the automaton reads a number. -/
theorem follow_integer (cs : List Char) (text : String) :
    (accept (follow .integer cs).1 text, (follow .integer cs).2) = number cs := by
  induction cs with
  | nil => rfl
  | cons c rest ih =>
    by_cases hc : c.isDigit = true
    · have hstep : step .integer c = some .integer := if_pos hc
      rw [follow_of_some hstep, number_cons hc, ← ih]
    · by_cases hpoint : c = '.'
      · subst hpoint
        have hstep : step .integer '.' = some .point := rfl
        have hnumber : number ('.' :: rest) =
            if digits rest = 0 then (.invalidToken, 0 + 1)
            else (.realLiteral, 0 + 1 + digits rest) := rfl
        rw [follow_of_some hstep, follow_point, hnumber, Nat.zero_add, Nat.add_comm 1]
        split <;> rfl
      · have hstep : step .integer c = none := (if_neg hc).trans (if_neg hpoint)
        rw [follow_of_none hstep, number, List.dropWhile_cons_of_neg hc, digits_cons_of_neg hc]
        split
        · next after hafter => exact absurd (List.cons.inj hafter).1 hpoint
        · rfl

/-- Behind `<` the automaton reads the longest operator that begins so. -/
theorem follow_less (rest : List Char) (text : String) :
    (accept (follow .less rest).1 text, (follow .less rest).2 + 1) = operator ('<' :: rest) := by
  cases rest with
  | nil => rfl
  | cons c rest =>
    by_cases hequal : c = '='
    · subst hequal
      rw [follow_of_some rfl, follow_done]
      rfl
    · by_cases hgreater : c = '>'
      · subst hgreater
        rw [follow_of_some rfl, follow_done]
        rfl
      · have hstep : step .less c = none := (if_neg hequal).trans (if_neg hgreater)
        rw [follow_of_none hstep]
        simp [operator, accept, hequal, hgreater]

/-- In a state that only `=` leads on from, the automaton reads one at most. -/
theorem follow_equalSign {state : State} {kind : Kind}
    (hstep : ∀ c, step state c = if c = '=' then some (.done kind) else none) (cs : List Char) :
    follow state cs =
      match cs with
      | '=' :: _ => (.done kind, 1)
      | _ => (state, 0) := by
  split
  · rw [follow_of_some ((hstep '=').trans (if_pos rfl)), follow_done]
  · next hother =>
    cases cs with
    | nil => rfl
    | cons c rest =>
      have hequal : c ≠ '=' := fun h => hother rest (congrArg (· :: rest) h)
      rw [follow_of_none ((hstep c).trans (if_neg hequal))]

/-- Behind a character that is no letter and no digit the automaton reads an operator. -/
theorem follow_other {c : Char} (hletter : ¬ c.isAlpha = true) (hdigit : ¬ c.isDigit = true)
    (rest : List Char) (text : String) :
    (accept (follow (enter c) rest).1 text, (follow (enter c) rest).2 + 1) =
      operator (c :: rest) := by
  unfold enter
  rw [if_neg hletter, if_neg hdigit]
  split
  · exact follow_less rest text
  · rw [follow_equalSign (fun _ => rfl)]
    split
    · rfl
    · simp [operator, accept]
  · rw [follow_equalSign (fun _ => rfl)]
    split
    · rfl
    · simp [operator, accept]
  case h_14 =>
    rw [follow_done]
    simp_all [operator, accept]
  all_goals
    rw [follow_done]
    rfl

/-! ## What is read -/

/-- The first character says which kind of lexeme the automaton reads. -/
theorem lexeme_cons (c : Char) (rest : List Char) :
    lexeme (c :: rest) =
      if c.isAlpha then word (c :: rest)
      else if c.isDigit then number (c :: rest)
      else operator (c :: rest) := by
  rw [lexeme_of_ne_nil (List.cons_ne_nil c rest), follow_start]
  split
  · next hletter =>
    have henter : enter c = .word := if_pos hletter
    have hword : (c :: rest).takeWhile Char.isAlphanum = c :: rest.takeWhile Char.isAlphanum :=
      List.takeWhile_cons_of_pos (by simp [Char.isAlphanum, hletter])
    have htake : rest.take (rest.takeWhile Char.isAlphanum).length =
        rest.takeWhile Char.isAlphanum :=
      (List.prefix_iff_eq_take.1 (List.takeWhile_prefix _)).symm
    have hrun : follow .word rest = (.word, (rest.takeWhile Char.isAlphanum).length) :=
      follow_run (fun _ => rfl) rest
    rw [henter, hrun, word, hword, List.take_succ_cons, htake]
    rfl
  · next hletter =>
    split
    · next hdigit =>
      have henter : enter c = .integer := (if_neg hletter).trans (if_pos hdigit)
      rw [henter, number_cons hdigit, ← follow_integer]
    · next hdigit => exact follow_other hletter hdigit rest _

end SinglePass.Simple
