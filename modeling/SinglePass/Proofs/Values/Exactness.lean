import Mathlib.Tactic.Ring
import SinglePass.Proofs.Values.Operands
import SinglePass.Proofs.Values.Shapes

/-!
# Operands are exact

An operand has a constant if and only if the tokens of its expression are one integer literal,
parentheses and minus signs; then each minus sign turns the sign of the literal around
(`Evaluates`).  That there is no binary operator follows from this: every operator has an operand on
either side, and every operand has a token other than these.

`operands_exact` puts this together with what the rules take and with the range of the constants
that occur in any run.
-/

namespace SinglePass.Simple

open Recognizer

/-! ## Signs and literals -/

/-- The tokens that are no parentheses and no minus signs. -/
def bare (ts : List (Token Kind)) : List (Token Kind) :=
  ts.filter fun t => t.kind ∉ [Kind.leftParen, .rightParen, .minus]

/-- Number of minus signs. -/
def signs (ts : List (Token Kind)) : Nat := ts.countP fun t => t.kind = .minus

section

variable {t opening closing op : Token Kind} {ts us : List (Token Kind)}

/-- Bare tokens are taken from both parts. -/
theorem bare_append : bare (ts ++ us) = bare ts ++ bare us := List.filter_append ..

/-- A bare token is kept. -/
theorem bare_cons (h : t.kind ∉ [Kind.leftParen, .rightParen, .minus]) :
    bare (t :: ts) = t :: bare ts := List.filter_cons_of_pos (decide_eq_true h)

/-- A parenthesis or a minus sign is left out. -/
theorem bare_cons_of_mem (h : t.kind ∈ [Kind.leftParen, .rightParen, .minus]) :
    bare (t :: ts) = bare ts := by
  refine List.filter_cons_of_neg fun hbare => ?_
  exact of_decide_eq_true hbare h

/-- More tokens do not take bare ones away. -/
theorem bare_cons_ne_nil (h : bare ts ≠ []) : bare (t :: ts) ≠ [] := by
  by_cases ht : t.kind ∈ [Kind.leftParen, .rightParen, .minus]
  · rwa [bare_cons_of_mem ht]
  · rw [bare_cons ht]
    exact List.cons_ne_nil _ _

/-- Parentheses make no difference to what is between them. -/
theorem bare_parentheses (hopening : opening.kind = .leftParen)
    (hclosing : closing.kind = .rightParen) : bare (opening :: (ts ++ [closing])) = bare ts := by
  have hlast : bare [closing] = [] := bare_cons_of_mem (by rw [hclosing]; decide)
  rw [bare_cons_of_mem (by rw [hopening]; decide), bare_append, hlast, List.append_nil]

/-- Parentheses are no minus signs. -/
theorem signs_parentheses (hopening : opening.kind = .leftParen)
    (hclosing : closing.kind = .rightParen) : signs (opening :: (ts ++ [closing])) = signs ts := by
  simp [signs, hopening, hclosing]

/-- A minus sign is no bare token. -/
theorem bare_minus (hop : op.kind = .minus) : bare (op :: ts) = bare ts :=
  bare_cons_of_mem (by rw [hop]; decide)

/-- A minus sign counts. -/
theorem signs_minus (hop : op.kind = .minus) : signs (op :: ts) = signs ts + 1 :=
  List.countP_cons_of_pos (decide_eq_true hop)

end

/-- What the tokens of an expression say of its constant. -/
inductive Evaluates (ts : List (Token Kind)) : Option Int64 → Prop
  /-- There is one integer literal, and each minus sign in front of it changes its sign. -/
  | literal {l : Token Kind} {v : Int64} (bare_eq : bare ts = [l]) (kind_eq : l.kind = .intLiteral)
      (value_eq : v.toInt = (-1) ^ signs ts * (literalNumber l : Int)) : Evaluates ts (some v)
  /-- There is something else. -/
  | other {t : Token Kind} {more : List (Token Kind)} (bare_eq : bare ts = t :: more)
      (alone : more = [] → t.kind ≠ .intLiteral) : Evaluates ts none

namespace Evaluates

variable {t opening closing op : Token Kind} {ts us : List (Token Kind)}
  {constant constant' : Option Int64}

/-- No expression consists of parentheses and minus signs alone. -/
theorem bare_ne_nil (h : Evaluates ts constant) : bare ts ≠ [] := by
  cases h with
  | literal bare_eq =>
    rw [bare_eq]
    exact List.cons_ne_nil _ _
  | other bare_eq =>
    rw [bare_eq]
    exact List.cons_ne_nil _ _

/-- What begins with neither a sign nor a literal has no constant. -/
theorem of_head (h : t.kind ∉ [Kind.leftParen, .rightParen, .minus, .intLiteral]) :
    Evaluates (t :: ts) none := by
  simp only [List.mem_cons, List.not_mem_nil, or_false, not_or] at h
  obtain ⟨hopening, hclosing, hminus, hliteral⟩ := h
  refine .other (bare_cons ?_) fun _ => hliteral
  simp [hopening, hclosing, hminus]

/-- An operator has a second operand behind it. -/
theorem binary (hl : Evaluates ts constant) (hr : Evaluates us constant') :
    Evaluates (ts ++ op :: us) none := by
  obtain ⟨t, more, heq⟩ := List.exists_cons_of_ne_nil hl.bare_ne_nil
  have hbare : bare (ts ++ op :: us) = t :: (more ++ bare (op :: us)) := by
    rw [bare_append, heq, List.cons_append]
  refine .other hbare fun hnil => ?_
  exact absurd (List.append_eq_nil_iff.mp hnil).2 (bare_cons_ne_nil hr.bare_ne_nil)

/-- Parentheses leave the constant as it is. -/
theorem parentheses (h : Evaluates ts constant) (hopening : opening.kind = .leftParen)
    (hclosing : closing.kind = .rightParen) :
    Evaluates (opening :: (ts ++ [closing])) constant := by
  cases h with
  | literal bare_eq kind_eq value_eq =>
    refine .literal ((bare_parentheses hopening hclosing).trans bare_eq) kind_eq ?_
    rwa [signs_parentheses hopening hclosing]
  | other bare_eq alone => exact .other ((bare_parentheses hopening hclosing).trans bare_eq) alone

/-- A minus sign turns the constant around. -/
theorem negation (h : Evaluates ts constant) (hop : op.kind = .minus)
    (hsmall : ∀ v ∈ constant, Small v) :
    Evaluates (op :: ts) (constant.map fun v => -v) := by
  cases h with
  | literal bare_eq kind_eq value_eq =>
    refine .literal ((bare_minus hop).trans bare_eq) kind_eq ?_
    rw [(hsmall _ rfl).toInt_neg, value_eq, signs_minus hop, pow_succ]
    ring
  | other bare_eq alone => exact .other ((bare_minus hop).trans bare_eq) alone

end Evaluates

/-- Constants stay within the bounds of literals. -/
theorem Expr.small_constant : ∀ (e : Expr), ∀ v ∈ e.constant, Small v
  | .integer literal, _, hv => Option.some.inj hv ▸ small_literalValue literal
  | .negation _ e, _, hv => by
    obtain ⟨value, hvalue, rfl⟩ := Option.mem_map.mp hv
    exact (e.small_constant value hvalue).neg
  | .designator _ _, _, hv => nomatch hv
  | .real _, _, hv => nomatch hv
  | .boolean _, _, hv => nomatch hv
  | .complement _ _, _, hv => nomatch hv
  | .binary _ _ _, _, hv => nomatch hv
  | .comparison _ _ _, _, hv => nomatch hv

/-- **The tokens of an expression say whether it has a constant, and which.** -/
theorem Expr.Derives.evaluates : ∀ {strength : Strength} {ts : List (Token Kind)} {e : Expr},
    e.Derives strength ts → Evaluates ts e.constant
  | _, _, _, .ofFactor he => he.evaluates
  | _, _, _, .ofTerm he => he.evaluates
  | _, _, _, .ofSimple he => he.evaluates
  | _, _, _, .parentheses hopening he hclosing => he.evaluates.parentheses hopening hclosing
  | _, _, _, .negation hop he => he.evaluates.negation hop (Expr.small_constant _)
  | _, _, _, .integer h => by
    refine .literal (bare_cons (by rw [h]; decide)) h ?_
    rw [toInt_literalValue, signs, List.countP_singleton]
    simp [h]
  | _, _, _, .product hl _ hr => hl.evaluates.binary hr.evaluates
  | _, _, _, .sum hl _ hr => hl.evaluates.binary hr.evaluates
  | _, _, _, .comparison hl _ hr => hl.evaluates.binary hr.evaluates
  | _, _, _, .name h => .of_head (by rw [h]; decide)
  | _, _, _, .element h _ _ _ _ => .of_head (by rw [h]; decide)
  | _, _, _, .real h => .of_head (by rw [h]; decide)
  | _, _, _, .boolean h => .of_head (by rcases h with h | h <;> rw [h] <;> decide)
  | _, _, _, .complement h _ => .of_head (by rw [h]; decide)

/-- A token that is no parenthesis is the first of this sort. -/
theorem find?_head {t : Token Kind} {ts : List (Token Kind)} (h : t.kind ≠ .leftParen) :
    (t :: ts).find? (fun t => t.kind ≠ .leftParen) = some t :=
  List.find?_cons_of_pos (decide_eq_true h)

/-- The first token that is no parenthesis stays so whatever comes behind. -/
theorem find?_append_of_eq {ts us : List (Token Kind)} {t : Token Kind}
    (h : ts.find? (fun t => t.kind ≠ .leftParen) = some t) :
    (ts ++ us).find? (fun t => t.kind ≠ .leftParen) = some t := by
  rw [List.find?_append, h, Option.some_or]

/-- The first token of an expression is the first one that is no opening parenthesis. -/
theorem Expr.Derives.find?_first : ∀ {strength : Strength} {ts : List (Token Kind)} {e : Expr},
    e.Derives strength ts → ts.find? (fun t => t.kind ≠ .leftParen) = some e.first
  | _, _, _, .ofFactor he => he.find?_first
  | _, _, _, .ofTerm he => he.find?_first
  | _, _, _, .ofSimple he => he.find?_first
  | _, _, _, .parentheses hopening he _ => by
    rw [List.find?_cons_of_neg (by rw [hopening]; decide)]
    exact find?_append_of_eq he.find?_first
  | _, _, _, .negation hop _ => find?_head (by rw [hop]; decide)
  | _, _, _, .integer h => find?_head (by rw [h]; decide)
  | _, _, _, .product hl _ _ => find?_append_of_eq hl.find?_first
  | _, _, _, .sum hl _ _ => find?_append_of_eq hl.find?_first
  | _, _, _, .comparison hl _ _ => find?_append_of_eq hl.find?_first
  | _, _, _, .name h => find?_head (by rw [h]; decide)
  | _, _, _, .element h _ _ _ _ => find?_head (by rw [h]; decide)
  | _, _, _, .real h => find?_head (by rw [h]; decide)
  | _, _, _, .boolean h => find?_head (by rcases h with h | h <;> rw [h] <;> decide)
  | _, _, _, .complement h _ => find?_head (by rw [h]; decide)

/-! ## Operands -/

/-- The rules that recognize expressions, and how strongly the parts of these are bound. -/
inductive ExpressionRule : Strength → GrammarRule Operand → Prop
  | factor (n : Nat) : ExpressionRule .factor (factor n)
  | term (n : Nat) : ExpressionRule .term (term (factor n))
  | signedTerm (n : Nat) : ExpressionRule .simple (signedTerm (factor n))
  | simpleExpression (n : Nat) : ExpressionRule .simple (simpleExpression (factor n))
  | expressionOf (n : Nat) : ExpressionRule .full (expressionOf (factor n))
  | expression : ExpressionRule .full expression

namespace ExpressionRule

variable {strength : Strength} {r : GrammarRule Operand}

/-- What a rule for expressions takes is an expression that its operand summarizes. -/
theorem takes (h : ExpressionRule strength r) :
    Takes (fun _ => True) r (Summarizes strength) := by
  cases h with
  | factor n => exact takes_factor n
  | term n => exact takes_term (takes_factor n)
  | signedTerm n => exact takes_signedTerm (takes_factor n)
  | simpleExpression n => exact takes_simpleExpression (takes_factor n)
  | expressionOf n => exact takes_expressionOf (takes_factor n)
  | expression => exact takes_expression

/-- What a rule for expressions answers has the constant of a literal. -/
theorem confines (h : ExpressionRule strength r) {q : Symbol Kind Ty → Prop} :
    Confines q Operand.HasSmall r := by
  cases h with
  | factor n => exact confines_factor n
  | term n => exact confines_term (confines_factor n)
  | signedTerm n => exact confines_signedTerm (confines_factor n)
  | simpleExpression n => exact confines_simpleExpression (confines_factor n)
  | expressionOf n => exact confines_expressionOf (confines_factor n)
  | expression => exact confines_expression

end ExpressionRule

/-- What an operand says of the tokens of its expression, and of the faults that were recorded on
the way. -/
structure Operand.Exact (strength : Strength) (ts : List (Token Kind)) (found : Faults)
    (a : Operand) : Prop where
  derives : ∃ e, Expr.Derives strength ts e
  token : ts.find? (fun t => t.kind ≠ .leftParen) = some a.token
  /-- There is a constant if there is one integer literal, and parentheses and minus signs. -/
  present : a.constant.isSome = true ↔ ∃ l, bare ts = [l] ∧ l.kind = .intLiteral
  value : ∀ v l, a.constant = some v → bare ts = [l] →
    v.toInt = (-1) ^ signs ts * (literalNumber l : Int)
  reported : ∀ l ∈ ts, l.kind = .intLiteral → maxLiteral < decimalValue l.text →
    .custom l (Fault.literalTooLarge l.text).message ∈ found

/-- An operand that summarizes an expression is exact. -/
theorem Summarizes.exact {strength : Strength} {ts : List (Token Kind)} {found : Faults}
    {a : Operand} (h : Summarizes strength ts (found.filter Diagnostic.isSemantic) a) :
    a.Exact strength ts found := by
  obtain ⟨e, he, htoken, hconstant, hreported⟩ := h
  refine ⟨⟨e, he⟩, htoken ▸ he.find?_first, ?_, ?_, fun l hl hkind hlarge => ?_⟩
  · have hevaluates := he.evaluates
    rw [← hconstant] at hevaluates
    generalize a.constant = constant at hevaluates
    -- There is a constant if a literal is left without the signs and parentheses.
    cases hevaluates with
    | literal bare_eq kind_eq _ => exact iff_of_true rfl ⟨_, bare_eq, kind_eq⟩
    | other bare_eq alone =>
      refine iff_of_false Bool.false_ne_true ?_
      rintro ⟨l, hbare, hkind⟩
      obtain ⟨rfl, hmore⟩ := List.cons.inj (bare_eq.symm.trans hbare)
      exact alone hmore hkind
  · rintro v l hv hbare
    have hevaluates := he.evaluates
    rw [← hconstant, hv] at hevaluates
    cases hevaluates with
    | literal bare_eq _ value_eq =>
      obtain rfl := List.singleton_inj.mp (bare_eq.symm.trans hbare)
      exact value_eq
  · have hfault := hreported l hl hkind
    rw [literalFaults_eq, if_neg (Nat.not_le.mpr hlarge)] at hfault
    exact List.mem_of_mem_filter (hfault (List.mem_singleton.mpr rfl))

/-- What it means that operands are exact and their arithmetic does not overflow. -/
structure OperandsExact (strategy : Strategy) (source : Source) : Prop where
  /-- An expression that is recognized by a run that is not recovering, and in which no token is
  unexpected.  Its tokens are those between the run before and the run after. -/
  exact : ∀ {strength : Strength} {r : GrammarRule Operand}
    {s t : State Kind Ty (Symbol Kind Ty)} {a : Operand} {found : Faults},
    ExpressionRule strength r → s.Reached classifier strategy source → s.recovering = false →
    r strategy s = (.value a, t) → t.sink = s.sink ++ found →
    (∀ d ∈ found, d.isUnexpected = false) →
      ∃ ts, s.input = ts ++ t.input ∧ ts <:+: source.tokens classifier ∧
        a.Exact strength ts found
  /-- The number of a literal is that of its digits, of any length and with any zeros in front, or 0
  if it does not fit. -/
  literal : ∀ l ∈ source.tokens classifier, l.kind = .intLiteral →
    AreDigits l.text.toList ∧ literalNumber l =
      if Nat.ofDigits 10 (digitsOf l.text) ≤ 2 ^ 63 - 1 then Nat.ofDigits 10 (digitsOf l.text)
      else 0
  /-- The constants that occur in any run, whether it recovers or not: those of operands, which
  signs are put in front of, and those of literals. -/
  operands : ∀ {strength : Strength} {r : GrammarRule Operand}
    {s t : State Kind Ty (Symbol Kind Ty)} {a : Operand}, ExpressionRule strength r →
    r strategy s = (.value a, t) → ∀ v ∈ a.constant, Negatable v
  literals : ∀ (token : Token Kind) {s t : State Kind Ty (Symbol Kind Ty)} {v : Int64},
    intValue token strategy s = (.value v, t) → Negatable v

/-- **Operands are exact** in every run, under either strategy, and their arithmetic does not
overflow. -/
theorem operands_exact (strategy : Strategy) (source : Source) : OperandsExact strategy source := by
  constructor
  · intro strength r s t a found hrule hreached hcalm hrun hsink hfound
    obtain ⟨ts, hinput, hsource, hsummary⟩ :=
      hrule.takes.of_reached hreached hcalm hrun hsink hfound
    exact ⟨ts, hinput, hsource, hsummary.exact⟩
  · intro l hl hkind
    refine ⟨areDigits_of_mem_tokens hl hkind, ?_⟩
    rw [literalNumber, decimalValue_eq_ofDigits]
    rfl
  · intro strength r s t a hrule hrun v hv
    have hconfined : Confines (fun _ => True) Operand.HasSmall r := hrule.confines
    exact ((hconfined strategy s).value a (congrArg Prod.fst hrun) v hv).negatable
  · intro token s t v hrun
    have hconfined : Confines (fun _ => True) Small (intValue token) := confines_intValue token
    exact ((hconfined strategy s).value v (congrArg Prod.fst hrun)).negatable

/-- Two signs, three pairs of parentheses, and a literal with zeros in front. -/
theorem operands_exact_nested : ∃ (t : State Kind Ty (Symbol Kind Ty)) (ts : List (Token Kind)),
    expression .recovering (.initial classifier [.line "(-((-007)))"]) =
      (.value ⟨.integer, ⟨.minus, "-", ⟨1, 2⟩⟩, some 7⟩, t) ∧
    (State.initial classifier [.line "(-((-007)))"] : State Kind Ty (Symbol Kind Ty)).input =
      ts ++ t.input ∧
    ts.length = 9 ∧ (Operand.mk .integer ⟨.minus, "-", ⟨1, 2⟩⟩ (some 7)).Exact .full ts [] := by
  have hrun : expression .recovering (.initial classifier [.line "(-((-007)))"]) =
      (.value ⟨.integer, ⟨.minus, "-", ⟨1, 2⟩⟩, some 7⟩,
        (expression .recovering (.initial classifier [.line "(-((-007)))"])).2) := Prod.ext rfl rfl
  have hsink : (expression .recovering (.initial classifier [.line "(-((-007)))"])).2.sink =
      (State.initial classifier [.line "(-((-007)))"] : State Kind Ty (Symbol Kind Ty)).sink ++
        [] := rfl
  obtain ⟨ts, hinput, -, hexact⟩ := (operands_exact .recovering [.line "(-((-007)))"]).exact
    .expression (.initial classifier .recovering _) rfl hrun hsink (by simp)
  refine ⟨_, ts, hrun, hinput, ?_, hexact⟩
  have hlength : 10 = ts.length + 1 := by
    have hlengths := congrArg List.length hinput
    rwa [List.length_append] at hlengths
  omega

end SinglePass.Simple
