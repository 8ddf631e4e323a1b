import SinglePass.Proofs.Discipline
import SinglePass.Proofs.Dispatch
import SinglePass.Proofs.Correspondence.Runs

/-!
# The rules of Simple side by side

Each rule of Simple, run on two sources whose tokens stand for each other, runs side by side: one
lemma a rule.  What a rule hands out is a token, or it is compared only if the comparison is exact:
types, values, symbols.  No rule but a silent one looks at those.
-/

namespace SinglePass.Simple

open Recognizer Likeness

variable {L : Likeness Kind .ident} {name name' op op' token token' : Token Kind}
  {symbol? symbol?' : Option (Symbol Kind Ty)} {left left' right right' operand operand' : Operand}

/-- Two operands whose first tokens stand for each other, and which are the same otherwise. -/
structure Operand.Matches (L : Likeness Kind .ident) (o o' : Operand) : Prop where
  token : L.Like o.token o'.token
  type_eq : L.Exactly Eq o.type o'.type
  constant_eq : L.Exactly Eq o.constant o'.constant

/-- Two answers to a look-up. -/
abbrev SymbolsMatch (L : Likeness Kind .ident) : Option (Symbol Kind Ty) → Option (Symbol Kind Ty) →
    Prop := L.Exactly (Option.Rel (Symbol.Matches L.Like .ident))

/-! ## Type rules -/

/-- Do all tokens that stand for each other have the same text? -/
abbrev Verbatim (L : Likeness Kind .ident) : Prop := ∀ t t', L.Like t t' → t.text = t'.text

/-- A fault is reported side by side with the same fault, up to the texts in it. -/
theorem beside_reportFault (h : L.Like token token') {fault fault' : Fault}
    (hfault : Verbatim L → fault = fault') :
    L.Beside Eq (reportFault token fault : GrammarRule Unit) (reportFault token' fault') :=
  .report (.custom h fun hverbatim => by rw [hfault hverbatim])

/-- A fault is reported on one side if it is on the other. -/
theorem beside_reportFaultIf {p p' : Prop} [Decidable p] [Decidable p'] (hp : p ↔ p')
    (h : L.Like token token') {fault fault' : Fault} (hfault : Verbatim L → fault = fault') :
    L.Beside Eq (reportFaultIf p token fault : GrammarRule Unit)
      (reportFaultIf p' token' fault') :=
  .ite hp (fun _ => beside_reportFault h hfault) fun _ => .pure rfl

/-- A check of what tokens mean. -/
theorem beside_check {p p' : Prop} [Decidable p] [Decidable p'] (h : L.Like token token')
    {fault fault' : Fault} (hp : L.exact = true → (p ↔ p'))
    (hfault : L.exact = true → Verbatim L → fault = fault') :
    L.Beside (L.Exactly Eq) (reportFaultIf p token fault : GrammarRule Unit)
      (reportFaultIf p' token' fault') :=
  .meaning (reporting_reportFaultIf _ _ _).silent (reporting_reportFaultIf _ _ _).silent
    fun hexact => beside_reportFaultIf (hp hexact) h (hfault hexact)

/-- A target is a constant on both sides or on none. -/
theorem beside_checkTarget (hname : L.Like name name') (hsymbol : SymbolsMatch L symbol? symbol?') :
    L.Beside (L.Exactly Eq) (checkTarget name symbol? : GrammarRule Unit)
      (checkTarget name' symbol?') := by
  refine beside_check hname (fun hexact => ?_) fun _ hverbatim => by rw [hverbatim _ _ hname]
  cases hsymbol hexact with
  | none => exact Iff.rfl
  | some hmatches => rw [Option.any_some, Option.any_some, hmatches.isConst_eq]

/-- A name without indices has one type on both sides, unless meaning is left out. -/
theorem beside_unindexed (hname : L.Like name name') (hsymbol : SymbolsMatch L symbol? symbol?') :
    L.Beside (L.Exactly Eq) (unindexed name symbol? : GrammarRule Ty)
      (unindexed name' symbol?') := by
  refine .meaning (reporting_unindexed _ _).silent (reporting_unindexed _ _).silent
    fun hexact => ?_
  cases hsymbol hexact with
  | none => exact .pure rfl
  | some hmatches =>
    rw [unindexed, unindexed, hmatches.shape?_eq]
    split
    · exact .bind (beside_reportFault hname fun hverbatim => by rw [hverbatim _ _ hname])
        fun _ _ _ => .pure rfl
    · exact .pure hmatches.type_eq

/-- An index is checked against the same dimension, and is the same literal if it is one. -/
theorem beside_checkIndex (hexact : L.exact = true) (hname : L.Like name name') (shape : Shape)
    (d : Nat) {index index' : Operand} (hindex : index.Matches L index') :
    L.Beside Eq (checkIndex name shape d index : GrammarRule Unit)
      (checkIndex name' shape d index') := by
  refine .bind (.expectType hindex.token (hindex.type_eq hexact) rfl) fun _ _ _ => ?_
  rw [hindex.constant_eq hexact]
  split
  · exact beside_reportFaultIf Iff.rfl hindex.token fun hverbatim => by rw [hverbatim _ _ hname]
  · exact .pure rfl

/-- Indices are checked pair by pair. -/
theorem beside_checkIndices (hexact : L.exact = true) (hname : L.Like name name') (shape : Shape)
    (d : Nat) {indices indices' : List Operand}
    (h : List.Forall₂ (Operand.Matches L) indices indices') :
    L.Beside Eq (checkIndices name shape d indices : GrammarRule Unit)
      (checkIndices name' shape d indices') := by
  induction h generalizing d with
  | nil => exact .pure rfl
  | cons hindex _ ih =>
    exact .bind (beside_checkIndex hexact hname shape d hindex) fun _ _ _ => ih (d + 1)

/-- An indexed name has one type on both sides, and as many indices. -/
theorem beside_indexed (hname : L.Like name name') (hsymbol : SymbolsMatch L symbol? symbol?')
    {indices indices' : List Operand} (h : List.Forall₂ (Operand.Matches L) indices indices') :
    L.Beside (L.Exactly Eq) (indexed name symbol? indices : GrammarRule Ty)
      (indexed name' symbol?' indices') := by
  refine .meaning (reporting_indexed _ _ _).silent (reporting_indexed _ _ _).silent
    fun hexact => ?_
  cases hsymbol hexact with
  | none => exact .pure rfl
  | some hmatches =>
    simp only [indexed, hmatches.shape?_eq, hmatches.sort_eq]
    split
    · exact .bind (beside_reportFault hname fun hverbatim => by rw [hverbatim _ _ hname])
        fun _ _ _ => .pure rfl
    · exact .bind (beside_reportFaultIf (by rw [h.length_eq]) hname fun hverbatim => by
          rw [hverbatim _ _ hname, h.length_eq]) fun _ _ _ =>
        .bind (beside_checkIndices hexact hname _ _ h) fun _ _ _ => .pure hmatches.type_eq

/-- Arithmetic operators answer alike to operands that match. -/
theorem beside_arithmetic (hop : L.Like op op') (hleft : left.Matches L left')
    (hright : right.Matches L right') :
    L.Beside (L.Exactly Eq) (arithmetic op left right : GrammarRule Ty)
      (arithmetic op' left' right') := by
  refine .meaning (reporting_arithmetic _ _ _).silent (reporting_arithmetic _ _ _).silent
    fun hexact => ?_
  have hltype := hleft.type_eq hexact
  have hrtype := hright.type_eq hexact
  rw [arithmetic, arithmetic, hltype, hrtype]
  exact .ite Iff.rfl (fun _ => .pure rfl) fun _ => .ite Iff.rfl
    (fun _ => .bind (.expectType hright.token rfl rfl) fun _ _ hagrees =>
      .branch hagrees (.pure rfl) (.pure rfl))
    fun _ => .bind (beside_reportFault hop fun hverbatim => by rw [hverbatim _ _ hop])
      fun _ _ _ => .pure rfl

/-- Logical operators answer alike to operands that match. -/
theorem beside_logical (hleft : left.Matches L left') (hright : right.Matches L right') :
    L.Beside (L.Exactly Eq) (logical left right : GrammarRule Ty) (logical left' right') :=
  .meaning (reporting_logical _ _).silent (reporting_logical _ _).silent fun hexact =>
    .bind (.expectType hleft.token (hleft.type_eq hexact) rfl) fun _ _ _ =>
      .bind (.expectType hright.token (hright.type_eq hexact) rfl) fun _ _ _ => .pure rfl

/-- Comparisons answer alike to operands that match. -/
theorem beside_relational (hop : L.Like op op') (hleft : left.Matches L left')
    (hright : right.Matches L right') :
    L.Beside (L.Exactly Eq) (relational op left right : GrammarRule Ty)
      (relational op' left' right') := by
  refine .meaning (reporting_relational _ _ _).silent (reporting_relational _ _ _).silent
    fun hexact => ?_
  have hltype := hleft.type_eq hexact
  have hrtype := hright.type_eq hexact
  rw [relational, relational, hltype, hrtype, L.kind_eq hop]
  exact .ite Iff.rfl (fun _ => .pure rfl) fun _ => .ite Iff.rfl
    (fun _ => .bind (.expectType hright.token rfl rfl) fun _ _ _ => .pure rfl)
    fun _ => .bind (beside_reportFault hop fun hverbatim => by rw [hverbatim _ _ hop])
      fun _ _ _ => .pure rfl

/-- A sign answers alike to operands that match. -/
theorem beside_negation (hop : L.Like op op') (h : operand.Matches L operand') :
    L.Beside (L.Exactly Eq) (negation op operand : GrammarRule Ty) (negation op' operand') := by
  refine .meaning (reporting_negation _ _).silent (reporting_negation _ _).silent fun hexact => ?_
  rw [negation, negation, h.type_eq hexact]
  exact .ite Iff.rfl (fun _ => .pure rfl) fun _ => .ite Iff.rfl (fun _ => .pure rfl) fun _ =>
    .bind (beside_reportFault hop fun hverbatim => by rw [hverbatim _ _ hop])
      fun _ _ _ => .pure rfl

/-- A negation answers alike to operands that match. -/
theorem beside_complement (h : operand.Matches L operand') :
    L.Beside (L.Exactly Eq) (complement operand : GrammarRule Ty) (complement operand') :=
  .meaning (reporting_complement _).silent (reporting_complement _).silent fun hexact =>
    .bind (.expectType h.token (h.type_eq hexact) rfl) fun _ _ _ => .pure rfl

/-- A condition is checked alike on both sides. -/
theorem beside_condition (h : operand.Matches L operand') :
    L.Beside (L.Exactly Eq) (condition operand : GrammarRule Unit) (condition operand') :=
  .meaning (reporting_condition _).silent (reporting_condition _).silent fun hexact =>
    .bind (.expectType h.token (h.type_eq hexact) rfl) fun _ _ _ => .pure rfl

/-- The value of an assignment is checked against one type on both sides. -/
theorem beside_assignable {target target' : Ty} (htarget : L.Exactly Eq target target')
    (h : operand.Matches L operand') :
    L.Beside (L.Exactly Eq) (assignable target operand : GrammarRule Unit)
      (assignable target' operand') :=
  .meaning (reporting_assignable _ _).silent (reporting_assignable _ _).silent fun hexact =>
    .bind (.expectType h.token (h.type_eq hexact) (htarget hexact)) fun _ _ _ => .pure rfl

/-- Names that stand for each other are resolved to symbols that match. -/
theorem beside_resolve (h : L.LikeOf .ident name name') :
    L.Beside (SymbolsMatch L)
      (resolve name : GrammarRule (Option (Symbol Kind Ty))) (resolve name') :=
  .meaning (Reporting.resolve _).silent (Reporting.resolve _).silent fun hexact =>
    .resolve hexact h

/-! ## Declarations -/

/-- The value of a literal, which is not a name. -/
theorem beside_intValue (h : L.Like token token') (hkind : token.kind ≠ .ident) :
    L.Beside (L.Exactly Eq) (intValue token) (intValue token') := by
  refine .meaning (reporting_intValue _).silent (reporting_intValue _).silent fun hexact => ?_
  rw [intValue, intValue, L.text_eq hexact h hkind]
  split
  · exact .pure rfl
  · exact .bind (beside_reportFault h fun _ => rfl) fun _ _ _ => .pure rfl

/-- Literals with the same digits and the same sign have one value. -/
theorem beside_intConstant : L.Beside (L.Exactly Eq) intConstant intConstant := by
  refine .bind (.accept _) fun negative negative' hnegative => .bind (.mustBe _)
    fun token? token?' htoken => ?_
  cases htoken with
  | none => exact .pure fun _ => rfl
  | @some token token' htoken =>
    have hkind : token.kind ≠ .ident := fun h => by
      rw [htoken.2] at h
      cases h
    refine .bind (beside_intValue htoken.1 hkind) fun value value' hvalue => .pure fun hexact => ?_
    rw [hnegative, hvalue hexact]

/-- Dimensions that read alike have the same bounds. -/
theorem beside_dimension : L.Beside (L.Exactly Eq) dimension dimension := by
  refine .bind .lookahead fun first first' hfirst => .bind beside_intConstant
    fun lower lower' hlower => .bind (.accept _) fun _ _ hcolon => .branch hcolon ?_ ?_
  · refine .bind beside_intConstant fun upper upper' hupper => .bind (beside_check hfirst
      (fun hexact => ?_) fun hexact _ => ?_) fun _ _ _ => .pure fun hexact => ?_
    all_goals rw [hlower hexact, hupper hexact]
  · refine .bind (beside_check hfirst (fun hexact => ?_) fun hexact _ => ?_) fun _ _ _ =>
      .pure fun hexact => ?_
    all_goals rw [hlower hexact]

/-- Lists of dimensions grow alike. -/
theorem beside_moreDimensions {dims dims' : List Bounds} (h : L.Exactly Eq dims dims') :
    L.Beside (L.Exactly Eq) (moreDimensions dims) (moreDimensions dims') :=
  .whileSees (fun _ _ hdims => .bind .advance fun _ _ _ => .bind beside_dimension
    fun _ _ hdim => .pure fun hexact => by rw [hdims hexact, hdim hexact]) h

/-- A type is told from the kind of its token. -/
theorem beside_baseType : L.Beside Eq baseType baseType := by
  refine .bind .lookahead fun token token' htoken => ?_
  rw [L.kind_eq htoken]
  split
  · exact .bind .advance fun _ _ _ => .pure rfl
  · exact .bind (.unexpected _) fun _ _ _ => .pure rfl

/-- Types that read alike make symbols that match. -/
theorem beside_typeSpec (h : L.LikeOf .ident name name') :
    L.Beside (L.Exactly (Symbol.Matches L.Like .ident)) (typeSpec name) (typeSpec name') := by
  refine .bind (.accept _) fun _ _ harray => .branch harray ?_ ?_
  · refine .bind (.mustBe _) fun _ _ _ => .bind beside_dimension fun dim dim' hdim =>
      .bind (beside_moreDimensions fun hexact => by rw [hdim hexact]) fun dims dims' hdims =>
        .bind (.mustBe _) fun _ _ _ => .bind (.mustBe _) fun _ _ _ =>
          .bind beside_baseType fun type type' htype => .pure fun hexact => ?_
    rw [hdims hexact, htype]
    exact ⟨h.1, h.2, rfl, rfl⟩
  · refine .bind beside_baseType fun type type' htype => .pure fun _ => ?_
    rw [htype]
    exact ⟨h.1, h.2, rfl, rfl⟩

/-- A literal has the same text on both sides, as it is no name. -/
theorem beside_checkLiteral (type : Ty) (h : L.Like token token') (hkind : token.kind ≠ .ident) :
    L.Beside (L.Exactly Eq) (checkLiteral type token) (checkLiteral type token') :=
  .ite Iff.rfl (fun _ => .bind (beside_intValue h hkind) fun _ _ _ => .pure fun _ => rfl)
    fun _ => .pure fun _ => rfl

/-- A name is no literal. -/
theorem literalType?_ident (negative : Bool) : literalType? negative .ident = none := rfl

/-- A literal is told by its kind, which is the same on both sides. -/
theorem beside_literal : L.Beside Eq literal literal := by
  refine .bind (.accept _) fun negative negative' hnegative => ?_
  subst hnegative
  -- the token is looked at before it is consumed, and its kind is known from the look
  intro strategy hadmits s s' hs
  rw [lookahead_bind, lookahead_bind, ← hs.kind_eq]
  cases htype : literalType? negative s.lookahead.kind with
  | none =>
    exact Beside.bind (.unexpected _) (fun _ _ _ => .pure rfl) strategy hadmits s s' hs
  | some type =>
    have hkind : s.lookahead.kind ≠ .ident := fun h => by
      rw [h, literalType?_ident] at htype
      cases htype
    refine Beside.bindAt hadmits (Beside.advanceAt hs rfl) fun token token' htoken => ?_
    exact .bind (beside_checkLiteral type htoken.1 (htoken.2 ▸ hkind)) fun _ _ _ => .pure rfl

/-- Symbols that match are accepted on both sides or on none. -/
theorem beside_declareNoted {symbol symbol' : Symbol Kind Ty}
    (h : L.Exactly (Symbol.Matches L.Like .ident) symbol symbol') :
    L.Beside (L.Exactly Eq) (declareNoted symbol) (declareNoted symbol') :=
  .meaning (silent_declareNoted _) (silent_declareNoted _) fun hexact =>
    .bind (.declare hexact (h hexact)) fun _ _ hdeclared =>
      .branch hdeclared (.note (h hexact)) (.pure rfl)

/-- A declaration goes on at the same kinds on both sides. -/
theorem beside_declaration : L.Beside (L.Exactly Eq) declaration declaration := by
  refine .bind (.mustBe _) fun name? name?' hname => ?_
  cases hname with
  | none => exact .pure fun _ => rfl
  | some hname =>
    refine .bind (.accept _) fun _ _ has => .branch has ?_ ?_
    · exact .bind (beside_typeSpec hname) fun _ _ hsymbol => beside_declareNoted hsymbol
    · refine .bind (.accept _) fun _ _ hassign => .branch hassign ?_ ?_
      · refine .bind beside_literal fun type type' htype => beside_declareNoted fun _ => ?_
        rw [htype]
        exact ⟨hname.1, hname.2, rfl, rfl⟩
      · exact (Beside.unexpected _).imp fun _ _ hunit _ => hunit

/-- Declarations run side by side, round by round. -/
theorem beside_declarations : L.Beside (L.Exactly Eq) declarations declarations :=
  .bind beside_declaration fun _ _ _ =>
    .whileSees (fun _ _ _ => .bind .advance fun _ _ _ => beside_declaration) fun _ => rfl

/-! ## Expressions -/

section Expressions

variable {nested nested' : GrammarRule Operand}

/-- A designator has matching indices if nested expressions match. -/
theorem beside_designator (h : L.Beside (Operand.Matches L) nested nested')
    (hname : L.Like name name') (hsymbol : SymbolsMatch L symbol? symbol?') :
    L.Beside (L.Exactly Eq) (designator nested name symbol?)
      (designator nested' name' symbol?') := by
  refine .bind (.accept _) fun _ _ hbracket =>
    .branch hbracket ?_ (beside_unindexed hname hsymbol)
  have hround : ∀ indices indices', List.Forall₂ (Operand.Matches L) indices indices' →
      L.Beside (List.Forall₂ (Operand.Matches L))
        (do
          let _ ← advance
          return indices ++ [← nested])
        (do
          let _ ← advance
          return indices' ++ [← nested']) := fun indices indices' hindices =>
    .bind .advance fun _ _ _ => .bind h fun _ _ hindex =>
      .pure (List.rel_append hindices (.cons hindex .nil))
  exact .bind h fun _ _ hfirst => .bind (.whileSees hround (.cons hfirst .nil))
    fun _ _ hindices => .bind (.mustBe _) fun _ _ _ => beside_indexed hname hsymbol hindices

/-- Operands that match are combined into operands that match. -/
theorem beside_combine (hop : L.Like op op') (hleft : left.Matches L left')
    (hright : right.Matches L right') :
    L.Beside (Operand.Matches L) (combine op left right) (combine op' left' right') :=
  .ite (by rw [L.kind_eq hop])
    (fun _ => .bind (beside_logical hleft hright) fun _ _ htype =>
      .pure ⟨hleft.token, htype, fun _ => rfl⟩)
    fun _ => .bind (beside_arithmetic hop hleft hright) fun _ _ htype =>
      .pure ⟨hleft.token, htype, fun _ => rfl⟩

/-- Chains of matching operands match, operator by operator. -/
theorem beside_chain (operators : List Kind) (h : L.Beside (Operand.Matches L) nested nested')
    (hleft : left.Matches L left') :
    L.Beside (Operand.Matches L) (chain operators nested left) (chain operators nested' left') :=
  .whileSees (fun _ _ hleft => .bind .advance fun _ _ hop => .bind h fun _ _ hright =>
    beside_combine hop hleft hright) hleft

/-- Terms match if their factors do. -/
theorem beside_term (h : L.Beside (Operand.Matches L) nested nested') :
    L.Beside (Operand.Matches L) (term nested) (term nested') :=
  .bind h fun _ _ hleft => beside_chain _ h hleft

/-- Signed terms match if their factors do. -/
theorem beside_signedTerm (h : L.Beside (Operand.Matches L) nested nested') :
    L.Beside (Operand.Matches L) (signedTerm nested) (signedTerm nested') :=
  .bind (.sees _) fun _ _ hminus => .branch hminus
    (.bind .advance fun _ _ hop => .bind (beside_term h) fun _ _ hoperand =>
      .bind (beside_negation hop hoperand) fun _ _ htype =>
        .pure ⟨hop, htype, fun hexact => by rw [hoperand.constant_eq hexact]⟩)
    (beside_term h)

/-- Simple expressions match if their factors do. -/
theorem beside_simpleExpression (h : L.Beside (Operand.Matches L) nested nested') :
    L.Beside (Operand.Matches L) (simpleExpression nested) (simpleExpression nested') :=
  .bind (beside_signedTerm h) fun _ _ hleft => beside_chain _ (beside_term h) hleft

/-- Expressions match if their factors do. -/
theorem beside_expressionOf (h : L.Beside (Operand.Matches L) nested nested') :
    L.Beside (Operand.Matches L) (expressionOf nested) (expressionOf nested') :=
  .bind (beside_simpleExpression h) fun _ _ hleft => .bind .lookahead fun _ _ htoken =>
    .branch (by rw [L.kind_eq htoken])
      (.bind .advance fun _ _ hop => .bind (beside_simpleExpression h) fun _ _ hright =>
        .bind (beside_relational hop hleft hright) fun _ _ htype =>
          .pure ⟨hleft.token, htype, fun _ => rfl⟩)
      (.pure hleft)

end Expressions

/-- Both sides take the same alternative. -/
theorem beside_factor (n : Nat) : L.Beside (Operand.Matches L) (factor n) (factor n) := by
  induction n with
  | zero => exact .outOfFuel
  | succ n ih =>
    refine .bind .lookahead fun token token' htoken => ?_
    -- the kind that was looked at says whether the text of the token counts, or only its equality
    have hkind := L.kind_eq htoken
    rw [← hkind]
    split
    · next hident =>
      exact .bind .advance fun _ _ _ => .bind (beside_resolve ⟨htoken, hident⟩)
        fun _ _ hsymbol => .bind (beside_designator (beside_expressionOf ih) htoken hsymbol)
          fun _ _ htype => .pure ⟨htoken, htype, fun _ => rfl⟩
    · next hliteral =>
      have hne : token.kind ≠ .ident := fun h => by
        rw [hliteral] at h
        cases h
      exact .bind .advance fun _ _ _ => .bind (beside_intValue htoken hne) fun _ _ hvalue =>
        .pure ⟨htoken, fun _ => rfl, fun hexact => by rw [hvalue hexact]⟩
    · exact .bind .advance fun _ _ _ => .pure ⟨htoken, fun _ => rfl, fun _ => rfl⟩
    · exact .bind .advance fun _ _ _ => .pure ⟨htoken, fun _ => rfl, fun _ => rfl⟩
    · exact .bind .advance fun _ _ _ => .pure ⟨htoken, fun _ => rfl, fun _ => rfl⟩
    · exact .bind .advance fun _ _ _ => .bind ih fun _ _ hoperand =>
        .bind (beside_complement hoperand) fun _ _ htype =>
          .pure ⟨htoken, htype, fun _ => rfl⟩
    · exact .bind .advance fun _ _ _ => .bind (beside_expressionOf ih) fun _ _ hinner =>
        .bind (.mustBe _) fun _ _ _ => .pure hinner
    · exact .bind (.unexpected _) fun _ _ _ => .pure ⟨htoken, fun _ => rfl, fun _ => rfl⟩

/-- Expressions match, however deep they nest. -/
theorem beside_expression : L.Beside (Operand.Matches L) expression expression :=
  .withFuel fun n => beside_expressionOf (beside_factor n)

/-! ## Statements and programs -/

/-- An assignment begins with a name. -/
theorem beside_assignmentAt {strategy : Strategy} (hadmits : L.Admits strategy)
    {s s' : State Kind Ty (Symbol Kind Ty)} (hs : L.Twin s s') (hk : s.lookahead.kind = .ident) :
    L.BesideAt (L.Exactly Eq) (assignment strategy s) (assignment strategy s') := by
  refine Beside.bindAt hadmits (Beside.advanceAt hs hk) fun name name' hname => ?_
  exact .bind (beside_resolve hname) fun _ _ hsymbol =>
    .bind (beside_checkTarget hname.1 hsymbol) fun _ _ _ =>
      .bind (beside_designator beside_expression hname.1 hsymbol) fun _ _ htarget =>
        .bind (.mustBe _) fun _ _ _ => .bind beside_expression fun _ _ hvalue =>
          beside_assignable htarget hvalue

/-- What is read into is checked alike on both sides. -/
theorem beside_readStatement : L.Beside (L.Exactly Eq) readStatement readStatement := by
  refine .bind .advance fun _ _ _ => .bind (.mustBe _) fun name? name?' hname => ?_
  cases hname with
  | none => exact .pure fun _ => rfl
  | some hname =>
    exact .bind (beside_resolve hname) fun _ _ hsymbol =>
      .bind (beside_checkTarget hname.1 hsymbol) fun _ _ _ =>
        .bind (beside_unindexed hname.1 hsymbol) fun _ _ _ => .pure fun _ => rfl

/-- What is written out matches. -/
theorem beside_writeStatement : L.Beside (L.Exactly Eq) writeStatement writeStatement :=
  .bind .advance fun _ _ _ => .bind beside_expression fun _ _ _ => .pure fun _ => rfl

section Statements

variable {nested nested' : GrammarRule Unit}

/-- Statements in a row run side by side if each of them does. -/
theorem beside_statementsOf (h : L.Beside (L.Exactly Eq) nested nested') :
    L.Beside (L.Exactly Eq) (statementsOf nested) (statementsOf nested') :=
  .whileSees (fun _ _ _ => h) fun _ => rfl

/-- What stands behind `ELSE` is there on both sides or on none. -/
theorem beside_elsePart (h : L.Beside (L.Exactly Eq) nested nested') :
    L.Beside (L.Exactly Eq) (elsePart nested) (elsePart nested') :=
  .bind (.accept _) fun _ _ helse =>
    .branch helse (beside_statementsOf h) (.pure fun _ => rfl)

/-- A choice runs side by side if its branches do. -/
theorem beside_ifStatement (h : L.Beside (L.Exactly Eq) nested nested') :
    L.Beside (L.Exactly Eq) (ifStatement nested) (ifStatement nested') :=
  .bind .advance fun _ _ _ => .bind beside_expression fun _ _ hcondition =>
    .bind (beside_condition hcondition) fun _ _ _ => .bind (.mustBe _) fun _ _ _ =>
      .bind (beside_statementsOf h) fun _ _ _ => .bind (beside_elsePart h) fun _ _ _ =>
        .bind (.mustBe _) fun _ _ _ => .pure fun _ => rfl

/-- A loop runs side by side if its body does. -/
theorem beside_whileStatement (h : L.Beside (L.Exactly Eq) nested nested') :
    L.Beside (L.Exactly Eq) (whileStatement nested) (whileStatement nested') :=
  .bind .advance fun _ _ _ => .bind beside_expression fun _ _ hcondition =>
    .bind (beside_condition hcondition) fun _ _ _ => .bind (.mustBe _) fun _ _ _ =>
      .bind (beside_statementsOf h) fun _ _ _ => .bind (.mustBe _) fun _ _ _ =>
        .pure fun _ => rfl

/-- A block opens and closes a scope on both sides. -/
theorem beside_block (h : L.Beside (L.Exactly Eq) nested nested') :
    L.Beside (L.Exactly Eq) (block nested) (block nested') :=
  .bind .advance fun _ _ _ => .bind .openScope fun _ _ _ => .bind beside_declarations
    fun _ _ _ => .bind (.mustBe _) fun _ _ _ => .bind (beside_statementsOf h) fun _ _ _ =>
      .bind (.mustBe _) fun _ _ _ => .bind .closeScope fun _ _ _ => .pure fun _ => rfl

end Statements

/-- Statements run side by side, by induction on how deep they nest. -/
theorem beside_statement (n : Nat) : L.Beside (L.Exactly Eq) (statement n) (statement n) := by
  induction n with
  | zero => exact .outOfFuel
  | succ n ih =>
    -- an assignment relies on the look, so the two states are needed here
    intro strategy hadmits s s' hs
    rw [statement, lookahead_bind, lookahead_bind, ← hs.kind_eq]
    generalize hk : s.lookahead.kind = kind
    split
    · exact beside_assignmentAt hadmits hs hk
    · exact beside_ifStatement ih strategy hadmits s s' hs
    · exact beside_whileStatement ih strategy hadmits s s' hs
    · exact beside_readStatement strategy hadmits s s' hs
    · exact beside_writeStatement strategy hadmits s s' hs
    · exact beside_block ih strategy hadmits s s' hs
    · exact Beside.bind (.unexpected _) (fun _ _ _ => .bind .advance fun _ _ _ =>
        .pure fun _ => rfl) strategy hadmits s s' hs

/-- Statements in a row run side by side, however deep they nest. -/
theorem beside_statements : L.Beside (L.Exactly Eq) statements statements :=
  .withFuel fun n => beside_statementsOf (beside_statement n)

/-- Declarations in front of a program are there on both sides or on none. -/
theorem beside_optionalDeclarations :
    L.Beside (L.Exactly Eq) optionalDeclarations optionalDeclarations :=
  .bind (.accept _) fun _ _ hwith =>
    .branch hwith beside_declarations (.pure fun _ => rfl)

/-- **Two programs run side by side** if their tokens stand for each other. -/
theorem beside_program : L.Beside Eq program program :=
  .bind (.mustBe _) fun _ _ _ => .bind (.mustBe _) fun _ _ _ => .bind .openScope fun _ _ _ =>
    .bind beside_optionalDeclarations fun _ _ _ => .bind (.mustBe _) fun _ _ _ =>
      .bind beside_statements fun _ _ _ => .bind (.mustBe _) fun _ _ _ =>
        .bind .closeScope fun _ _ _ => .pure rfl

end SinglePass.Simple
