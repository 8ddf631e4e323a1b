import SinglePass.Proofs.Recognition.Declarations
import SinglePass.Proofs.Settling.Expressions

/-!
# Declarations settle

The rules of declarations do not nest, so they settle one after another, each from its parts.
-/

namespace SinglePass.Simple

open Recognizer Settles

variable {ι : Type} {m : Nat} {heads : Kind → Prop}

/-! ## Constants, dimensions and types -/

/-- `IntConst` after its sign and its literal. -/
def signedValue (negative : Bool) : Option (Token Kind) → GrammarRule Int64
  | none => return 0
  | some token => do
    let value ← intValue token
    return if negative then -value else value

/-- A constant settles with its sign, or without. -/
theorem intConstant_settles :
    Settles m heads (fun _ (_ : ι) => intConstant) (phrases IntConst.Derives) := by
  have hvalue : ∀ (heads : Kind → Prop) (negative : Bool),
      Settles m heads (fun _ (_ : ι) => mustBe Kind.intLiteral >>= signedValue negative)
        (tokens (· = Kind.intLiteral) * 1) := by
    intro heads negative
    refine Settles.mustBe (by decide) (silent fun _ p => ?_) fun _ _ => .pure _
    exact .bind (reporting_intValue p.2).silent fun _ => .pure _
  refine (accept (by decide) (hvalue _ true) (hvalue _ false)).mono ?_
  intro ts hts
  rw [mul_one] at hts
  rcases hts with hts | ⟨t, ht, rfl⟩
  · obtain ⟨_, ⟨sign, hsign, rfl⟩, _, ⟨t, ht, rfl⟩, rfl⟩ := Language.mem_mul.1 hts
    exact ⟨_, .signed hsign ht⟩
  · exact ⟨_, .plain ht⟩

/-- A dimension settles with one constant, or with two. -/
theorem dimension_settles :
    Settles m heads (fun _ (_ : ι) => dimension) (phrases Dim.Derives) := by
  have hrange : Settles m (fun _ => True)
      (fun _ (p : (ι × Token Kind) × Int64) => intConstant >>= fun upper =>
        reportFaultIf (upper < p.2) p.1.2 (.boundsReversed p.2 upper) >>= fun _ =>
          (pure (.ofEnds p.2 upper) : GrammarRule Bounds)) (phrases IntConst.Derives) :=
    thenSilent intConstant_settles fun _ _ _ =>
      .bind (reporting_reportFaultIf _ _ _).silent fun _ => .pure _
  have hsize : Settles m (fun kind => True ∧ kind ≠ .colon)
      (fun _ (p : (ι × Token Kind) × Int64) =>
        reportFaultIf (p.2 ≤ 0) p.1.2 (.sizeNotPositive p.2) >>= fun _ =>
          (pure (.ofSize p.2) : GrammarRule Bounds)) 1 :=
    silent fun _ _ => .bind (reporting_reportFaultIf _ _ _).silent fun _ => .pure _
  have hcolon : Kind.colon ≠ TokenKind.endOfFile := by decide
  refine (afterSilent (fun _ _ => .read _)
    (intConstant_settles.bind (accept hcolon hrange hsize))).mono ?_
  intro ts hts
  obtain ⟨us, ⟨lower, hlower⟩, vs, hvs, rfl⟩ := Language.mem_mul.1 hts
  rcases hvs with hvs | hvs
  · obtain ⟨_, ⟨colon, hcolon, rfl⟩, ws, ⟨upper, hupper⟩, rfl⟩ := Language.mem_mul.1 hvs
    exact ⟨_, .range hlower hcolon hupper⟩
  · rw [(Language.mem_one _).1 hvs, List.append_nil]
    exact ⟨_, .size hlower⟩

/-- Further dimensions settle with a comma in front of each. -/
theorem moreDimensions_settles (dims : ι → List Bounds) :
    Settles m heads (fun _ i => moreDimensions (dims i)) (phrases (CommaRepeated Dim.Derives)) := by
  have hitem : Settles m (fun _ => True)
      (fun _ (p : ι × List Bounds) => dimension >>= fun dim =>
        (pure (p.2 ++ [dim]) : GrammarRule (List Bounds))) (phrases Dim.Derives) :=
    thenSilent dimension_settles fun _ _ _ => .pure _
  exact commas_settles hitem fun _ i => dims i

/-- The tokens that name base types. -/
def typeWords : Language (Token Kind) := tokens fun kind => (Ty.ofKeyword? kind).isSome = true

/-- A base type settles with its keyword. -/
theorem baseType_settles : Settles m heads (fun _ (_ : ι) => baseType) typeWords := by
  have hthere : Settles m (fun kind => (Ty.ofKeyword? kind).isSome = true)
      (fun _ (_ : ι) => advance >>= fun token =>
        (pure ((Ty.ofKeyword? token.kind).getD .undefined) : GrammarRule Ty)) (typeWords * 1) :=
    advance (silent fun _ _ => .pure _) ⟨.kwInteger, rfl⟩ (by decide)
  rw [mul_one] at hthere
  have hother : Settles m (fun kind => heads kind ∧ ¬ (Ty.ofKeyword? kind).isSome = true)
      (fun _ (_ : ι) => unexpected (.description "a type") >>= fun _ =>
        (pure .undefined : GrammarRule Ty)) typeWords :=
    Settles.unexpected _ hthere.inhabited fun _ _ => .pure _
  refine select (fun kind => (Ty.ofKeyword? kind).isSome = true) hthere
    (hother.congr (fun _ _ => (disciplined_baseType : Disciplined false _).composed) ?_) ?_
  · rintro n i s - ⟨-, hk⟩ -
    have hnone : Ty.ofKeyword? s.lookahead.kind = none := by simpa using hk
    unfold baseType
    rw [lookahead_bind]
    simp only [hnone]
  · intro n i s hk
    obtain ⟨type, htype⟩ := Option.isSome_iff_exists.1 hk
    show baseType .recovering s =
      (.value ((Ty.ofKeyword? s.lookahead.kind).getD .undefined), s.shift)
    unfold baseType
    rw [lookahead_bind]
    simp only [htype]
    rfl

/-- A type settles with its dimensions, or without. -/
theorem typeSpec_settles (name : ι → Token Kind) :
    Settles m heads (fun _ i => typeSpec (name i)) (phrases TypeSpec.Derives) := by
  have helement : Settles m (fun _ => True)
      (fun _ (p : (ι × Bounds) × List Bounds) => mustBe Kind.rightBracket >>= fun _ =>
        mustBe Kind.kwOf >>= fun _ => baseType >>= fun element =>
          (pure (.array (name p.1.1) element p.2) : GrammarRule (Symbol Kind Ty)))
      (tokens (· = Kind.rightBracket) * (tokens (· = Kind.kwOf) * typeWords)) :=
    require (by decide) (require (by decide)
      (thenSilent baseType_settles fun _ _ _ => .pure _))
  have harray : Settles m (fun _ => True)
      (fun _ i => mustBe Kind.leftBracket >>= fun _ => dimension >>= fun dim =>
        moreDimensions [dim] >>= fun dims => mustBe Kind.rightBracket >>= fun _ =>
          mustBe Kind.kwOf >>= fun _ => baseType >>= fun element =>
            (pure (.array (name i) element dims) : GrammarRule (Symbol Kind Ty)))
      (tokens (· = Kind.leftBracket) * (phrases Dim.Derives * (phrases (CommaRepeated Dim.Derives) *
        (tokens (· = Kind.rightBracket) * (tokens (· = Kind.kwOf) * typeWords))))) :=
    require (by decide) (dimension_settles.bind
      ((moreDimensions_settles fun p : ι × Bounds => [p.2]).bind helement))
  have hbase : Settles m (fun kind => heads kind ∧ kind ≠ .kwArray)
      (fun _ i => baseType >>= fun type =>
        (pure (.var (name i) type) : GrammarRule (Symbol Kind Ty))) typeWords :=
    thenSilent baseType_settles fun _ _ _ => .pure _
  refine (accept (by decide) harray hbase).mono ?_
  intro ts hts
  rcases hts with hts | ⟨t, ht, rfl⟩
  · obtain ⟨_, ⟨array, harray, rfl⟩, us, hus, rfl⟩ := Language.mem_mul.1 hts
    obtain ⟨_, ⟨opening, hopening, rfl⟩, vs, hvs, rfl⟩ := Language.mem_mul.1 hus
    obtain ⟨first, ⟨dim, hdim⟩, ws, hws, rfl⟩ := Language.mem_mul.1 hvs
    obtain ⟨more, ⟨dims, hdims⟩, xs, hxs, rfl⟩ := Language.mem_mul.1 hws
    obtain ⟨_, ⟨closing, hclosing, rfl⟩, ys, hys, rfl⟩ := Language.mem_mul.1 hxs
    obtain ⟨_, ⟨ofWord, hof, rfl⟩, _, ⟨t, ht, rfl⟩, rfl⟩ := Language.mem_mul.1 hys
    obtain ⟨element, helement⟩ := Option.isSome_iff_exists.1 ht
    refine ⟨.array (dim :: dims) element, ?_⟩
    show TypeSpec.Derives (array :: opening :: (first ++ (more ++ [closing, ofWord, t]))) _
    rw [← List.append_assoc]
    exact .array harray hopening (.intro hdim hdims) hclosing hof helement
  · obtain ⟨type, htype⟩ := Option.isSome_iff_exists.1 ht
    exact ⟨_, .base htype⟩

/-! ## Literals -/

/-- The tokens of literals; only those of numbers may have a sign. -/
def literalWords (negative : Bool) : Language (Token Kind) :=
  tokens fun kind => (literalType? negative kind).isSome = true

/-- What stands behind a sign settles, and after a minus it is a number. -/
theorem literalAfterSign_settles (negative : Bool) :
    Settles m heads (fun _ (_ : ι) => literalAfterSign negative) (literalWords negative) := by
  have hcomposed : Composed (literalAfterSign negative) := by
    refine .bind .lookahead fun token => ?_
    split
    · exact .bind (.unexpected _) fun _ => .pure _
    · exact .bind .advance fun _ =>
        .bind (reporting_checkLiteral _ _).silent.composed fun _ => .pure _
  have hthere : Settles m (fun kind => (literalType? negative kind).isSome = true)
      (fun _ (_ : ι) => advance >>= fun token =>
        checkLiteral ((literalType? negative token.kind).getD .undefined) token >>= fun _ =>
          (pure ((literalType? negative token.kind).getD .undefined) : GrammarRule Ty))
      (literalWords negative * 1) := by
    refine advance (silent fun _ _ => .bind (reporting_checkLiteral _ _).silent fun _ => .pure _)
      ⟨.intLiteral, rfl⟩ ?_
    cases negative <;> decide
  rw [mul_one] at hthere
  have hother : Settles m (fun kind => heads kind ∧ ¬ (literalType? negative kind).isSome = true)
      (fun _ (_ : ι) => unexpected (.description "a literal") >>= fun _ =>
        (pure .undefined : GrammarRule Ty)) (literalWords negative) :=
    Settles.unexpected _ hthere.inhabited fun _ _ => .pure _
  refine select (fun kind => (literalType? negative kind).isSome = true) hthere
    (hother.congr (fun _ _ => hcomposed) ?_) ?_
  · rintro n i s - ⟨-, hk⟩ -
    have hnone : literalType? negative s.lookahead.kind = none := by simpa using hk
    unfold literalAfterSign
    rw [lookahead_bind]
    simp only [hnone]
  · intro n i s hk
    obtain ⟨type, htype⟩ := Option.isSome_iff_exists.1 hk
    have hlook : (advance : GrammarRule (Token Kind)) .recovering s =
        (.value s.lookahead, s.shift) := rfl
    unfold literalAfterSign
    rw [lookahead_bind, bind_of_value hlook]
    simp only [htype]
    rfl

/-- What stands behind a sign is a single token. -/
theorem mem_literalWords {negative : Bool} {ts : List (Token Kind)}
    (h : ts ∈ literalWords negative) :
    ∃ t : Token Kind, ts = [t] ∧ (t.kind = .intLiteral ∨ t.kind = .realLiteral ∨
      negative = false ∧ (t.kind = .kwTrue ∨ t.kind = .kwFalse)) := by
  obtain ⟨t, ht, rfl⟩ := h
  refine ⟨t, rfl, ?_⟩
  generalize t.kind = kind at ht
  cases kind <;> cases negative <;> first | exact absurd ht (by decide) | simp

/-- A literal settles with its sign, or without. -/
theorem literal_settles :
    Settles m heads (fun _ (_ : ι) => literal) (phrases Literal.Derives) := by
  have hsigned : Settles m (fun _ => True) (fun _ (_ : ι) => literalAfterSign true) _ :=
    literalAfterSign_settles true
  refine (accept (by decide) hsigned (literalAfterSign_settles false)).mono ?_
  intro ts hts
  rcases hts with hts | hts
  · obtain ⟨_, ⟨sign, hsign, rfl⟩, us, hus, rfl⟩ := Language.mem_mul.1 hts
    obtain ⟨t, rfl, ht | ht | ⟨hfalse, -⟩⟩ := mem_literalWords hus
    · exact ⟨_, .integer (.signed hsign ht)⟩
    · exact ⟨_, .signedReal hsign ht⟩
    · simp at hfalse
  · obtain ⟨t, rfl, ht | ht | ⟨-, ht⟩⟩ := mem_literalWords hts
    · exact ⟨_, .integer (.plain ht)⟩
    · exact ⟨_, .real ht⟩
    · exact ⟨_, .boolean ht⟩

/-! ## Declarations -/

/-- `Decl` after its name. -/
def declarationOf (name : Token Kind) : GrammarRule Unit := do
  if ← accept .kwAs then
    declareNoted (← typeSpec name)
  else if ← accept .assign then
    declareNoted (.const name (← literal))
  else
    unexpected (.description "'AS' or '='")

/-- A declaration settles with its type or its literal. -/
theorem declaration_settles :
    Settles m heads (fun _ (_ : ι) => declaration) (phrases Decl.Derives) := by
  have htyped : Settles m (fun _ => True)
      (fun _ (p : ι × Token Kind) => typeSpec p.2 >>= declareNoted) (phrases TypeSpec.Derives) :=
    thenSilent (typeSpec_settles Prod.snd) fun _ _ _ => silent_declareNoted _
  have hconst : Settles m (fun _ => True)
      (fun _ (p : ι × Token Kind) => literal >>= fun type => declareNoted (.const p.2 type))
      (phrases Literal.Derives) :=
    thenSilent literal_settles fun _ _ _ => silent_declareNoted _
  have hword : ∃ ts, ts ∈ tokens (· = Kind.assign) * phrases Literal.Derives :=
    ⟨_, Language.mem_mul.2 ⟨[⟨.assign, "", ⟨1, 1⟩⟩], ⟨_, rfl, rfl⟩, [⟨.realLiteral, "", ⟨1, 1⟩⟩],
      ⟨_, .real rfl⟩, rfl⟩⟩
  have hother : Settles m (fun kind => (True ∧ kind ≠ .kwAs) ∧ kind ≠ .assign)
      (fun _ (_ : ι × Token Kind) =>
        (unexpected (.description "'AS' or '='") : GrammarRule Unit)) _ :=
    lastUnexpected _ hword
  have hnamed : Settles m (fun _ => True) (fun _ (p : ι × Token Kind) => declarationOf p.2) _ :=
    accept (by decide) htyped (accept (by decide) hconst hother)
  have hdeclaration : Settles m heads (fun _ (_ : ι) => declaration)
      (tokens (· = Kind.ident) * _) :=
    Settles.mustBe (by decide) hnamed fun _ _ => .pure _
  refine hdeclaration.mono ?_
  intro ts hts
  obtain ⟨_, ⟨name, hname, rfl⟩, us, hus, rfl⟩ := Language.mem_mul.1 hts
  have hcases : us ∈ tokens (· = Kind.kwAs) * phrases TypeSpec.Derives ∨
      us ∈ tokens (· = Kind.assign) * phrases Literal.Derives := by
    rcases hus with hus | hus | hus
    · exact .inl hus
    · exact .inr hus
    · exact .inr hus
  rcases hcases with hus | hus
  · obtain ⟨_, ⟨asWord, hword, rfl⟩, vs, ⟨spec, hspec⟩, rfl⟩ := Language.mem_mul.1 hus
    exact ⟨_, .typed hname hword hspec⟩
  · obtain ⟨_, ⟨assign, hword, rfl⟩, vs, ⟨value, hvalue⟩, rfl⟩ := Language.mem_mul.1 hus
    exact ⟨_, .const hname hword hvalue⟩

/-- Declarations settle with commas between them. -/
theorem declarations_settle :
    Settles m heads (fun _ (_ : ι) => declarations) (phrases (CommaList Decl.Derives)) := by
  have hmore : Settles m (fun _ => True)
      (fun _ (_ : ι × Unit) => whileSees (· = Kind.comma) (fun _ => advance >>= fun _ =>
        (declaration : GrammarRule Unit)) ()) (phrases (CommaRepeated Decl.Derives)) :=
    commas_settles declaration_settles fun _ _ => ()
  refine (declaration_settles.bind hmore).mono ?_
  intro ts hts
  obtain ⟨us, ⟨d, hd⟩, vs, ⟨ds, hds⟩, rfl⟩ := Language.mem_mul.1 hts
  exact ⟨_, .intro hd hds⟩

end SinglePass.Simple
