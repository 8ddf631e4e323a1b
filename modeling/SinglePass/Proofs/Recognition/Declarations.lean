import SinglePass.Proofs.Recognition.Expressions

/-!
# Derivable declarations are recognized

Constants, dimensions, types and literals are read like expressions, whatever follows them; only a
dimension must not be followed by a colon.  A list of declarations, read in the innermost scope,
leaves that scope with the symbols that the walk of the syntax tree accepts, records the faults
that it lists, and notes the accepted symbols down (`declarations_facing`).
-/

namespace SinglePass.Simple

open Recognizer

variable {t x : Token Kind} {ts us rest : List (Token Kind)} {env : Env} {sink : Faults}
  {notes : List (Symbol Kind Ty)}

/-- Any token may follow. -/
abbrev anyKind : Kind → Prop := fun _ => True

/-! ## Constants, dimensions and types -/

/-- A constant is read with its value, and with the fault of its literal. -/
theorem IntConst.Derives.reads {c : IntConst} (h : c.Derives ts) (n : Nat) (env : Env) :
    Reads intConstant n anyKind env ts c.value c.faults := by
  intro x rest sink notes _ _
  cases h with
  | @plain t ht =>
    have hsign : t.kind ≠ .minus := by simp [ht]
    unfold intConstant
    rw [List.singleton_append, bind_of_value (accept_facing_of_ne hsign),
      bind_of_value (mustBe_facing ht (by simp))]
    exact bind_of_value (intValue_calm rfl t) _
  | @signed sign t hsign ht =>
    unfold intConstant
    rw [List.cons_append, List.singleton_append,
      bind_of_value (accept_facing_of_eq hsign (by simp)),
      bind_of_value (mustBe_facing ht (by simp))]
    exact bind_of_value (intValue_calm rfl t) _

/-- A constant begins with its first token, which is not a colon. -/
theorem IntConst.Derives.head {c : IntConst} (h : c.Derives ts) :
    ∃ us, ts = c.first :: us := by
  cases h with
  | plain _ => exact ⟨[], rfl⟩
  | signed _ _ => exact ⟨_, rfl⟩

/-- A dimension is read with its bounds, in front of anything but a colon. -/
theorem Dim.Derives.reads {d : Dim} (h : d.Derives ts) (n : Nat) (env : Env) :
    Reads dimension n (· ≠ .colon) env ts d.bounds d.faults := by
  intro x rest sink notes hx hn
  cases h with
  | @size _ c hc =>
    have hlook : lookahead .recovering (facing (ts ++ x :: rest) env sink notes) =
        (.value c.first, facing (ts ++ x :: rest) env sink notes) := by
      obtain ⟨us, rfl⟩ := hc.head
      exact lookahead_facing
    unfold dimension
    rw [bind_of_value hlook, bind_of_value (hc.reads n env x rest sink notes trivial hn),
      bind_of_value (accept_facing_of_ne hx), if_neg Bool.false_ne_true,
      bind_of_value (reportFaultIf_calm rfl _ _ _), pure_apply, recordAll_facing, Dim.faults,
      List.append_assoc]
    rfl
  | @range colon ts us c c' hc hcolon hc' =>
    rw [List.append_assoc, List.cons_append] at hn ⊢
    have hlook : lookahead .recovering (facing (ts ++ colon :: (us ++ x :: rest)) env sink notes) =
        (.value c.first, facing (ts ++ colon :: (us ++ x :: rest)) env sink notes) := by
      obtain ⟨us, rfl⟩ := hc.head
      exact lookahead_facing
    unfold dimension
    simp only [List.length_append, List.length_cons] at hn
    have hupper := hc'.reads n env x rest (sink ++ c.faults) notes trivial
      (by simp only [List.length_append, List.length_cons]; omega)
    rw [bind_of_value hlook, bind_of_value (hc.reads n env colon _ sink notes trivial
        (by simp only [List.length_append, List.length_cons]; omega)),
      bind_of_value (accept_facing_of_eq hcolon (by simp)), if_pos rfl, bind_of_value hupper,
      bind_of_value (reportFaultIf_calm rfl _ _ _), pure_apply, recordAll_facing, Dim.faults]
    simp only [List.append_assoc]
    rfl

/-- A base type is read as the type of its keyword. -/
theorem baseType_facing {type : Ty} (h : Ty.ofKeyword? t.kind = some type) (hts : ts ≠ []) :
    baseType .recovering (facing (t :: ts) env sink notes) =
      (.value type, facing ts env sink notes) := by
  have hrule : baseType .recovering (facing (t :: ts) env sink notes) =
      (do let _ ← advance; return type : GrammarRule Ty) .recovering
        (facing (t :: ts) env sink notes) := by
    unfold baseType
    rw [bind_of_value lookahead_facing]
    simp only [h]
  rw [hrule, bind_of_value (advance_facing hts), pure_apply]

/-- A type is read as the symbol that a name of this type stands for. -/
theorem TypeSpec.Derives.reads {spec : TypeSpec} (h : spec.Derives ts) (name : Token Kind)
    (n : Nat) (env : Env) :
    Reads (typeSpec name) n anyKind env ts (Decl.typed name spec).symbol
      (Decl.typed name spec).faults := by
  intro x rest sink notes _ hn
  cases h with
  | @base t type ht =>
    have hkind : t.kind ≠ .kwArray := by
      intro hk
      simp [hk, Ty.ofKeyword?] at ht
    unfold typeSpec
    rw [List.singleton_append, bind_of_value (accept_facing_of_ne hkind),
      if_neg Bool.false_ne_true, bind_of_value (baseType_facing ht (by simp)), pure_apply]
    simp only [Decl.faults, List.append_nil]
    rfl
  | @array arrayWord opening closing ofWord t ts dims element harray hopening hdims hclosing hof
      ht =>
    obtain @⟨ts, us, d, ds, hd, hds⟩ := hdims
    have hbracket : closing.kind ≠ .colon := by simp [hclosing]
    have hreads : CommaRepeated (fun ts d => Reads dimension n (· ≠ .colon) env ts (Dim.bounds d)
        (Dim.faults d)) us ds := hds.mono fun _ _ h => h.reads n env
    simp only [List.cons_append, List.append_assoc, List.nil_append, List.length_cons,
      List.length_append] at hn ⊢
    obtain ⟨hitem, hloop⟩ := commaList_reads (by simp) (hd.reads n env) hreads closing
      (ofWord :: t :: x :: rest) sink notes hbracket (by simp [hclosing])
      (by simp only [List.length_append, List.length_cons]; omega)
    unfold typeSpec moreDimensions
    rw [bind_of_value (accept_facing_of_eq harray (by simp)), if_pos rfl,
      bind_of_value (mustBe_facing hopening (by simp)), bind_of_value hitem, bind_of_value hloop,
      bind_of_value (mustBe_facing hclosing (by simp)), bind_of_value (mustBe_facing hof (by simp)),
      bind_of_value (baseType_facing ht (by simp)), pure_apply]
    rfl

/-! ## Literals -/

/-- `Literal` after its sign. -/
def literalAfterSign (negative : Bool) : GrammarRule Ty := do
  match literalType? negative (← lookahead).kind with
  | none =>
    unexpected (.description "a literal")
    return .undefined
  | some type =>
    checkLiteral type (← advance)
    return type

/-- A literal is a sign, or none, and what stands behind it. -/
theorem literal_eq : literal = accept .minus >>= literalAfterSign := rfl

/-- Behind its sign, a literal is read with its type, and with its fault if it is too large. -/
theorem literalAfterSign_facing {negative : Bool} {type : Ty}
    (h : literalType? negative t.kind = some type) (hts : ts ≠ []) :
    literalAfterSign negative .recovering (facing (t :: ts) env sink notes) =
      (.value type, facing ts env
        (sink ++ if type = .integer then Expr.literalFaults t else []) notes) := by
  have hcheck : checkLiteral type t .recovering (facing ts env sink notes) =
      (.value (), facing ts env (sink ++ if type = .integer then Expr.literalFaults t else [])
        notes) := by
    unfold checkLiteral
    by_cases htype : type = .integer
    · rw [if_pos htype, if_pos htype, bind_of_value (intValue_calm rfl t), pure_apply,
        recordAll_facing]
    · rw [if_neg htype, if_neg htype, pure_apply, List.append_nil]
  unfold literalAfterSign
  rw [bind_of_value lookahead_facing]
  simp only [h]
  rw [bind_of_value (advance_facing hts), bind_of_value hcheck, pure_apply]

/-- A literal is read with its type and its faults. -/
theorem Literal.Derives.reads {v : Literal} (h : v.Derives ts) (name : Token Kind) (n : Nat)
    (env : Env) :
    Reads literal n anyKind env ts v.type (Decl.const name v).faults := by
  intro x rest sink notes _ _
  rw [literal_eq]
  cases h with
  | @integer _ c hc =>
    cases hc with
    | plain ht =>
      rw [List.singleton_append, bind_of_value (accept_facing_of_ne (by simp [ht])),
        literalAfterSign_facing (by rw [ht]; rfl) (by simp), if_pos rfl]
      rfl
    | signed hsign ht =>
      rw [List.cons_append, List.singleton_append,
        bind_of_value (accept_facing_of_eq hsign (by simp)),
        literalAfterSign_facing (by rw [ht]; rfl) (by simp), if_pos rfl]
      rfl
  | real ht =>
    rw [List.singleton_append, bind_of_value (accept_facing_of_ne (by simp [ht])),
      literalAfterSign_facing (by rw [ht]; rfl) (by simp), if_neg (by decide)]
    rfl
  | signedReal hsign ht =>
    rw [List.cons_append, List.singleton_append,
      bind_of_value (accept_facing_of_eq hsign (by simp)),
      literalAfterSign_facing (by rw [ht]; rfl) (by simp), if_neg (by decide)]
    rfl
  | @boolean t ht =>
    have hsign : t.kind ≠ .minus := by
      rcases ht with ht | ht <;> simp [ht]
    have htype : literalType? false t.kind = some .boolean := by
      rcases ht with ht | ht <;> rw [ht] <;> rfl
    rw [List.singleton_append, bind_of_value (accept_facing_of_ne hsign),
      literalAfterSign_facing htype (by simp), if_neg (by decide)]
    rfl

/-! ## Declarations -/

section

variable {scope : List (Symbol Kind Ty)} {d : Decl} {ds : List Decl}

/-- Declarations are accepted one after another. -/
theorem Decl.accepted_cons (scope : List (Symbol Kind Ty)) (d : Decl) (ds : List Decl) :
    accepted scope (d :: ds) =
      accepted scope [d] ++ accepted (scope ++ accepted scope [d]) ds := by
  rw [accepted, accepted]
  cases scope.find? fun symbol => symbol.name = d.name.text with
  | some first => simp only [accepted, List.append_nil, List.nil_append]
  | none => simp only [accepted, List.singleton_append]

/-- The faults of the first declaration come before those of the rest. -/
theorem Decl.faultsAll_cons (scope : List (Symbol Kind Ty)) (d : Decl) (ds : List Decl) :
    faultsAll scope (d :: ds) =
      faultsAll scope [d] ++ faultsAll (scope ++ accepted scope [d]) ds := by
  rw [faultsAll, faultsAll, accepted]
  cases scope.find? fun symbol => symbol.name = d.name.text with
  | some first => simp only [faultsAll, accepted, List.append_nil, List.append_assoc,
      List.singleton_append]
  | none => simp only [faultsAll, accepted, List.append_nil]

/-- A symbol is declared with its faults, and accepted unless its name is taken. -/
theorem declareNoted_symbol :
    declareNoted d.symbol .recovering (facing ts (scope :: env) (sink ++ d.faults) notes) =
      (.value (), facing ts ((scope ++ Decl.accepted scope [d]) :: env)
        (sink ++ Decl.faultsAll scope [d]) (notes ++ Decl.accepted scope [d])) := by
  have hname : d.symbol.name = d.name.text := congrArg Token.text d.symbol_token
  rw [Decl.faultsAll, Decl.accepted]
  cases hfind : scope.find? fun symbol => symbol.name = d.name.text with
  | some first =>
    rw [declareNoted_of_some (by rw [hname]; exact hfind), d.symbol_token]
    simp only [Decl.faultsAll, Decl.accepted, List.append_nil, List.append_assoc]
  | none =>
    rw [declareNoted_of_none (by rw [hname]; exact hfind)]
    simp only [Decl.faultsAll, Decl.accepted, List.append_nil]

/-- A declaration is read with its faults, and its symbol is accepted unless its name is taken. -/
theorem declaration_facing (h : d.Derives ts) :
    declaration .recovering (facing (ts ++ x :: rest) (scope :: env) sink notes) =
      (.value (), facing (x :: rest) ((scope ++ Decl.accepted scope [d]) :: env)
        (sink ++ Decl.faultsAll scope [d]) (notes ++ Decl.accepted scope [d])) := by
  unfold declaration
  cases h with
  | @typed name asWord ts spec hname has hspec =>
    have hread := hspec.reads name (ts ++ x :: rest).length (scope :: env) x rest sink notes trivial
      (Nat.le_refl _)
    rw [List.cons_append, List.cons_append, bind_of_value (mustBe_facing hname (by simp))]
    exact (bind_of_value (accept_facing_of_eq has (by simp)) _).trans
      ((bind_of_value hread _).trans declareNoted_symbol)
  | @const name assign ts v hname hassign hv =>
    have hread := hv.reads name (ts ++ x :: rest).length (scope :: env) x rest sink notes trivial
      (Nat.le_refl _)
    have hkind : assign.kind ≠ .kwAs := by simp [hassign]
    rw [List.cons_append, List.cons_append, bind_of_value (mustBe_facing hname (by simp))]
    exact (bind_of_value (accept_facing_of_ne hkind) _).trans
      ((bind_of_value (accept_facing_of_eq hassign (by simp)) _).trans
        ((bind_of_value hread _).trans declareNoted_symbol))

/-- The loop over declarations reads one of them in each round. -/
theorem iterate_declarations {us : List (Token Kind)} {ds : List Decl}
    (h : CommaRepeated Decl.Derives us ds) (hx : x.kind ≠ .comma) (m : Nat)
    (hm : (us ++ x :: rest).length ≤ m) (scope : List (Symbol Kind Ty)) (sink : Faults)
    (notes : List (Symbol Kind Ty)) :
    iterate (· = .comma) (fun _ => do
        let _ ← advance
        declaration) m () .recovering (facing (us ++ x :: rest) (scope :: env) sink notes) =
      (.value (), facing (x :: rest) ((scope ++ Decl.accepted scope ds) :: env)
        (sink ++ Decl.faultsAll scope ds) (notes ++ Decl.accepted scope ds)) := by
  induction h generalizing m scope sink notes with
  | nil =>
    rw [Decl.accepted, Decl.faultsAll, List.append_nil, List.append_nil, List.append_nil]
    apply iterate_facing_of_not_test
    · simp only [List.nil_append, List.length_cons] at hm
      omega
    · simpa using hx
  | @cons comma ts us d ds hcomma hd htail ih =>
    simp only [List.cons_append, List.append_assoc, List.length_cons, List.length_append] at hm
    obtain ⟨m, rfl⟩ : ∃ k, m = k + 1 := ⟨m - 1, by omega⟩
    obtain ⟨y, ys, hnext, -⟩ := htail.next x rest
    have hbody : (do
        let _ ← advance
        declaration : GrammarRule Unit) .recovering
          (facing (comma :: (ts ++ (us ++ x :: rest))) (scope :: env) sink notes) =
        (.value (), facing (us ++ x :: rest) ((scope ++ Decl.accepted scope [d]) :: env)
          (sink ++ Decl.faultsAll scope [d]) (notes ++ Decl.accepted scope [d])) := by
      rw [bind_of_value (advance_facing (by simp)), hnext, declaration_facing hd]
    rw [List.cons_append, List.append_assoc, iterate_facing_of_test _ (by simp [hcomma]),
      bind_of_value hbody, ih m (by simp only [List.length_append, List.length_cons]; omega),
      Decl.accepted_cons scope d ds, Decl.faultsAll_cons scope d ds]
    simp only [List.append_assoc]

/-- A list of declarations fills the innermost scope with the accepted symbols. -/
theorem declarations_facing (h : CommaList Decl.Derives ts ds) (hx : x.kind ≠ .comma) :
    declarations .recovering (facing (ts ++ x :: rest) (scope :: env) sink notes) =
      (.value (), facing (x :: rest) ((scope ++ Decl.accepted scope ds) :: env)
        (sink ++ Decl.faultsAll scope ds) (notes ++ Decl.accepted scope ds)) := by
  obtain @⟨ts, us, d, ds, hd, hmore⟩ := h
  obtain ⟨y, ys, hnext, -⟩ := hmore.next x rest
  have hloop := @iterate_declarations x rest env us ds hmore hx (us ++ x :: rest).length
    (Nat.le_refl _) (scope ++ Decl.accepted scope [d]) (sink ++ Decl.faultsAll scope [d])
    (notes ++ Decl.accepted scope [d])
  unfold declarations
  rw [List.append_assoc, hnext, bind_of_value (declaration_facing hd)]
  rw [hnext] at hloop
  refine (withFuel_facing fun n => iterate (· = .comma) (fun _ => do
    let _ ← advance
    declaration) n ()).trans (hloop.trans ?_)
  rw [Decl.accepted_cons scope d ds, Decl.faultsAll_cons scope d ds]
  simp only [List.append_assoc]

end

end SinglePass.Simple
