import SinglePass.Proofs.Values.Operands
import SinglePass.Proofs.Values.Shapes

/-!
# Declared arrays are exact

The rule for a dimension decides in words whether there is a fault, and the range that is made of
its constants decides again whether it is empty.  Both agree with the integers that are written
(`Dim.misfit_size`, `Dim.misfit_range`, `Dim.bounds_eq_span`), because neither a change of sign nor
the step from a size to its last index wraps around.

`takes_typeSpec` says of a type what is taken, what it is made into and what is recorded.
`arrays_exact` adds that no array without dimensions and no empty dimension comes into a scope or
among the declarations of any source, whatever its faults.
-/

namespace SinglePass.Simple

open Recognizer

/-! ## Constants and dimensions -/

namespace IntConst

/-- The number that is written, with its sign; a literal that is too large is read as 0. -/
def written (n : IntConst) : Int :=
  if n.sign?.isSome then -(literalNumber n.literal : Int) else literalNumber n.literal

/-- The word of a constant is the integer that is written. -/
theorem value_toInt_eq_written (n : IntConst) : n.value.toInt = n.written := by
  unfold value written
  split
  · rw [(small_literalValue n.literal).toInt_neg, toInt_literalValue]
  · rw [toInt_literalValue]

/-- A constant begins with its sign or its literal. -/
theorem Derives.head?_eq {n : IntConst} {ts : List (Token Kind)} (h : n.Derives ts) :
    ts.head? = some n.first := by
  cases h with
  | plain => rfl
  | signed => rfl

end IntConst

namespace Dim

/-- The first token of a dimension. -/
def first : Dim → Token Kind
  | size n => n.first
  | range m _ => m.first

/-- The integer literals of a dimension. -/
def literals : Dim → List (Token Kind)
  | size n => [n.literal]
  | range m n => [m.literal, n.literal]

/-- The first and the last index that a dimension comes to. -/
def span : Dim → Int × Int
  | size n => if 1 ≤ n.written then (0, n.written - 1) else (0, 0)
  | range m n => if m.written ≤ n.written then (m.written, n.written) else (0, 0)

/-- What is wrong with the literals of a dimension. -/
def tooLarge (d : Dim) : Faults :=
  (d.literals.filter fun l => maxLiteral < decimalValue l.text).map fun l =>
    .custom l (Fault.literalTooLarge l.text).message

/-- What is wrong with a dimension that has no indices, at its first token. -/
def misfit (d : Dim) : Faults :=
  match d with
  | size n =>
    if 1 ≤ n.written then []
    else [.custom d.first ("Array size " ++ toString n.written ++ " must be positive")]
  | range m n =>
    if m.written ≤ n.written then []
    else [.custom d.first ("Lower bound " ++ toString m.written ++ " exceeds upper bound "
      ++ toString n.written)]

/-- A dimension begins as its first constant does. -/
theorem Derives.head?_eq {d : Dim} {ts : List (Token Kind)} (h : d.Derives ts) :
    ts.head? = some d.first := by
  cases h with
  | size hn => exact hn.head?_eq
  | range hm => rw [List.head?_append, hm.head?_eq, Option.some_or]; rfl

/-- The range of a dimension is worked out without wrapping around. -/
theorem bounds_eq_span (d : Dim) : (d.bounds.lower.toInt, d.bounds.upper.toInt) = d.span := by
  cases d with
  | size n =>
    rw [bounds, span, ← n.value_toInt_eq_written]
    split
    · next h =>
      have hpos : 0 < n.value := Int64.lt_iff_toInt_lt.mpr (by rw [Int64.toInt_zero]; omega)
      rw [Bounds.ofSize_of_pos h, Bounds.toInt_pred hpos, Int64.toInt_zero]
    · next h =>
      rw [Bounds.ofSize_of_lt (Int.not_le.mp h)]
      rfl
  | range m n =>
    rw [bounds, span, ← m.value_toInt_eq_written, ← n.value_toInt_eq_written]
    split
    · next h => rw [Bounds.ofEnds_of_le h]
    · next h =>
      rw [Bounds.ofEnds_of_lt (Int.not_le.mp h)]
      rfl

/-- A size is at fault if it is not positive, and so is the range that is made of it. -/
theorem misfit_size (n : IntConst) :
    faultIf (n.value ≤ 0) n.first (.sizeNotPositive n.value) = (size n).misfit := by
  have hiff : n.value ≤ 0 ↔ ¬ 1 ≤ n.written := by
    rw [← n.value_toInt_eq_written, Int64.le_iff_toInt_le, Int64.toInt_zero]
    omega
  by_cases h : 1 ≤ n.written
  · rw [faultIf, if_neg fun hvalue => hiff.mp hvalue h, misfit, if_pos h]
  · have hmessage : (Fault.sizeNotPositive n.value).message =
        "Array size " ++ toString n.value.toInt ++ " must be positive" := rfl
    rw [faultIf, if_pos (hiff.mpr h), misfit, if_neg h, hmessage, n.value_toInt_eq_written, first]

/-- A range is at fault if its ends are in the wrong order. -/
theorem misfit_range (m n : IntConst) :
    faultIf (n.value < m.value) m.first (.boundsReversed m.value n.value) =
      (range m n).misfit := by
  have hiff : n.value < m.value ↔ ¬ m.written ≤ n.written := by
    rw [← m.value_toInt_eq_written, ← n.value_toInt_eq_written, Int64.lt_iff_toInt_lt]
    omega
  by_cases h : m.written ≤ n.written
  · rw [faultIf, if_neg fun hvalue => hiff.mp hvalue h, misfit, if_pos h]
  · have hmessage : (Fault.boundsReversed m.value n.value).message =
        "Lower bound " ++ toString m.value.toInt ++ " exceeds upper bound "
          ++ toString n.value.toInt := rfl
    rw [faultIf, if_pos (hiff.mpr h), misfit, if_neg h, hmessage, m.value_toInt_eq_written,
      n.value_toInt_eq_written, first]

/-- The literals of a dimension are at fault if they are too large. -/
theorem tooLarge_eq (d : Dim) : d.tooLarge = d.literals.flatMap Expr.literalFaults := by
  unfold tooLarge
  induction d.literals with
  | nil => rfl
  | cons l literals ih =>
    rw [List.flatMap_cons, literalFaults_eq]
    by_cases h : decimalValue l.text ≤ maxLiteral
    · rw [if_pos h, List.filter_cons_of_neg (by simpa using h), ih, List.nil_append]
    · rw [if_neg h, List.filter_cons_of_pos (by simpa using h), List.map_cons, ih,
        List.singleton_append]

/-- The faults of a dimension are those of its literals, and one more if it has no indices. -/
theorem faults_eq (d : Dim) : d.faults = d.tooLarge ++ d.misfit := by
  rw [tooLarge_eq]
  cases d with
  | size n =>
    rw [faults, misfit_size, literals, List.flatMap_singleton]
    rfl
  | range m n =>
    rw [faults, misfit_range, literals, List.flatMap_cons, List.flatMap_singleton]
    rfl

end Dim

/-! ## What is taken -/

variable {pre : Token Kind → Prop}

/-- A constant is taken with its sign. -/
theorem takes_intConstant : Takes pre intConstant fun ts faults v =>
    ∃ n : IntConst, n.Derives ts ∧ v = n.value ∧ faults = n.faults := by
  refine .accept (by decide)
    (.require (by decide) (.pure trivial) fun token => .bind (takes_intValue token)
      fun value => .pure ?signed)
    (.require (by decide) (.pure trivial) fun token => .bind (takes_intValue token)
      fun value => .pure ?plain)
  case signed =>
    rintro _ _ ⟨rfl, rfl, rfl⟩ hkind sign - hsign
    exact ⟨⟨some sign, token⟩, .signed hsign hkind, rfl, List.append_nil _⟩
  case plain =>
    rintro _ _ ⟨rfl, rfl, rfl⟩ hkind
    exact ⟨⟨none, token⟩, .plain hkind, rfl, List.append_nil _⟩

/-- The token that is looked at before a dimension is its first one. -/
theorem takes_dimension : Takes pre dimension fun ts faults b =>
    ∃ d : Dim, d.Derives ts ∧ b = d.bounds ∧ faults = d.faults := by
  refine .lookahead fun first => ?_
  have hlower : Takes (· = first) intConstant fun ts faults v =>
      ∃ n : IntConst, n.Derives ts ∧ n.first = first ∧ v = n.value ∧ faults = n.faults := by
    refine takes_intConstant.imp_head ?_
    rintro ts faults v hhead ⟨n, hn, rfl, rfl⟩
    exact ⟨n, hn, hhead n.first hn.head?_eq, rfl, rfl⟩
  refine .bind hlower fun lower => .accept (by decide)
    (.bind takes_intConstant fun upper => .bind (takes_reportFaultIf _ _ _) fun _ => .pure ?range)
    (.bind (takes_reportFaultIf _ _ _) fun _ => .pure ?size)
  case range =>
    rintro _ _ ⟨rfl, rfl⟩ us more ⟨n, hn, rfl, rfl⟩ colon - hcolon ts faults
      ⟨m, hm, hfirst, rfl, rfl⟩
    refine ⟨.range m n, ?_, rfl, ?_⟩
    · rw [List.append_nil, List.append_nil]
      exact .range hm hcolon hn
    · rw [Dim.faults, hfirst]
      simp
  case size =>
    rintro _ _ ⟨rfl, rfl⟩ ts faults ⟨n, hn, hfirst, rfl, rfl⟩
    refine ⟨.size n, ?_, rfl, ?_⟩
    · rw [List.append_nil, List.append_nil]
      exact .size hn
    · rw [Dim.faults, hfirst]
      simp

/-- Further dimensions are taken with a comma in front of each. -/
theorem takes_moreDimensions (first : List Bounds) : Takes pre (moreDimensions first)
    fun us more dims => ∃ ds, CommaRepeated Dim.Derives us ds ∧
      dims = first ++ ds.map Dim.bounds ∧ more = ds.flatMap Dim.faults := by
  refine (takes_commas takes_dimension first).imp fun us more dims hcommas => ?_
  induction hcommas with
  | nil => exact ⟨[], .nil, by simp, rfl⟩
  | concat _ hcomma hdim ih =>
    obtain ⟨ds, hds, rfl, rfl⟩ := ih
    obtain ⟨d, hd, rfl, rfl⟩ := hdim
    exact ⟨ds ++ [d], hds.concat hcomma hd, by simp, by simp⟩

/-- A base type is taken as its keyword. -/
theorem takes_baseType : Takes pre baseType fun ts faults type =>
    ∃ t, ts = [t] ∧ Ty.ofKeyword? t.kind = some type ∧ faults = [] := by
  refine .lookahead fun token => ?_
  split
  · next type htype =>
    refine .bind (.advance ?_) fun _ => .pure ?_
    · rintro _ rfl hend
      rw [hend] at htype
      nomatch htype
    · rintro _ _ ⟨rfl, rfl, rfl⟩
      exact ⟨_, rfl, htype, rfl⟩
  · refine .bind (.unexpected _) fun _ => .pure ?_
    exact fun _ _ hfalse => hfalse.elim

/-- A type is taken with the symbol that it makes of a name. -/
theorem takes_typeSpec (name : Token Kind) : Takes pre (typeSpec name) fun ts faults symbol =>
    ∃ spec : TypeSpec, spec.Derives ts ∧ symbol = (Decl.typed name spec).symbol ∧
      faults = (Decl.typed name spec).faults := by
  refine .accept (by decide) (.ite (fun _ => ?array) fun hne => absurd rfl hne)
    (.ite (fun heq => nomatch heq) fun _ => ?base)
  case array =>
    refine .bind (.mustBe (by decide)) fun _ => .bind takes_dimension fun first =>
      .bind (takes_moreDimensions _) fun dims => .bind (.mustBe (by decide)) fun _ =>
        .bind (.mustBe (by decide)) fun _ => .bind takes_baseType fun element => .pure ?_
    rintro _ _ ⟨t, rfl, htype, rfl⟩ _ _ ⟨ofWord, -, hof, rfl, rfl⟩ _ _
      ⟨closing, -, hclosing, rfl, rfl⟩ us more ⟨ds, hds, rfl, rfl⟩ ts faults ⟨d, hd, rfl, rfl⟩ _ _
      ⟨opening, -, hopening, rfl, rfl⟩ array - harray
    refine ⟨.array (d :: ds) element, ?_, rfl, ?_⟩
    · have hspec := TypeSpec.Derives.array harray hopening (.intro hd hds) hclosing hof htype
      simpa using hspec
    · simp [Decl.faults]
  case base =>
    refine .bind takes_baseType fun type => .pure ?_
    rintro _ _ ⟨t, rfl, htype, rfl⟩
    exact ⟨.base type, .base htype, rfl, rfl⟩

/-! ## Arrays -/

/-- What it means that the arrays of a source are exact.  `begun` and `ended` are the states in
which the run begins and ends. -/
structure ArraysExact (strategy : Strategy) (source : Source)
    (begun ended : State Kind Ty (Symbol Kind Ty)) : Prop where
  /-- The symbols that were accepted into a scope. -/
  declared : ∀ symbol ∈ (check strategy source).notes, Shaped symbol
  /-- The symbols in the scopes, at every moment of the run. -/
  scopes : begun.AllBound Shaped ∧
    ∃ ms : List (Move Kind Ty strategy), Leads begun.engine ms ended.engine ∧
      ∀ m ∈ ms, m.before.AllBound Shaped ∧ m.after.AllBound Shaped
  /-- An array type that is recognized by a run that is not recovering, and in which no token is
  unexpected.  Its tokens are those between the run before and the run after; each of its dimensions
  has its range and its faults, and there are no other faults. -/
  exact : ∀ {name : Token Kind} {s t : State Kind Ty (Symbol Kind Ty)} {symbol : Symbol Kind Ty}
    {found : Faults}, s.Reached classifier strategy source → s.recovering = false →
    typeSpec name strategy s = (.value symbol, t) → t.sink = s.sink ++ found →
    (∀ d ∈ found, d.isUnexpected = false) → symbol.shape?.isSome = true →
      ∃ ts dims element bounds, s.input = ts ++ t.input ∧ ts <:+: source.tokens classifier ∧
        (TypeSpec.array dims element).Derives ts ∧ symbol = .array name element bounds ∧
        List.Forall₂ (fun d b => (b.lower.toInt, b.upper.toInt) = d.span) dims bounds ∧
        found.filter Diagnostic.isSemantic = dims.flatMap fun d => d.tooLarge ++ d.misfit
  /-- The token at fault in a dimension without indices is the first one of the dimension. -/
  first : ∀ {d : Dim} {ts : List (Token Kind)}, d.Derives ts → ts.head? = some d.first
  /-- In any run, the sign of a literal can be changed without wrapping around. -/
  literals : ∀ (token : Token Kind) {s t : State Kind Ty (Symbol Kind Ty)} {v : Int64},
    intValue token strategy s = (.value v, t) → (-v).toInt = -v.toInt
  /-- So can the last index be worked out from a size. -/
  constants : ∀ {s t : State Kind Ty (Symbol Kind Ty)} {v : Int64},
    intConstant strategy s = (.value v, t) → (v - 1).toInt = v.toInt - 1

/-- **Arrays are exact** in every run: their bounds are those that their dimensions ask for. -/
theorem arrays_exact (strategy : Strategy) (source : Source) :
    ArraysExact strategy source (.initial classifier source)
      (run classifier program strategy source).2 := by
  have hinitial : (State.initial classifier source : State Kind Ty (Symbol Kind Ty)).AllBound
      Shaped := fun symbol hbinds => by
    rw [State.initial_scopes] at hbinds
    exact absurd hbinds ScopeStack.not_binds_empty
  have hprogram : Confines Shaped anything program.toEnd := .toEnd confines_program
  have hrun := hprogram strategy (State.initial classifier source)
  refine ⟨fun symbol hmem => ?_, ⟨hinitial, hrun.moves.moments hinitial⟩, ?_,
    Dim.Derives.head?_eq, ?_, ?_⟩
  · refine (hrun.noted symbol hmem).resolve_left fun hstart => ?_
    rw [State.initial_notes] at hstart
    nomatch hstart
  · intro name s t symbol found hreached hcalm htypeSpec hsink hfound hshape
    obtain ⟨ts, hinput, hsource, spec, hspec, rfl, hfaults⟩ :=
      (takes_typeSpec name).of_reached hreached hcalm htypeSpec hsink hfound
    cases spec with
    | base type => nomatch hshape
    | array dims element =>
      refine ⟨ts, dims, element, dims.map Dim.bounds, hinput, hsource, hspec, rfl, ?_, ?_⟩
      · rw [List.forall₂_map_right_iff]
        exact List.forall₂_same.mpr fun d _ => d.bounds_eq_span
      · rw [hfaults, Decl.faults]
        exact List.flatMap_congr fun d _ => d.faults_eq
  · intro token s t v hvalue
    have hconfined : Confines (fun _ => True) Small (intValue token) := confines_intValue token
    exact ((hconfined strategy s).value v (congrArg Prod.fst hvalue)).toInt_neg
  · intro s t v hvalue
    have hconfined : Confines (fun _ => True) Small intConstant := confines_intConstant
    exact ((hconfined strategy s).value v (congrArg Prod.fst hvalue)).toInt_pred

/-- A range, and a size that is not positive. -/
theorem arrays_exact_coerced : ∃ (t : State Kind Ty (Symbol Kind Ty)) (ts : List (Token Kind))
    (dims : List Dim),
    typeSpec ⟨.ident, "a", ⟨1, 1⟩⟩ .recovering
        (.initial classifier [.line "ARRAY [-2:3, 0] OF INTEGER"]) =
      (.value (.array ⟨.ident, "a", ⟨1, 1⟩⟩ .integer [⟨-2, 3⟩, ⟨0, 0⟩]), t) ∧
    (TypeSpec.array dims .integer).Derives ts ∧ dims.map Dim.span = [(-2, 3), (0, 0)] ∧
    dims.flatMap (fun d => d.tooLarge ++ d.misfit) =
      [.custom ⟨.intLiteral, "0", ⟨1, 14⟩⟩ "Array size 0 must be positive"] := by
  have hrun : typeSpec ⟨.ident, "a", ⟨1, 1⟩⟩ .recovering
      (.initial classifier [.line "ARRAY [-2:3, 0] OF INTEGER"]) =
        (.value (.array ⟨.ident, "a", ⟨1, 1⟩⟩ .integer [⟨-2, 3⟩, ⟨0, 0⟩]),
          (typeSpec ⟨.ident, "a", ⟨1, 1⟩⟩ .recovering
            (.initial classifier [.line "ARRAY [-2:3, 0] OF INTEGER"])).2) := Prod.ext rfl rfl
  have hsink : (typeSpec ⟨.ident, "a", ⟨1, 1⟩⟩ .recovering
      (.initial classifier [.line "ARRAY [-2:3, 0] OF INTEGER"])).2.sink =
        (State.initial classifier [.line "ARRAY [-2:3, 0] OF INTEGER"] :
          State Kind Ty (Symbol Kind Ty)).sink ++
            [.custom ⟨.intLiteral, "0", ⟨1, 14⟩⟩ "Array size 0 must be positive"] := rfl
  obtain ⟨ts, dims, element, bounds, -, -, hderives, hsymbol, hspans, hfaults⟩ :=
    (arrays_exact .recovering [.line "ARRAY [-2:3, 0] OF INTEGER"]).exact
      (.initial classifier .recovering _) rfl hrun hsink (by simp [Diagnostic.isUnexpected]) rfl
  cases hsymbol
  refine ⟨_, ts, dims, hrun, hderives, ?_, hfaults.symm⟩
  cases hspans with
  | cons hrange hmore =>
    cases hmore with
    | cons hsize hnone =>
      cases hnone
      rw [List.map_cons, List.map_cons, List.map_nil, ← hrange, ← hsize]
      rfl

end SinglePass.Simple
