import SinglePass.Proofs.FaultFree.Expressions

/-!
# Programs without faults

The walk of the syntax tree of a program finds no fault exactly if the program keeps the static
rules (`Sentence.faults_eq_nil`).  Declarations without faults leave in their scope just the symbols
that they declare, and these mean what the rules say they mean.  Statements are treated by recursion
on their derivation, since only in a derived tree are the declared types known.
-/

namespace SinglePass.Simple

/-! ## Dimensions -/

/-- The walk finds no fault in a dimension that is well-formed, and in no other. -/
theorem Dim.faults_eq_nil (d : Dim) : d.faults = [] ↔ d.WellFormed := by
  cases d with
  | size n =>
    rw [faults, append_eq_nil, IntConst.faults, literalFaults_eq_nil, faultIf_eq_nil, WellFormed]
    refine and_congr_right fun hfits => ?_
    rw [Int64.le_iff_toInt_le, IntConst.value_toInt hfits, Int64.toInt_zero]
    omega
  | range m n =>
    rw [faults, append_eq_nil, append_eq_nil, IntConst.faults, IntConst.faults,
      literalFaults_eq_nil, literalFaults_eq_nil, faultIf_eq_nil, WellFormed, and_assoc]
    refine and_congr_right fun hm => and_congr_right fun hn => ?_
    rw [Int64.lt_iff_toInt_lt, IntConst.value_toInt hm, IntConst.value_toInt hn]
    omega

/-- The range of a well-formed dimension has the ends that the dimension gives. -/
theorem Dim.boundsEnds_bounds {d : Dim} (h : d.WellFormed) : boundsEnds d.bounds = d.ends := by
  cases d with
  | size n =>
    obtain ⟨hfits, hpositive⟩ := h
    have hvalue := IntConst.value_toInt hfits
    have hzero : 0 < n.value := by
      rw [Int64.lt_iff_toInt_lt, hvalue, Int64.toInt_zero]
      omega
    have hone : 1 ≤ n.value := by
      rw [Int64.le_iff_toInt_le, hvalue]
      exact hpositive
    show boundsEnds (Bounds.ofSize n.value) = (0, n.int - 1)
    unfold Bounds.ofSize boundsEnds
    rw [if_pos hzero, Int64.toInt_sub_of_le _ _ (by decide) hone, hvalue]
    rfl
  | range m n =>
    obtain ⟨hm, hn, hle⟩ := h
    have hbounds : m.value ≤ n.value := by
      rw [Int64.le_iff_toInt_le, IntConst.value_toInt hm, IntConst.value_toInt hn]
      exact hle
    show boundsEnds (Bounds.ofEnds m.value n.value) = (m.int, n.int)
    unfold Bounds.ofEnds boundsEnds
    rw [if_pos hbounds, IntConst.value_toInt hm, IntConst.value_toInt hn]

/-! ## Declarations -/

namespace Decl

/-- The walk finds no fault in a declaration that is well-formed, and in no other. -/
theorem faults_eq_nil (d : Decl) : d.faults = [] ↔ d.WellFormed := by
  match d with
  | typed _ (.base _) => exact iff_of_true rfl trivial
  | typed _ (.array dims _) =>
    rw [faults, WellFormed, List.flatMap_eq_nil_iff]
    exact forall₂_congr fun dim _ => dim.faults_eq_nil
  | const _ (.integer n) => exact literalFaults_eq_nil
  | const _ .real => exact iff_of_true rfl trivial
  | const _ .boolean => exact iff_of_true rfl trivial

/-- The symbol of a declaration that is well-formed has the meaning of this declaration. -/
theorem meaningOf_symbol {d : Decl} (h : d.WellFormed) : meaningOf d.symbol = d.meaning := by
  match d with
  | typed _ (.base _) => rfl
  | typed _ (.array dims _) =>
    show Meaning.array ((dims.map Dim.bounds).map boundsEnds) _ = .array (dims.map Dim.ends) _
    rw [List.map_map]
    congr 1
    exact List.map_congr_left fun dim hdim => Dim.boundsEnds_bounds (h dim hdim)
  | const _ _ => rfl

/-- The symbol of a declaration has its name. -/
theorem symbol_name (d : Decl) : d.symbol.name = d.name.text := congrArg Token.text d.symbol_token

/-- A name is new behind a symbol if it was new before it and is not the symbol's. -/
theorem find?_append_symbol {scope : List (Symbol Kind Ty)} {d d' : Decl} :
    ((scope ++ [d.symbol]).find? fun symbol => symbol.name = d'.name.text) = none ↔
      (scope.find? fun symbol => symbol.name = d'.name.text) = none ∧
        d.name.text ≠ d'.name.text := by
  rw [List.find?_append, Option.or_eq_none_iff]
  refine and_congr_right fun _ => ?_
  rw [List.find?_eq_none]
  simp [symbol_name]

/-- Declarations in a scope that holds some symbols already. -/
theorem faultsAll_eq_nil (scope : List (Symbol Kind Ty)) (ds : List Decl) :
    faultsAll scope ds = [] ↔ AllWellFormed ds ∧
      ∀ d ∈ ds, (scope.find? fun symbol => symbol.name = d.name.text) = none := by
  induction ds generalizing scope with
  | nil => exact iff_of_true rfl ⟨⟨by simp, List.nodup_nil⟩, by simp⟩
  | cons d ds ih =>
    rw [faultsAll, append_eq_nil, d.faults_eq_nil]
    -- A name that is taken is a fault already; one that is free is taken from here on.
    cases hfind : scope.find? fun symbol => symbol.name = d.name.text with
    | some first =>
      constructor
      · rintro ⟨-, h⟩
        simp at h
      · rintro ⟨-, hfree⟩
        rw [hfree d List.mem_cons_self] at hfind
        simp at hfind
    | none =>
      show d.WellFormed ∧ faultsAll (scope ++ [d.symbol]) ds = [] ↔ _
      rw [ih]
      constructor
      · rintro ⟨hd, ⟨heach, hdistinct⟩, hfree⟩
        refine ⟨⟨List.forall_mem_cons.2 ⟨hd, heach⟩, ?_⟩, List.forall_mem_cons.2 ⟨hfind, ?_⟩⟩
        · rw [List.map_cons, List.nodup_cons]
          refine ⟨?_, hdistinct⟩
          intro hmem
          obtain ⟨d', hd', heq⟩ := List.mem_map.1 hmem
          exact (find?_append_symbol.1 (hfree d' hd')).2 heq.symm
        · intro d' hd'
          exact (find?_append_symbol.1 (hfree d' hd')).1
      · rintro ⟨⟨heach, hdistinct⟩, hfree⟩
        rw [List.map_cons, List.nodup_cons] at hdistinct
        rw [List.forall_mem_cons] at heach hfree
        refine ⟨heach.1, ⟨heach.2, hdistinct.2⟩, ?_⟩
        intro d' hd'
        refine find?_append_symbol.2 ⟨hfree.2 d' hd', ?_⟩
        intro heq
        exact hdistinct.1 (List.mem_map.2 ⟨d', hd', heq.symm⟩)

/-- Declarations without faults are all accepted. -/
theorem accepted_eq_map (scope : List (Symbol Kind Ty)) (ds : List Decl)
    (h : faultsAll scope ds = []) : accepted scope ds = ds.map symbol := by
  induction ds generalizing scope with
  | nil => rfl
  | cons d ds ih =>
    rw [faultsAll, append_eq_nil] at h
    obtain ⟨-, h⟩ := h
    rw [accepted]
    split at h
    · simp at h
    · rw [List.map_cons]
      exact congrArg (d.symbol :: ·) (ih _ h)

/-- Declarations in a new scope. -/
theorem faultsAll_nil_eq_nil (ds : List Decl) : faultsAll [] ds = [] ↔ AllWellFormed ds := by
  rw [faultsAll_eq_nil, and_iff_left]
  intro d _
  rfl

/-- The symbols of well-formed declarations mean what the declarations declare. -/
theorem scopes_accepted {ds : List Decl} (h : AllWellFormed ds) (env : Env) :
    Env.scopes (accepted [] ds :: env) = scope ds :: env.scopes := by
  rw [accepted_eq_map [] ds ((faultsAll_nil_eq_nil ds).2 h)]
  show List.map _ (ds.map symbol) :: env.scopes = _
  rw [List.map_map]
  congr 1
  refine List.map_congr_left fun d hd => ?_
  show (d.symbol.name, meaningOf d.symbol) = (d.name.text, d.meaning)
  rw [symbol_name, meaningOf_symbol (h.each d hd)]

/-- A declaration gives a known type. -/
theorem Derives.type_ne_undefined {ts : List (Token Kind)} {d : Decl} (h : d.Derives ts) :
    d.symbol.type ≠ .undefined := by
  have hkeyword : ∀ {kind : Kind} {type : Ty}, Ty.ofKeyword? kind = some type →
      type ≠ .undefined := by
    rintro kind type htype rfl
    cases kind <;> simp [Ty.ofKeyword?] at htype
  cases h with
  | typed _ _ hspec =>
    cases hspec with
    | base htype => exact hkeyword htype
    | array _ _ _ _ _ htype => exact hkeyword htype
  | @const name _ _ value _ _ _ =>
    show value.type ≠ .undefined
    cases value <;> simp [Literal.type]

end Decl

/-- Each phrase that is repeated behind commas has tokens of its own. -/
theorem CommaRepeated.exists_derives {α : Type} {Derives : List (Token Kind) → α → Prop}
    {us : List (Token Kind)} {as : List α} (h : CommaRepeated Derives us as) :
    ∀ a ∈ as, ∃ ts, Derives ts a := by
  induction h with
  | nil => simp
  | cons _ hfirst _ ih => exact List.forall_mem_cons.2 ⟨⟨_, hfirst⟩, ih⟩

/-- Each phrase between commas has tokens of its own. -/
theorem CommaList.exists_derives {α : Type} {Derives : List (Token Kind) → α → Prop}
    {ts : List (Token Kind)} {as : List α} (h : CommaList Derives ts as) :
    ∀ a ∈ as, ∃ ts, Derives ts a := by
  obtain ⟨hfirst, hmore⟩ := h
  exact List.forall_mem_cons.2 ⟨⟨_, hfirst⟩, hmore.exists_derives⟩

/-- The scope of derived declarations has known types. -/
theorem Env.Defined.cons {env : Env} (henv : env.Defined) {ds : List Decl}
    (hds : ∀ d ∈ ds, ∃ ts, d.Derives ts) (h : Decl.AllWellFormed ds) :
    Env.Defined (Decl.accepted [] ds :: env) := by
  rw [Decl.accepted_eq_map [] ds ((Decl.faultsAll_nil_eq_nil ds).2 h)]
  intro scope hscope s hs
  rcases List.mem_cons.1 hscope with rfl | hscope
  · obtain ⟨d, hd, rfl⟩ := List.mem_map.1 hs
    obtain ⟨ts, hderives⟩ := hds d hd
    exact hderives.type_ne_undefined
  · exact henv scope hscope s hs

/-! ## Statements -/

section

variable {env : Env} {name : Token Kind}

/-- A declared name may be assigned to unless it is a constant. -/
theorem targetFaults_eq_nil {s : Symbol Kind Ty} (hs : env.lookup name.text = some s) :
    targetFaults name (env.lookup name.text) = [] ↔
      ∀ type, env.scopes.lookup name.text ≠ some (.const type) := by
  rw [hs, targetFaults, faultIf_eq_nil, lookup_scopes_of_lookup hs]
  constructor
  · intro hconst type heq
    exact hconst (eq_of_meaningOf_eq_const (Option.some.inj heq)).2.1
  · intro hne hconst
    exact hne s.type (congrArg some (meaningOf_of_isConst hconst))

/-- What assigning to a name, with or without indices, and reading it have in common. -/
theorem targetDesignatorFaults_eq_nil (henv : env.Defined) {indices : List Expr} :
    (unboundFaults name (env.lookup name.text) = [] ∧
        targetFaults name (env.lookup name.text) = [] ∧ Expr.faultsAll env indices = [] ∧
        accessFaults name (env.lookup name.text) (indices.map (Expr.operand env)) = []) ↔
      (∀ type, env.scopes.lookup name.text ≠ some (.const type)) ∧
        ∃ type, (Expr.designator name indices).HasType env.scopes type := by
  rw [Expr.faultsAll_eq_nil henv]
  constructor
  · rintro ⟨hbound, htarget, hindices, haccess⟩
    have htype := (designatorFaults_eq_nil henv).1 ⟨hbound, hindices, haccess⟩
    obtain ⟨s, hs⟩ := unboundFaults_eq_nil.1 hbound
    exact ⟨(targetFaults_eq_nil hs).1 htarget, htype⟩
  · rintro ⟨htarget, htype⟩
    obtain ⟨hbound, hindices, haccess⟩ := (designatorFaults_eq_nil henv).2 htype
    obtain ⟨s, hs⟩ := unboundFaults_eq_nil.1 hbound
    exact ⟨hbound, (targetFaults_eq_nil hs).2 htarget, hindices, haccess⟩

/-- The walk finds no fault in an assignment that is well-typed, and in no other. -/
theorem assignFaults_eq_nil (henv : env.Defined) {indices : List Expr} {value : Expr} :
    (Stmt.assign name indices value).faults env = [] ↔
      (Stmt.assign name indices value).WellTyped env.scopes := by
  have htarget := @targetDesignatorFaults_eq_nil env name henv indices
  simp only [Stmt.faults, append_eq_nil, and_assoc, value.faults_eq_nil henv]
  constructor
  · rintro ⟨hbound, hconst, hindices, haccess, hvalue, hconflict⟩
    obtain ⟨hne, type, htype⟩ := htarget.1 ⟨hbound, hconst, hindices, haccess⟩
    have hvalue := hasType_type_iff.2 hvalue
    have heq := (conflictFaults_eq_nil (hvalue.ne_undefined henv)
      ((hasType_type_iff.2 ⟨type, htype⟩).ne_undefined henv)).1 hconflict
    rw [heq, htype.type_eq] at hvalue
    exact .assign hne htype hvalue
  · intro h
    cases h with
    | assign hne htype hvalue =>
      obtain ⟨hbound, hconst, hindices, haccess⟩ := htarget.2 ⟨hne, _, htype⟩
      refine ⟨hbound, hconst, hindices, haccess, ⟨_, hvalue⟩, ?_⟩
      show conflictFaults _ (value.type env) ((Expr.designator name indices).type env) = []
      rw [hvalue.type_eq, htype.type_eq]
      exact (conflictFaults_eq_nil (hvalue.ne_undefined henv) (hvalue.ne_undefined henv)).2 rfl

/-- The walk finds no fault in reading what may be read, and in no other. -/
theorem readFaults_eq_nil (henv : env.Defined) :
    (Stmt.read name).faults env = [] ↔ (Stmt.read name).WellTyped env.scopes := by
  have htarget := @targetDesignatorFaults_eq_nil env name henv []
  simp only [Stmt.faults, append_eq_nil, and_assoc]
  constructor
  · rintro ⟨hbound, hconst, haccess⟩
    obtain ⟨hne, type, htype⟩ := htarget.1 ⟨hbound, hconst, rfl, haccess⟩
    cases htype with
    | var hlookup => exact .read hlookup
    | const hlookup => exact absurd hlookup (hne _)
    | element _ hempty _ _ => exact absurd rfl hempty
  · intro h
    cases h with
    | read hlookup =>
      have hne : ∀ type, env.scopes.lookup name.text ≠ some (.const type) := by
        intro type heq
        rw [hlookup] at heq
        simp at heq
      obtain ⟨hbound, hconst, -, haccess⟩ := htarget.2 ⟨hne, _, .var hlookup⟩
      exact ⟨hbound, hconst, haccess⟩

/-- A condition has to be a Boolean. -/
theorem conditionFaults_eq_nil (henv : env.Defined) {test : Expr} :
    test.faults env = [] ∧ conflictFaults test.first (test.type env) .boolean = [] ↔
      test.HasType env.scopes .boolean := by
  rw [test.faults_eq_nil henv]
  constructor
  · rintro ⟨htype, hconflict⟩
    exact (conflictFaults_boolean_eq_nil henv htype).1 hconflict
  · intro h
    exact ⟨⟨_, h⟩, (conflictFaults_boolean_eq_nil henv ⟨_, h⟩).2 h⟩

end

mutual

/-- A derived statement has no faults exactly if it is well typed. -/
theorem Stmt.Derives.faults_eq_nil : ∀ {ts : List (Token Kind)} {s : Stmt}, s.Derives ts →
    ∀ {env : Env}, env.Defined → (s.faults env = [] ↔ s.WellTyped env.scopes)
  | _, _, .assign _ _ _, _, henv => assignFaults_eq_nil henv
  | _, _, .branch _ _ _ hbody _, _, henv => by
    simp only [Stmt.faults, Stmt.faultsAll, append_eq_nil, conditionFaults_eq_nil henv,
      repeated_faults_eq_nil hbody henv, and_true]
    constructor
    · rintro ⟨htest, hbody⟩
      exact .branch htest hbody (by simp)
    · intro h
      cases h with
      | branch htest hbody _ => exact ⟨htest, hbody⟩
  | _, _, .branchElse _ _ _ hthen _ helse _, _, henv => by
    simp only [Stmt.faults, append_eq_nil, conditionFaults_eq_nil henv,
      repeated_faults_eq_nil hthen henv, repeated_faults_eq_nil helse henv]
    constructor
    · rintro ⟨⟨htest, hthen⟩, helse⟩
      exact .branch htest hthen helse
    · intro h
      cases h with
      | branch htest hthen helse => exact ⟨⟨htest, hthen⟩, helse⟩
  | _, _, .loop _ _ _ hbody _, _, henv => by
    simp only [Stmt.faults, append_eq_nil, conditionFaults_eq_nil henv,
      repeated_faults_eq_nil hbody henv]
    constructor
    · rintro ⟨htest, hbody⟩
      exact .loop htest hbody
    · intro h
      cases h with
      | loop htest hbody => exact ⟨htest, hbody⟩
  | _, _, .read _ _, _, henv => readFaults_eq_nil henv
  | _, _, .write _ _, _, henv => by
    rw [Stmt.faults, Expr.faults_eq_nil henv]
    constructor
    · rintro ⟨type, h⟩
      exact .write h
    · intro h
      cases h with
      | write h => exact ⟨_, h⟩
  | _, _, .block _ hdecls _ hbody _, env, henv => by
    -- The body is walked in the scope that the declarations leave, which their being well formed
    -- tells.
    rw [Stmt.faults, append_eq_nil, Decl.faultsAll_nil_eq_nil]
    constructor
    · rintro ⟨hwell, hnil⟩
      rw [repeated_faults_eq_nil hbody (henv.cons hdecls.exists_derives hwell),
        Decl.scopes_accepted hwell] at hnil
      exact .block hwell hnil
    · intro h
      cases h with
      | block hwell hwellTyped =>
        refine ⟨hwell, ?_⟩
        rw [repeated_faults_eq_nil hbody (henv.cons hdecls.exists_derives hwell),
          Decl.scopes_accepted hwell]
        exact hwellTyped

/-- The walk finds no fault in statements that are well-typed, and in no others. -/
theorem repeated_faults_eq_nil : ∀ {us : List (Token Kind)} {ss : List Stmt},
    Repeated Stmt.Derives us ss → ∀ {env : Env}, env.Defined →
      (Stmt.faultsAll env ss = [] ↔ ∀ s ∈ ss, s.WellTyped env.scopes)
  | _, _, .nil, _, _ => by simp [Stmt.faultsAll]
  | _, _, .cons h hmore, _, henv => by
    rw [Stmt.faultsAll, append_eq_nil, h.faults_eq_nil henv, repeated_faults_eq_nil hmore henv,
      List.forall_mem_cons]

end

/-! ## Programs -/

/-- Each declaration in front of a program has tokens of its own. -/
theorem OptionalDecls.exists_derives {ts : List (Token Kind)} {ds : List Decl}
    (h : OptionalDecls ts ds) : ∀ d ∈ ds, ∃ ts, d.Derives ts := by
  cases h with
  | none => simp
  | some _ hds => exact hds.exists_derives

/-- A program has no faults exactly if it keeps the static rules. -/
theorem Sentence.faults_eq_nil {tokens : List (Token Kind)} {p : Program}
    (h : Sentence tokens p) : p.faults = [] ↔ p.WellFormed := by
  obtain ⟨hp, -⟩ := h
  obtain ⟨-, -, hdecls, -, hbody, -⟩ := hp
  have hempty : Env.Defined [] := by
    intro scope hscope
    simp at hscope
  rw [Program.faults, append_eq_nil, Decl.faultsAll_nil_eq_nil]
  constructor
  · rintro ⟨hwell, hnil⟩
    rw [repeated_faults_eq_nil hbody (hempty.cons hdecls.exists_derives hwell),
      Decl.scopes_accepted hwell] at hnil
    exact ⟨hwell, hnil⟩
  · rintro ⟨hwell, hwellTyped⟩
    refine ⟨hwell, ?_⟩
    rw [repeated_faults_eq_nil hbody (hempty.cons hdecls.exists_derives hwell),
      Decl.scopes_accepted hwell]
    exact hwellTyped

end SinglePass.Simple
