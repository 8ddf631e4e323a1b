import SinglePass.Proofs.StaticRules

/-!
# Expressions without faults

A walk finds no fault in a syntax tree exactly if the tree keeps the static rules; here for
expressions (`Expr.faults_eq_nil`).  The walk works with symbols, 64-bit words and a type for what
is unknown; the rules with meanings, integers and types only.  `Env.scopes` goes from the one to the
other.

The unknown type silences every rule that meets it, so the argument needs that it does not turn up
where there are no faults: no declaration has it (`Env.Defined`), and an expression that has a type
has a known one (`Expr.HasType.ne_undefined`).
-/

namespace SinglePass.Simple

/-! ## Symbols and their meanings -/

/-- The ends of a range of indices. -/
def boundsEnds (b : Bounds) : Int × Int := (b.lower.toInt, b.upper.toInt)

/-- What a symbol means. -/
def meaningOf (s : Symbol Kind Ty) : Meaning :=
  match s.sort with
  | .const => .const s.type
  | .array shape => .array (shape.dims.map boundsEnds) s.type
  | _ => .var s.type

/-- A constant means a constant. -/
theorem meaningOf_of_isConst {s : Symbol Kind Ty} (h : s.isConst = true) :
    meaningOf s = .const s.type := by
  obtain ⟨token, type, sort⟩ := s
  cases sort <;> first | rfl | exact absurd h Bool.false_ne_true

/-- A symbol with a shape means an array with the ends of its dimensions. -/
theorem meaningOf_of_shape?_eq_some {s : Symbol Kind Ty} {shape : Shape}
    (h : s.shape? = some shape) : meaningOf s = .array (shape.dims.map boundsEnds) s.type := by
  obtain ⟨token, type, sort⟩ := s
  cases sort with
  | array shape' =>
    obtain rfl := Option.some.inj h
    rfl
  | _ => simp [Symbol.shape?] at h

/-- What is neither an array nor a constant means a variable. -/
theorem meaningOf_of_isVariable {s : Symbol Kind Ty} (hshape : s.shape? = none)
    (hconst : s.isConst = false) : meaningOf s = .var s.type := by
  obtain ⟨token, type, sort⟩ := s
  cases sort with
  | const => simp [Symbol.isConst] at hconst
  | array shape => simp [Symbol.shape?] at hshape
  | _ => rfl

/-- Only what is neither an array nor a constant means a variable. -/
theorem eq_of_meaningOf_eq_var {s : Symbol Kind Ty} {type : Ty}
    (h : meaningOf s = .var type) :
    s.shape? = none ∧ s.isConst = false ∧ s.type = type := by
  obtain ⟨token, type', sort⟩ := s
  cases sort <;> simp_all [meaningOf, Symbol.shape?, Symbol.isConst]

/-- Only a constant means a constant. -/
theorem eq_of_meaningOf_eq_const {s : Symbol Kind Ty} {type : Ty}
    (h : meaningOf s = .const type) :
    s.shape? = none ∧ s.isConst = true ∧ s.type = type := by
  obtain ⟨token, type', sort⟩ := s
  cases sort <;> simp_all [meaningOf, Symbol.shape?, Symbol.isConst]

/-- Only a symbol with a shape means an array. -/
theorem eq_of_meaningOf_eq_array {s : Symbol Kind Ty} {ends : List (Int × Int)} {element : Ty}
    (h : meaningOf s = .array ends element) :
    ∃ shape, s.shape? = some shape ∧ shape.dims.map boundsEnds = ends ∧ s.isConst = false ∧
      s.type = element := by
  obtain ⟨token, type', sort⟩ := s
  cases sort <;> simp_all [meaningOf, Symbol.shape?, Symbol.isConst]

namespace Env

/-- What the symbols of the open scopes mean. -/
def scopes (env : Env) : Scopes := env.map fun scope => scope.map fun s => (s.name, meaningOf s)

/-- Looking up a name in one scope gives the meaning of the symbol that is found there. -/
theorem lookup_map_meaningOf (scope : List (Symbol Kind Ty)) (name : String) :
    List.lookup name (scope.map fun s => (s.name, meaningOf s)) =
      (scope.find? fun s => s.name = name).map meaningOf := by
  induction scope with
  | nil => rfl
  | cons s scope ih =>
    rw [List.map_cons, List.lookup_cons]
    by_cases h : s.name = name
    · rw [List.find?_cons_of_pos (by simpa using h), h]
      simp
    · have hne : (name == s.name) = false := by simpa using fun heq => h heq.symm
      rw [List.find?_cons_of_neg (by simpa using h), hne]
      exact ih

/-- Looking up a name gives the meaning of the symbol that the name stands for. -/
theorem lookup_scopes (env : Env) (name : String) :
    env.scopes.lookup name = (env.lookup name).map meaningOf := by
  induction env with
  | nil => rfl
  | cons scope env ih =>
    have hscopes : Scopes.lookup (Env.scopes (scope :: env)) name =
        ((List.lookup name (scope.map fun s => (s.name, meaningOf s))).or
          (Scopes.lookup (Env.scopes env) name)) := by
      show List.findSome? _ (_ :: _) = _
      rw [List.findSome?_cons]
      cases List.lookup name (scope.map fun s => (s.name, meaningOf s)) <;> rfl
    rw [hscopes, ih, lookup_map_meaningOf]
    unfold Env.lookup
    rw [List.findSome?_cons]
    cases scope.find? fun s => s.name = name <;> rfl

/-- Has every symbol a known type? -/
def Defined (env : Env) : Prop := ∀ scope ∈ env, ∀ s ∈ scope, s.type ≠ .undefined

/-- What is found under a name has a known type. -/
theorem Defined.of_lookup {env : Env} (h : env.Defined) {name : String} {s : Symbol Kind Ty}
    (hs : env.lookup name = some s) : s.type ≠ .undefined := by
  obtain ⟨scope, hscope, hfind⟩ := List.exists_of_findSome?_eq_some hs
  exact h scope hscope s (List.mem_of_find?_eq_some hfind)

end Env

/-! ## Literals -/

/-- A literal fits if its digits do not go beyond the greatest literal. -/
theorem fits_iff (literal : Token Kind) :
    Fits literal ↔ decimalValue literal.text ≤ maxLiteral := by
  unfold Fits maxLiteral
  rw [Int64.toInt_maxValue]
  omega

/-- There is no fault if its condition does not hold. -/
theorem faultIf_eq_nil {p : Prop} [Decidable p] {token : Token Kind} {fault : Fault} :
    faultIf p token fault = [] ↔ ¬ p := by
  unfold faultIf
  split <;> simp_all

/-- The literal of an expression is at fault unless it fits. -/
theorem literalFaults_eq_nil {literal : Token Kind} :
    Expr.literalFaults literal = [] ↔ Fits literal := by
  unfold Expr.literalFaults intValue?
  rw [faultIf_eq_nil, fits_iff]
  split <;> simp_all

/-- A literal that fits keeps its value. -/
theorem literalValue_toInt {literal : Token Kind} (h : Fits literal) :
    (Expr.literalValue literal).toInt = decimalValue literal.text := by
  have hle := (fits_iff literal).1 h
  unfold Expr.literalValue intValue?
  rw [if_pos hle, Option.getD_some, Int64.toInt_ofNat_of_lt (Nat.lt_of_le_of_lt hle (by decide))]

/-- The negation of a value that is not the least one is exact. -/
theorem neg_toInt {value : Int64} (h : -Int64.maxValue.toInt ≤ value.toInt) :
    (-value).toInt = -value.toInt := by
  rw [Int64.toInt_maxValue] at h
  have hlt := value.toInt_lt
  rw [Int64.toInt_neg]
  apply Int.bmod_eq_of_le <;> omega

/-- The word of a constant that fits is its integer. -/
theorem IntConst.value_toInt {n : IntConst} (h : Fits n.literal) : n.value.toInt = n.int := by
  unfold IntConst.value IntConst.int
  split
  · rw [neg_toInt, literalValue_toInt h]
    rw [literalValue_toInt h, Int64.toInt_maxValue]
    omega
  · exact literalValue_toInt h

/-! ## Types -/

section

variable {env : Env} {name : Token Kind}

/-- What a name means is the meaning of some symbol. -/
theorem exists_of_lookup_scopes {text : String} {meaning : Meaning}
    (h : env.scopes.lookup text = some meaning) :
    ∃ s, env.lookup text = some s ∧ meaningOf s = meaning := by
  rw [env.lookup_scopes] at h
  exact Option.map_eq_some_iff.1 h

/-- The symbol that a name stands for gives its meaning. -/
theorem lookup_scopes_of_lookup {text : String} {s : Symbol Kind Ty}
    (h : env.lookup text = some s) : env.scopes.lookup text = some (meaningOf s) := by
  rw [env.lookup_scopes, h]
  rfl

/-- What is no array has its type without indices. -/
theorem accessType_of_shape?_eq_none {s : Symbol Kind Ty} (h : s.shape? = none) :
    accessType (some s) false = s.type := by
  show (if s.shape?.isSome = false then s.type else _) = _
  rw [h]
  rfl

/-- The elements of an array have the type of its symbol. -/
theorem accessType_of_shape?_eq_some {s : Symbol Kind Ty} {shape : Shape}
    (h : s.shape? = some shape) : accessType (some s) true = s.type := by
  show (if s.shape?.isSome = true then s.type else _) = _
  rw [h]
  rfl

/-- Indices that are there are not missing. -/
theorem isEmpty_eq_false {indices : List Expr} (h : indices ≠ []) : (!indices.isEmpty) = true := by
  cases indices with
  | nil => exact absurd rfl h
  | cons _ _ => rfl

namespace Expr.HasType

variable {e : Expr} {type : Ty}

/-- An expression has at most one type, the one that the walk computes. -/
theorem type_eq (h : e.HasType env.scopes type) : e.type env = type := by
  induction h with
  | var hlookup =>
    obtain ⟨s, hs, hmeaning⟩ := exists_of_lookup_scopes hlookup
    obtain ⟨hshape, -, rfl⟩ := eq_of_meaningOf_eq_var hmeaning
    rw [Expr.type, hs]
    exact accessType_of_shape?_eq_none hshape
  | const hlookup =>
    obtain ⟨s, hs, hmeaning⟩ := exists_of_lookup_scopes hlookup
    obtain ⟨hshape, -, rfl⟩ := eq_of_meaningOf_eq_const hmeaning
    rw [Expr.type, hs]
    exact accessType_of_shape?_eq_none hshape
  | element hlookup hne _ _ _ =>
    obtain ⟨s, hs, hmeaning⟩ := exists_of_lookup_scopes hlookup
    obtain ⟨shape, hshape, -, -, rfl⟩ := eq_of_meaningOf_eq_array hmeaning
    rw [Expr.type, hs, isEmpty_eq_false hne]
    exact accessType_of_shape?_eq_some hshape
  | integer _ => rfl
  | real => rfl
  | boolean => rfl
  | complement _ _ => rfl
  | negation _ hnumeric ih => rw [Expr.type, ih, if_pos hnumeric]
  | logical hop _ _ _ _ => rw [Expr.type, if_pos hop]
  | arithmetic hop _ _ hnumeric ihl ihr =>
    rw [Expr.type, if_neg hop, ihl, ihr, if_pos ⟨hnumeric, rfl⟩]
  | comparison _ _ _ _ _ => rfl

/-- Where every declared type is known, so is that of an expression. -/
theorem ne_undefined (henv : env.Defined) (h : e.HasType env.scopes type) : type ≠ .undefined := by
  induction h with
  | var hlookup =>
    obtain ⟨s, hs, hmeaning⟩ := exists_of_lookup_scopes hlookup
    obtain ⟨-, -, rfl⟩ := eq_of_meaningOf_eq_var hmeaning
    exact henv.of_lookup hs
  | const hlookup =>
    obtain ⟨s, hs, hmeaning⟩ := exists_of_lookup_scopes hlookup
    obtain ⟨-, -, rfl⟩ := eq_of_meaningOf_eq_const hmeaning
    exact henv.of_lookup hs
  | element hlookup _ _ _ _ =>
    obtain ⟨s, hs, hmeaning⟩ := exists_of_lookup_scopes hlookup
    obtain ⟨-, -, -, -, rfl⟩ := eq_of_meaningOf_eq_array hmeaning
    exact henv.of_lookup hs
  | negation _ _ ih => exact ih
  | arithmetic _ _ _ _ ihl _ => exact ihl
  | _ => simp

/-- In an expression that has a type, literals are exact. -/
theorem constant_toInt {scopes : Scopes} (h : e.HasType scopes type) :
    e.constant.map Int64.toInt = e.literal? ∧
      ∀ value, e.literal? = some value →
        -Int64.maxValue.toInt ≤ value ∧ value ≤ Int64.maxValue.toInt := by
  induction h with
  | @integer literal hfits =>
    refine ⟨congrArg some (literalValue_toInt hfits), ?_⟩
    intro value hvalue
    obtain rfl := Option.some.inj hvalue
    unfold Fits at hfits
    omega
  | @negation op e _ _ _ ih =>
    obtain ⟨hconstant, hbounds⟩ := ih
    rw [Expr.constant, Expr.literal?, ← hconstant]
    rw [← hconstant] at hbounds
    generalize e.constant = constant at hbounds ⊢
    cases constant with
    | none => exact ⟨rfl, by simp⟩
    | some value =>
      obtain ⟨hlower, hupper⟩ := hbounds value.toInt rfl
      refine ⟨congrArg some (neg_toInt hlower), ?_⟩
      intro value' hvalue'
      obtain rfl := Option.some.inj hvalue'
      show -Int64.maxValue.toInt ≤ -value.toInt ∧ -value.toInt ≤ Int64.maxValue.toInt
      omega
  | _ => exact ⟨rfl, by simp [Expr.literal?]⟩

/-- The indices of a name have types. -/
theorem indices {indices : List Expr} (h : (Expr.designator name indices).HasType env.scopes type) :
    ∀ e ∈ indices, e.HasType env.scopes (e.type env) := by
  cases h with
  | element _ _ htypes _ =>
    intro e he
    rw [(htypes e he).type_eq]
    exact htypes e he
  | _ => simp

end Expr.HasType

/-! ## Rules -/

/-- Two lists of faults are empty together. -/
theorem append_eq_nil {faults more : Faults} : faults ++ more = [] ↔ faults = [] ∧ more = [] :=
  List.append_eq_nil_iff

/-- Two known types are in conflict unless they are the same. -/
theorem conflictFaults_eq_nil {token : Token Kind} {found expected : Ty}
    (hfound : found ≠ .undefined) (hexpected : expected ≠ .undefined) :
    conflictFaults token found expected = [] ↔ found = expected := by
  unfold conflictFaults
  split <;> simp_all

/-- A name without a symbol is at fault, and no other. -/
theorem unboundFaults_eq_nil {symbol? : Option (Symbol Kind Ty)} :
    unboundFaults name symbol? = [] ↔ ∃ s, symbol? = some s := by
  cases symbol? <;> simp [unboundFaults]

/-- A word lies in a range if it lies between the integers at its ends. -/
theorem contains_iff {b : Bounds} {value : Int64} :
    b.contains value = true ↔
      (boundsEnds b).1 ≤ value.toInt ∧ value.toInt ≤ (boundsEnds b).2 := by
  rw [Bounds.contains_eq_true, Int64.le_iff_toInt_le, Int64.le_iff_toInt_le]
  rfl

/-- A literal index outside its dimension. -/
def boundFaults (name : Token Kind) (index : Operand) (bounds? : Option Bounds) : Faults :=
  match index.constant, bounds? with
  | some value, some bounds =>
    faultIf (bounds.contains value = false) index.token (.outOfBounds value bounds name.text)
  | _, _ => []

/-- The faults of the first index come before those of the rest. -/
theorem indexFaults_cons (shape : Shape) (d : Nat) (index : Operand) (rest : List Operand) :
    indexFaults name shape d (index :: rest) =
      conflictFaults index.token index.type .integer ++
        boundFaults name index (shape.bounds? d) ++ indexFaults name shape (d + 1) rest := rfl

/-- A literal index is at fault unless it lies in its dimension. -/
theorem boundFaults_eq_nil {e : Expr} {type : Ty} (h : e.HasType env.scopes type) (b : Bounds) :
    boundFaults name (e.operand env) (some b) = [] ↔ LiesIn e (boundsEnds b) := by
  unfold LiesIn boundFaults
  rw [← h.constant_toInt.1]
  show (match e.constant, some b with
    | some value, some bounds => faultIf _ _ _
    | _, _ => []) = [] ↔ _
  cases e.constant with
  | none => simp
  | some value =>
    show faultIf (b.contains value = false) _ _ = [] ↔ _
    rw [faultIf_eq_nil, Bool.not_eq_false, contains_iff]
    simp

/-- Indices from some dimension on; `before` are the dimensions before it. -/
theorem indexFaults_eq_nil (henv : env.Defined) {indices : List Expr}
    (htypes : ∀ e ∈ indices, e.HasType env.scopes (e.type env)) (before bs : List Bounds)
    (hlength : indices.length = bs.length) :
    indexFaults name ⟨before ++ bs⟩ (before.length + 1) (indices.map (Expr.operand env)) = [] ↔
      (∀ e ∈ indices, e.HasType env.scopes .integer) ∧
        List.Forall₂ LiesIn indices (bs.map boundsEnds) := by
  induction indices generalizing before bs with
  | nil =>
    obtain rfl := List.length_eq_zero_iff.1 hlength.symm
    simp [indexFaults]
  | cons e es ih =>
    obtain ⟨b, bs, rfl⟩ := List.exists_cons_of_length_eq_add_one hlength.symm
    have he := htypes e List.mem_cons_self
    have hbounds : Shape.bounds? ⟨before ++ b :: bs⟩ (before.length + 1) = some b := by
      rw [Shape.bounds?_succ, List.getElem?_append_right (Nat.le_refl _), Nat.sub_self]
      rfl
    have htype : conflictFaults (e.operand env).token (e.operand env).type .integer = [] ↔
        e.HasType env.scopes .integer := by
      show conflictFaults e.first (e.type env) .integer = [] ↔ _
      rw [conflictFaults_eq_nil (he.ne_undefined henv) (by simp)]
      constructor
      · intro heq
        rwa [heq] at he
      · exact Expr.HasType.type_eq
    have hrest := ih (fun e' he' => htypes e' (List.mem_cons_of_mem e he')) (before ++ [b]) bs
      (by simpa using hlength)
    rw [List.append_assoc, List.singleton_append, List.length_append,
      List.length_singleton] at hrest
    rw [List.map_cons, indexFaults_cons, hbounds, append_eq_nil, append_eq_nil, htype,
      boundFaults_eq_nil he, hrest, List.map_cons, List.forall₂_cons, List.forall_mem_cons]
    tauto

section

variable {indices : List Expr} {s : Symbol Kind Ty} (hs : env.lookup name.text = some s)

include hs

/-- What the rules say of a name is what its symbol means. -/
theorem meaningOf_eq_of_lookup {meaning : Meaning}
    (h : env.scopes.lookup name.text = some meaning) : meaningOf s = meaning := by
  rw [lookup_scopes_of_lookup hs] at h
  exact Option.some.inj h

/-- Indices are at fault where there is no array. -/
theorem plainFaults_eq_nil (hshape : s.shape? = none) :
    accessFaults name (some s) (indices.map (Expr.operand env)) = [] ↔
      ∃ type, (Expr.designator name indices).HasType env.scopes type := by
  have hmeaning := lookup_scopes_of_lookup hs
  have hfaults : accessFaults name (some s) (indices.map (Expr.operand env)) =
      faultIf (indices.map (Expr.operand env) ≠ []) name
        (.notAnArray name.text s.sort.label) := by
    simp only [accessFaults, hshape]
  rw [hfaults, faultIf_eq_nil, not_not, List.map_eq_nil_iff]
  constructor
  · rintro rfl
    by_cases hconst : s.isConst = true
    · rw [meaningOf_of_isConst hconst] at hmeaning
      exact ⟨_, .const hmeaning⟩
    · rw [meaningOf_of_isVariable hshape (Bool.eq_false_iff.2 hconst)] at hmeaning
      exact ⟨_, .var hmeaning⟩
  · rintro ⟨type, h⟩
    cases h with
    | var _ => rfl
    | const _ => rfl
    | element hlookup _ _ _ =>
      obtain ⟨shape, hsome, -⟩ := eq_of_meaningOf_eq_array (meaningOf_eq_of_lookup hs hlookup)
      rw [hshape] at hsome
      simp at hsome

/-- An array is at fault unless it has as many integer indices as dimensions, and in their bounds.
-/
theorem arrayFaults_eq_nil (henv : env.Defined)
    (htypes : ∀ e ∈ indices, e.HasType env.scopes (e.type env)) {shape : Shape}
    (hshape : s.shape? = some shape) :
    accessFaults name (some s) (indices.map (Expr.operand env)) = [] ↔
      ∃ type, (Expr.designator name indices).HasType env.scopes type := by
  have hmeaning := lookup_scopes_of_lookup hs
  have hunique : ∀ {meaning : Meaning}, env.scopes.lookup name.text = some meaning →
      .array (shape.dims.map boundsEnds) s.type = meaning := by
    intro meaning h
    rw [← meaningOf_of_shape?_eq_some hshape]
    exact meaningOf_eq_of_lookup hs h
  rw [meaningOf_of_shape?_eq_some hshape] at hmeaning
  have hfaults : accessFaults name (some s) (indices.map (Expr.operand env)) =
      if indices.map (Expr.operand env) = [] then
        [.custom name (Fault.arrayNotIndexed name.text).message]
      else
        faultIf ((indices.map (Expr.operand env)).length ≠ shape.rank) name
            (.indexCount name.text shape.rank (indices.map (Expr.operand env)).length) ++
          indexFaults name shape 1 (indices.map (Expr.operand env)) := by
    simp only [accessFaults, hshape]
  rw [hfaults]
  by_cases hempty : indices = []
  · rw [if_pos (List.map_eq_nil_iff.2 hempty)]
    refine ⟨fun h => absurd h (List.cons_ne_nil _ _), ?_⟩
    rintro ⟨type, h⟩
    cases h with
    | var hlookup => simpa using hunique hlookup
    | const hlookup => simpa using hunique hlookup
    | element _ hne _ _ => exact absurd hempty hne
  · rw [if_neg (mt List.map_eq_nil_iff.1 hempty), append_eq_nil, faultIf_eq_nil, not_not,
      List.length_map]
    constructor
    · rintro ⟨hlength, hindices⟩
      obtain ⟨hinteger, hlies⟩ := (indexFaults_eq_nil henv htypes [] shape.dims hlength).1 hindices
      exact ⟨_, .element hmeaning hempty hinteger hlies⟩
    · rintro ⟨type, h⟩
      cases h with
      | var hlookup => simpa using hunique hlookup
      | const hlookup => simpa using hunique hlookup
      | element hlookup _ hinteger hlies =>
        obtain ⟨rfl, -⟩ := Meaning.array.inj (hunique hlookup)
        have hlength : indices.length = shape.dims.length := by
          rw [hlies.length_eq, List.length_map]
        exact ⟨hlength, (indexFaults_eq_nil henv htypes [] shape.dims hlength).2 ⟨hinteger, hlies⟩⟩

/-- A name, with indices that have types, is used as it is declared. -/
theorem accessFaults_eq_nil (henv : env.Defined)
    (htypes : ∀ e ∈ indices, e.HasType env.scopes (e.type env)) :
    accessFaults name (some s) (indices.map (Expr.operand env)) = [] ↔
      ∃ type, (Expr.designator name indices).HasType env.scopes type := by
  cases hshape : s.shape? with
  | none => exact plainFaults_eq_nil hs hshape
  | some shape => exact arrayFaults_eq_nil hs henv htypes hshape

end

section

variable {op : Token Kind} {l r : Expr}

/-- An operator is at fault unless its operands have types that it takes. -/
theorem binaryFaults_eq_nil (henv : env.Defined) (hl : l.HasType env.scopes (l.type env))
    (hr : r.HasType env.scopes (r.type env)) :
    binaryFaults op (l.operand env) (r.operand env) = [] ↔
      ∃ type, (Expr.binary op l r).HasType env.scopes type := by
  have hldef := hl.ne_undefined henv
  have hrdef := hr.ne_undefined henv
  unfold binaryFaults
  show (if op.kind = .kwAnd ∨ op.kind = .kwOr then
      conflictFaults l.first (l.type env) .boolean ++ conflictFaults r.first (r.type env) .boolean
    else if l.type env = .undefined ∨ r.type env = .undefined then []
    else if (l.type env).isNumeric then conflictFaults r.first (r.type env) (l.type env)
    else [.custom op (Fault.notNumeric op.text).message]) = [] ↔ _
  by_cases hop : op.kind = .kwAnd ∨ op.kind = .kwOr
  · rw [if_pos hop, append_eq_nil, conflictFaults_eq_nil hldef (by simp),
      conflictFaults_eq_nil hrdef (by simp)]
    constructor
    · rintro ⟨hlbool, hrbool⟩
      rw [hlbool] at hl
      rw [hrbool] at hr
      exact ⟨_, .logical hop hl hr⟩
    · rintro ⟨type, h⟩
      cases h with
      | logical _ hl' hr' => exact ⟨hl'.type_eq, hr'.type_eq⟩
      | arithmetic hno _ _ _ => exact absurd hop hno
  · rw [if_neg hop, if_neg (by simp [hldef, hrdef])]
    by_cases hnumeric : (l.type env).isNumeric = true
    · rw [if_pos hnumeric, conflictFaults_eq_nil hrdef hldef]
      constructor
      · intro heq
        rw [heq] at hr
        exact ⟨_, .arithmetic hop hl hr hnumeric⟩
      · rintro ⟨type, h⟩
        cases h with
        | logical hyes _ _ => exact absurd hyes hop
        | arithmetic _ hl' hr' _ => rw [hl'.type_eq, hr'.type_eq]
    · rw [if_neg hnumeric]
      refine ⟨fun h => absurd h (List.cons_ne_nil _ _), ?_⟩
      rintro ⟨type, h⟩
      cases h with
      | logical hyes _ _ => exact absurd hyes hop
      | arithmetic _ hl' _ hnumeric' =>
        rw [hl'.type_eq] at hnumeric
        exact absurd hnumeric' hnumeric

/-- A comparison is at fault unless its operands have types that it takes. -/
theorem comparisonFaults_eq_nil (henv : env.Defined) (hl : l.HasType env.scopes (l.type env))
    (hr : r.HasType env.scopes (r.type env)) :
    comparisonFaults op (l.operand env) (r.operand env) = [] ↔
      ∃ type, (Expr.comparison op l r).HasType env.scopes type := by
  have hldef := hl.ne_undefined henv
  have hrdef := hr.ne_undefined henv
  unfold comparisonFaults
  show (if l.type env = .undefined ∨ r.type env = .undefined then []
    else if op.kind = .equal ∨ op.kind = .notEqual ∨ (l.type env).isNumeric then
      conflictFaults r.first (r.type env) (l.type env)
    else [.custom op (Fault.notNumeric op.text).message]) = [] ↔ _
  rw [if_neg (by simp [hldef, hrdef])]
  by_cases hop : op.kind = .equal ∨ op.kind = .notEqual ∨ (l.type env).isNumeric = true
  · rw [if_pos hop, conflictFaults_eq_nil hrdef hldef]
    constructor
    · intro heq
      rw [heq] at hr
      exact ⟨_, .comparison hl hr hop⟩
    · rintro ⟨type, h⟩
      cases h with
      | comparison hl' hr' _ => rw [hl'.type_eq, hr'.type_eq]
  · rw [if_neg hop]
    refine ⟨fun h => absurd h (List.cons_ne_nil _ _), ?_⟩
    rintro ⟨type, h⟩
    cases h with
    | comparison hl' _ hop' =>
      rw [hl'.type_eq] at hop
      exact absurd hop' hop

/-- A sign is at fault unless its operand is a number. -/
theorem negationFaults_eq_nil {e : Expr} (henv : env.Defined)
    (he : e.HasType env.scopes (e.type env)) :
    negationFaults op (e.operand env) = [] ↔
      ∃ type, (Expr.negation op e).HasType env.scopes type := by
  have hdef := he.ne_undefined henv
  show faultIf (e.type env ≠ .undefined ∧ (e.type env).isNumeric = false) _ _ = [] ↔ _
  rw [faultIf_eq_nil, not_and, Bool.not_eq_false]
  constructor
  · intro h
    exact ⟨_, .negation he (h hdef)⟩
  · rintro ⟨type, h⟩ -
    cases h with
    | negation he' hnumeric => rwa [he'.type_eq]

end

/-! ## Expressions -/

/-- An expression has the type that the walk gives it, if it has any. -/
theorem hasType_type_iff {e : Expr} :
    e.HasType env.scopes (e.type env) ↔ ∃ type, e.HasType env.scopes type := by
  constructor
  · intro h
    exact ⟨_, h⟩
  · rintro ⟨type, h⟩
    rwa [h.type_eq]

/-- An operand that has to be a Boolean. -/
theorem conflictFaults_boolean_eq_nil (henv : env.Defined) {e : Expr}
    (he : ∃ type, e.HasType env.scopes type) :
    conflictFaults e.first (e.type env) .boolean = [] ↔ e.HasType env.scopes .boolean := by
  have htype := hasType_type_iff.2 he
  rw [conflictFaults_eq_nil (htype.ne_undefined henv) (by simp)]
  constructor
  · intro heq
    rwa [heq] at htype
  · exact Expr.HasType.type_eq

/-- Only a declared name has a type. -/
theorem Expr.HasType.exists_symbol {indices : List Expr} {type : Ty}
    (h : (Expr.designator name indices).HasType env.scopes type) :
    ∃ s, env.lookup name.text = some s := by
  cases h with
  | var hlookup =>
    obtain ⟨s, hs, -⟩ := exists_of_lookup_scopes hlookup
    exact ⟨s, hs⟩
  | const hlookup =>
    obtain ⟨s, hs, -⟩ := exists_of_lookup_scopes hlookup
    exact ⟨s, hs⟩
  | element hlookup _ _ _ =>
    obtain ⟨s, hs, -⟩ := exists_of_lookup_scopes hlookup
    exact ⟨s, hs⟩

/-- A designator is at fault unless it has a type. -/
theorem designatorFaults_eq_nil (henv : env.Defined) {indices : List Expr} :
    (unboundFaults name (env.lookup name.text) = [] ∧
        (∀ e ∈ indices, e.HasType env.scopes (e.type env)) ∧
        accessFaults name (env.lookup name.text) (indices.map (Expr.operand env)) = []) ↔
      ∃ type, (Expr.designator name indices).HasType env.scopes type := by
  rw [unboundFaults_eq_nil]
  constructor
  · rintro ⟨⟨s, hs⟩, htypes, haccess⟩
    rw [hs] at haccess
    exact (accessFaults_eq_nil hs henv htypes).1 haccess
  · rintro ⟨type, h⟩
    obtain ⟨s, hs⟩ := h.exists_symbol
    refine ⟨⟨s, hs⟩, h.indices, ?_⟩
    rw [hs]
    exact (accessFaults_eq_nil hs henv h.indices).2 ⟨type, h⟩

end

mutual

/-- An expression without faults has a type, and the other way round. -/
theorem Expr.faults_eq_nil {env : Env} (henv : env.Defined) : ∀ e : Expr,
    e.faults env = [] ↔ ∃ type, e.HasType env.scopes type
  | .designator name indices => by
    rw [faults, append_eq_nil, append_eq_nil, Expr.faultsAll_eq_nil henv indices, and_assoc]
    exact designatorFaults_eq_nil henv
  | .integer literal => by
    rw [faults, literalFaults_eq_nil]
    constructor
    · intro h
      exact ⟨_, .integer h⟩
    · rintro ⟨type, h⟩
      cases h with
      | integer hfits => exact hfits
  | .real literal => ⟨fun _ => ⟨_, .real⟩, fun _ => rfl⟩
  | .boolean literal => ⟨fun _ => ⟨_, .boolean⟩, fun _ => rfl⟩
  | .complement op e => by
    rw [faults, append_eq_nil, Expr.faults_eq_nil henv e]
    constructor
    · rintro ⟨he, hconflict⟩
      exact ⟨_, .complement ((conflictFaults_boolean_eq_nil henv he).1 hconflict)⟩
    · rintro ⟨type, h⟩
      cases h with
      | complement he => exact ⟨⟨_, he⟩, (conflictFaults_boolean_eq_nil henv ⟨_, he⟩).2 he⟩
  | .negation op e => by
    rw [faults, append_eq_nil, Expr.faults_eq_nil henv e]
    constructor
    · rintro ⟨he, hnegation⟩
      exact (negationFaults_eq_nil henv (hasType_type_iff.2 he)).1 hnegation
    · rintro ⟨type, h⟩
      have he : ∃ type, e.HasType env.scopes type := by
        cases h with
        | negation he _ => exact ⟨_, he⟩
      exact ⟨he, (negationFaults_eq_nil henv (hasType_type_iff.2 he)).2 ⟨type, h⟩⟩
  | .binary op l r => by
    -- The operands come first: only where both have types does the operation ask for these.
    rw [faults, append_eq_nil, append_eq_nil, Expr.faults_eq_nil henv l, Expr.faults_eq_nil henv r]
    constructor
    · rintro ⟨⟨hl, hr⟩, hbinary⟩
      exact (binaryFaults_eq_nil henv (hasType_type_iff.2 hl) (hasType_type_iff.2 hr)).1 hbinary
    · rintro ⟨type, h⟩
      have hlr : (∃ type, l.HasType env.scopes type) ∧ ∃ type, r.HasType env.scopes type := by
        cases h with
        | logical _ hl hr => exact ⟨⟨_, hl⟩, ⟨_, hr⟩⟩
        | arithmetic _ hl hr _ => exact ⟨⟨_, hl⟩, ⟨_, hr⟩⟩
      exact ⟨hlr, (binaryFaults_eq_nil henv (hasType_type_iff.2 hlr.1)
        (hasType_type_iff.2 hlr.2)).2 ⟨type, h⟩⟩
  | .comparison op l r => by
    rw [faults, append_eq_nil, append_eq_nil, Expr.faults_eq_nil henv l, Expr.faults_eq_nil henv r]
    constructor
    · rintro ⟨⟨hl, hr⟩, hcomparison⟩
      exact (comparisonFaults_eq_nil henv (hasType_type_iff.2 hl)
        (hasType_type_iff.2 hr)).1 hcomparison
    · rintro ⟨type, h⟩
      have hlr : (∃ type, l.HasType env.scopes type) ∧ ∃ type, r.HasType env.scopes type := by
        cases h with
        | comparison hl hr _ => exact ⟨⟨_, hl⟩, ⟨_, hr⟩⟩
      exact ⟨hlr, (comparisonFaults_eq_nil henv (hasType_type_iff.2 hlr.1)
        (hasType_type_iff.2 hlr.2)).2 ⟨type, h⟩⟩

/-- Several expressions are without faults if each of them has a type. -/
theorem Expr.faultsAll_eq_nil {env : Env} (henv : env.Defined) : ∀ es : List Expr,
    faultsAll env es = [] ↔ ∀ e ∈ es, e.HasType env.scopes (e.type env)
  | [] => by simp [faultsAll]
  | e :: es => by
    rw [faultsAll, append_eq_nil, Expr.faults_eq_nil henv e, Expr.faultsAll_eq_nil henv es,
      List.forall_mem_cons, hasType_type_iff]

end

end SinglePass.Simple
