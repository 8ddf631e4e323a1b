import SinglePass.Proofs.Syntax
import SinglePass.Simple.Grammar

/-!
# Checking a syntax tree

What is wrong with a program whose syntax tree is known, said by recursion on the tree and
without tokens to consume, strategies or recovery.  The walk carries the open scopes, visits the
constructs in source order and lists their faults:

* of a declaration, those of its dimensions or its literal, then that of a name declared twice;
* of an assignment, an unknown target, a constant target, the faults of the indices, those of the
  indexing, those of the right side, and a conflict of the two types;
* of an operator, the faults of its operands from left to right, then that of the operator.

A name that one scope declares twice keeps its first symbol, and that is the one the fault names.
An operand of unknown type is at fault itself and silences the rules that meet it.
-/

namespace SinglePass.Simple

/-- What names stand for: the symbols of the open scopes, the innermost scope first and the
symbols of a scope in the order of their declaration. -/
abbrev Env := List (List (Symbol Kind Ty))

/-- The symbol that a name stands for: that of the innermost scope that binds it. -/
def Env.lookup (env : Env) (name : String) : Option (Symbol Kind Ty) :=
  env.findSome? fun scope => scope.find? fun symbol => symbol.name = name

/-- Faults in the order in which a walk meets them. -/
abbrev Faults := List (Diagnostic Kind Ty)

/-! ## Rules -/

/-- A fault of Simple, if a condition holds. -/
def faultIf (p : Prop) [Decidable p] (token : Token Kind) (fault : Fault) : Faults :=
  if p then [.custom token fault.message] else []

/-- A construct of one type where another is required. -/
def conflictFaults (token : Token Kind) (found expected : Ty) : Faults :=
  if found = expected ∨ found = .undefined ∨ expected = .undefined then []
  else [.typeConflict token found expected]

/-- A name that nothing declares. -/
def unboundFaults (name : Token Kind) (symbol? : Option (Symbol Kind Ty)) : Faults :=
  if symbol?.isNone then [.notDeclared name] else []

/-- A constant that is assigned to. -/
def targetFaults (name : Token Kind) (symbol? : Option (Symbol Kind Ty)) : Faults :=
  faultIf (symbol?.any Symbol.isConst) name (.constantTarget name.text)

/-- The indices of a shape from dimension `d` on: each has to be an integer, and a literal has to
lie in its dimension. -/
def indexFaults (name : Token Kind) (shape : Shape) : Nat → List Operand → Faults
  | _, [] => []
  | d, index :: rest =>
    conflictFaults index.token index.type .integer ++
      (match index.constant, shape.bounds? d with
        | some value, some bounds =>
          faultIf (bounds.contains value = false) index.token (.outOfBounds value bounds name.text)
        | _, _ => []) ++
      indexFaults name shape (d + 1) rest

/-- A name with its indices, if there are any. -/
def accessFaults (name : Token Kind) (symbol? : Option (Symbol Kind Ty))
    (indices : List Operand) : Faults :=
  match symbol? with
  | none => []
  | some symbol =>
    match symbol.shape? with
    | none => faultIf (indices ≠ []) name (.notAnArray name.text symbol.sort.label)
    | some shape =>
      if indices = [] then [.custom name (Fault.arrayNotIndexed name.text).message]
      else
        faultIf (indices.length ≠ shape.rank) name
            (.indexCount name.text shape.rank indices.length) ++
          indexFaults name shape 1 indices

/-- Two operands of an operator of `Term` or `SimpleExpr`. -/
def binaryFaults (op : Token Kind) (left right : Operand) : Faults :=
  if op.kind = .kwAnd ∨ op.kind = .kwOr then
    conflictFaults left.token left.type .boolean ++ conflictFaults right.token right.type .boolean
  else if left.type = .undefined ∨ right.type = .undefined then []
  else if left.type.isNumeric then conflictFaults right.token right.type left.type
  else [.custom op (Fault.notNumeric op.text).message]

/-- Two operands of a comparison. -/
def comparisonFaults (op : Token Kind) (left right : Operand) : Faults :=
  if left.type = .undefined ∨ right.type = .undefined then []
  else if op.kind = .equal ∨ op.kind = .notEqual ∨ left.type.isNumeric then
    conflictFaults right.token right.type left.type
  else [.custom op (Fault.notNumeric op.text).message]

/-- The operand of a sign. -/
def negationFaults (op : Token Kind) (operand : Operand) : Faults :=
  faultIf (operand.type ≠ .undefined ∧ operand.type.isNumeric = false) op (.notNumeric op.text)

/-! ## Expressions -/

/-- The type of a name with or without indices. -/
def accessType (symbol? : Option (Symbol Kind Ty)) (indexed : Bool) : Ty :=
  match symbol? with
  | none => .undefined
  | some symbol => if symbol.shape?.isSome = indexed then symbol.type else .undefined

namespace Expr

/-- The value of an integer literal that does not fit into 64 bits is taken to be 0. -/
def literalValue (literal : Token Kind) : Int64 := (intValue? literal.text).getD 0

/-- An integer literal that does not fit into 64 bits. -/
def literalFaults (literal : Token Kind) : Faults :=
  faultIf (intValue? literal.text = none) literal (.literalTooLarge literal.text)

/-- The type of an expression, as far as it is known. -/
def type (env : Env) : Expr → Ty
  | designator name indices => accessType (env.lookup name.text) (!indices.isEmpty)
  | integer _ => .integer
  | real _ => .real
  | boolean _ => .boolean
  | complement _ _ => .boolean
  | negation _ e => if (e.type env).isNumeric then e.type env else .undefined
  | binary op l r =>
    if op.kind = .kwAnd ∨ op.kind = .kwOr then .boolean
    else if (l.type env).isNumeric ∧ l.type env = r.type env then l.type env
    else .undefined
  | comparison _ _ _ => .boolean

/-- The token to which the faults of an expression as an operand are bound. -/
def first : Expr → Token Kind
  | designator name _ => name
  | integer literal => literal
  | real literal => literal
  | boolean literal => literal
  | complement op _ => op
  | negation op _ => op
  | binary _ l _ => l.first
  | comparison _ l _ => l.first

/-- The value of an integer literal, possibly negated; no other expression has one. -/
def constant : Expr → Option Int64
  | integer literal => some (literalValue literal)
  | negation _ e => e.constant.map fun value => -value
  | _ => none

/-- What the rules know of an expression. -/
def operand (env : Env) (e : Expr) : Operand := ⟨e.type env, e.first, e.constant⟩

mutual

/-- The faults of an expression. -/
def faults (env : Env) : Expr → Faults
  | designator name indices =>
    unboundFaults name (env.lookup name.text) ++ faultsAll env indices ++
      accessFaults name (env.lookup name.text) (indices.map (operand env))
  | integer literal => literalFaults literal
  | real _ => []
  | boolean _ => []
  | complement _ e => faults env e ++ conflictFaults e.first (e.type env) .boolean
  | negation op e => faults env e ++ negationFaults op (e.operand env)
  | binary op l r =>
    faults env l ++ faults env r ++ binaryFaults op (l.operand env) (r.operand env)
  | comparison op l r =>
    faults env l ++ faults env r ++ comparisonFaults op (l.operand env) (r.operand env)

/-- The faults of expressions in their order. -/
def faultsAll (env : Env) : List Expr → Faults
  | [] => []
  | e :: es => faults env e ++ faultsAll env es

end

end Expr

/-! ## Declarations -/

namespace IntConst

/-- The first token of the constant. -/
def first (n : IntConst) : Token Kind := n.sign?.getD n.literal

/-- The value, with its sign. -/
def value (n : IntConst) : Int64 :=
  if n.sign?.isSome then -Expr.literalValue n.literal else Expr.literalValue n.literal

/-- A literal that does not fit into 64 bits. -/
def faults (n : IntConst) : Faults := Expr.literalFaults n.literal

end IntConst

namespace Dim

/-- The range of a dimension. -/
def bounds : Dim → Bounds
  | size n => .ofSize n.value
  | range m n => .ofEnds m.value n.value

/-- The faults of a dimension are bound to its first token, those of its literals to these. -/
def faults : Dim → Faults
  | size n => n.faults ++ faultIf (n.value ≤ 0) n.first (.sizeNotPositive n.value)
  | range m n =>
    m.faults ++ n.faults ++
      faultIf (n.value < m.value) m.first (.boundsReversed m.value n.value)

end Dim

/-- The type of a constant. -/
def Literal.type : Literal → Ty
  | integer _ => .integer
  | real => .real
  | boolean => .boolean

namespace Decl

/-- The declared name. -/
def name : Decl → Token Kind
  | typed name _ => name
  | const name _ => name

/-- The symbol that the name is declared to stand for. -/
def symbol : Decl → Symbol Kind Ty
  | typed name (.base type) => .var name type
  | typed name (.array dims element) => .array name element (dims.map Dim.bounds)
  | const name value => .const name value.type

/-- A declaration makes a symbol at its name. -/
theorem symbol_token (d : Decl) : d.symbol.token = d.name := by
  match d with
  | .typed _ (.base _) => rfl
  | .typed _ (.array _ _) => rfl
  | .const _ _ => rfl

/-- The faults of a declaration itself, whatever else is declared. -/
def faults : Decl → Faults
  | typed _ (.base _) => []
  | typed _ (.array dims _) => dims.flatMap Dim.faults
  | const _ (.integer n) => n.faults
  | const _ _ => []

/-- The symbols that are accepted into a scope that holds some already. -/
def accepted (scope : List (Symbol Kind Ty)) : List Decl → List (Symbol Kind Ty)
  | [] => []
  | d :: ds =>
    match scope.find? fun symbol => symbol.name = d.name.text with
    | some _ => accepted scope ds
    | none => d.symbol :: accepted (scope ++ [d.symbol]) ds

/-- The faults of declarations in a scope that holds some symbols already. -/
def faultsAll (scope : List (Symbol Kind Ty)) : List Decl → Faults
  | [] => []
  | d :: ds =>
    d.faults ++
      match scope.find? fun symbol => symbol.name = d.name.text with
      | some first => .alreadyDeclared d.name first :: faultsAll scope ds
      | none => faultsAll (scope ++ [d.symbol]) ds

end Decl

/-! ## Statements and programs -/

namespace Stmt

mutual

/-- The faults of a statement. -/
def faults (env : Env) : Stmt → Faults
  | assign name indices value =>
    unboundFaults name (env.lookup name.text) ++ targetFaults name (env.lookup name.text) ++
      Expr.faultsAll env indices ++
      accessFaults name (env.lookup name.text) (indices.map (Expr.operand env)) ++
      value.faults env ++
      conflictFaults value.first (value.type env)
        (accessType (env.lookup name.text) (!indices.isEmpty))
  | branch test thenPart elsePart =>
    test.faults env ++ conflictFaults test.first (test.type env) .boolean ++
      faultsAll env thenPart ++ faultsAll env elsePart
  | loop test body =>
    test.faults env ++ conflictFaults test.first (test.type env) .boolean ++ faultsAll env body
  | read name =>
    unboundFaults name (env.lookup name.text) ++ targetFaults name (env.lookup name.text) ++
      accessFaults name (env.lookup name.text) []
  | write value => value.faults env
  | block decls body => Decl.faultsAll [] decls ++ faultsAll (Decl.accepted [] decls :: env) body

/-- The faults of statements in their order. -/
def faultsAll (env : Env) : List Stmt → Faults
  | [] => []
  | s :: ss => faults env s ++ faultsAll env ss

end

mutual

/-- The symbols that the blocks of a statement declare. -/
def declared : Stmt → List (Symbol Kind Ty)
  | branch _ thenPart elsePart => declaredAll thenPart ++ declaredAll elsePart
  | loop _ body => declaredAll body
  | block decls body => Decl.accepted [] decls ++ declaredAll body
  | _ => []

/-- The symbols that the blocks of statements declare. -/
def declaredAll : List Stmt → List (Symbol Kind Ty)
  | [] => []
  | s :: ss => declared s ++ declaredAll ss

end

end Stmt

namespace Program

/-- The faults of a program. -/
def faults (p : Program) : Faults :=
  Decl.faultsAll [] p.decls ++ Stmt.faultsAll [Decl.accepted [] p.decls] p.body

/-- The symbols that a program declares: its own and those of its blocks. -/
def declared (p : Program) : List (Symbol Kind Ty) :=
  Decl.accepted [] p.decls ++ Stmt.declaredAll p.body

end Program

/-! ## What a walk finds

A syntax tree has no unexpected token, and its tokens are no business of a walk. -/

/-- Are all faults faults of meaning? -/
def OfMeaning (faults : Faults) : Prop := ∀ d ∈ faults, d.isSemantic = true

/-- Where there are no faults, all of them are of meaning. -/
@[simp] theorem ofMeaning_nil : OfMeaning [] := by
  intro d hd
  simp at hd

/-- Faults are of meaning if both parts of them are. -/
@[simp] theorem ofMeaning_append {faults more : Faults} :
    OfMeaning (faults ++ more) ↔ OfMeaning faults ∧ OfMeaning more := by
  unfold OfMeaning
  rw [List.forall_mem_append]

/-- A fault of meaning is one by itself. -/
theorem ofMeaning_singleton {d : Diagnostic Kind Ty} (h : d.isSemantic = true) : OfMeaning [d] := by
  intro d' hd'
  rw [List.mem_singleton.1 hd']
  exact h

/-- Faults are of meaning if they are so on either condition. -/
theorem ofMeaning_ite {p : Prop} [Decidable p] {faults more : Faults} (h : OfMeaning faults)
    (h' : OfMeaning more) : OfMeaning (if p then faults else more) := by
  split
  · exact h
  · exact h'

/-- The faults of Simple are of meaning. -/
theorem ofMeaning_faultIf (p : Prop) [Decidable p] (token : Token Kind) (fault : Fault) :
    OfMeaning (faultIf p token fault) :=
  ofMeaning_ite (ofMeaning_singleton rfl) ofMeaning_nil

/-- A conflict of types is a fault of meaning. -/
theorem ofMeaning_conflictFaults (token : Token Kind) (found expected : Ty) :
    OfMeaning (conflictFaults token found expected) :=
  ofMeaning_ite ofMeaning_nil (ofMeaning_singleton rfl)

/-- A name that nothing declares is a fault of meaning. -/
theorem ofMeaning_unboundFaults (name : Token Kind) (symbol? : Option (Symbol Kind Ty)) :
    OfMeaning (unboundFaults name symbol?) :=
  ofMeaning_ite (ofMeaning_singleton rfl) ofMeaning_nil

/-- The faults of indices are of meaning. -/
theorem ofMeaning_indexFaults (name : Token Kind) (shape : Shape) (d : Nat)
    (indices : List Operand) : OfMeaning (indexFaults name shape d indices) := by
  induction indices generalizing d with
  | nil => exact ofMeaning_nil
  | cons index rest ih =>
    rw [indexFaults, ofMeaning_append, ofMeaning_append]
    refine ⟨⟨ofMeaning_conflictFaults _ _ _, ?_⟩, ih (d + 1)⟩
    split
    · exact ofMeaning_faultIf _ _ _
    · exact ofMeaning_nil

/-- The faults of a name with its indices are of meaning. -/
theorem ofMeaning_accessFaults (name : Token Kind) (symbol? : Option (Symbol Kind Ty))
    (indices : List Operand) : OfMeaning (accessFaults name symbol? indices) := by
  unfold accessFaults
  split
  · exact ofMeaning_nil
  · split
    · exact ofMeaning_faultIf _ _ _
    · refine ofMeaning_ite (ofMeaning_singleton rfl) ?_
      rw [ofMeaning_append]
      exact ⟨ofMeaning_faultIf _ _ _, ofMeaning_indexFaults _ _ _ _⟩

/-- The faults of an operator are of meaning. -/
theorem ofMeaning_binaryFaults (op : Token Kind) (left right : Operand) :
    OfMeaning (binaryFaults op left right) := by
  refine ofMeaning_ite ?_ (ofMeaning_ite ofMeaning_nil
    (ofMeaning_ite (ofMeaning_conflictFaults _ _ _) (ofMeaning_singleton rfl)))
  rw [ofMeaning_append]
  exact ⟨ofMeaning_conflictFaults _ _ _, ofMeaning_conflictFaults _ _ _⟩

/-- The faults of a comparison are of meaning. -/
theorem ofMeaning_comparisonFaults (op : Token Kind) (left right : Operand) :
    OfMeaning (comparisonFaults op left right) :=
  ofMeaning_ite ofMeaning_nil
    (ofMeaning_ite (ofMeaning_conflictFaults _ _ _) (ofMeaning_singleton rfl))

mutual

/-- **The walk of an expression lists faults of meaning only.** -/
theorem Expr.faults_ofMeaning (env : Env) : ∀ e : Expr, OfMeaning (e.faults env)
  | .designator name indices => by
    rw [faults, ofMeaning_append, ofMeaning_append]
    exact ⟨⟨ofMeaning_unboundFaults _ _, faultsAll_ofMeaning env indices⟩,
      ofMeaning_accessFaults _ _ _⟩
  | .integer literal => ofMeaning_faultIf _ _ _
  | .real _ => ofMeaning_nil
  | .boolean _ => ofMeaning_nil
  | .complement _ e => by
    rw [faults, ofMeaning_append]
    exact ⟨faults_ofMeaning env e, ofMeaning_conflictFaults _ _ _⟩
  | .negation _ e => by
    rw [faults, ofMeaning_append]
    exact ⟨faults_ofMeaning env e, ofMeaning_faultIf _ _ _⟩
  | .binary _ l r => by
    rw [faults, ofMeaning_append, ofMeaning_append]
    exact ⟨⟨faults_ofMeaning env l, faults_ofMeaning env r⟩, ofMeaning_binaryFaults _ _ _⟩
  | .comparison _ l r => by
    rw [faults, ofMeaning_append, ofMeaning_append]
    exact ⟨⟨faults_ofMeaning env l, faults_ofMeaning env r⟩, ofMeaning_comparisonFaults _ _ _⟩

/-- The walk of several expressions lists faults of meaning only. -/
theorem Expr.faultsAll_ofMeaning (env : Env) : ∀ es : List Expr, OfMeaning (faultsAll env es)
  | [] => ofMeaning_nil
  | e :: es => by
    rw [faultsAll, ofMeaning_append]
    exact ⟨faults_ofMeaning env e, faultsAll_ofMeaning env es⟩

end

/-- The walk of a dimension lists faults of meaning only. -/
theorem Dim.faults_ofMeaning (d : Dim) : OfMeaning d.faults := by
  cases d with
  | size n =>
    rw [faults, ofMeaning_append]
    exact ⟨ofMeaning_faultIf _ _ _, ofMeaning_faultIf _ _ _⟩
  | range m n =>
    rw [faults, ofMeaning_append, ofMeaning_append]
    exact ⟨⟨ofMeaning_faultIf _ _ _, ofMeaning_faultIf _ _ _⟩, ofMeaning_faultIf _ _ _⟩

/-- The walk of a declaration lists faults of meaning only. -/
theorem Decl.faults_ofMeaning (d : Decl) : OfMeaning d.faults := by
  match d with
  | .typed _ (.base _) => exact ofMeaning_nil
  | .typed _ (.array dims _) =>
    intro d hd
    obtain ⟨dim, -, hmem⟩ := List.mem_flatMap.1 hd
    exact dim.faults_ofMeaning d hmem
  | .const _ (.integer n) => exact ofMeaning_faultIf _ _ _
  | .const _ .real => exact ofMeaning_nil
  | .const _ .boolean => exact ofMeaning_nil

/-- The walk of several declarations lists faults of meaning only. -/
theorem Decl.faultsAll_ofMeaning (scope : List (Symbol Kind Ty)) (ds : List Decl) :
    OfMeaning (faultsAll scope ds) := by
  induction ds generalizing scope with
  | nil => exact ofMeaning_nil
  | cons d ds ih =>
    rw [faultsAll, ofMeaning_append]
    refine ⟨d.faults_ofMeaning, ?_⟩
    split
    · intro d' hd'
      rcases List.mem_cons.1 hd' with rfl | hd'
      · rfl
      · exact ih scope d' hd'
    · exact ih _

mutual

/-- **The walk of a statement lists faults of meaning only.** -/
theorem Stmt.faults_ofMeaning (env : Env) : ∀ s : Stmt, OfMeaning (s.faults env)
  | .assign name indices value => by
    simp only [faults, ofMeaning_append]
    exact ⟨⟨⟨⟨⟨ofMeaning_unboundFaults _ _, ofMeaning_faultIf _ _ _⟩,
      Expr.faultsAll_ofMeaning env indices⟩, ofMeaning_accessFaults _ _ _⟩,
      value.faults_ofMeaning env⟩, ofMeaning_conflictFaults _ _ _⟩
  | .branch test thenPart elsePart => by
    simp only [faults, ofMeaning_append]
    exact ⟨⟨⟨test.faults_ofMeaning env, ofMeaning_conflictFaults _ _ _⟩,
      faultsAll_ofMeaning env thenPart⟩, faultsAll_ofMeaning env elsePart⟩
  | .loop test body => by
    simp only [faults, ofMeaning_append]
    exact ⟨⟨test.faults_ofMeaning env, ofMeaning_conflictFaults _ _ _⟩,
      faultsAll_ofMeaning env body⟩
  | .read name => by
    simp only [faults, ofMeaning_append]
    exact ⟨⟨ofMeaning_unboundFaults _ _, ofMeaning_faultIf _ _ _⟩, ofMeaning_accessFaults _ _ _⟩
  | .write value => value.faults_ofMeaning env
  | .block decls body => by
    rw [faults, ofMeaning_append]
    exact ⟨Decl.faultsAll_ofMeaning [] decls, faultsAll_ofMeaning _ body⟩

/-- The walk of several statements lists faults of meaning only. -/
theorem Stmt.faultsAll_ofMeaning (env : Env) : ∀ ss : List Stmt, OfMeaning (faultsAll env ss)
  | [] => ofMeaning_nil
  | s :: ss => by
    rw [faultsAll, ofMeaning_append]
    exact ⟨faults_ofMeaning env s, faultsAll_ofMeaning env ss⟩

end

/-- A walk finds nothing but faults of meaning. -/
theorem Program.faults_ofMeaning (p : Program) : OfMeaning p.faults :=
  ofMeaning_append.2 ⟨Decl.faultsAll_ofMeaning [] p.decls, Stmt.faultsAll_ofMeaning _ p.body⟩

end SinglePass.Simple
