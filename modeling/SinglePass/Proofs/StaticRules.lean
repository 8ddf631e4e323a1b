import SinglePass.Proofs.Walk
import Mathlib.Data.List.Forall2

/-!
# The static rules of Simple

When a syntax tree is a correct program, said as typing rules: no faults, no order of traversal, no
type for what is unknown, and integers instead of 64-bit words.

* Every integer literal is at most `2 ^ 63 - 1`.
* The names of one list of declarations differ; an array has at least one index in each dimension.
* Every name is declared in an open scope, and means what the innermost such scope declares.
* A name is used with as many indices as it has dimensions; indices are integers, and a literal
  index, possibly negated, lies in its dimension.
* `+ - * /` and the sign take numbers of one type, `AND`, `OR`, `NOT` and conditions Booleans; `==`
  and `<>` compare operands of one type, the other comparisons numbers of one type.
* Only variables and elements of arrays are assigned to, with a value of their type, and only
  variables are read.
-/

namespace SinglePass.Simple

/-! ## What names mean -/

/-- What a name is declared to be. -/
inductive Meaning where
  | var (type : Ty)
  | const (type : Ty)
  /-- The ends of each dimension and the type of the elements. -/
  | array (ends : List (Int × Int)) (element : Ty)

/-- The names that the open scopes declare, innermost scope first. -/
abbrev Scopes := List (List (String × Meaning))

/-- What a name means: what the innermost scope that declares it says. -/
def Scopes.lookup (scopes : Scopes) (name : String) : Option Meaning :=
  scopes.findSome? (List.lookup name)

/-! ## Literals -/

/-- Does the value of an integer literal fit into 64 bits? -/
def Fits (literal : Token Kind) : Prop :=
  (decimalValue literal.text : Int) ≤ Int64.maxValue.toInt

instance (literal : Token Kind) : Decidable (Fits literal) :=
  inferInstanceAs (Decidable ((decimalValue literal.text : Int) ≤ Int64.maxValue.toInt))

/-- The value of an integer literal, possibly negated. -/
def Expr.literal? : Expr → Option Int
  | .integer literal => some (decimalValue literal.text)
  | .negation _ e => e.literal?.map fun value => -value
  | _ => none

/-- The value of a constant, with its sign. -/
def IntConst.int (n : IntConst) : Int :=
  if n.sign?.isSome then -(decimalValue n.literal.text : Int) else decimalValue n.literal.text

/-! ## Expressions -/

/-- An index that is a literal lies in its dimension. -/
def LiesIn (index : Expr) (ends : Int × Int) : Prop :=
  ∀ value, index.literal? = some value → ends.1 ≤ value ∧ value ≤ ends.2

/-- The typing rules of expressions. -/
inductive Expr.HasType (scopes : Scopes) : Expr → Ty → Prop
  | var {name : Token Kind} {type : Ty} :
      scopes.lookup name.text = some (.var type) → HasType scopes (.designator name []) type
  | const {name : Token Kind} {type : Ty} :
      scopes.lookup name.text = some (.const type) → HasType scopes (.designator name []) type
  | element {name : Token Kind} {ends : List (Int × Int)} {element : Ty} {indices : List Expr} :
      scopes.lookup name.text = some (.array ends element) → indices ≠ [] →
      (∀ index ∈ indices, HasType scopes index .integer) → List.Forall₂ LiesIn indices ends →
      HasType scopes (.designator name indices) element
  | integer {literal : Token Kind} : Fits literal → HasType scopes (.integer literal) .integer
  | real {literal : Token Kind} : HasType scopes (.real literal) .real
  | boolean {literal : Token Kind} : HasType scopes (.boolean literal) .boolean
  | complement {op : Token Kind} {e : Expr} :
      HasType scopes e .boolean → HasType scopes (.complement op e) .boolean
  | negation {op : Token Kind} {e : Expr} {type : Ty} :
      HasType scopes e type → type.isNumeric = true → HasType scopes (.negation op e) type
  | logical {op : Token Kind} {l r : Expr} :
      op.kind = .kwAnd ∨ op.kind = .kwOr → HasType scopes l .boolean → HasType scopes r .boolean →
      HasType scopes (.binary op l r) .boolean
  | arithmetic {op : Token Kind} {l r : Expr} {type : Ty} :
      ¬ (op.kind = .kwAnd ∨ op.kind = .kwOr) → HasType scopes l type → HasType scopes r type →
      type.isNumeric = true → HasType scopes (.binary op l r) type
  | comparison {op : Token Kind} {l r : Expr} {type : Ty} :
      HasType scopes l type → HasType scopes r type →
      op.kind = .equal ∨ op.kind = .notEqual ∨ type.isNumeric = true →
      HasType scopes (.comparison op l r) .boolean

/-! ## Declarations -/

/-- The ends of a dimension. -/
def Dim.ends : Dim → Int × Int
  | size n => (0, n.int - 1)
  | range m n => (m.int, n.int)

/-- The literals of a dimension fit, and it has an index. -/
def Dim.WellFormed : Dim → Prop
  | size n => Fits n.literal ∧ 1 ≤ n.int
  | range m n => Fits m.literal ∧ Fits n.literal ∧ m.int ≤ n.int

namespace Decl

/-- What the declared name means. -/
def meaning : Decl → Meaning
  | typed _ (.base type) => .var type
  | typed _ (.array dims element) => .array (dims.map Dim.ends) element
  | const _ value => .const value.type

/-- The literals of a declaration fit, and its dimensions are well formed. -/
def WellFormed : Decl → Prop
  | typed _ (.base _) => True
  | typed _ (.array dims _) => ∀ dim ∈ dims, dim.WellFormed
  | const _ (.integer n) => Fits n.literal
  | const _ _ => True

/-- What a list of declarations declares. -/
def scope (ds : List Decl) : List (String × Meaning) := ds.map fun d => (d.name.text, d.meaning)

/-- Every declaration is well formed, and no name is declared twice. -/
structure AllWellFormed (ds : List Decl) : Prop where
  each : ∀ d ∈ ds, d.WellFormed
  distinct : (ds.map fun d => d.name.text).Nodup

end Decl

/-! ## Statements and programs -/

/-- The typing rules of statements.  A block is typed in the scope of its declarations. -/
inductive Stmt.WellTyped : Scopes → Stmt → Prop
  | assign {scopes : Scopes} {name : Token Kind} {indices : List Expr} {value : Expr} {type : Ty} :
      (∀ t, scopes.lookup name.text ≠ some (.const t)) →
      (Expr.designator name indices).HasType scopes type → value.HasType scopes type →
      WellTyped scopes (.assign name indices value)
  | branch {scopes : Scopes} {test : Expr} {thenPart elsePart : List Stmt} :
      test.HasType scopes .boolean → (∀ s ∈ thenPart, WellTyped scopes s) →
      (∀ s ∈ elsePart, WellTyped scopes s) → WellTyped scopes (.branch test thenPart elsePart)
  | loop {scopes : Scopes} {test : Expr} {body : List Stmt} :
      test.HasType scopes .boolean → (∀ s ∈ body, WellTyped scopes s) →
      WellTyped scopes (.loop test body)
  | read {scopes : Scopes} {name : Token Kind} {type : Ty} :
      scopes.lookup name.text = some (.var type) → WellTyped scopes (.read name)
  | write {scopes : Scopes} {value : Expr} {type : Ty} :
      value.HasType scopes type → WellTyped scopes (.write value)
  | block {scopes : Scopes} {decls : List Decl} {body : List Stmt} :
      Decl.AllWellFormed decls → (∀ s ∈ body, WellTyped (Decl.scope decls :: scopes) s) →
      WellTyped scopes (.block decls body)

/-- The declarations of a program are well formed, and its statements are well typed in their
scope. -/
structure Program.WellFormed (p : Program) : Prop where
  decls : Decl.AllWellFormed p.decls
  body : ∀ s ∈ p.body, s.WellTyped [Decl.scope p.decls]

end SinglePass.Simple
