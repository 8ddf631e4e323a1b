import SinglePass.Simple.Vocabulary
import SinglePass.Token

/-!
# The syntax of Simple

The grammar of Simple as a relation between token lists and syntax trees, apart from any
recognizer.  A tree keeps the tokens that carry meaning or a position: names, literals and
operators.  Everything else, parentheses included, is left to the derivation.

```text
Program    = "PROGRAM" Ident [ "WITH" DeclList ] "IN" StmtList "END" .
DeclList   = Decl { "," Decl } .
Decl       = Ident ( "AS" TypeSpec | "=" Literal ) .
Literal    = [ "-" ] ( IntLit | RealLit ) | "TRUE" | "FALSE" .
TypeSpec   = BaseType | "ARRAY" "[" Dim { "," Dim } "]" "OF" BaseType .
Dim        = IntConst [ ":" IntConst ] .
IntConst   = [ "-" ] IntLit .
StmtList   = { Statement } .
Statement  = Designator "=" Expression
           | "IF" Expression "THEN" StmtList [ "ELSE" StmtList ] "END"
           | "WHILE" Expression "DO" StmtList "END"
           | "READ" Ident | "WRITE" Expression
           | "WITH" DeclList "IN" StmtList "END" .
Expression = SimpleExpr [ RelOp SimpleExpr ] .
SimpleExpr = [ "-" ] Term { ( "+" | "-" | "OR" ) Term } .
Term       = Factor { ( "*" | "/" | "AND" ) Factor } .
Factor     = Designator | IntLit | RealLit | "TRUE" | "FALSE" | "NOT" Factor
           | "(" Expression ")" .
Designator = Ident [ "[" Expression { "," Expression } "]" ] .
```

`Sentence` is the relation for whole token streams, and `IsSentence` what is left of it when
only the kinds of the tokens are known.
-/

namespace SinglePass.Simple

/-! ## Repetition -/

/-- Phrases one after another. -/
inductive Repeated {α : Type} (Derives : List (Token Kind) → α → Prop) :
    List (Token Kind) → List α → Prop
  | nil : Repeated Derives [] []
  | cons {ts us : List (Token Kind)} {a : α} {as : List α} :
      Derives ts a → Repeated Derives us as → Repeated Derives (ts ++ us) (a :: as)

/-- Phrases one after another, each behind a comma. -/
inductive CommaRepeated {α : Type} (Derives : List (Token Kind) → α → Prop) :
    List (Token Kind) → List α → Prop
  | nil : CommaRepeated Derives [] []
  | cons {comma : Token Kind} {ts us : List (Token Kind)} {a : α} {as : List α} :
      comma.kind = .comma → Derives ts a → CommaRepeated Derives us as →
      CommaRepeated Derives (comma :: (ts ++ us)) (a :: as)

/-- One or more phrases with commas between them. -/
inductive CommaList {α : Type} (Derives : List (Token Kind) → α → Prop) :
    List (Token Kind) → List α → Prop
  | intro {ts us : List (Token Kind)} {a : α} {as : List α} :
      Derives ts a → CommaRepeated Derives us as → CommaList Derives (ts ++ us) (a :: as)

/-- A repetition of phrases is one of phrases of a wider sort. -/
theorem CommaRepeated.mono {α : Type} {Derives Derives' : List (Token Kind) → α → Prop}
    {us : List (Token Kind)} {as : List α} (h : CommaRepeated Derives us as)
    (hmono : ∀ ts a, Derives ts a → Derives' ts a) : CommaRepeated Derives' us as := by
  induction h with
  | nil => exact .nil
  | cons hcomma hfirst _ ih => exact .cons hcomma (hmono _ _ hfirst) ih

/-- A phrase more at the end. -/
theorem CommaRepeated.concat {α : Type} {Derives : List (Token Kind) → α → Prop}
    {comma : Token Kind} {ts us : List (Token Kind)} {a : α} {as : List α}
    (h : CommaRepeated Derives us as) (hcomma : comma.kind = .comma) (hlast : Derives ts a) :
    CommaRepeated Derives (us ++ comma :: ts) (as ++ [a]) := by
  induction h with
  | nil =>
    have hsingle := CommaRepeated.cons hcomma hlast .nil
    rwa [List.append_nil] at hsingle
  | cons hfirst hphrase _ ih =>
    rw [List.cons_append, List.append_assoc]
    exact .cons hfirst hphrase ih

/-! ## Expressions -/

/-- An expression.  A designator without indices stands for a name that no index list
follows. -/
inductive Expr where
  | designator (name : Token Kind) (indices : List Expr)
  | integer (literal : Token Kind)
  | real (literal : Token Kind)
  | boolean (literal : Token Kind)
  | complement (op : Token Kind) (operand : Expr)
  | negation (op : Token Kind) (operand : Expr)
  | binary (op : Token Kind) (left right : Expr)
  | comparison (op : Token Kind) (left right : Expr)

/-- How strongly the parts of an expression are bound, from the strongest. -/
inductive Strength where
  | factor
  | term
  | simple
  | full

/-- The operators that join factors. -/
def factorOperators : List Kind := [.star, .slash, .kwAnd]

/-- The operators that join terms. -/
def termOperators : List Kind := [.plus, .minus, .kwOr]

/-- The rules of expressions: the tokens make up the expression of the given strength. -/
inductive Expr.Derives : Strength → List (Token Kind) → Expr → Prop
  | name {name : Token Kind} : name.kind = .ident → Derives .factor [name] (.designator name [])
  | element {name opening closing : Token Kind} {ts us : List (Token Kind)} {e : Expr}
      {es : List Expr} :
      name.kind = .ident → opening.kind = .leftBracket → Derives .full ts e →
      CommaRepeated (Derives .full) us es → closing.kind = .rightBracket →
      Derives .factor (name :: opening :: (ts ++ us ++ [closing])) (.designator name (e :: es))
  | integer {t : Token Kind} : t.kind = .intLiteral → Derives .factor [t] (.integer t)
  | real {t : Token Kind} : t.kind = .realLiteral → Derives .factor [t] (.real t)
  | boolean {t : Token Kind} :
      t.kind = .kwTrue ∨ t.kind = .kwFalse → Derives .factor [t] (.boolean t)
  | complement {op : Token Kind} {ts : List (Token Kind)} {e : Expr} :
      op.kind = .kwNot → Derives .factor ts e → Derives .factor (op :: ts) (.complement op e)
  | parentheses {opening closing : Token Kind} {ts : List (Token Kind)} {e : Expr} :
      opening.kind = .leftParen → Derives .full ts e → closing.kind = .rightParen →
      Derives .factor (opening :: (ts ++ [closing])) e
  | ofFactor {ts : List (Token Kind)} {e : Expr} : Derives .factor ts e → Derives .term ts e
  | product {op : Token Kind} {ts us : List (Token Kind)} {l r : Expr} :
      Derives .term ts l → op.kind ∈ factorOperators → Derives .factor us r →
      Derives .term (ts ++ op :: us) (.binary op l r)
  | ofTerm {ts : List (Token Kind)} {e : Expr} : Derives .term ts e → Derives .simple ts e
  | negation {op : Token Kind} {ts : List (Token Kind)} {e : Expr} :
      op.kind = .minus → Derives .term ts e → Derives .simple (op :: ts) (.negation op e)
  | sum {op : Token Kind} {ts us : List (Token Kind)} {l r : Expr} :
      Derives .simple ts l → op.kind ∈ termOperators → Derives .term us r →
      Derives .simple (ts ++ op :: us) (.binary op l r)
  | ofSimple {ts : List (Token Kind)} {e : Expr} : Derives .simple ts e → Derives .full ts e
  | comparison {op : Token Kind} {ts us : List (Token Kind)} {l r : Expr} :
      Derives .simple ts l → op.kind.isRelational = true → Derives .simple us r →
      Derives .full (ts ++ op :: us) (.comparison op l r)

/-- A name with its index list, if it has one. -/
inductive Designates : List (Token Kind) → Token Kind → List Expr → Prop
  | name {name : Token Kind} : name.kind = .ident → Designates [name] name []
  | element {name opening closing : Token Kind} {ts : List (Token Kind)} {es : List Expr} :
      name.kind = .ident → opening.kind = .leftBracket → CommaList (Expr.Derives .full) ts es →
      closing.kind = .rightBracket → Designates (name :: opening :: (ts ++ [closing])) name es

/-! ## Declarations -/

/-- An integer literal with an optional sign. -/
structure IntConst where
  sign? : Option (Token Kind)
  literal : Token Kind

inductive IntConst.Derives : List (Token Kind) → IntConst → Prop
  | plain {t : Token Kind} : t.kind = .intLiteral → Derives [t] ⟨none, t⟩
  | signed {sign t : Token Kind} :
      sign.kind = .minus → t.kind = .intLiteral → Derives [sign, t] ⟨some sign, t⟩

/-- A dimension of an array. -/
inductive Dim where
  | size (size : IntConst)
  | range (lower upper : IntConst)

inductive Dim.Derives : List (Token Kind) → Dim → Prop
  | size {ts : List (Token Kind)} {n : IntConst} : n.Derives ts → Derives ts (.size n)
  | range {colon : Token Kind} {ts us : List (Token Kind)} {m n : IntConst} :
      m.Derives ts → colon.kind = .colon → n.Derives us → Derives (ts ++ colon :: us) (.range m n)

/-- What a name is declared to be: a variable of a type, or an array of elements of a type. -/
inductive TypeSpec where
  | base (type : Ty)
  | array (dims : List Dim) (element : Ty)

inductive TypeSpec.Derives : List (Token Kind) → TypeSpec → Prop
  | base {t : Token Kind} {type : Ty} :
      Ty.ofKeyword? t.kind = some type → Derives [t] (.base type)
  | array {array opening closing ofWord t : Token Kind} {ts : List (Token Kind)}
      {dims : List Dim} {element : Ty} :
      array.kind = .kwArray → opening.kind = .leftBracket → CommaList Dim.Derives ts dims →
      closing.kind = .rightBracket → ofWord.kind = .kwOf → Ty.ofKeyword? t.kind = some element →
      Derives (array :: opening :: (ts ++ [closing, ofWord, t])) (.array dims element)

/-- The value of a constant. -/
inductive Literal where
  | integer (value : IntConst)
  | real
  | boolean

inductive Literal.Derives : List (Token Kind) → Literal → Prop
  | integer {ts : List (Token Kind)} {n : IntConst} : n.Derives ts → Derives ts (.integer n)
  | real {t : Token Kind} : t.kind = .realLiteral → Derives [t] .real
  | signedReal {sign t : Token Kind} :
      sign.kind = .minus → t.kind = .realLiteral → Derives [sign, t] .real
  | boolean {t : Token Kind} : t.kind = .kwTrue ∨ t.kind = .kwFalse → Derives [t] .boolean

/-- The declaration of one name. -/
inductive Decl where
  | typed (name : Token Kind) (spec : TypeSpec)
  | const (name : Token Kind) (value : Literal)

inductive Decl.Derives : List (Token Kind) → Decl → Prop
  | typed {name asWord : Token Kind} {ts : List (Token Kind)} {spec : TypeSpec} :
      name.kind = .ident → asWord.kind = .kwAs → spec.Derives ts →
      Derives (name :: asWord :: ts) (.typed name spec)
  | const {name assign : Token Kind} {ts : List (Token Kind)} {value : Literal} :
      name.kind = .ident → assign.kind = .assign → value.Derives ts →
      Derives (name :: assign :: ts) (.const name value)

/-! ## Statements and programs -/

/-- A statement.  `IF` without `ELSE` has an empty second list. -/
inductive Stmt where
  | assign (name : Token Kind) (indices : List Expr) (value : Expr)
  | branch (test : Expr) (thenPart elsePart : List Stmt)
  | loop (test : Expr) (body : List Stmt)
  | read (name : Token Kind)
  | write (value : Expr)
  | block (decls : List Decl) (body : List Stmt)

inductive Stmt.Derives : List (Token Kind) → Stmt → Prop
  | assign {assign name : Token Kind} {ts us : List (Token Kind)} {indices : List Expr}
      {value : Expr} :
      Designates ts name indices → assign.kind = .assign → Expr.Derives .full us value →
      Derives (ts ++ assign :: us) (.assign name indices value)
  | branch {ifWord thenWord endWord : Token Kind} {ts us : List (Token Kind)} {test : Expr}
      {body : List Stmt} :
      ifWord.kind = .kwIf → Expr.Derives .full ts test → thenWord.kind = .kwThen →
      Repeated Derives us body → endWord.kind = .kwEnd →
      Derives (ifWord :: (ts ++ thenWord :: (us ++ [endWord]))) (.branch test body [])
  | branchElse {ifWord thenWord elseWord endWord : Token Kind} {ts us vs : List (Token Kind)}
      {test : Expr} {thenPart elsePart : List Stmt} :
      ifWord.kind = .kwIf → Expr.Derives .full ts test → thenWord.kind = .kwThen →
      Repeated Derives us thenPart → elseWord.kind = .kwElse → Repeated Derives vs elsePart →
      endWord.kind = .kwEnd →
      Derives (ifWord :: (ts ++ thenWord :: (us ++ elseWord :: (vs ++ [endWord]))))
        (.branch test thenPart elsePart)
  | loop {whileWord doWord endWord : Token Kind} {ts us : List (Token Kind)} {test : Expr}
      {body : List Stmt} :
      whileWord.kind = .kwWhile → Expr.Derives .full ts test → doWord.kind = .kwDo →
      Repeated Derives us body → endWord.kind = .kwEnd →
      Derives (whileWord :: (ts ++ doWord :: (us ++ [endWord]))) (.loop test body)
  | read {readWord name : Token Kind} :
      readWord.kind = .kwRead → name.kind = .ident → Derives [readWord, name] (.read name)
  | write {writeWord : Token Kind} {ts : List (Token Kind)} {value : Expr} :
      writeWord.kind = .kwWrite → Expr.Derives .full ts value →
      Derives (writeWord :: ts) (.write value)
  | block {withWord inWord endWord : Token Kind} {ts us : List (Token Kind)}
      {decls : List Decl} {body : List Stmt} :
      withWord.kind = .kwWith → CommaList Decl.Derives ts decls → inWord.kind = .kwIn →
      Repeated Derives us body → endWord.kind = .kwEnd →
      Derives (withWord :: (ts ++ inWord :: (us ++ [endWord]))) (.block decls body)

/-- A program; without `WITH` it has no declarations. -/
structure Program where
  name : Token Kind
  decls : List Decl
  body : List Stmt

/-- The declarations of a program, which may be missing. -/
inductive OptionalDecls : List (Token Kind) → List Decl → Prop
  | none : OptionalDecls [] []
  | some {withWord : Token Kind} {ts : List (Token Kind)} {decls : List Decl} :
      withWord.kind = .kwWith → CommaList Decl.Derives ts decls →
      OptionalDecls (withWord :: ts) decls

inductive Program.Derives : List (Token Kind) → Program → Prop
  | intro {programWord name inWord endWord : Token Kind} {ts us : List (Token Kind)}
      {decls : List Decl} {body : List Stmt} :
      programWord.kind = .kwProgram → name.kind = .ident → OptionalDecls ts decls →
      inWord.kind = .kwIn → Repeated Stmt.Derives us body → endWord.kind = .kwEnd →
      Derives (programWord :: name :: (ts ++ inWord :: (us ++ [endWord]))) ⟨name, decls, body⟩

/-- The tokens are those of a program, with the one that ends the source behind them. -/
inductive Sentence : List (Token Kind) → Program → Prop
  | intro {ts : List (Token Kind)} {final : Token Kind} {p : Program} :
      p.Derives ts → final.kind = .endOfFile → Sentence (ts ++ [final]) p

/-- The kinds are those of the tokens of some program, up to the end of the source. -/
def IsSentence (kinds : List Kind) : Prop :=
  ∃ tokens p, tokens.map Token.kind = kinds ∧ Sentence tokens p

/-! ## Tokens of a sentence -/

/-- Is the kind one of tokens that have a place inside a program? -/
def Kind.isOrdinary (kind : Kind) : Bool := !kind.isInvalid && kind != .endOfFile

/-- Every token has a place inside a program. -/
def Ordinary (ts : List (Token Kind)) : Prop := ∀ t ∈ ts, t.kind.isOrdinary = true

/-- No token is out of the ordinary where there is none. -/
theorem ordinary_nil : Ordinary [] := by
  intro t ht
  simp at ht

/-- Tokens are ordinary if the first one and all others are. -/
theorem ordinary_cons {t : Token Kind} {ts : List (Token Kind)} :
    Ordinary (t :: ts) ↔ t.kind.isOrdinary = true ∧ Ordinary ts := by
  unfold Ordinary
  rw [List.forall_mem_cons]

/-- Tokens are ordinary if both parts of them are. -/
theorem ordinary_append {ts us : List (Token Kind)} :
    Ordinary (ts ++ us) ↔ Ordinary ts ∧ Ordinary us := by
  unfold Ordinary
  rw [List.forall_mem_append]

/-- A token with an ordinary kind is ordinary. -/
theorem isOrdinary_of_eq {t : Token Kind} {kind : Kind} (h : t.kind = kind)
    (hkind : kind.isOrdinary = true) : t.kind.isOrdinary = true := by
  rw [h]
  exact hkind

/-- Comparison operators are ordinary. -/
theorem isOrdinary_of_isRelational {kind : Kind} (h : kind.isRelational = true) :
    kind.isOrdinary = true := by
  cases kind <;> first | rfl | simp [Kind.isRelational] at h

/-- Base types are ordinary. -/
theorem isOrdinary_of_ofKeyword? {kind : Kind} {type : Ty} (h : Ty.ofKeyword? kind = some type) :
    kind.isOrdinary = true := by
  cases kind <;> first | rfl | simp [Ty.ofKeyword?] at h

/-- Phrases that are repeated behind commas consist of ordinary tokens. -/
theorem CommaRepeated.ordinary {α : Type} {Derives : List (Token Kind) → α → Prop}
    {us : List (Token Kind)} {as : List α} (h : CommaRepeated Derives us as)
    (hordinary : ∀ ts a, Derives ts a → Ordinary ts) : Ordinary us := by
  induction h with
  | nil => exact ordinary_nil
  | cons hcomma hfirst _ ih =>
    rw [ordinary_cons, ordinary_append]
    exact ⟨isOrdinary_of_eq hcomma rfl, hordinary _ _ hfirst, ih⟩

/-- Phrases with commas between them consist of ordinary tokens. -/
theorem CommaList.ordinary {α : Type} {Derives : List (Token Kind) → α → Prop}
    {ts : List (Token Kind)} {as : List α} (h : CommaList Derives ts as)
    (hordinary : ∀ ts a, Derives ts a → Ordinary ts) : Ordinary ts := by
  obtain ⟨hfirst, hmore⟩ := h
  rw [ordinary_append]
  exact ⟨hordinary _ _ hfirst, hmore.ordinary hordinary⟩

/-- A single token is ordinary if its kind is. -/
theorem ordinary_singleton {t : Token Kind} : Ordinary [t] ↔ t.kind.isOrdinary = true := by
  rw [ordinary_cons, and_iff_left ordinary_nil]

/-- No operator is an invalid token. -/
theorem isOrdinary_of_mem_factorOperators {kind : Kind} (h : kind ∈ factorOperators) :
    kind.isOrdinary = true := by
  revert kind
  decide

/-- The operators of simple expressions are ordinary. -/
theorem isOrdinary_of_mem_termOperators {kind : Kind} (h : kind ∈ termOperators) :
    kind.isOrdinary = true := by
  revert kind
  decide

mutual

/-- An expression consists of ordinary tokens. -/
theorem Expr.Derives.ordinary : ∀ {strength : Strength} {ts : List (Token Kind)} {e : Expr},
    e.Derives strength ts → Ordinary ts
  | _, _, _, .name h => ordinary_singleton.2 (isOrdinary_of_eq h rfl)
  | _, _, _, .element h hopening hfirst hmore hclosing => by
    simp only [ordinary_cons, ordinary_append]
    exact ⟨isOrdinary_of_eq h rfl, isOrdinary_of_eq hopening rfl,
      ⟨hfirst.ordinary, commaRepeated_ordinary hmore⟩, isOrdinary_of_eq hclosing rfl, ordinary_nil⟩
  | _, _, _, .integer h => ordinary_singleton.2 (isOrdinary_of_eq h rfl)
  | _, _, _, .real h => ordinary_singleton.2 (isOrdinary_of_eq h rfl)
  | _, _, _, .boolean h => by
    rcases h with h | h
    · exact ordinary_singleton.2 (isOrdinary_of_eq h rfl)
    · exact ordinary_singleton.2 (isOrdinary_of_eq h rfl)
  | _, _, _, .complement h he => ordinary_cons.2 ⟨isOrdinary_of_eq h rfl, he.ordinary⟩
  | _, _, _, .parentheses hopening he hclosing => by
    simp only [ordinary_cons, ordinary_append]
    exact ⟨isOrdinary_of_eq hopening rfl, he.ordinary, isOrdinary_of_eq hclosing rfl, ordinary_nil⟩
  | _, _, _, .ofFactor h => h.ordinary
  | _, _, _, .product hl hop hr =>
    ordinary_append.2 ⟨hl.ordinary,
      ordinary_cons.2 ⟨isOrdinary_of_mem_factorOperators hop, hr.ordinary⟩⟩
  | _, _, _, .ofTerm h => h.ordinary
  | _, _, _, .negation h he => ordinary_cons.2 ⟨isOrdinary_of_eq h rfl, he.ordinary⟩
  | _, _, _, .sum hl hop hr =>
    ordinary_append.2 ⟨hl.ordinary,
      ordinary_cons.2 ⟨isOrdinary_of_mem_termOperators hop, hr.ordinary⟩⟩
  | _, _, _, .ofSimple h => h.ordinary
  | _, _, _, .comparison hl hop hr =>
    ordinary_append.2 ⟨hl.ordinary, ordinary_cons.2 ⟨isOrdinary_of_isRelational hop, hr.ordinary⟩⟩

/-- Expressions that are repeated behind commas consist of ordinary tokens. -/
theorem commaRepeated_ordinary : ∀ {us : List (Token Kind)} {es : List Expr},
    CommaRepeated (Expr.Derives .full) us es → Ordinary us
  | _, _, .nil => ordinary_nil
  | _, _, .cons hcomma h hmore =>
    ordinary_cons.2 ⟨isOrdinary_of_eq hcomma rfl,
      ordinary_append.2 ⟨h.ordinary, commaRepeated_ordinary hmore⟩⟩

end

/-- A designator consists of ordinary tokens. -/
theorem Designates.ordinary {ts : List (Token Kind)} {name : Token Kind} {indices : List Expr}
    (h : Designates ts name indices) : Ordinary ts := by
  cases h with
  | name hname => exact ordinary_singleton.2 (isOrdinary_of_eq hname rfl)
  | element hname hopening hindices hclosing =>
    simp only [ordinary_cons, ordinary_append]
    exact ⟨isOrdinary_of_eq hname rfl, isOrdinary_of_eq hopening rfl,
      hindices.ordinary fun _ _ h => h.ordinary, isOrdinary_of_eq hclosing rfl, ordinary_nil⟩

/-- A constant consists of ordinary tokens. -/
theorem IntConst.Derives.ordinary {ts : List (Token Kind)} {n : IntConst} (h : n.Derives ts) :
    Ordinary ts := by
  cases h with
  | plain ht => exact ordinary_singleton.2 (isOrdinary_of_eq ht rfl)
  | signed hsign ht =>
    exact ordinary_cons.2 ⟨isOrdinary_of_eq hsign rfl,
      ordinary_singleton.2 (isOrdinary_of_eq ht rfl)⟩

/-- A dimension consists of ordinary tokens. -/
theorem Dim.Derives.ordinary {ts : List (Token Kind)} {d : Dim} (h : d.Derives ts) :
    Ordinary ts := by
  cases h with
  | size hn => exact hn.ordinary
  | range hm hcolon hn =>
    exact ordinary_append.2 ⟨hm.ordinary,
      ordinary_cons.2 ⟨isOrdinary_of_eq hcolon rfl, hn.ordinary⟩⟩

/-- A type consists of ordinary tokens. -/
theorem TypeSpec.Derives.ordinary {ts : List (Token Kind)} {spec : TypeSpec} (h : spec.Derives ts) :
    Ordinary ts := by
  cases h with
  | base ht => exact ordinary_singleton.2 (isOrdinary_of_ofKeyword? ht)
  | array harray hopening hdims hclosing hof ht =>
    simp only [ordinary_cons, ordinary_append]
    exact ⟨isOrdinary_of_eq harray rfl, isOrdinary_of_eq hopening rfl,
      hdims.ordinary fun _ _ h => h.ordinary, isOrdinary_of_eq hclosing rfl,
      isOrdinary_of_eq hof rfl, isOrdinary_of_ofKeyword? ht, ordinary_nil⟩

/-- A literal consists of ordinary tokens. -/
theorem Literal.Derives.ordinary {ts : List (Token Kind)} {v : Literal} (h : v.Derives ts) :
    Ordinary ts := by
  cases h with
  | integer hn => exact hn.ordinary
  | real ht => exact ordinary_singleton.2 (isOrdinary_of_eq ht rfl)
  | signedReal hsign ht =>
    exact ordinary_cons.2 ⟨isOrdinary_of_eq hsign rfl,
      ordinary_singleton.2 (isOrdinary_of_eq ht rfl)⟩
  | boolean ht =>
    rcases ht with ht | ht
    · exact ordinary_singleton.2 (isOrdinary_of_eq ht rfl)
    · exact ordinary_singleton.2 (isOrdinary_of_eq ht rfl)

/-- A declaration consists of ordinary tokens. -/
theorem Decl.Derives.ordinary {ts : List (Token Kind)} {d : Decl} (h : d.Derives ts) :
    Ordinary ts := by
  cases h with
  | typed hname has hspec =>
    exact ordinary_cons.2 ⟨isOrdinary_of_eq hname rfl,
      ordinary_cons.2 ⟨isOrdinary_of_eq has rfl, hspec.ordinary⟩⟩
  | const hname hassign hvalue =>
    exact ordinary_cons.2 ⟨isOrdinary_of_eq hname rfl,
      ordinary_cons.2 ⟨isOrdinary_of_eq hassign rfl, hvalue.ordinary⟩⟩

mutual

/-- A statement consists of ordinary tokens. -/
theorem Stmt.Derives.ordinary : ∀ {ts : List (Token Kind)} {s : Stmt}, s.Derives ts → Ordinary ts
  | _, _, .assign hname hassign hvalue =>
    ordinary_append.2 ⟨hname.ordinary,
      ordinary_cons.2 ⟨isOrdinary_of_eq hassign rfl, hvalue.ordinary⟩⟩
  | _, _, .branch hif htest hthen hbody hend => by
    simp only [ordinary_cons, ordinary_append]
    exact ⟨isOrdinary_of_eq hif rfl, htest.ordinary, isOrdinary_of_eq hthen rfl,
      repeated_ordinary hbody, isOrdinary_of_eq hend rfl, ordinary_nil⟩
  | _, _, .branchElse hif htest hthen hbody helse hother hend => by
    simp only [ordinary_cons, ordinary_append]
    exact ⟨isOrdinary_of_eq hif rfl, htest.ordinary, isOrdinary_of_eq hthen rfl,
      repeated_ordinary hbody, isOrdinary_of_eq helse rfl, repeated_ordinary hother,
      isOrdinary_of_eq hend rfl, ordinary_nil⟩
  | _, _, .loop hwhile htest hdo hbody hend => by
    simp only [ordinary_cons, ordinary_append]
    exact ⟨isOrdinary_of_eq hwhile rfl, htest.ordinary, isOrdinary_of_eq hdo rfl,
      repeated_ordinary hbody, isOrdinary_of_eq hend rfl, ordinary_nil⟩
  | _, _, .read hread hname =>
    ordinary_cons.2 ⟨isOrdinary_of_eq hread rfl, ordinary_singleton.2 (isOrdinary_of_eq hname rfl)⟩
  | _, _, .write hwrite hvalue => ordinary_cons.2 ⟨isOrdinary_of_eq hwrite rfl, hvalue.ordinary⟩
  | _, _, .block hwith hdecls hin hbody hend => by
    simp only [ordinary_cons, ordinary_append]
    exact ⟨isOrdinary_of_eq hwith rfl, hdecls.ordinary fun _ _ h => h.ordinary,
      isOrdinary_of_eq hin rfl, repeated_ordinary hbody, isOrdinary_of_eq hend rfl, ordinary_nil⟩

/-- Statements in a row consist of ordinary tokens. -/
theorem repeated_ordinary : ∀ {us : List (Token Kind)} {ss : List Stmt},
    Repeated Stmt.Derives us ss → Ordinary us
  | _, _, .nil => ordinary_nil
  | _, _, .cons h hmore => ordinary_append.2 ⟨h.ordinary, repeated_ordinary hmore⟩

end

/-- Declarations in front of a program consist of ordinary tokens. -/
theorem OptionalDecls.ordinary {ts : List (Token Kind)} {decls : List Decl}
    (h : OptionalDecls ts decls) : Ordinary ts := by
  cases h with
  | none => exact ordinary_nil
  | some hwith hdecls =>
    exact ordinary_cons.2 ⟨isOrdinary_of_eq hwith rfl, hdecls.ordinary fun _ _ h => h.ordinary⟩

/-- The tokens of a program have a place in it; the one that ends the source does not. -/
theorem Program.Derives.ordinary {ts : List (Token Kind)} {p : Program} (h : p.Derives ts) :
    Ordinary ts := by
  obtain ⟨hprogram, hname, hdecls, hin, hbody, hend⟩ := h
  simp only [ordinary_cons, ordinary_append]
  exact ⟨isOrdinary_of_eq hprogram rfl, isOrdinary_of_eq hname rfl, hdecls.ordinary,
    isOrdinary_of_eq hin rfl, repeated_ordinary hbody, isOrdinary_of_eq hend rfl, ordinary_nil⟩

/-- No token of a sentence is invalid. -/
theorem Sentence.isInvalid_eq_false {tokens : List (Token Kind)} {p : Program}
    (h : Sentence tokens p) {t : Token Kind} (ht : t ∈ tokens) : t.kind.isInvalid = false := by
  obtain ⟨hp, hfinal⟩ := h
  rcases List.mem_append.1 ht with ht | ht
  · have hordinary := hp.ordinary t ht
    simp only [Kind.isOrdinary, Bool.and_eq_true, Bool.not_eq_true'] at hordinary
    exact hordinary.1
  · rw [List.mem_singleton.1 ht, hfinal]
    rfl

end SinglePass.Simple
