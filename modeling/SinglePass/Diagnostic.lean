import SinglePass.StableSort
import SinglePass.Symbol

/-!
# Diagnostics

The faults that can be found in a source.  Every diagnostic has a position, a message that
begins with it, a stable code, and possibly a hint.  Diagnostics are found in some order and
presented in the order of their positions; those at one position stay in the order in which
they were found (`Diagnostic.sort`).
-/

namespace SinglePass

/-- What a grammar rule would have accepted. -/
inductive Expected (κ : Type) where
  /-- A token of this kind. -/
  | kind (k : κ)
  /-- Something that takes words to say. -/
  | description (text : String)
deriving DecidableEq

/-- A kind is quoted, a description is given as it is. -/
def Expected.display {κ : Type} [TokenKind κ] : Expected κ → String
  | .kind k => "'" ++ TokenKind.label k ++ "'"
  | .description text => text

/-- A fault in a source. -/
inductive Diagnostic (κ τ : Type) where
  /-- The source cannot be read beyond a position. -/
  | io (position : Position) (cause : String)
  /-- Characters that form no token of the language. -/
  | lexical (token : Token κ)
  /-- A token that the grammar does not allow where it stands. -/
  | unexpected (token : Token κ) (expected : Expected κ)
  /-- A name that is used without a declaration. -/
  | notDeclared (token : Token κ)
  /-- A name that is declared again in the scope of its first declaration. -/
  | alreadyDeclared (token : Token κ) (first : Symbol κ τ)
  /-- A construct of another type than the one required. -/
  | typeConflict (token : Token κ) (found expected : τ)
  /-- A fault that only the language at hand knows. -/
  | custom (token : Token κ) (message : String)

namespace Diagnostic

variable {κ τ : Type}

/-! ## Where a fault stands -/

/-- The token at fault; a failure to read has none. -/
def token? : Diagnostic κ τ → Option (Token κ)
  | .io _ _ => none
  | .lexical token | .unexpected token _ | .notDeclared token | .alreadyDeclared token _
  | .typeConflict token _ _ | .custom token _ => some token

/-- The position of the fault. -/
def position : Diagnostic κ τ → Position
  | .io position _ => position
  | .lexical token | .unexpected token _ | .notDeclared token | .alreadyDeclared token _
  | .typeConflict token _ _ | .custom token _ => token.position

/-- A fault at a token stands where the token does. -/
theorem position_of_token? {d : Diagnostic κ τ} {t : Token κ} (h : d.token? = some t) :
    d.position = t.position := by
  cases d <;> simp_all [token?, position]

/-! ## Classes of faults -/

/-- Is the fault one of meaning, found neither by the scanner nor by the grammar? -/
def isSemantic : Diagnostic κ τ → Bool
  | .notDeclared _ | .alreadyDeclared _ _ | .typeConflict _ _ _ | .custom _ _ => true
  | _ => false

/-- Is the fault one that the scanner finds? -/
def isScanning : Diagnostic κ τ → Bool
  | .io _ _ | .lexical _ => true
  | _ => false

/-- Is the fault a failure to read? -/
def isIo : Diagnostic κ τ → Bool
  | .io _ _ => true
  | _ => false

/-- Is the fault one that the grammar finds? -/
def isUnexpected : Diagnostic κ τ → Bool
  | .unexpected _ _ => true
  | _ => false

/-- Every fault is found by the scanner, by the grammar, or by a rule of meaning. -/
theorem isSemantic_eq (d : Diagnostic κ τ) : d.isSemantic = !(d.isScanning || d.isUnexpected) := by
  cases d <;> rfl

/-- No fault of meaning is one of the scanner. -/
theorem isScanning_of_isSemantic {d : Diagnostic κ τ} (h : d.isSemantic = true) :
    d.isScanning = false := by
  rw [isSemantic_eq] at h
  simp_all

/-- No fault of meaning is an unexpected token. -/
theorem isUnexpected_of_isSemantic {d : Diagnostic κ τ} (h : d.isSemantic = true) :
    d.isUnexpected = false := by
  rw [isSemantic_eq] at h
  simp_all

/-! ## Presentation -/

/-- The stable code of the fault. -/
def code : Diagnostic κ τ → String
  | .io _ _ => "descent::io"
  | .lexical _ => "descent::lexical"
  | .unexpected _ _ => "descent::syntax"
  | .notDeclared _ => "descent::not_declared"
  | .alreadyDeclared _ _ => "descent::already_declared"
  | .typeConflict _ _ _ => "descent::type_conflict"
  | .custom _ _ => "descent::custom"

/-- What the fault is, without its position. -/
def describe [TokenKind κ] [TypeTag τ] : Diagnostic κ τ → String
  | .io _ cause => "I/O error: " ++ cause
  | .lexical token => "Invalid token '" ++ token.text ++ "'"
  | .unexpected token expected =>
    "'" ++ token.text ++ "' found where " ++ expected.display ++ " expected"
  | .notDeclared token => "Identifier '" ++ token.text ++ "' is not declared"
  | .alreadyDeclared token first =>
    "Identifier '" ++ token.text ++ "' is already declared at line "
      ++ toString first.token.position.line
  | .typeConflict token found expected =>
    "Type conflict: '" ++ token.text ++ "' is of type " ++ TypeTag.label found ++ " where "
      ++ TypeTag.label expected ++ " is expected"
  | .custom _ message => message

/-- The message of a fault: its position and what it is. -/
def message [TokenKind κ] [TypeTag τ] (d : Diagnostic κ τ) : String :=
  d.position.display ++ ": " ++ d.describe

/-- A hint on how to mend the fault. -/
def help? : Diagnostic κ τ → Option String
  | .notDeclared _ => some "Declare the identifier before using it"
  | .alreadyDeclared _ first =>
    some ("The first declaration is at " ++ first.token.position.display
      ++ "; a nested scope may shadow it instead")
  | _ => none

/-! ## Presentation order -/

/-- Order faults by position, keeping the order of those at one position. -/
def sort (faults : List (Diagnostic κ τ)) : List (Diagnostic κ τ) :=
  stableSort (fun d e => d.position ≤ e.position) faults

/-- Of two faults, one stands before the other or at its position. -/
private theorem le_total_position (d e : Diagnostic κ τ) :
    decide (d.position ≤ e.position) = true ∨ decide (e.position ≤ d.position) = true :=
  (Position.le_total d.position e.position).imp decide_eq_true decide_eq_true

/-- The order of faults by position is transitive. -/
private theorem le_trans_position (d e f : Diagnostic κ τ)
    (hde : decide (d.position ≤ e.position) = true)
    (hef : decide (e.position ≤ f.position) = true) :
    decide (d.position ≤ f.position) = true :=
  decide_eq_true (Position.le_trans (of_decide_eq_true hde) (of_decide_eq_true hef))

/-- No fault is lost, and none is presented twice. -/
theorem sort_perm (faults : List (Diagnostic κ τ)) : (sort faults).Perm faults :=
  stableSort_perm _ faults

/-- Sorting keeps the faults. -/
theorem mem_sort {d : Diagnostic κ τ} {faults : List (Diagnostic κ τ)} :
    d ∈ sort faults ↔ d ∈ faults := mem_stableSort

/-- Faults are presented in the order of their positions. -/
theorem sort_pairwise (faults : List (Diagnostic κ τ)) :
    (sort faults).Pairwise fun d e => d.position ≤ e.position :=
  (stableSort_pairwise le_total_position le_trans_position faults).imp of_decide_eq_true

/-- Some of the faults are presented in the order that they have among all. -/
theorem filter_sort (p : Diagnostic κ τ → Bool) (faults : List (Diagnostic κ τ)) :
    (sort faults).filter p = sort (faults.filter p) :=
  filter_stableSort le_total_position le_trans_position p faults

/-- Faults that are found in the order of their positions are presented as they are found. -/
theorem sort_eq_self {faults : List (Diagnostic κ τ)}
    (h : faults.Pairwise fun d e => d.position ≤ e.position) : sort faults = faults :=
  stableSort_eq_self (h.imp decide_eq_true)

/-- Faults that are found among others are presented among them. -/
theorem sort_sublist {faults others : List (Diagnostic κ τ)} (h : faults.Sublist others) :
    (sort faults).Sublist (sort others) :=
  stableSort_sublist le_total_position le_trans_position h

end Diagnostic

end SinglePass
