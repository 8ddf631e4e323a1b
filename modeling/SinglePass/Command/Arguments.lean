import SinglePass.OsText
import SinglePass.Strategy

/-!
# Command-line arguments

```text
[--fail-fast] <PATH>...     check every source file under the given paths
--lex <FILE>                print the tokens of one file
```

The program declares its arguments (`declaration`) and leaves it to a parser of command lines to
read them: what the program gets to see is a `Cli`.  `Use.readAll?`, `Fits` and `Cli.ofUses` are the
rules by which such a parser goes, in three steps: which arguments a command line uses, whether
these go together, and what they come to.
-/

namespace SinglePass.Command

/-! ## What the program gets to see -/

/-- A command line that has been read. -/
structure Cli where
  /-- Files or directories to check. -/
  paths : List OsText
  /-- Is each file left at its first fault? -/
  failFast : Bool
  /-- A file to print the tokens of. -/
  lexFile? : Option OsText
deriving DecidableEq

/-- The strategy that a command line selects. -/
def Cli.strategy (cli : Cli) : Strategy := if cli.failFast then .failFast else .recovering

/-! ## Declarations -/

/-- The declared arguments. -/
inductive ArgId where
  | paths
  | failFast
  | lexFile
deriving DecidableEq

/-- What becomes of the values of an argument. -/
inductive Action where
  /-- All of them are kept. -/
  | append
  /-- There is none: the argument is a flag. -/
  | setTrue
  /-- One is kept. -/
  | set
deriving DecidableEq

/-- The declaration of an argument. -/
structure Declaration where
  /-- The name of an option; an argument without one is told by where it stands. -/
  long? : Option String
  action : Action
  /-- An argument without which this one has to be there. -/
  requiredUnless? : Option ArgId
  /-- Arguments that this one does not go together with. -/
  conflicts : List ArgId

/-- How the arguments are declared. -/
def declaration : ArgId → Declaration
  | .paths => ⟨none, .append, some .lexFile, []⟩
  | .failFast => ⟨some "fail-fast", .setTrue, none, []⟩
  | .lexFile => ⟨some "lex", .set, none, [.paths, .failFast]⟩

/-- An argument as it is used on a command line, with its value if it has one. -/
structure Use where
  id : ArgId
  value? : Option OsText
deriving DecidableEq

/-! ## Reading a command line -/

/-- The byte of a hyphen. -/
def hyphen : UInt8 := 45

/-- Is an argument a value, and no option?  A hyphen alone is a value. -/
def IsPlain (text : OsText) : Prop := text = [hyphen] ∨ text.head? ≠ some hyphen

instance (text : OsText) : Decidable (IsPlain text) := inferInstanceAs (Decidable (_ ∨ _))

/-- What ends the options. -/
def terminator : OsText := utf8 "--"

/-- The option with the given name. -/
def longOption (name : String) : OsText := utf8 ("--" ++ name)

/-- The option with the given name that has its value behind `=`. -/
def longOptionWith (name : String) (value : OsText) : OsText := utf8 ("--" ++ name ++ "=") ++ value

/-- The arguments that a command line uses, if it can be read. -/
def Use.readAll? : List OsText → Option (List Use)
  | [] => some []
  | text :: rest =>
    if text = terminator then some (rest.map fun path => ⟨.paths, some path⟩)
    else if IsPlain text then (readAll? rest).map (⟨.paths, some text⟩ :: ·)
    else if text = longOption "fail-fast" then (readAll? rest).map (⟨.failFast, none⟩ :: ·)
    else if text = longOption "lex" then
      match rest with
      | [] => none
      | value :: rest =>
        if IsPlain value then (readAll? rest).map (⟨.lexFile, some value⟩ :: ·) else none
    else if longOptionWith "lex" [] <+: text then
      (readAll? rest).map (⟨.lexFile, some (text.drop (longOptionWith "lex" []).length)⟩ :: ·)
    else none

/-- Do the arguments that are used go together? -/
structure Fits (uses : List Use) : Prop where
  /-- An argument that does not keep all values is used once at most. -/
  once : ∀ id, (declaration id).action ≠ .append → (uses.map Use.id).count id ≤ 1
  nonempty : ∀ use ∈ uses, use.value? ≠ some []
  apart : ∀ use ∈ uses, ∀ other ∈ uses, other.id ∉ (declaration use.id).conflicts
  present : ∀ id other, (declaration id).requiredUnless? = some other →
    ∃ use ∈ uses, use.id = id ∨ use.id = other

/-- Uses fit if no option is repeated, no value is empty, a file excludes the rest, and there is
one. -/
theorem fits_iff {uses : List Use} :
    Fits uses ↔ (uses.map Use.id).count .failFast ≤ 1 ∧ (uses.map Use.id).count .lexFile ≤ 1 ∧
      (∀ use ∈ uses, use.value? ≠ some []) ∧
      (∀ use ∈ uses, use.id = .lexFile → ∀ other ∈ uses, other.id = .lexFile) ∧
      ∃ use ∈ uses, use.id = .paths ∨ use.id = .lexFile := by
  constructor
  · intro h
    refine ⟨h.once .failFast (by decide), h.once .lexFile (by decide), h.nonempty, ?_,
      h.present .paths .lexFile rfl⟩
    intro use huse hid other hother
    have hapart := h.apart use huse other hother
    rw [hid] at hapart
    cases hother' : other.id with
    | lexFile => rfl
    | _ => exact absurd (by rw [hother']; decide) hapart
  · rintro ⟨hflag, hlex, hnonempty, hapart, hpresent⟩
    refine ⟨fun id hid => ?_, hnonempty, fun use huse other hother => ?_, fun id other hid => ?_⟩
    · cases id with
      | paths => exact absurd rfl hid
      | failFast => exact hflag
      | lexFile => exact hlex
    · cases hid : use.id with
      | lexFile =>
        rw [hapart use huse hid other hother]
        decide
      | _ => exact List.not_mem_nil
    · cases id with
      | paths =>
        obtain rfl := Option.some.inj hid
        exact hpresent
      | _ => nomatch hid

instance (uses : List Use) : Decidable (Fits uses) := decidable_of_iff _ fits_iff.symm

/-- The values of an argument, in their order. -/
def Use.values (id : ArgId) (uses : List Use) : List OsText :=
  uses.filterMap fun use => if use.id = id then use.value? else none

/-- What the arguments that are used come to. -/
def Cli.ofUses (uses : List Use) : Cli where
  paths := Use.values .paths uses
  failFast := uses.any fun use => use.id = .failFast
  lexFile? := (Use.values .lexFile uses).head?

/-- What a command line comes to, if it can be read and its arguments go together. -/
def Cli.read? (args : List OsText) : Option Cli :=
  match Use.readAll? args with
  | none => none
  | some uses => if Fits uses then some (Cli.ofUses uses) else none

end SinglePass.Command
