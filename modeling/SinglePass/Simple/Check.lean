import SinglePass.Report
import SinglePass.Simple.Lexicon
import SinglePass.Simple.Grammar

/-!
# Checking Simple programs

A program is checked in one pass over its source.  The report holds its faults in presentation
order, and as notes the symbols that were accepted into a scope, in declaration order.
-/

namespace SinglePass.Simple

/-- Check a program that is read line by line. -/
def check (strategy : Strategy) (source : Source) : Report Kind Ty (Symbol Kind Ty) :=
  parse classifier program strategy source

/-- Check a program given as a text. -/
def checkText (strategy : Strategy) (text : String) : Report Kind Ty (Symbol Kind Ty) :=
  check strategy (.ofText text)

/-- Check a program given as bytes. -/
def checkBytes (strategy : Strategy) (bytes : List UInt8) : Report Kind Ty (Symbol Kind Ty) :=
  check strategy (.ofBytes bytes)

/-- Print faults as `path: message`, each followed by a line with its hint if it has one. -/
def renderDiagnostics (path : String) (errors : List (Diagnostic Kind Ty)) : List String :=
  errors.flatMap fun error =>
    (path ++ ": " ++ error.message) :: (error.help?.map ("    help: " ++ ·)).toList

end SinglePass.Simple
