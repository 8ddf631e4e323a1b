import SinglePass.Command.Arguments
import SinglePass.Command.Collect
import SinglePass.Simple.Check

/-!
# Running a command line

What the program prints and how it exits, for a file system and a command line.

Checking paths prints every fault of every file and ends in a summary.  It comes to nothing if
a path does not exist or no source file is found.  A file that cannot be opened counts as a
file with faults, but has none.  A directory can be opened, and fails when its first line is
read.
-/

namespace SinglePass.Command

/-- What a run of the program leaves behind: lines of output, and an exit code. -/
structure Output where
  exit : Nat
  stdout : List String
  stderr : List String
deriving DecidableEq

/-- The output of a run that fails with a message. -/
def Output.failure (message : String) : Output := ⟨1, [], [message]⟩

/-! ## Reading files -/

/-- The lines of a file that is opened. -/
def openSource (view : FileView) (path : OsText) : Except FileError Source :=
  (view.openFile path).map Stream.source

/-- The message about a file that cannot be opened. -/
def unreadableMessage (path : OsText) (e : FileError) : String :=
  "Error reading file '" ++ display path ++ "': " ++ e.message

/-! ## Checking files -/

/-- What checking one file gives: its faults, unless it cannot be opened. -/
def checkFile (view : FileView) (strategy : Strategy) (path : OsText) :
    Except FileError (List (Diagnostic Simple.Kind Simple.Ty)) :=
  (openSource view path).map fun source => (Simple.check strategy source).errors

/-- The output about files that were checked, one after the other. -/
structure Tally where
  stdout : List String
  stderr : List String
  /-- Number of faults. -/
  errors : Nat
  /-- Number of files with faults or that cannot be opened. -/
  bad : Nat

/-- Nothing has been checked. -/
def Tally.start : Tally := ⟨[], [], 0, 0⟩

/-- Count one more file. -/
def Tally.add (t : Tally) (path : OsText) :
    Except FileError (List (Diagnostic Simple.Kind Simple.Ty)) → Tally
  | .error e => { t with stderr := t.stderr ++ [unreadableMessage path e], bad := t.bad + 1 }
  | .ok errors =>
    { t with
      stdout := t.stdout ++ Simple.renderDiagnostics (display path) errors
      errors := t.errors + errors.length
      bad := if errors.isEmpty then t.bad else t.bad + 1 }

/-- Check files in order. -/
def checkFiles (view : FileView) (strategy : Strategy) (files : List OsText) : Tally :=
  files.foldl (fun t path => t.add path (checkFile view strategy path)) .start

/-- The output of a run over `count` files. -/
def Tally.output (t : Tally) (count : Nat) : Output :=
  if t.bad = 0 then
    ⟨0, t.stdout ++ ["✓ " ++ toString count ++ " file(s) checked"], t.stderr⟩
  else
    ⟨1, t.stdout,
      t.stderr ++ ["\n" ++ toString t.errors ++ " error(s) in " ++ toString t.bad ++ " of "
        ++ toString count ++ " file(s)"]⟩

/-- Check the source files under some paths. -/
def checkPaths (view : FileView) (strategy : Strategy) (paths : List OsText) : Output :=
  match paths.find? fun path => !view.pathExists path with
  | some path => .failure ("Cannot access '" ++ display path ++ "': no such file or directory")
  | none =>
    match paths.flatMap (collect view) with
    | [] => .failure "No .sim files found"
    | files => (checkFiles view strategy files).output files.length

/-! ## Printing tokens -/

/-- A text with blanks before it, up to a width. -/
def padLeft (width : Nat) (text : String) : String :=
  String.ofList (List.replicate (width - text.length) ' ') ++ text

/-- A text with blanks after it, up to a width. -/
def padRight (width : Nat) (text : String) : String :=
  text ++ String.ofList (List.replicate (width - text.length) ' ')

/-- The line about one token: line and column, kind, and text. -/
def tokenLine (token : Token Simple.Kind) : String :=
  padLeft 4 (toString token.position.line) ++ ":" ++ padRight 4 (toString token.position.column)
    ++ " " ++ padRight 16 token.kind.name ++ " " ++ token.text

/-- Print the tokens of a source, and then what is wrong with them. -/
def printTokens (path : OsText) (source : Source) : Output :=
  let cursor := Cursor.start source
  let scanned : List (Scanned Simple.Kind Simple.Ty) := cursor.acknowledge.stream Simple.classifier
  let faults := Diagnostic.sort (cursor.faults ++ scanned.flatMap Scanned.faults)
  ⟨if faults.isEmpty then 0 else 1, scanned.map fun s => tokenLine s.token,
    Simple.renderDiagnostics (display path) faults⟩

/-- Print the tokens of a file. -/
def tokensOf (view : FileView) (path : OsText) : Output :=
  match openSource view path with
  | .error e => .failure (unreadableMessage path e)
  | .ok source => printTokens path source

/-! ## The program -/

/-- Do what a command line asks for. -/
def execute (view : FileView) (cli : Cli) : Output :=
  match cli.lexFile? with
  | some file => tokensOf view file
  | none => checkPaths view cli.strategy cli.paths

/-- A parser of command lines.  Where it hands nothing over, it says itself what is printed. -/
abbrev ArgumentParser := List OsText → Except Output Cli

/-- Run the program on a command line. -/
def run (parse : ArgumentParser) (view : FileView) (args : List OsText) : Output :=
  match parse args with
  | .ok cli => execute view cli
  | .error out => out

/-- A parser that has one message for all that it cannot read. -/
def plainParser : ArgumentParser := fun args =>
  match Cli.read? args with
  | some cli => .ok cli
  | none => .error ⟨2, [], ["error: usage: [--fail-fast] <PATH>... or --lex <FILE>"]⟩

end SinglePass.Command
