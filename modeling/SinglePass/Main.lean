import SinglePass.Command.Run

/-!
# The program

The command line at work: it looks at the files that the arguments lead to, and prints what
`Command.run` makes of them.  Nothing is decided here.  Names that are not valid as texts are out of
reach.
-/

namespace SinglePass.Main

open SinglePass.Command

/-- What was seen at a path. -/
structure Seen where
  type : FileType
  names : Except FileError (List OsText)
  opened : Except FileError Stream

/-- What was seen at each of some paths. -/
abbrev Observed := List (OsText × Except FileError Seen)

/-- Why looking at a path or reading there failed. -/
def causeOf : IO.Error → FileError
  | .noFileOrDirectory _ _ _ => .notFound
  | .inappropriateType _ _ _ => .notDirectory
  | .permissionDenied _ _ _ => .permissionDenied
  | .invalidArgument _ code _ => if code = 36 ∨ code = -36 then .nameTooLong else .tooManyLinks
  | e => .other (toString e)

/-- Try to find something out. -/
def attempt {α : Type} (act : IO α) : IO (Except FileError α) := do
  try
    return .ok (← act)
  catch e => return .error (causeOf e)

/-- The names in a directory. -/
def namesIn (path : String) : IO (List OsText) := do
  return (← (← IO.FS.realPath path).readDir).toList.map (utf8 ·.fileName)

/-- Look at one path. -/
def observe (path : String) : IO (Except FileError Seen) :=
  attempt do
    match (← (← IO.FS.realPath path).metadata).type with
    | .dir => return ⟨.directory, ← attempt (namesIn path), .ok ⟨[], some .isDirectory⟩⟩
    | type =>
      let opened ← attempt do return ⟨(← IO.FS.readBinFile path).toList, none⟩
      return ⟨if type matches .file then .file else .other, .error .notDirectory, opened⟩

/-- Look at a path and, if it is a directory, at everything in it that may be searched. -/
partial def observeBelow (path : OsText) : IO Observed := do
  let seen ← observe (display path)
  match seen with
  | .ok ⟨.directory, .ok names, _⟩ =>
    let below ← names.mapM fun name => do
      if isSkipped name then return [(joinPath path name, ← observe (display (joinPath path name)))]
      else observeBelow (joinPath path name)
    return (path, seen) :: below.flatten
  | _ => return [(path, seen)]

/-- Look at everything that a command line leads to. -/
def observeFor (cli : Cli) : IO Observed := do
  match cli.lexFile? with
  | some file => return [(file, ← observe (display file))]
  | none => return (← cli.paths.mapM observeBelow).flatten

/-- The file system as far as it was looked at. -/
def viewOf (observed : Observed) : FileView :=
  let seenAt (path : OsText) : Except FileError Seen :=
    (observed.lookup path).getD (.error .notFound)
  .ofAnswers (fun path => (seenAt path).map Seen.type) (fun path => (seenAt path).bind Seen.names)
    (fun path => (seenAt path).bind Seen.opened)

end SinglePass.Main

/-- Run the program. -/
def main (args : List String) : IO UInt32 := do
  let args := args.map SinglePass.utf8
  let observed ← match SinglePass.Command.plainParser args with
    | .ok cli => SinglePass.Main.observeFor cli
    | .error _ => pure []
  let out := SinglePass.Command.run SinglePass.Command.plainParser
    (SinglePass.Main.viewOf observed) args
  for line in out.stdout do
    IO.println line
  for line in out.stderr do
    IO.eprintln line
  return out.exit.toUInt32
