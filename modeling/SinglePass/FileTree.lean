import SinglePass.FileView

/-!
# File trees

A file tree holds files, devices, directories and symbolic links, each under the names that
lead to it from the root, and has a working directory, from which paths start that are not
absolute.

Following a path goes from directory to directory (`FileTree.walk`).  Whatever is looked up in a
directory asks for the right to search it.  The name `..` leads to the directory above, and from
the root back to the root.  A link is followed where it stands, before the names after it, through
at most `maxLinks` links.  Whether a name is too long is asked only in a directory, so a missing or
wrong directory before it is found first.
-/

namespace SinglePass

/-! ## Paths as names -/

/-- The parts of a path between slashes. -/
def splitSlashes : OsText → List OsText
  | [] => [[]]
  | b :: rest =>
    if b = slash then [] :: splitSlashes rest
    else
      match splitSlashes rest with
      | [] => [[b]]
      | part :: parts => (b :: part) :: parts

/-- The names of a path from left to right.  A slash at the end asks for a directory, which an empty
name stands for. -/
def pathNames (path : OsText) : List OsText :=
  let names := (splitSlashes path).filter (· ≠ [])
  if path.getLast? = some slash then names ++ [[]] else names

/-- Is the path absolute? -/
def isAbsolute (path : OsText) : Bool := path.head? = some slash

/-- Largest number of bytes in a name. -/
def maxNameSize : Nat := 255

/-! ## Trees -/

/-- What may be done with a directory. -/
structure Access where
  /-- May its names be listed? -/
  list : Bool
  /-- May what it holds be looked up? -/
  search : Bool
deriving DecidableEq

/-- What a tree holds under some names. -/
inductive Node where
  /-- A file, with what opening it gives. -/
  | file (opened : Except FileError Stream)
  | device (opened : Except FileError Stream)
  | directory (access : Access)
  | link (target : OsText)

/-- The nodes of a file system below its root, and its working directory. -/
structure FileTree where
  /-- The nodes, each with the names that lead to it from the root. -/
  nodes : List (List OsText × Node)
  /-- The names that lead from the root to the working directory. -/
  home : List OsText

namespace FileTree

/-- The node under the given names; the root itself has none. -/
def node? (t : FileTree) (names : List OsText) : Option Node :=
  if names = [] then some (.directory ⟨true, true⟩) else t.nodes.lookup names

/-- The names in a directory. -/
def names (t : FileTree) (directory : List OsText) : List OsText :=
  t.nodes.filterMap fun (names, _) => if names.dropLast = directory then names.getLast? else none

/-! ## Following paths -/

/-- Largest number of links that are followed in one path. -/
def maxLinks : Nat := 40

/-- The place where a path starts. -/
def start (t : FileTree) (path : OsText) : List OsText := if isAbsolute path then [] else t.home

/-- Follow names from a place in the tree, leaving links to `follow`. -/
def walkWith (t : FileTree)
    (follow : List OsText → List OsText → Except FileError (List OsText)) :
    List OsText → List OsText → Except FileError (List OsText)
  | here, [] => .ok here
  | here, name :: rest =>
    match t.node? here with
    | some (.directory access) =>
      if name = [] then walkWith t follow here rest
      else if access.search = false then .error .permissionDenied
      else if name = [dot] then walkWith t follow here rest
      else if name = [dot, dot] then walkWith t follow here.dropLast rest
      else if maxNameSize < name.length then .error .nameTooLong
      else
        match t.node? (here ++ [name]) with
        | none => .error .notFound
        | some (.link target) =>
          follow (if isAbsolute target then [] else here) (pathNames target ++ rest)
        | some _ => walkWith t follow (here ++ [name]) rest
    | _ => .error .notDirectory

/-- Follow names from a place in the tree, through at most the given number of links. -/
def walk (t : FileTree) : Nat → List OsText → List OsText → Except FileError (List OsText)
  | 0 => t.walkWith fun _ _ => .error .tooManyLinks
  | links + 1 => t.walkWith (t.walk links)

/-- The place that a path leads to. -/
def resolve (t : FileTree) (path : OsText) : Except FileError (List OsText) :=
  t.walk maxLinks (t.start path) (pathNames path)

/-- The place that a path leads to, and what the tree holds there. -/
def find (t : FileTree) (path : OsText) : Except FileError (List OsText × Node) :=
  match t.resolve path with
  | .error e => .error e
  | .ok place =>
    match t.node? place with
    | some node => .ok (place, node)
    | none => .error .notFound

/-! ## Asking a tree -/

/-- What stands at a path. -/
def stat (t : FileTree) (path : OsText) : Except FileError FileType :=
  match t.find path with
  | .error e => .error e
  | .ok (_, .file _) => .ok .file
  | .ok (_, .directory _) => .ok .directory
  | .ok _ => .ok .other

/-- The names in the directory at a path. -/
def list (t : FileTree) (path : OsText) : Except FileError (List OsText) :=
  match t.find path with
  | .error e => .error e
  | .ok (place, .directory access) =>
    if access.list then .ok (t.names place) else .error .permissionDenied
  | .ok _ => .error .notDirectory

/-- What opening a path gives.  A directory can be opened, but not read. -/
def openFile (t : FileTree) (path : OsText) : Except FileError Stream :=
  match t.find path with
  | .error e => .error e
  | .ok (_, .file opened) | .ok (_, .device opened) => opened
  | .ok (_, .directory access) =>
    if access.list then .ok ⟨[], some .isDirectory⟩ else .error .permissionDenied
  | .ok (_, .link _) => .error .tooManyLinks

/-- The tree as seen through paths. -/
def view (t : FileTree) : FileView := .ofAnswers t.stat t.list t.openFile

end FileTree

end SinglePass
