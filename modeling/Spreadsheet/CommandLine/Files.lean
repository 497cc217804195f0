/-!
# Files

What the program knows of the files around it: what is found under a path, and whether a file can be
made there.  A directory tree that is given as data answers the same questions as a disk.
-/

namespace Spreadsheet.CommandLine

/-- What is found under a path. -/
inductive Entry where
  | file (text : String)
  | directory

/-- Why a file cannot be read or made. -/
inductive FileFault where
  | notFound
  | notDirectory
  | isDirectory
  | notText
deriving DecidableEq

/-- The fault in words. -/
def FileFault.message : FileFault → String
  | .notFound => "No such file or directory (os error 2)"
  | .notDirectory => "Not a directory (os error 20)"
  | .isDirectory => "Is a directory (os error 21)"
  | .notText => "stream did not contain valid UTF-8"

/-- Finds what is under a path. -/
abbrev Lookup := String → Except FileFault Entry

/-! ## Paths -/

/-- The parts of a path between its slashes. -/
def pathParts (path : String) : List String :=
  path.splitOn "/"

/-- The directory in which a path lies. -/
def parentPath (path : String) : String :=
  match (pathParts path).dropLast with
  | [] => "."
  | [""] => "/"
  | parts => "/".intercalate parts

/-- The last part of a path with a new extension in place of the one it has.  A point at the start
of a name begins no extension. -/
def nameWithExtension (extension name : String) : String :=
  let cs := name.toList
  let beforePoint := (cs.reverse.dropWhile (· != '.')).reverse.dropLast
  let stem := if beforePoint.isEmpty then cs else beforePoint
  String.ofList stem ++ "." ++ extension

/-- A path with a new extension; a path that names no file stays as it is. -/
def withExtension (extension path : String) : String :=
  match (pathParts path).getLast? with
  | some name =>
    if name = "" ∨ name = "." ∨ name = ".." then path
    else "/".intercalate ((pathParts path).dropLast ++ [nameWithExtension extension name])
  | none => path

/-- Why no file can be made under a path, if none can. -/
def createFault (look : Lookup) (path : String) : Option FileFault :=
  match look path with
  | .ok (.file _) => none
  | .ok .directory => some .isDirectory
  | .error .notFound =>
    if path = "" then some .notFound
    else
      match look (parentPath path) with
      | .ok .directory => none
      | .ok (.file _) => some .notDirectory
      | .error fault => some fault
  | .error fault => some fault

/-! ## Directory trees as data -/

/-- A directory tree: what is found under paths that start in its root, each as a list of names.
A directory need not be named when there is something in it. -/
structure Tree where
  entries : List (List String × Entry)

namespace Tree

/-- Whether there is a directory under a list of names. -/
def hasDirectory (t : Tree) (names : List String) : Bool :=
  names.isEmpty || t.entries.any fun (other, entry) =>
    match entry with
    | .directory => names.isPrefixOf other
    | .file _ => names.isPrefixOf other && names.length < other.length

/-- What is found under a list of names. -/
def entry? (t : Tree) (names : List String) : Option Entry :=
  if t.hasDirectory names then some .directory
  else t.entries.lookup names

/-- Walk down a path from a directory. -/
def walk (t : Tree) (names : List String) : List String → Except FileFault (List String)
  | [] => .ok names
  | part :: rest =>
    match t.entry? names with
    | none => .error .notFound
    | some (.file _) => .error .notDirectory
    | some .directory =>
      if part = "" ∨ part = "." then t.walk names rest
      else if part = ".." then
        if names.isEmpty then .error .notFound else t.walk names.dropLast rest
      else t.walk (names ++ [part]) rest

/-- What is found under a path; only paths that start in the root find something. -/
def look (t : Tree) : Lookup := fun path =>
  if path.toList.head?.all (· == '/') then .error .notFound
  else do
    match t.entry? (← t.walk [] (pathParts path)) with
    | some entry => return entry
    | none => throw .notFound

/-- The tree with a file under a path. -/
def put (t : Tree) (path text : String) : Tree :=
  match t.walk [] (pathParts path) with
  | .ok names => ⟨(names, .file text) :: t.entries⟩
  | .error _ => t

end Tree

end Spreadsheet.CommandLine
