import Monkey.Command

/-! # Directories

A directory of files, and the rules by which a path names one of them. A path
is walked component by component: empty ones and single dots stay in place, and
nothing lies below a file.
-/

namespace Monkey

/-- Files by name. -/
abbrev Directory := List (String × List UInt8)

namespace Directory

/-- Where a path has led so far. -/
inductive Place
  /-- The directory itself. -/
  | here
  /-- A directory above it, of whose content nothing else is known. -/
  | above
  | file (content : List UInt8)
  deriving DecidableEq, Repr

/-- The components of a path. -/
def components (path : List Char) : List (List Char) :=
  path.splitOn '/'

/-- One step of a walk. -/
def step (d : Directory) (place : Place) (component : List Char) : Except ReadFault Place :=
  match place, component with
  | .file _, _ => .error .notDirectory
  | place, [] | place, ['.'] => .ok place
  | _, ['.', '.'] => .ok .above
  | .above, _ => .error .notFound
  | .here, name =>
    match d.lookup (String.ofList name) with
    | some content => .ok (.file content)
    | none => .error .notFound

/-- The content of the file that a path names. -/
def read (d : Directory) (path : String) : Except ReadFault (List UInt8) := do
  if path.isEmpty then throw .notFound
  let start := if path.toList.head? = some '/' then .above else .here
  match ← (components path.toList).foldlM d.step start with
  | .file content => return content
  | .here | .above => throw .isDirectory

end Directory

end Monkey
