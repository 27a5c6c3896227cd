import ZipArchive.Text.Segments

/-!
# Where members are extracted to

A member goes to the path that the parts of its name make below the target directory. A name with a
part that means the parent directory, or with no part at all, goes nowhere, so that nothing is ever
written outside of the target directory.
-/
namespace ZipArchive.Command

/-- The parts of a member's name that make its path, or only the last one with `junkPaths`. -/
def outputParts (junkPaths : Bool) (name : String) : Option (List String) :=
  let segments := Text.segments (fun c => c = '/' || c = '\\') name.toList
  let parts := segments.filter fun part => part ≠ [] && part ≠ ['.']
  if segments.contains ['.', '.'] || parts.isEmpty then none
  else
    let parts := parts.map String.ofList
    if junkPaths then some (parts.drop (parts.length - 1)) else some parts

/-- The path that parts make. -/
def pathOf (parts : List String) : String := String.intercalate "/" parts

/-- A path below a directory. -/
def below (directory path : String) : String :=
  if directory.isEmpty || directory.toList.getLast? = some '/' then directory ++ path
  else directory ++ "/" ++ path

/-- A member's place below the target directory. -/
structure Destination where
  directory : Option String
  parts : List String
  deriving DecidableEq, Repr

/-- Whether a path ends with the name of a directory or leads up at its end. A dot in front counts
as a name where it stands alone. -/
def endsInName (parts : List String) : Bool :=
  match parts.getLast? with
  | none | some "" => false
  | some "." => parts.length = 1
  | some _ => true

/-- The directories on the way that a path tells, each by the first part of the path as it is
written, from the lowest one up. -/
def ancestors (path : String) : List String :=
  let parts := (Text.segments (· = '/') path.toList).map String.ofList
  let front := ((List.range parts.length).map parts.take).filter endsInName
  (front.map pathOf).reverse

namespace Destination

def path (d : Destination) : String :=
  match d.directory with
  | some directory => below directory (pathOf d.parts)
  | none => pathOf d.parts

/-- The directory that the member goes to, and those above it. -/
def parents (d : Destination) : List String := ancestors d.path

end Destination
end ZipArchive.Command
