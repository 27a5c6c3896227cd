import ZipArchive.Command.Host

/-!
# File trees

A file tree in memory, with a working directory that relative paths start from. Paths are followed
part by part, and fail where a part is missing, is not a directory, or is too long.
-/
namespace ZipArchive.Command

inductive Node where
  | directory
  | file (content : ByteArray)

/-- What stands at each place. A place is the row of names that lead to it from the root, last one
first; the root itself is a directory and not listed. -/
structure FileTree where
  nodes : List (List String × Node)
  workingDirectory : List String

namespace FileTree

/-- The greatest length of a name, in bytes. -/
def nameLimit : Nat := 255

/-- The number of bytes that a path cannot have any more. -/
def pathBound : Nat := 4096

def node? (t : FileTree) (place : List String) : Option Node :=
  if place = [] then some .directory else t.nodes.lookup place

/-- Puts something at a place. -/
def put (t : FileTree) (place : List String) (node : Node) : FileTree :=
  { t with nodes := (place, node) :: t.nodes.filter (·.1 ≠ place) }

/-- Follows the parts of a path from a place. Only the last part may be missing. -/
def follow (t : FileTree) : (place : List String) → (parts : List String) → Except Nat (List String)
  | place, [] => .ok place
  | place, part :: rest =>
    match t.node? place with
    | none => .error OsError.noSuchFile
    | some (.file _) => .error OsError.notADirectory
    | some .directory =>
      if part = "" ∨ part = "." then follow t place rest
      else if part = ".." then follow t place.tail rest
      else if nameLimit < part.utf8ByteSize then .error OsError.nameTooLong
      else follow t (part :: place) rest

/-- The place that a path leads to. -/
def resolve (t : FileTree) (path : String) : Except IoCause (List String) :=
  if path.toList.contains '\x00' then .error .zeroInName
  else if path.isEmpty then .error (.os OsError.noSuchFile)
  else if pathBound ≤ path.utf8ByteSize then .error (.os OsError.nameTooLong)
  else
    let start := if path.toList.head? = some '/' then [] else t.workingDirectory
    let parts := (Text.segments (· = '/') path.toList).map String.ofList
    (t.follow start parts).mapError .os

def read (t : FileTree) (path : String) : Except IoError ByteArray :=
  match t.resolve path with
  | .error cause => .error ⟨cause, none⟩
  | .ok place =>
    match t.node? place with
    | none => .error ⟨.os OsError.noSuchFile, none⟩
    | some .directory => .error ⟨.os OsError.isADirectory, none⟩
    | some (.file content) => .ok content

/-- What a path leads to, if there is anything. -/
def find? (t : FileTree) (path : String) : Option Node :=
  match t.resolve path with
  | .error _ => none
  | .ok place => t.node? place

def isDirectory (t : FileTree) (path : String) : Bool :=
  match t.find? path with
  | some .directory => true
  | _ => false

def makeDirectory (t : FileTree) (path : String) : Except IoError Unit × FileTree :=
  match t.resolve path with
  | .error cause => (.error ⟨cause, none⟩, t)
  | .ok place =>
    match t.node? place with
    | some _ => (.error ⟨.os OsError.fileExists, none⟩, t)
    | none => (.ok (), t.put place .directory)

/-- Gives a file its content; makes the file if it is not there. -/
def write (t : FileTree) (path : String) (content : ByteArray) : Except IoError Unit × FileTree :=
  match t.resolve path with
  | .error cause => (.error ⟨cause, none⟩, t)
  | .ok place =>
    match t.node? place with
    | some .directory => (.error ⟨.os OsError.isADirectory, none⟩, t)
    | _ => (.ok (), t.put place (.file content))

end FileTree

/-- A file tree and what has been written to the two channels of output. -/
structure Console where
  tree : FileTree
  output : ByteArray := .empty
  complaints : String := ""

namespace Console

/-- Does something to the file tree. -/
def onTree {α : Type} (act : FileTree → α × FileTree) : StateM Console α := fun c =>
  let (value, tree) := act c.tree
  (value, { c with tree := tree })

/-- The host that works on the file tree of a console. -/
def host : Host (StateM Console) where
  read path := fun c => (c.tree.read path, c)
  isPresent path := fun c => ((c.tree.find? path).isSome, c)
  isDirectory path := fun c => (c.tree.isDirectory path, c)
  makeDirectory path := onTree (·.makeDirectory path)
  create path := onTree (·.write path .empty)
  write path content := onTree (·.write path content)
  output bytes := modify fun c => { c with output := c.output ++ bytes }
  complain line := modify fun c => { c with complaints := c.complaints ++ line ++ "\n" }

end Console
end ZipArchive.Command
