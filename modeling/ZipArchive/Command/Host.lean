import ZipArchive.Command.Destination
import ZipArchive.IoError

/-!
# The host

What the command line does to its surroundings goes through a host: it works on files and
directories by path, and has two channels of output. A host may be the real system or a file tree in
memory.
-/
namespace ZipArchive.Command

structure Host (m : Type → Type) where
  /-- The content of a file. -/
  read : String → m (Except IoError ByteArray)
  isPresent : String → m Bool
  isDirectory : String → m Bool
  makeDirectory : String → m (Except IoError Unit)
  /-- Makes an empty file, or empties the one that is there. -/
  create : String → m (Except IoError Unit)
  /-- Gives an empty file its content. -/
  write : String → ByteArray → m (Except IoError Unit)
  /-- Writes to the standard output. -/
  output : ByteArray → m Unit
  /-- Writes a line to the standard error output. -/
  complain : String → m Unit

namespace Host

variable {m : Type → Type} [Monad m] (host : Host m)

/-- Writes a line to the standard output. -/
def outputLine (line : String) : m Unit := host.output (line ++ "\n").toUTF8

/-- The directory that is to be made is there already. -/
def unlessDirectory (path : String) (error : IoError) : m (Except IoError Unit) := do
  return if ← host.isDirectory path then .ok () else .error error

/-- Makes the first of some directories, each of which is in the next one, and those of the others
that are missing. -/
def makeDirectories : (paths : List String) → m (Except IoError Unit)
  | [] => return .ok ()
  | path :: above => do
    match ← host.makeDirectory path with
    | .ok () => return .ok ()
    | .error error =>
      if error.cause = .os OsError.noSuchFile then
        match ← makeDirectories above with
        | .error error => return .error error
        | .ok () =>
          match ← host.makeDirectory path with
          | .ok () => return .ok ()
          | .error error => host.unlessDirectory path error
      else host.unlessDirectory path error

end Host
end ZipArchive.Command
