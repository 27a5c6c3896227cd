import ZipArchive.Command.Extraction
import ZipArchive.Decode.Standard

/-!
# The command line program

Hands the command line to `Command.run` on the real file system.
-/
namespace ZipArchive

/-- The code that the operating system gave an error, zero where there is none. -/
def codeOf : IO.Error → UInt32
  | .alreadyExists _ code _ | .otherError code _ | .resourceBusy code _ | .resourceVanished code _
  | .unsupportedOperation code _ | .hardwareFault code _ | .unsatisfiedConstraints code _
  | .illegalOperation code _ | .protocolError code _ | .timeExpired code _ | .interrupted _ code _
  | .noFileOrDirectory _ code _ | .invalidArgument _ code _ | .permissionDenied _ code _
  | .resourceExhausted _ code _ | .inappropriateType _ code _ | .noSuchThing _ code _ => code
  | .unexpectedEof | .userError _ => 0

/-- The number of an error code. Some calls tell it with its sign turned. -/
def magnitude (code : UInt32) : Nat := min code.toNat (-code).toNat

def causeOf (error : IO.Error) : IoCause :=
  if codeOf error = 0 then .other (toString error) else .os (magnitude (codeOf error))

/-- Does something to a path, unless the path holds a zero byte. -/
def onPath {α : Type} (path : String) (act : IO α) : IO (Except IoError α) := do
  if path.toList.contains '\x00' then return .error ⟨.zeroInName, none⟩
  else
    match ← act.toBaseIO with
    | .ok value => return .ok value
    | .error error => return .error ⟨causeOf error, none⟩

/-- Whether something that can be asked of a path holds. -/
def holds (path : String) (act : IO Bool) : IO Bool := do
  match ← onPath path act with
  | .ok answer => return answer
  | .error _ => return false

/-- The host that works on the real file system. -/
def systemHost : Command.Host IO where
  read path := onPath path (IO.FS.readBinFile path)
  isPresent path := holds path (do let _ ← IO.FS.realPath path; return true)
  isDirectory path := holds path (do (← IO.FS.realPath path).isDir)
  makeDirectory path := onPath path (IO.FS.createDir path)
  create path := onPath path (IO.FS.writeBinFile path .empty)
  write path content := onPath path (IO.FS.writeBinFile path content)
  output bytes := do (← IO.getStdout).write bytes
  complain line := IO.eprintln line

/-- How the program is used. -/
def usage : String :=
  "List and extract ZIP archives, including ZIP64\n\n" ++
  "Usage: [OPTIONS] FILE [FILES]...\n\n" ++
  "  -l                     List files\n" ++
  "  -v                     List methods, sizes, ratios and dates\n" ++
  "  -p                     Extract files to pipe, no messages\n" ++
  "  -d DIR                 Extract files into DIR\n" ++
  "  -x FILE...             Exclude files that follow\n" ++
  "  -n                     Never overwrite existing files\n" ++
  "  -o                     Overwrite files without prompting\n" ++
  "  -j                     Junk paths (do not make directories)\n" ++
  "  -q                     Quiet mode (-qq is quieter)\n" ++
  "      --sanitize         Normalize member paths\n" ++
  "      --limit N          Read at most N records of the central directory\n" ++
  "      --tail-window N    Search the last N bytes for the end of the directory\n" ++
  "  -h, --help             Print help\n" ++
  "  -V, --version          Print version"

def usageMessage : Command.UsageError → String
  | .missingFile => "a required argument was not given: FILE"
  | .unknownOption => "unexpected argument found"
  | .missingValue => "a value is required for an option but none was given"
  | .badValue => "invalid value for an option"
  | .repeatedOption => "an option cannot be used multiple times"
  | .unexpectedValue => "unexpected value for an option that takes none"
  | .help => usage
  | .version => "0.1.0"

end ZipArchive

open ZipArchive in
def main (arguments : List String) : IO UInt32 := do
  match Command.Arguments.parse arguments with
  | .error .help => IO.println usage; return 0
  | .error .version => IO.println (usageMessage .version); return 0
  | .error error => IO.eprintln s!"error: {usageMessage error}"; return 2
  | .ok arguments =>
    match ← Command.run systemHost arguments with
    | .ok () => return 0
    | .error failure => IO.eprintln s!"Error: {failure.message}"; return 1
