import ZipArchive.Archive
import ZipArchive.Command.Arguments
import ZipArchive.Command.Host
import ZipArchive.Command.Listing
import ZipArchive.Command.Selection
import ZipArchive.Source.Content

/-!
# Carrying out a command line

An archive is opened and then listed, or its selected members are extracted one by one. A member
that cannot be extracted is reported and passed over, and the run as a whole then fails with their
number.
-/
namespace ZipArchive.Command

/-- Why a run or one of its members failed. -/
inductive Failure where
  | archive (file : String) (error : ZipError)
  | host (error : IoError)
  /-- Some members could not be extracted. -/
  | members (count : Nat) (file : String)
  deriving DecidableEq, Repr

/-- The text of a failure. A failure that was attributed to a file tells its cause once more. -/
def Failure.message : Failure → String
  | .archive file (.io ⟨cause, some label⟩) =>
    s!"{(ZipError.io ⟨cause, some label⟩).message file}: {cause.message}"
  | .archive file error => error.message file
  | .host error => error.message
  | .members count file => s!"{count} file(s) could not be extracted from {file}"

/-- An archive file that was opened. -/
structure Opened where
  file : String
  /-- The size that the file had when it was opened. -/
  size : Nat
  /-- The content that the file has now. -/
  content : ByteArray
  archive : Archive

namespace Opened

def source (o : Opened) : Source Unit := { Source.ofContent o.file o.content with size := o.size }

/-- The content of a member. -/
def extraction [Decoders] (o : Opened) (m : Member) : Except ZipError Extraction :=
  ((o.archive.extraction o.source m.index none).run ⟨(), #[]⟩).1

end Opened

/-- How the archive is opened. -/
def Arguments.options (a : Arguments) : Options where
  limit := a.limit
  sanitizePaths := a.sanitize
  tailWindow := a.tailWindow

/-- The members to extract. -/
def Arguments.selected (a : Arguments) (archive : Archive) : List Member :=
  archive.members.toList.filter fun m => !m.isDirectory && isSelected a.files a.exclude m.name

section

variable [Decoders] {m : Type → Type} [Monad m] (host : Host m) (a : Arguments)

def openArchive : m (Except Failure Opened) := do
  match ← host.read a.file with
  | .error error => return .error (.archive a.file (.io (error.attributed a.file)))
  | .ok content =>
    let opened : Opened := ⟨a.file, content.size, content, ⟨#[]⟩⟩
    match ((Archive.load opened.source a.options).run ⟨(), #[]⟩).1 with
    | .error error => return .error (.archive a.file error)
    | .ok archive => return .ok { opened with archive }

/-- Writes a member's content to the standard output, under its name if `headed`. -/
def pipeMember (headed : Bool) (opened : Opened) (member : Member) : m (Except Failure Unit) := do
  if headed then host.outputLine s!"--- {member.name} ---"
  match opened.extraction member with
  | .error error => return .error (.archive a.file error)
  | .ok extraction =>
    host.output extraction.bytes
    match extraction.failure with
    | none => return .ok ()
    | some error => return .error (.archive a.file error)

/-- Tells that a member is passed over. -/
def skip (member : Member) (reason : String) : m (Except Failure Unit) := do
  if !a.isVeryQuiet then host.complain s!"Skipping: {member.name} ({reason})"
  return .ok ()

/-- Writes a member's content to a file that was just made or emptied. -/
def writeMember (opened : Opened) (member : Member) (path : String) : m (Except Failure Unit) := do
  match opened.extraction member with
  | .error error => return .error (.archive a.file error)
  | .ok extraction =>
    if !extraction.bytes.isEmpty then
      if let .error error ← host.write path extraction.bytes then return .error (.host error)
    match extraction.failure with
    | none => return .ok ()
    | some error => return .error (.archive a.file error)

/-- The archive as it is after a file was emptied that was there before, and that may have been the
archive itself. -/
def reread (opened : Opened) : m Opened := do
  match ← host.read opened.file with
  | .ok content => return { opened with content }
  | .error _ => return opened

/-- Makes the directory of a destination. -/
def makeParent (destination : Destination) : m (Except IoError Unit) :=
  host.makeDirectories destination.parents

/-- Extracts a member to a file, and gives the archive as it is then. A file that is emptied may be
one that only the directories made for it lead to. -/
def extractTo (opened : Opened) (member : Member) (destination : Destination) :
    m (Except Failure Unit × Opened) := do
  if !a.isQuiet then host.outputLine s!"  extracting: {member.name}"
  match ← makeParent host destination with
  | .error error => return (.error (.host error), opened)
  | .ok () =>
    let wasThere ← host.isPresent destination.path
    match ← host.create destination.path with
    | .error error => return (.error (.host error), opened)
    | .ok () =>
      let opened ← if wasThere then reread host opened else pure opened
      return (← writeMember host a opened member destination.path, opened)

/-- Extracts a member, unless its name is unsafe or there is something in its place already. -/
def extractMember (opened : Opened) (member : Member) : m (Except Failure Unit × Opened) := do
  match outputParts a.junkPaths member.name with
  | none => return (← skip host a member "unsafe path", opened)
  | some parts =>
    let destination : Destination := ⟨a.directory, parts⟩
    let wasThere ← host.isPresent destination.path
    if wasThere && a.neverOverwrite then return (← skip host a member "file exists", opened)
    else if wasThere && !a.overwrite then
      return (← skip host a member "use -o to overwrite", opened)
    else extractTo host a opened member destination

/-- Extracts members one by one, reports those that fail, and gives their number. -/
def extractAll (headed : Bool) : (members : List Member) → Opened → (failed : Nat) → m Nat
  | [], _, failed => return failed
  | member :: rest, opened, failed => do
    let (result, opened) ←
      if a.pipe then pure (← pipeMember host a headed opened member, opened)
      else extractMember host a opened member
    match result with
    | .ok () => extractAll headed rest opened failed
    | .error failure =>
      host.complain s!"error: {failure.message}"
      extractAll headed rest opened (failed + 1)

/-- Lists or extracts the members of an open archive. -/
def process (opened : Opened) : m (Except Failure Unit) := do
  if a.list || a.verbose then
    for line in listing a.verbose opened.archive.members.toList do host.outputLine line
    return .ok ()
  else
    let members := a.selected opened.archive
    match ← extractAll host a (1 < members.length) members opened 0 with
    | 0 => return .ok ()
    | failed => return .error (.members failed a.file)

/-- Carries out a command line. -/
def run : m (Except Failure Unit) := do
  match ← openArchive host a with
  | .error failure => return .error failure
  | .ok opened => process host a opened

end
end ZipArchive.Command
