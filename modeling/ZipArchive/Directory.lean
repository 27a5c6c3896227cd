import ZipArchive.Action
import ZipArchive.Options
import ZipArchive.Path
import ZipArchive.Record.CentralHeader
import ZipArchive.Record.Trailer

/-!
# The central directory

The directory is read once, when an archive is opened. Each of its headers becomes a member, and a
header that cannot be read or does not fit the archive fails the whole.
-/
namespace ZipArchive

/-- One member of an archive, in the order of the directory. -/
structure Member where
  index : Nat
  /-- The name as stored, or sanitized. -/
  path : List UInt8
  /-- The offset of the member's local header. -/
  headerStart : Nat
  info : MemberInfo
  deriving DecidableEq, Repr

namespace Member

/-- The path as text. -/
def name (m : Member) : String := Text.lossy m.path

/-- A directory's path ends in a slash. -/
def isDirectory (m : Member) : Bool := m.path.getLast? = some Path.slash

end Member

namespace Directory

variable {σ : Type} (source : Source σ) (options : Options)

/-- The member that a header describes. -/
def memberOf (directory : DirectoryEnd) (index : Nat) (header : CentralHeader) :
    Except ZipError Member :=
  if header.disk.value ≠ directory.thisDisk then .error (.multiDisk none)
  else if source.size ≤ header.headerOffset.value.toNat then
    .error (.corrupt
      (.headerBeyondEnd (Text.lossy header.name) header.headerOffset.value.toNat))
  else .ok {
    index
    path := if options.sanitizePaths then Path.sanitize header.name else header.name
    headerStart := header.headerOffset.value.toNat
    info := header.info }

/-- Reads `count` more headers and puts their members behind those already read. -/
def readMembers (directory : DirectoryEnd) :
    (count : Nat) → Buffered → Array Member → Action σ (Array Member)
  | 0, _, members => pure members
  | count + 1, window, members => do
    let (header, window) ←
      Action.readRecord source CentralHeader.recordName CentralHeader.layout window
    let member ← Action.ofExcept source (memberOf source options directory members.size header)
    readMembers directory count window (members.push member)

/-- How many headers are read. -/
def recordCount (directory : DirectoryEnd) : Nat :=
  match options.limit with
  | some limit => min directory.recordsHere.toNat limit
  | none => directory.recordsHere.toNat

/-- Reads the members of a central directory, in order. Memory is taken to be without end: room for
as many members as the count and the size of the directory tell, which may be wrong, is not asked
for beforehand, and is never missing. -/
def read (directory : DirectoryEnd) : Action σ (Array Member) := do
  let count := recordCount options directory
  Action.log (.readingDirectory count directory.recordsHere.toNat)
  let stop ← Action.inRange source (addOffset? directory.offset.toNat directory.size.toNat)
  let view := View.new source.size directory.offset.toNat stop
  readMembers source options directory count ⟨view, blockSize, .empty, 0⟩ #[]

end Directory
end ZipArchive
