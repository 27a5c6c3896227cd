import ZipArchive.Error

/-!
# Log

While an archive is read, events are logged: what is about to be read, candidates for the end of the
central directory that are passed over, and errors as they are raised.
-/
namespace ZipArchive

inductive Level where
  | error | warning | debug
  deriving DecidableEq, Repr

/-- Why a signature match is not taken for the end of the central directory. -/
inductive Rejection where
  | commentBeyondEnd (length : UInt16)
  | noRoomForLocator
  | badLocator (found : UInt32)
  | directoryBehindRecord (directoryEnd : Nat)
  | tooManyRecordsHere
  | directoryTooSmall
  deriving DecidableEq, Repr

def Rejection.message : Rejection → String
  | .commentBeyondEnd length => s!"comment of {length} bytes runs past the end of the file"
  | .noRoomForLocator => "no room for a zip64 locator"
  | .badLocator found => s!"zip64 locator signature is {Text.signature found}"
  | .directoryBehindRecord directoryEnd =>
    s!"central directory ends at {directoryEnd}, after the record"
  | .tooManyRecordsHere => "more records on this disk than in total"
  | .directoryTooSmall => "central directory too small for its record count"

inductive Event where
  | readingEndRecord
  | readingLocator
  | readingDirectory (count total : Nat)
  | usingDescriptor (member : String)
  | candidateIgnored (offset : Nat) (reason : Rejection)
  | raised (report : String)
  deriving DecidableEq, Repr

namespace Event

def level : Event → Level
  | .raised _ => .error
  | .candidateIgnored .. => .warning
  | _ => .debug

/-- The text of an event in the archive of the given name. -/
def message (archive : String) : Event → String
  | .readingEndRecord => "Reading end of central directory record."
  | .readingLocator => "Reading end of central directory locator."
  | .readingDirectory count total =>
    s!"Reading {count} records out of {total} from ZIP archive {archive}."
  | .usingDescriptor member =>
    s!"Member {member} in {archive} uses a data descriptor, " ++
      "taking sizes from the central directory."
  | .candidateIgnored offset reason =>
    s!"Ignoring end of central directory candidate at offset {offset} in {archive}: " ++
      s!"{reason.message}."
  | .raised report => report

end Event
end ZipArchive
