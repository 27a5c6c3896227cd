import ZipArchive.OsError

/-!
# Failures of reading and writing

A failure has a cause, and may have been attributed to the file it happened on. Attribution keeps
the first file named: a failure that already names one is left alone.
-/
namespace ZipArchive

/-- Why compressed data could not be decoded. -/
inductive DecodeError where
  | corruptDeflate | incompleteDeflate | noBzip2Header | invalidBzip2 | incompleteBzip2
  deriving DecidableEq, Repr

def DecodeError.message : DecodeError → String
  | .corruptDeflate => "corrupt deflate stream"
  | .incompleteDeflate => "incomplete deflate stream"
  | .noBzip2Header => "bzip2: bz2 header missing"
  | .invalidBzip2 => "bzip2: invalid data"
  | .incompleteBzip2 => "decompression not finished but EOF reached"

/-- What went wrong in a read, a write or a file system call. -/
inductive IoCause where
  /-- The operating system refused, with this code. -/
  | os (code : Nat)
  /-- The call was interrupted and may be tried again. -/
  | interrupted
  /-- The source ended before the bytes asked for. -/
  | endOfFile
  /-- The stream ended before a buffer was full. -/
  | bufferNotFilled
  /-- The sink takes no more bytes. -/
  | sinkFull
  | notSeekable
  /-- A file name holds a zero byte. -/
  | zeroInName
  | undecodable (reason : DecodeError)
  /-- An offset left the range of 64-bit numbers. -/
  | offsetOverflow
  | other (text : String)
  deriving DecidableEq, Repr

def IoCause.message : IoCause → String
  | .os code => OsError.message code
  | .interrupted => "operation interrupted"
  | .endOfFile => "unexpected end of file"
  | .bufferNotFilled => "failed to fill whole buffer"
  | .sinkFull => "failed to write whole buffer"
  | .notSeekable => "compressed member streams are not seekable"
  | .zeroInName => "file name contained an unexpected NUL byte"
  | .undecodable reason => reason.message
  | .offsetOverflow => "offset out of range"
  | .other text => text

/-- A failed read or write. -/
structure IoError where
  cause : IoCause
  /-- The file that the failure was attributed to. -/
  file : Option String := none
  deriving DecidableEq, Repr

namespace IoError

/-- Names the file that failed, unless one is named already. -/
def attributed (label : String) (e : IoError) : IoError :=
  { e with file := some (e.file.getD label) }

def message (e : IoError) : String :=
  match e.file with
  | some label => s!"unable to read from {label}: {e.cause.message}"
  | none => e.cause.message

/-- An interrupted call is tried again. -/
def isInterrupted (e : IoError) : Bool := e.cause = .interrupted

/-- The data ended too early, as opposed to a read that failed. -/
def isShortRead (e : IoError) : Bool := e.cause = .endOfFile || e.cause = .bufferNotFilled

/-- The operating system's code, when it was the operating system that failed. -/
def code? (e : IoError) : Option Nat :=
  match e.cause with
  | .os code => some code
  | _ => none

end IoError
end ZipArchive
