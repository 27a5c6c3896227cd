import ZipArchive.IoError
import ZipArchive.Method
import ZipArchive.Text.Numeral

/-!
# Archive errors

What can be wrong with an archive, and how it is told. An error holds its cause; the archive's name
comes in when the error is shown. Failures of the operating system are kept apart from damage to the
archive (`isStructural`).
-/
namespace ZipArchive

/-- The fields of a header that an extra record can widen. -/
inductive WideField where
  | compressedSize | uncompressedSize | headerOffset | disk
  deriving DecidableEq, Repr

def WideField.name : WideField → String
  | .compressedSize => "compressed size"
  | .uncompressedSize => "uncompressed size"
  | .headerOffset => "local header offset"
  | .disk => "disk number"

/-- How an archive is damaged. -/
inductive Damage where
  /-- The archive ends inside a record. -/
  | truncated (record : String)
  /-- A central header defers a field to an extra record that does not hold it. -/
  | missingWideValue (field : WideField) (member : String)
  /-- A local header defers a field to an extra record that does not hold it. -/
  | missingLocalWideValue (field : WideField)
  | directoryBeyondEnd (offset size archiveSize : Nat)
  /-- The wide end record is said to lie where its locator is. -/
  | endRecordOverlap (offset : Nat)
  | headerBeyondEnd (member : String) (offset : Nat)
  | dataBeyondEnd (member : String) (size offset : Nat)
  | undecodable (member : String) (error : IoError)
  deriving DecidableEq, Repr

def Damage.message : Damage → String
  | .truncated record => s!"truncated {record}"
  | .missingWideValue field member =>
    s!"missing zip64 extended information for the {field.name} of {member}"
  | .missingLocalWideValue field =>
    s!"missing zip64 extended information for the {field.name} in a local file header"
  | .directoryBeyondEnd offset size archiveSize =>
    s!"central directory [{offset}, +{size}) lies beyond the end of the file ({archiveSize} bytes)"
  | .endRecordOverlap offset =>
    s!"zip64 end of central directory offset {offset} overlaps its locator"
  | .headerBeyondEnd member offset =>
    s!"local header of {member} at offset {offset} lies beyond the end of the file"
  | .dataBeyondEnd member size offset =>
    s!"data of {member} ({size} bytes at offset {offset}) runs past the end of the file"
  | .undecodable member error => s!"cannot decode {member}: {error.message}"

/-- Why an operation on an archive failed. -/
inductive ZipError where
  /-- A record does not start with its signature. -/
  | badSignature (record : String) (expected found : UInt32)
  /-- No end of the central directory was found. -/
  | missingTrailer
  /-- The archive spans several disks; `declared` is their number where the archive tells it. -/
  | multiDisk (declared : Option UInt32)
  | invalidIndex (index count : Nat)
  | notFound (member : String)
  | unsupportedMethod (member : String) (method : CompressionMethod)
  | corrupt (damage : Damage)
  | io (error : IoError)
  deriving DecidableEq, Repr

namespace ZipError

/-- The text of an error in the archive of the given name. -/
def message (archive : String) : ZipError → String
  | .badSignature record expected found =>
    s!"error reading {record} in {archive}: invalid signature; " ++
      s!"expected {Text.signature expected} got {Text.signature found}"
  | .missingTrailer => s!"cannot find end of central directory signature in zip file {archive}"
  | .multiDisk _ => s!"unsupported format in zip file {archive}: multiple disks encountered"
  | .invalidIndex index count =>
    s!"invalid file index {index} in zip file {archive} ({count} files)"
  | .notFound member => s!"file {member} not found in zip file {archive}"
  | .unsupportedMethod member method =>
    s!"unsupported compression method <{method.name}> for file {member} in the zip file {archive}"
  | .corrupt damage => s!"cannot process the zip file {archive}: {damage.message}"
  | .io error => error.message

/-- What is logged when the error is raised. Damage and failed reads are left to the caller to
report. -/
def report? (archive : String) : ZipError → Option String
  | .badSignature record expected found =>
    some (s!"Error reading {record} in {archive}: invalid signature; " ++
      s!"expected {Text.signature expected} got {Text.signature found}.")
  | .missingTrailer =>
    some s!"Cannot find end of central directory signature in zip file {archive}."
  | .multiDisk none =>
    some s!"Unsupported format in zip file {archive}: multiple disks encountered."
  | .multiDisk (some disks) => some s!"Unsupported format in zip file {archive}: {disks} disks."
  | .invalidIndex index _ => some s!"Invalid file index {index} in zip file {archive}."
  | .notFound member => some s!"File {member} not found in zip file {archive}."
  | .unsupportedMethod member method =>
    some (s!"Unsupported compression method <{method.name}> for file {member} " ++
      s!"in the zip file {archive}.")
  | .corrupt _ => none
  | .io _ => none

/-- The archive is at fault, as opposed to the operating system. -/
def isStructural : ZipError → Bool
  | .io _ => false
  | _ => true

def isBadSignature : ZipError → Bool
  | .badSignature .. => true
  | _ => false

/-- What a failed read of a record means: a source that ended cut the record short, any other
failure is the source's own and is attributed to it. -/
def ofRead (label record : String) (e : IoError) : ZipError :=
  if e.isShortRead then .corrupt (.truncated record) else .io (e.attributed label)

end ZipError
end ZipArchive
