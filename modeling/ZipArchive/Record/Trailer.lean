import ZipArchive.Layout

/-!
# Records at the end of an archive

The classic end record closes every archive. An archive too large for its fields also has a wide end
record and, right before the classic one, a locator that tells where the wide one is. Each record
has a layout, which reads it, and an encoding, which writes it.
-/
namespace ZipArchive

/-- The end of the central directory, in the widths of the wide record. -/
structure DirectoryEnd where
  thisDisk : UInt32
  startDisk : UInt32
  recordsHere : UInt64
  recordsTotal : UInt64
  size : UInt64
  offset : UInt64
  deriving DecidableEq, Repr

/-- The classic end record, without its comment. -/
structure ClassicEnd where
  thisDisk : UInt16
  startDisk : UInt16
  recordsHere : UInt16
  recordsTotal : UInt16
  size : UInt32
  offset : UInt32
  commentLength : UInt16
  deriving DecidableEq, Repr

/-- The locator of the wide end record. -/
structure WideLocator where
  /-- The disk that the wide end record is on. -/
  disk : UInt32
  /-- The offset of the wide end record. -/
  offset : UInt64
  totalDisks : UInt32
  deriving DecidableEq, Repr

namespace ClassicEnd

def recordName : String := "end of central directory"

def signature : UInt32 := 0x06054b50

/-- The length of the record without its comment. -/
def length : Nat := 22

def layout : Layout ClassicEnd := do
  .signature recordName signature
  let thisDisk ← .uint16
  let startDisk ← .uint16
  let recordsHere ← .uint16
  let recordsTotal ← .uint16
  let size ← .uint32
  let offset ← .uint32
  let commentLength ← .uint16
  .done ⟨thisDisk, startDisk, recordsHere, recordsTotal, size, offset, commentLength⟩

def encode (r : ClassicEnd) : List UInt8 :=
  LittleEndian.ofUInt32 signature ++ LittleEndian.ofUInt16 r.thisDisk ++
    LittleEndian.ofUInt16 r.startDisk ++ LittleEndian.ofUInt16 r.recordsHere ++
    LittleEndian.ofUInt16 r.recordsTotal ++ LittleEndian.ofUInt32 r.size ++
    LittleEndian.ofUInt32 r.offset ++ LittleEndian.ofUInt16 r.commentLength

/-- Some field is all ones, so that the wide end record holds the values. -/
def needsWide (r : ClassicEnd) : Bool :=
  r.thisDisk = 0xffff || r.startDisk = 0xffff || r.recordsHere = 0xffff ||
    r.recordsTotal = 0xffff || r.size = 0xffffffff || r.offset = 0xffffffff

def widen (r : ClassicEnd) : DirectoryEnd :=
  ⟨r.thisDisk.toUInt32, r.startDisk.toUInt32, r.recordsHere.toUInt64, r.recordsTotal.toUInt64,
    r.size.toUInt64, r.offset.toUInt64⟩

end ClassicEnd

namespace WideLocator

def recordName : String := "end of central directory 64 locator"

def signature : UInt32 := 0x07064b50

def length : Nat := 20

def layout : Layout WideLocator := do
  .signature recordName signature
  let disk ← .uint32
  let offset ← .uint64
  let totalDisks ← .uint32
  .done ⟨disk, offset, totalDisks⟩

def encode (r : WideLocator) : List UInt8 :=
  LittleEndian.ofUInt32 signature ++ LittleEndian.ofUInt32 r.disk ++
    LittleEndian.ofUInt64 r.offset ++ LittleEndian.ofUInt32 r.totalDisks

end WideLocator

namespace DirectoryEnd

def recordName : String := "end of central directory (64)"

def signature : UInt32 := 0x06064b50

/-- The least length of the wide end record. -/
def length : Nat := 56

/-- The layout of the wide end record. Its own size and the two versions are passed over. -/
def layout : Layout DirectoryEnd := do
  .signature recordName signature
  .pass 12
  let thisDisk ← .uint32
  let startDisk ← .uint32
  let recordsHere ← .uint64
  let recordsTotal ← .uint64
  let size ← .uint64
  let offset ← .uint64
  .done ⟨thisDisk, startDisk, recordsHere, recordsTotal, size, offset⟩

/-- The wide end record, with the given bytes in the places that reading passes over. -/
def encode (unused : List UInt8) (r : DirectoryEnd) : List UInt8 :=
  LittleEndian.ofUInt32 signature ++ unused ++ LittleEndian.ofUInt32 r.thisDisk ++
    LittleEndian.ofUInt32 r.startDisk ++ LittleEndian.ofUInt64 r.recordsHere ++
    LittleEndian.ofUInt64 r.recordsTotal ++ LittleEndian.ofUInt64 r.size ++
    LittleEndian.ofUInt64 r.offset

end DirectoryEnd
end ZipArchive
