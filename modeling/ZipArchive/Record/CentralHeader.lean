import ZipArchive.Layout
import ZipArchive.Method
import ZipArchive.Record.Extra
import ZipArchive.Record.Wide
import ZipArchive.Text.Utf8

/-!
# Central headers

The central directory has one header for each member: what is known about the member, its name, and
where its local header is.
-/
namespace ZipArchive

/-- The general purpose flag that tells that sizes follow the data. -/
def descriptorFlag : UInt16 := 8

/-- What the central directory tells about a member's content. Where the content is, only the local
header tells. -/
structure MemberInfo where
  method : CompressionMethod
  flags : UInt16
  crc32 : UInt32
  compressedSize : UInt64
  uncompressedSize : UInt64
  time : UInt16
  date : UInt16
  versionMadeBy : UInt16
  externalAttributes : UInt32
  deriving DecidableEq, Repr

/-- Year, month and day of a date word. -/
def calendarOf (date : UInt16) : Nat × Nat × Nat :=
  (1980 + date.toNat / 512 % 128, date.toNat / 32 % 16, date.toNat % 32)

/-- Hour, minute and second of a time word. Seconds are stored in pairs. -/
def clockOf (time : UInt16) : Nat × Nat × Nat :=
  (time.toNat / 2048 % 32, time.toNat / 32 % 64, time.toNat % 32 * 2)

namespace MemberInfo

def calendar (i : MemberInfo) : Nat × Nat × Nat := calendarOf i.date

def clock (i : MemberInfo) : Nat × Nat × Nat := clockOf i.time

def hasDescriptor (i : MemberInfo) : Bool := i.flags &&& descriptorFlag ≠ 0

end MemberInfo

/-- A header of the central directory. -/
structure CentralHeader where
  versionMadeBy : UInt16
  versionNeeded : UInt16
  flags : UInt16
  method : CompressionMethod
  time : UInt16
  date : UInt16
  crc32 : UInt32
  compressedSize : Extent
  uncompressedSize : Extent
  name : List UInt8
  disk : DiskNumber
  internalAttributes : UInt16
  externalAttributes : UInt32
  headerOffset : Extent
  deriving DecidableEq, Repr

namespace CentralHeader

def recordName : String := "central directory file header"

def signature : UInt32 := 0x02014b50

/-- The length of the header without name, extra area and comment. -/
def minLength : Nat := 46

/-- The fields of fixed width, as stored. -/
structure Fixed where
  versionMadeBy : UInt16
  versionNeeded : UInt16
  flags : UInt16
  method : UInt16
  time : UInt16
  date : UInt16
  crc32 : UInt32
  compressedSize : UInt32
  uncompressedSize : UInt32
  nameLength : UInt16
  extraLength : UInt16
  commentLength : UInt16
  disk : UInt16
  internalAttributes : UInt16
  externalAttributes : UInt32
  headerOffset : UInt32
  deriving DecidableEq, Repr

/-- The fixed fields, from the bytes behind the signature. -/
def Fixed.ofBytes (b : List UInt8) : Fixed where
  versionMadeBy := LittleEndian.toUInt16 (Layout.field b 0 2)
  versionNeeded := LittleEndian.toUInt16 (Layout.field b 2 2)
  flags := LittleEndian.toUInt16 (Layout.field b 4 2)
  method := LittleEndian.toUInt16 (Layout.field b 6 2)
  time := LittleEndian.toUInt16 (Layout.field b 8 2)
  date := LittleEndian.toUInt16 (Layout.field b 10 2)
  crc32 := LittleEndian.toUInt32 (Layout.field b 12 4)
  compressedSize := LittleEndian.toUInt32 (Layout.field b 16 4)
  uncompressedSize := LittleEndian.toUInt32 (Layout.field b 20 4)
  nameLength := LittleEndian.toUInt16 (Layout.field b 24 2)
  extraLength := LittleEndian.toUInt16 (Layout.field b 26 2)
  commentLength := LittleEndian.toUInt16 (Layout.field b 28 2)
  disk := LittleEndian.toUInt16 (Layout.field b 30 2)
  internalAttributes := LittleEndian.toUInt16 (Layout.field b 32 2)
  externalAttributes := LittleEndian.toUInt32 (Layout.field b 34 4)
  headerOffset := LittleEndian.toUInt32 (Layout.field b 38 4)

/-- The fixed fields as the bytes behind the signature. -/
def Fixed.encode (f : Fixed) : List UInt8 :=
  LittleEndian.ofUInt16 f.versionMadeBy ++ LittleEndian.ofUInt16 f.versionNeeded ++
    LittleEndian.ofUInt16 f.flags ++ LittleEndian.ofUInt16 f.method ++
    LittleEndian.ofUInt16 f.time ++ LittleEndian.ofUInt16 f.date ++
    LittleEndian.ofUInt32 f.crc32 ++ LittleEndian.ofUInt32 f.compressedSize ++
    LittleEndian.ofUInt32 f.uncompressedSize ++ LittleEndian.ofUInt16 f.nameLength ++
    LittleEndian.ofUInt16 f.extraLength ++ LittleEndian.ofUInt16 f.commentLength ++
    LittleEndian.ofUInt16 f.disk ++ LittleEndian.ofUInt16 f.internalAttributes ++
    LittleEndian.ofUInt32 f.externalAttributes ++ LittleEndian.ofUInt32 f.headerOffset

/-- The slots that defer to the extra area. -/
def Fixed.wanted (f : Fixed) : Extra.Wanted where
  uncompressedSize := f.uncompressedSize = Extent.deferred
  compressedSize := f.compressedSize = Extent.deferred
  headerOffset := f.headerOffset = Extent.deferred
  disk := f.disk = DiskNumber.deferred

/-- The value found for a field, or the complaint that the extra area lacks it. -/
def require {α : Type} (name : List UInt8) (field : WideField) : Option α → Layout α
  | some value => .done value
  | none => .refuse (.corrupt (.missingWideValue field (Text.lossy name)))

/-- Fills the deferred slots from the extra area. -/
def resolve (f : Fixed) (name extra : List UInt8) : Layout CentralHeader := do
  let wide := Extra.find f.wanted extra
  let compressedSize ←
    require name .compressedSize (Extent.resolve f.compressedSize wide.compressedSize)
  let uncompressedSize ←
    require name .uncompressedSize (Extent.resolve f.uncompressedSize wide.uncompressedSize)
  let headerOffset ←
    require name .headerOffset (Extent.resolve f.headerOffset wide.headerOffset)
  let disk ← require name .disk (DiskNumber.resolve f.disk wide.disk)
  .done {
    versionMadeBy := f.versionMadeBy
    versionNeeded := f.versionNeeded
    flags := f.flags
    method := .ofTag f.method
    time := f.time
    date := f.date
    crc32 := f.crc32
    compressedSize, uncompressedSize, name, disk
    internalAttributes := f.internalAttributes
    externalAttributes := f.externalAttributes
    headerOffset }

def layout : Layout CentralHeader := do
  .signature recordName signature
  let fixed := Fixed.ofBytes (← .take 42)
  let name ← .take fixed.nameLength.toNat
  let extra ← .take fixed.extraLength.toNat
  .pass fixed.commentLength.toNat
  resolve fixed name extra

def info (h : CentralHeader) : MemberInfo where
  method := h.method
  flags := h.flags
  crc32 := h.crc32
  compressedSize := h.compressedSize.value
  uncompressedSize := h.uncompressedSize.value
  time := h.time
  date := h.date
  versionMadeBy := h.versionMadeBy
  externalAttributes := h.externalAttributes

end CentralHeader
end ZipArchive
