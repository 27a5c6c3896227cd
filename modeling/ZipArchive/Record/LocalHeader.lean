import ZipArchive.Record.CentralHeader

/-!
# Local headers

A local header stands right before a member's content and alone decides where that content begins.
With the descriptor flag its sizes are placeholders.
-/
namespace ZipArchive

/-- The part of a local header that is needed to find a member's content. -/
structure LocalHeader where
  flags : UInt16
  method : CompressionMethod
  compressedSize : Extent
  uncompressedSize : Extent
  nameLength : UInt16
  extraLength : UInt16
  deriving DecidableEq, Repr

namespace LocalHeader

def recordName : String := "local file header"

def signature : UInt32 := 0x04034b50

/-- The length of the header without name and extra area. -/
def minLength : Nat := 30

/-- The greatest length of a header. -/
def maxLength : Nat := minLength + 65535 + 65535

/-- The fields of fixed width that are used, as stored. -/
structure Fixed where
  flags : UInt16
  method : UInt16
  compressedSize : UInt32
  uncompressedSize : UInt32
  nameLength : UInt16
  extraLength : UInt16
  deriving DecidableEq, Repr

/-- The fixed fields, from the bytes behind the signature. -/
def Fixed.ofBytes (b : List UInt8) : Fixed where
  flags := LittleEndian.toUInt16 (Layout.field b 2 2)
  method := LittleEndian.toUInt16 (Layout.field b 4 2)
  compressedSize := LittleEndian.toUInt32 (Layout.field b 14 4)
  uncompressedSize := LittleEndian.toUInt32 (Layout.field b 18 4)
  nameLength := LittleEndian.toUInt16 (Layout.field b 22 2)
  extraLength := LittleEndian.toUInt16 (Layout.field b 24 2)

/-- The fixed fields as the bytes behind the signature, with the given bytes for the version before
them and for time, date and checksum between them. -/
def Fixed.encode (f : Fixed) (version moment : List UInt8) : List UInt8 :=
  version ++ LittleEndian.ofUInt16 f.flags ++ LittleEndian.ofUInt16 f.method ++ moment ++
    LittleEndian.ofUInt32 f.compressedSize ++ LittleEndian.ofUInt32 f.uncompressedSize ++
    LittleEndian.ofUInt16 f.nameLength ++ LittleEndian.ofUInt16 f.extraLength

def Fixed.wanted (f : Fixed) : Extra.Wanted where
  uncompressedSize := f.uncompressedSize = Extent.deferred
  compressedSize := f.compressedSize = Extent.deferred

/-- The size meant by a slot. Where sizes follow the data, a missing wide value leaves the slot as
it is. -/
def resolveSize (f : Fixed) (field : WideField) (slot : UInt32) (wide : Option UInt64) :
    Layout Extent :=
  match Extent.resolve slot wide with
  | some extent => .done extent
  | none =>
    if f.flags &&& descriptorFlag ≠ 0 then .done (.classic slot)
    else .refuse (.corrupt (.missingLocalWideValue field))

/-- Fills the deferred slots from the extra area. -/
def resolve (f : Fixed) (extra : List UInt8) : Layout LocalHeader := do
  let wide := Extra.find f.wanted extra
  let compressedSize ← resolveSize f .compressedSize f.compressedSize wide.compressedSize
  let uncompressedSize ← resolveSize f .uncompressedSize f.uncompressedSize wide.uncompressedSize
  .done {
    flags := f.flags
    method := .ofTag f.method
    compressedSize, uncompressedSize
    nameLength := f.nameLength
    extraLength := f.extraLength }

def layout : Layout LocalHeader := do
  .signature recordName signature
  let fixed := Fixed.ofBytes (← .take 26)
  .pass fixed.nameLength.toNat
  let extra ← .take fixed.extraLength.toNat
  resolve fixed extra

/-- The length of the header with name and extra area. -/
def length (h : LocalHeader) : Nat := minLength + h.nameLength.toNat + h.extraLength.toNat

def hasDescriptor (h : LocalHeader) : Bool := h.flags &&& descriptorFlag ≠ 0

end LocalHeader
end ZipArchive
