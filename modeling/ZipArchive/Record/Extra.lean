import ZipArchive.LittleEndian

/-!
# Extra fields

The extra area of a header is a row of records, each a tag, a length and that many bytes. The record
with tag 1 holds the wide numbers that the header's slots defer to, and only those, in a fixed
order.
-/
namespace ZipArchive.Extra

/-- The tag of the record that holds wide numbers. -/
def wideTag : UInt16 := 1

/-- Which wide numbers a header defers to. -/
structure Wanted where
  uncompressedSize : Bool := false
  compressedSize : Bool := false
  headerOffset : Bool := false
  disk : Bool := false
  deriving DecidableEq, Repr

/-- The wide numbers that were found. -/
structure Found where
  uncompressedSize : Option UInt64 := none
  compressedSize : Option UInt64 := none
  headerOffset : Option UInt64 := none
  disk : Option UInt32 := none
  deriving DecidableEq, Repr

/-- The content of the first record with the wide tag. It is cut short where the area ends. -/
def wideContent : List UInt8 → Option (List UInt8)
  | tag₀ :: tag₁ :: length₀ :: length₁ :: rest =>
    let length := LittleEndian.toNat [length₀, length₁]
    if LittleEndian.toUInt16 [tag₀, tag₁] = wideTag then some (rest.take length)
    else wideContent (rest.drop length)
  | _ => none
termination_by area => area.length
decreasing_by simp only [List.length_drop, List.length_cons]; omega

/-- The next number of the given width, if it is wanted and there is room for it. When there is no
room for a wanted number, nothing is left for the ones after it. -/
def nextNumber (wanted : Bool) (width : Nat) (content : List UInt8) :
    Option (List UInt8) × List UInt8 :=
  if wanted then
    if width ≤ content.length then (some (content.take width), content.drop width) else (none, [])
  else (none, content)

/-- The wanted numbers of a wide record's content. -/
def numbers (wanted : Wanted) (content : List UInt8) : Found :=
  let (uncompressed, content) := nextNumber wanted.uncompressedSize 8 content
  let (compressed, content) := nextNumber wanted.compressedSize 8 content
  let (offset, content) := nextNumber wanted.headerOffset 8 content
  let (disk, _) := nextNumber wanted.disk 4 content
  ⟨uncompressed.map LittleEndian.toUInt64, compressed.map LittleEndian.toUInt64,
    offset.map LittleEndian.toUInt64, disk.map LittleEndian.toUInt32⟩

/-- The wanted wide numbers of an extra area. -/
def find (wanted : Wanted) (area : List UInt8) : Found :=
  match wideContent area with
  | some content => numbers wanted content
  | none => {}

end ZipArchive.Extra
