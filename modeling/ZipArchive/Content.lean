import ZipArchive.Directory
import ZipArchive.Record.LocalHeader
import ZipArchive.Stream

/-!
# Member content

The content of a member lies right behind its local header. That header alone tells where the
content begins and how it is stored, and how long it is, unless its sizes follow the data: then the
central directory tells.
-/
namespace ZipArchive

/-- Where a member's content lies. -/
structure DataRange where
  header : LocalHeader
  compressedSize : UInt64
  uncompressedSize : UInt64
  start : Nat
  stop : Nat
  deriving DecidableEq, Repr

variable [Decoders]

/-- A member whose content is ready to be read. -/
structure Plugged where
  path : List UInt8
  /-- The size that the archive tells. It is not checked against the content. -/
  uncompressedSize : UInt64
  stream : MemberStream

namespace Plugged

def name (p : Plugged) : String := Text.lossy p.path

end Plugged

namespace Member

variable {σ : Type} (source : Source σ)

/-- The window that a local header is read from. -/
def headerWindow (m : Member) : Buffered :=
  let stop := min (min (m.headerStart + LocalHeader.maxLength) (offsetBound - 1)) source.size
  ⟨.new source.size m.headerStart stop, blockSize, .empty, 0⟩

/-- The compressed and the uncompressed size that count. -/
def sizes (m : Member) (header : LocalHeader) : UInt64 × UInt64 :=
  if header.hasDescriptor then (m.info.compressedSize, m.info.uncompressedSize)
  else (header.compressedSize.value, header.uncompressedSize.value)

/-- Reads the local header and finds the content behind it. -/
def dataRange (m : Member) : Action σ DataRange := do
  let (header, _) ←
    Action.readRecord source LocalHeader.recordName LocalHeader.layout (m.headerWindow source)
  if header.hasDescriptor then Action.log (.usingDescriptor m.name)
  let (compressedSize, uncompressedSize) := m.sizes header
  let start ← Action.inRange source (addOffset? m.headerStart header.length)
  match addOffset? start compressedSize.toNat with
  | some stop =>
    if stop ≤ source.size then return ⟨header, compressedSize, uncompressedSize, start, stop⟩
    else Action.raise source (.corrupt (.dataBeyondEnd m.name compressedSize.toNat start))
  | none => Action.raise source (.corrupt (.dataBeyondEnd m.name compressedSize.toNat start))

/-- Makes the content ready to be read. -/
def plug (m : Member) : Action σ Plugged := do
  let range ← m.dataRange source
  match range.header.method.stage? with
  | some stage =>
    let view := View.new source.size range.start range.stop
    return ⟨m.path, range.uncompressedSize, .new stage view⟩
  | none => Action.raise source (.unsupportedMethod m.name range.header.method)

end Member
end ZipArchive
