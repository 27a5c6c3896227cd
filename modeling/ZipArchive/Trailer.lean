import ZipArchive.Action
import ZipArchive.Record.CentralHeader
import ZipArchive.Record.Trailer

/-!
# Finding the end of the central directory

An archive is read from its end. The last bytes are searched, from the end, for the signature of the
classic end record. A match is only a candidate, since a comment may hold the same four bytes: the
last candidate that is consistent with its surroundings is taken. When a field of it is all ones,
the locator in front of it leads to the wide end record, whose values count instead.
-/
namespace ZipArchive

/-- The end record that was found. -/
structure Trailer where
  /-- The values that count. -/
  directory : DirectoryEnd
  /-- The offset of the classic end record. -/
  offset : Nat
  /-- Whether the values come from the wide end record. -/
  isWide : Bool
  deriving DecidableEq, Repr

namespace Trailer

/-- The byte at an index, zero behind the end. -/
def byteAt (block : ByteArray) (i : Nat) : UInt8 := if h : i < block.size then block[i] else 0

/-- The four bytes at an index as a number. -/
def wordAt (block : ByteArray) (i : Nat) : UInt32 :=
  LittleEndian.toUInt32 [byteAt block i, byteAt block (i + 1), byteAt block (i + 2),
    byteAt block (i + 3)]

/-- The indices below `bound` where the signature of the end record stands, greatest first. -/
def matchesBelow (block : ByteArray) (bound : Nat) : List Nat :=
  bound.fold (fun i _ found =>
    if wordAt block i = ClassicEnd.signature then i :: found else found) []

/-- The indices in a block where an end record may start, greatest first. -/
def candidates (block : ByteArray) : List Nat :=
  matchesBelow block (block.size + 1 - ClassicEnd.length)

variable {σ : Type} (source : Source σ)

/-- Checks a record whose values are its own. -/
def checkClassic (offset : Nat) (record : ClassicEnd) : Option Rejection :=
  let directoryEnd := record.offset.toNat + record.size.toNat
  if offset < directoryEnd then some (.directoryBehindRecord directoryEnd)
  else if record.recordsTotal < record.recordsHere then some .tooManyRecordsHere
  else if record.size.toNat < record.recordsHere.toNat * CentralHeader.minLength then
    some .directoryTooSmall
  else none

/-- Checks a candidate. Only failed reads are errors; an inconsistent candidate is rejected. -/
def check (offset : Nat) (record : ClassicEnd) : Action σ (Option Rejection) := do
  let commentEnd ←
    Action.inRange source (addOffset? offset (ClassicEnd.length + record.commentLength.toNat))
  if source.size < commentEnd then return some (.commentBeyondEnd record.commentLength)
  if record.needsWide then
    match subOffset? offset WideLocator.length with
    | none => return some .noRoomForLocator
    | some locator =>
      let bytes ← Action.readExactAt source WideLocator.recordName locator 4
      let found := wordAt bytes 0
      if found = WideLocator.signature then return none else return some (.badLocator found)
  else return checkClassic offset record

/-- The offset and content of the first candidate that passes the check. The others are logged. When
none passes, the signature of the first bad locator is the error, if there was one. -/
def select (windowStart : Nat) (block : ByteArray) :
    (candidates : List Nat) → (badLocator : Option UInt32) → Action σ (Nat × ClassicEnd)
  | [], some found =>
    Action.raise source (.badSignature WideLocator.recordName WideLocator.signature found)
  | [], none => Action.raise source .missingTrailer
  | i :: rest, badLocator => do
    let offset := windowStart + i
    let record ← Action.ofExcept source
      (ClassicEnd.layout.parse source.label ClassicEnd.recordName
        (slice block i ClassicEnd.length).data.toList).1
    match ← check source offset record with
    | none => return (offset, record)
    | some reason =>
      Action.log (.candidateIgnored offset reason)
      let badLocator :=
        match badLocator, reason with
        | none, .badLocator found => some found
        | known, _ => known
      select windowStart block rest badLocator

/-- The offset and content of the last consistent classic end record. -/
def findClassic (tailWindow : Nat) : Action σ (Nat × ClassicEnd) := do
  let window := min source.size (max tailWindow ClassicEnd.length)
  let windowStart ← Action.inRange source (subOffset? source.size window)
  let block ← Action.readExactAt source "archive tail" windowStart window
  select source windowStart block (candidates block) none

/-- The wide end record that the locator in front of `offset` leads to. -/
def readWide (offset : Nat) : Action σ DirectoryEnd := do
  let locatorOffset ← Action.inRange source (subOffset? offset WideLocator.length)
  Action.log .readingLocator
  let (locator, _) ← Action.readRecord source WideLocator.recordName WideLocator.layout
    ⟨.new source.size locatorOffset offset, 0, .empty, 0⟩
  if 1 < locator.totalDisks then
    Action.raise source (.multiDisk (some locator.totalDisks))
  else if locatorOffset < min (locator.offset.toNat + DirectoryEnd.length) (offsetBound - 1) then
    Action.raise source (.corrupt (.endRecordOverlap locator.offset.toNat))
  else
    let (directory, _) ← Action.readRecord source DirectoryEnd.recordName DirectoryEnd.layout
      ⟨.new source.size locator.offset.toNat locatorOffset, 0, .empty, 0⟩
    return directory

/-- The directory lies within a source of the given size. -/
def fits (directory : DirectoryEnd) (size : Nat) : Bool :=
  match addOffset? directory.offset.toNat directory.size.toNat with
  | some directoryEnd => directoryEnd ≤ size
  | none => false

/-- Finds the end of the central directory in the last `tailWindow` bytes. -/
def locate (tailWindow : Nat) : Action σ Trailer := do
  let (offset, classic) ← findClassic source tailWindow
  Action.log .readingEndRecord
  let directory ← if classic.needsWide then readWide source offset else pure classic.widen
  if directory.thisDisk ≠ directory.startDisk ∨ directory.recordsHere ≠ directory.recordsTotal then
    Action.raise source (.multiDisk none)
  else if fits directory source.size then
    return ⟨directory, offset, classic.needsWide⟩
  else
    Action.raise source (.corrupt
      (.directoryBeyondEnd directory.offset.toNat directory.size.toNat source.size))

end Trailer
end ZipArchive
