/-!
# Numbers with a wide form

Sizes and offsets have a 32-bit slot in a header, disk numbers a 16-bit one. A slot that is all ones
defers to a wider number in an extra record.
-/
namespace ZipArchive

/-- A size or an offset, as stored in its slot or in the extra record the slot defers to. -/
inductive Extent where
  | classic (value : UInt32)
  | extended (value : UInt64)
  deriving DecidableEq, Repr

namespace Extent

/-- The slot that defers to the extra record. -/
def deferred : UInt32 := 0xffffffff

/-- The number meant by a slot, given what the extra record holds for it. -/
def resolve (slot : UInt32) (wide : Option UInt64) : Option Extent :=
  if slot = deferred then wide.map .extended else some (.classic slot)

def value : Extent → UInt64
  | .classic value => value.toUInt64
  | .extended value => value

def isExtended : Extent → Bool
  | .classic _ => false
  | .extended _ => true

end Extent

/-- The disk a member starts on. -/
inductive DiskNumber where
  | classic (value : UInt16)
  | extended (value : UInt32)
  deriving DecidableEq, Repr

namespace DiskNumber

/-- The slot that defers to the extra record. -/
def deferred : UInt16 := 0xffff

/-- The disk meant by a slot, given what the extra record holds for it. -/
def resolve (slot : UInt16) (wide : Option UInt32) : Option DiskNumber :=
  if slot = deferred then wide.map .extended else some (.classic slot)

def value : DiskNumber → UInt32
  | .classic value => value.toUInt32
  | .extended value => value

end DiskNumber
end ZipArchive
