import ZipArchive.Decode.Bits

/-!
# Checksums

The 32-bit cyclic redundancy check, in both bit orders. Zip archives take the lowest bit of a byte
first, bzip2 blocks the highest.
-/
namespace ZipArchive.Checksum

/-- Moves the register on by one bit. -/
def shift (order : BitOrder) (register : UInt32) : UInt32 :=
  match order with
  | .lowFirst => if register &&& 1 = 0 then register >>> 1 else register >>> 1 ^^^ 0xedb88320
  | .highFirst =>
    if register &&& 0x80000000 = 0 then register <<< 1 else register <<< 1 ^^^ 0x04c11db7

def shifts (order : BitOrder) : (count : Nat) → UInt32 → UInt32
  | 0, register => register
  | count + 1, register => shifts order count (shift order register)

/-- Moves the register on by one byte. -/
def feed (order : BitOrder) (register : UInt32) (byte : UInt8) : UInt32 :=
  match order with
  | .lowFirst => shifts order 8 (register ^^^ byte.toUInt32)
  | .highFirst => shifts order 8 (register ^^^ byte.toUInt32 <<< 24)

/-- The checksum of some bytes. -/
def crc32 (order : BitOrder) (bytes : ByteArray) : UInt32 :=
  bytes.foldl (feed order) 0xffffffff ^^^ 0xffffffff

end ZipArchive.Checksum
