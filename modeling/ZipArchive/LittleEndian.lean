/-!
# Little-endian numbers

Every number in an archive record is stored with its least significant byte first.
`toNat` reads such a number, `ofNat` writes one of a given width, and the two are inverse to each
other (`toNat_ofNat`, `ofNat_toNat`).
-/
namespace ZipArchive.LittleEndian

/-- The number whose bytes are given, least significant first. -/
def toNat : List UInt8 → Nat
  | [] => 0
  | b :: rest => b.toNat + 256 * toNat rest

/-- The lowest `width` bytes of `n`, least significant first. -/
def ofNat : (width : Nat) → Nat → List UInt8
  | 0, _ => []
  | width + 1, n => UInt8.ofNat n :: ofNat width (n / 256)

/-- How many numbers fit into a width in bytes. -/
def capacity : (width : Nat) → Nat
  | 0 => 1
  | width + 1 => 256 * capacity width

theorem length_ofNat (width n : Nat) : (ofNat width n).length = width := by
  induction width generalizing n with
  | zero => rfl
  | succ width ih => simp [ofNat, ih]

theorem toNat_lt (bytes : List UInt8) : toNat bytes < capacity bytes.length := by
  induction bytes with
  | nil => exact Nat.one_pos
  | cons b rest ih =>
    have := b.toNat_lt
    simp only [toNat, List.length_cons, capacity]
    omega

theorem toNat_ofNat (width n : Nat) : toNat (ofNat width n) = n % capacity width := by
  induction width generalizing n with
  | zero => rw [ofNat, toNat, capacity, Nat.mod_one]
  | succ width ih => rw [ofNat, toNat, ih, UInt8.toNat_ofNat', capacity, Nat.mod_mul]

theorem ofNat_toNat (bytes : List UInt8) : ofNat bytes.length (toNat bytes) = bytes := by
  induction bytes with
  | nil => rfl
  | cons b rest ih =>
    have hb := b.toNat_lt
    have hd : (b.toNat + 256 * toNat rest) / 256 = toNat rest := by omega
    have hm : UInt8.ofNat (b.toNat + 256 * toNat rest) = b := by
      apply UInt8.toNat_inj.mp
      rw [UInt8.toNat_ofNat']
      omega
    simp only [List.length_cons, ofNat, toNat, hd, hm, ih]

def toUInt16 (bytes : List UInt8) : UInt16 := UInt16.ofNat (toNat bytes)

def toUInt32 (bytes : List UInt8) : UInt32 := UInt32.ofNat (toNat bytes)

def toUInt64 (bytes : List UInt8) : UInt64 := UInt64.ofNat (toNat bytes)

def ofUInt16 (n : UInt16) : List UInt8 := ofNat 2 n.toNat

def ofUInt32 (n : UInt32) : List UInt8 := ofNat 4 n.toNat

def ofUInt64 (n : UInt64) : List UInt8 := ofNat 8 n.toNat

theorem toUInt16_ofUInt16 (n : UInt16) : toUInt16 (ofUInt16 n) = n := by
  have := n.toNat_lt
  have inside : n.toNat < capacity 2 := by simp only [capacity]; omega
  rw [toUInt16, ofUInt16, toNat_ofNat, Nat.mod_eq_of_lt inside, UInt16.ofNat_toNat]

theorem toUInt32_ofUInt32 (n : UInt32) : toUInt32 (ofUInt32 n) = n := by
  have := n.toNat_lt
  have inside : n.toNat < capacity 4 := by simp only [capacity]; omega
  rw [toUInt32, ofUInt32, toNat_ofNat, Nat.mod_eq_of_lt inside, UInt32.ofNat_toNat]

theorem toUInt64_ofUInt64 (n : UInt64) : toUInt64 (ofUInt64 n) = n := by
  have := n.toNat_lt
  have inside : n.toNat < capacity 8 := by simp only [capacity]; omega
  rw [toUInt64, ofUInt64, toNat_ofNat, Nat.mod_eq_of_lt inside, UInt64.ofNat_toNat]

theorem ofUInt16_toUInt16 {bytes : List UInt8} (whole : bytes.length = 2) :
    ofUInt16 (toUInt16 bytes) = bytes := by
  have inside := toNat_lt bytes
  simp only [whole, capacity] at inside
  rw [toUInt16, ofUInt16, UInt16.toNat_ofNat', Nat.mod_eq_of_lt (by omega), ← whole, ofNat_toNat]

theorem ofUInt32_toUInt32 {bytes : List UInt8} (whole : bytes.length = 4) :
    ofUInt32 (toUInt32 bytes) = bytes := by
  have inside := toNat_lt bytes
  simp only [whole, capacity] at inside
  rw [toUInt32, ofUInt32, UInt32.toNat_ofNat', Nat.mod_eq_of_lt (by omega), ← whole, ofNat_toNat]

theorem ofUInt64_toUInt64 {bytes : List UInt8} (whole : bytes.length = 8) :
    ofUInt64 (toUInt64 bytes) = bytes := by
  have inside := toNat_lt bytes
  simp only [whole, capacity] at inside
  rw [toUInt64, ofUInt64, UInt64.toNat_ofNat', Nat.mod_eq_of_lt (by omega), ← whole, ofNat_toNat]

end ZipArchive.LittleEndian
