import ZipArchive.Proofs.CentralHeaders

/-!
# Writing entries

An entry is written twice: in front of its payload with a local header, and in the directory with a
central one. In the wide form every size and offset stands in an extra record and its slot defers to
it. Both headers are read back as what was written (`Entry.parse_localHeader`,
`Entry.parse_centralHeader`).
-/
namespace ZipArchive

open LittleEndian

/-! ## Numbers in slots -/

/-- Sizes and offsets that a file can have keep their value in 64 bits. -/
theorem toNat_ofNat_of_small {n : Nat} (small : n < fileOffsetLimit) : (UInt64.ofNat n).toNat = n :=
  UInt64.toNat_ofNat_of_lt' (Nat.lt_trans small (by decide))

namespace Extent

/-- What is written into the slot of a number. -/
def slotOf (isWide : Bool) (n : UInt64) : UInt32 := if isWide then deferred else n.toUInt32

/-- What such a slot is read as. -/
def ofSlot (isWide : Bool) (n : UInt64) : Extent :=
  if isWide then .extended n else .classic n.toUInt32

/-- A number that is not written in the wide form is less than the slot that defers. -/
def Fits (isWide : Bool) (n : UInt64) : Prop := isWide = false → n.toNat < deferred.toNat

instance (isWide : Bool) (n : UInt64) : Decidable (Fits isWide n) := by
  unfold Fits
  infer_instance

variable {isWide : Bool} {n : UInt64}

theorem toNat_classic (fits : Fits false n) : n.toUInt32.toNat = n.toNat := by
  have small : n.toNat < 0xffffffff := fits rfl
  rw [UInt64.toNat_toUInt32]
  omega

theorem slotOf_ne_deferred (fits : Fits false n) : n.toUInt32 ≠ deferred := by
  have small := fits rfl
  intro same
  rw [← same, toNat_classic fits] at small
  omega

theorem resolve_slotOf {wide : Option UInt64} (fits : Fits isWide n)
    (given : isWide = true → wide = some n) :
    resolve (slotOf isWide n) wide = some (ofSlot isWide n) := by
  cases isWide with
  | true =>
    rw [given rfl]
    rfl
  | false => exact if_neg (slotOf_ne_deferred fits)

theorem slot_ofSlot (isWide : Bool) (n : UInt64) : (ofSlot isWide n).slot = slotOf isWide n := by
  cases isWide <;> rfl

theorem tellable_ofSlot (fits : Fits isWide n) : (ofSlot isWide n).Tellable := by
  cases isWide with
  | true => exact nofun
  | false => exact fun same => slotOf_ne_deferred fits (Extent.classic.inj same)

theorem value_ofSlot (fits : Fits isWide n) : (ofSlot isWide n).value = n := by
  cases isWide with
  | true => rfl
  | false =>
    apply UInt64.toNat_inj.mp
    change n.toUInt32.toUInt64.toNat = n.toNat
    rw [UInt32.toNat_toUInt64, toNat_classic fits]

end Extent

namespace Extra

/-- The extra record that holds the given numbers. -/
def wideRecord (numbers : List UInt64) : List UInt8 :=
  ofUInt16 wideTag ++ ofUInt16 (.ofNat (8 * numbers.length)) ++ numbers.flatMap ofUInt64

theorem length_flatMap_ofUInt64 (numbers : List UInt64) :
    (numbers.flatMap ofUInt64).length = 8 * numbers.length := by
  induction numbers with
  | nil => rfl
  | cons n rest ih =>
    rw [List.flatMap_cons, List.length_append, length_ofUInt64, ih, List.length_cons]
    omega

theorem length_wideRecord (numbers : List UInt64) :
    (wideRecord numbers).length = 4 + 8 * numbers.length := by
  simp only [wideRecord, List.length_append, length_ofUInt16, length_flatMap_ofUInt64]

/-- The sizes are found in a local header's record. -/
theorem find_sizes (u c : UInt64) (rest : List UInt8) :
    find ⟨true, true, false, false⟩ (wideRecord [u, c] ++ rest) = ⟨some u, some c, none, none⟩ := by
  have record : (Found.record ⟨some u, some c, none, none⟩).bytes = wideRecord [u, c] := rfl
  rw [← record]
  exact find_carries (.inr ⟨[], rest, nofun, rfl⟩)

end Extra

/-! ## Entries -/

/-- What is written about a member and as its content. -/
structure Entry where
  name : List UInt8
  /-- The content as its method stores it. -/
  payload : List UInt8
  /-- The size of the content before it was encoded. -/
  plainSize : UInt64
  crc32 : UInt32
  method : UInt16
  /-- Extra records that only the local header has. -/
  localExtra : List UInt8
  comment : List UInt8
  /-- Whether checksum and sizes follow the payload. The local header has zeros for them then. -/
  hasDescriptor : Bool
  deriving DecidableEq, Repr

namespace Entry

def version : UInt16 := 45

def versionMadeBy : UInt16 := 0x031e

/-- Noon. -/
def time : UInt16 := 0x6000

/-- The first of September 2017. -/
def date : UInt16 := 0x4b21

/-- A regular file that its owner may write. -/
def externalAttributes : UInt32 := 0x81a40000

def descriptorSignature : UInt32 := 0x08074b50

variable (isWide : Bool) (e : Entry)

def storedSize : UInt64 := .ofNat e.payload.length

def flags : UInt16 := if e.hasDescriptor then descriptorFlag else 0

/-- The slot of a size in the local header. -/
def localSlot (size : UInt64) : UInt32 :=
  if e.hasDescriptor then 0 else Extent.slotOf isWide size

/-- What that slot is read as. -/
def localExtent (size : UInt64) : Extent :=
  if e.hasDescriptor then .classic 0 else .ofSlot isWide size

/-- The extra area of the local header. -/
def localArea : List UInt8 :=
  (if isWide && !e.hasDescriptor then Extra.wideRecord [e.plainSize, e.storedSize] else []) ++
    e.localExtra

def localFixed : LocalHeader.Fixed where
  flags := e.flags
  method := e.method
  compressedSize := e.localSlot isWide e.storedSize
  uncompressedSize := e.localSlot isWide e.plainSize
  nameLength := .ofNat e.name.length
  extraLength := .ofNat (e.localArea isWide).length

/-- Time, date and checksum of the local header. -/
def moment : List UInt8 :=
  ofUInt16 time ++ ofUInt16 date ++ ofUInt32 (if e.hasDescriptor then 0 else e.crc32)

def localHeader : List UInt8 :=
  LocalHeader.written (e.localFixed isWide) (ofUInt16 version) e.moment e.name (e.localArea isWide)

/-- What follows the payload. -/
def descriptor : List UInt8 :=
  if e.hasDescriptor then
    ofUInt32 descriptorSignature ++ ofUInt32 e.crc32 ++ ofUInt32 e.storedSize.toUInt32 ++
      ofUInt32 e.plainSize.toUInt32
  else []

/-- The member as it stands in front of the directory. -/
def written : List UInt8 := e.localHeader isWide ++ (e.payload ++ e.descriptor)

/-- The extra area of the central header, for a member whose local header stands at `offset`. -/
def centralArea (offset : Nat) : List UInt8 :=
  if isWide then Extra.wideRecord [e.plainSize, e.storedSize, .ofNat offset] else []

def centralFixed (offset : Nat) : CentralHeader.Fixed where
  versionMadeBy := versionMadeBy
  versionNeeded := version
  flags := e.flags
  method := e.method
  time := time
  date := date
  crc32 := e.crc32
  compressedSize := Extent.slotOf isWide e.storedSize
  uncompressedSize := Extent.slotOf isWide e.plainSize
  nameLength := .ofNat e.name.length
  extraLength := .ofNat (e.centralArea isWide offset).length
  commentLength := .ofNat e.comment.length
  disk := 0
  internalAttributes := 0
  externalAttributes := externalAttributes
  headerOffset := Extent.slotOf isWide (.ofNat offset)

def centralHeader (offset : Nat) : List UInt8 :=
  CentralHeader.written (e.centralFixed isWide offset) e.name (e.centralArea isWide offset)
    e.comment

/-- What the local header is read as. -/
def localRead : LocalHeader where
  flags := e.flags
  method := .ofTag e.method
  compressedSize := e.localExtent isWide e.storedSize
  uncompressedSize := e.localExtent isWide e.plainSize
  nameLength := .ofNat e.name.length
  extraLength := .ofNat (e.localArea isWide).length

/-- What the central header is read as. -/
def centralRead (offset : Nat) : CentralHeader where
  versionMadeBy := versionMadeBy
  versionNeeded := version
  flags := e.flags
  method := .ofTag e.method
  time := time
  date := date
  crc32 := e.crc32
  compressedSize := .ofSlot isWide e.storedSize
  uncompressedSize := .ofSlot isWide e.plainSize
  name := e.name
  disk := .classic 0
  internalAttributes := 0
  externalAttributes := externalAttributes
  headerOffset := .ofSlot isWide (.ofNat offset)

/-- An entry keeps to the widths of the fields that it is written in. -/
structure Fits : Prop where
  name : e.name.length < 65536
  localArea : (e.localArea isWide).length < 65536
  comment : e.comment.length < 65536
  plainSize : Extent.Fits isWide e.plainSize
  storedSize : Extent.Fits isWide e.storedSize

instance : Decidable (e.Fits isWide) :=
  decidable_of_iff (e.name.length < 65536 ∧ (e.localArea isWide).length < 65536 ∧
      e.comment.length < 65536 ∧ Extent.Fits isWide e.plainSize ∧ Extent.Fits isWide e.storedSize)
    ⟨fun ⟨name, localArea, comment, plainSize, storedSize⟩ =>
      ⟨name, localArea, comment, plainSize, storedSize⟩,
     fun fits => ⟨fits.name, fits.localArea, fits.comment, fits.plainSize, fits.storedSize⟩⟩

variable {isWide e} {label record : String}

theorem toNat_length {l : List UInt8} (short : l.length < 65536) :
    l.length = (UInt16.ofNat l.length).toNat := by
  rw [UInt16.toNat_ofNat', Nat.mod_eq_of_lt short]

theorem length_moment : e.moment.length = 8 := by
  simp only [moment, List.length_append, length_ofUInt16, length_ofUInt32]

/-! ## The local header -/

theorem find_localArea (inFront : e.hasDescriptor = false) (wide : isWide = true) :
    Extra.find (e.localFixed isWide).wanted (e.localArea isWide) =
      ⟨some e.plainSize, some e.storedSize, none, none⟩ := by
  subst wide
  have wanted : (e.localFixed true).wanted = ⟨true, true, false, false⟩ := by
    simp [localFixed, LocalHeader.Fixed.wanted, localSlot, inFront, Extent.slotOf]
  have area : e.localArea true = Extra.wideRecord [e.plainSize, e.storedSize] ++ e.localExtra := by
    simp [localArea, inFront]
  rw [wanted, area, Extra.find_sizes]

theorem resolve_localSlot {n : UInt64} (fits : Extent.Fits isWide n) {wide : Option UInt64}
    (given : e.hasDescriptor = false → isWide = true → wide = some n) :
    Extent.resolve (e.localSlot isWide n) wide = some (e.localExtent isWide n) := by
  unfold localSlot localExtent
  cases descriptor : e.hasDescriptor with
  | true => rfl
  | false => exact Extent.resolve_slotOf fits (given descriptor)

theorem resolve_localFixed (fits : e.Fits isWide) :
    LocalHeader.resolve (e.localFixed isWide) (e.localArea isWide) = .done (e.localRead isWide) := by
  have compressed := resolve_localSlot fits.storedSize fun inFront wide =>
    congrArg Extra.Found.compressedSize (find_localArea inFront wide)
  have uncompressed := resolve_localSlot fits.plainSize fun inFront wide =>
    congrArg Extra.Found.uncompressedSize (find_localArea inFront wide)
  unfold LocalHeader.resolve
  dsimp only
  rw [localFixed] at compressed uncompressed ⊢
  rw [LocalHeader.resolveSize_some compressed, LocalHeader.resolveSize_some uncompressed]
  rfl

/-- A local header is read back, whatever stands behind it. -/
theorem parse_localHeader (fits : e.Fits isWide) (rest : List UInt8) :
    LocalHeader.layout.parse label record (e.localHeader isWide ++ rest) =
      (.ok (e.localRead isWide), rest) := by
  rw [localHeader, LocalHeader.parse_written (length_ofUInt16 _) length_moment
    (toNat_length fits.name) (toNat_length fits.localArea), resolve_localFixed fits,
    Layout.parse_done]

theorem length_localRead (fits : e.Fits isWide) :
    (e.localRead isWide).length = (e.localHeader isWide).length := by
  rw [localHeader, LocalHeader.length_written _ (length_ofUInt16 _) length_moment,
    LocalHeader.length, localRead, ← toNat_length fits.name, ← toNat_length fits.localArea,
    Nat.add_assoc]

/-! ## The central header -/

theorem centralHeader_eq (isWide : Bool) (e : Entry) (offset : Nat) :
    e.centralHeader isWide offset =
      (e.centralRead isWide offset).encode (e.centralArea isWide offset) e.comment := by
  have fixed : e.centralFixed isWide offset =
      (e.centralRead isWide offset).fixedFor (e.centralArea isWide offset) e.comment := by
    simp only [centralFixed, centralRead, CentralHeader.fixedFor, Extent.slot_ofSlot,
      CompressionMethod.tag_ofTag]
    rfl
  rw [centralHeader, CentralHeader.encode, fixed]
  rfl

theorem storable_centralRead (fits : e.Fits isWide) {offset : Nat}
    (offset_fits : Extent.Fits isWide (.ofNat offset)) : (e.centralRead isWide offset).Storable where
  method := ⟨e.method, rfl⟩
  compressedSize := Extent.tellable_ofSlot fits.storedSize
  uncompressedSize := Extent.tellable_ofSlot fits.plainSize
  headerOffset := Extent.tellable_ofSlot offset_fits
  disk := nofun
  name := fits.name

theorem centralArea_carries (isWide : Bool) (e : Entry) (offset : Nat) :
    Extra.Carries (e.centralArea isWide offset) (e.centralRead isWide offset).wideNumbers := by
  cases isWide with
  | false => exact .inl rfl
  | true => exact .inr ⟨[], [], nofun, (List.append_nil _).symm⟩

/-- A central header is read back, whatever stands behind it. -/
theorem parse_centralHeader (fits : e.Fits isWide) {offset : Nat}
    (offset_fits : Extent.Fits isWide (.ofNat offset)) (rest : List UInt8) :
    CentralHeader.layout.parse label record (e.centralHeader isWide offset ++ rest) =
      (.ok (e.centralRead isWide offset), rest) := by
  have area : (e.centralArea isWide offset).length < 65536 := by
    unfold centralArea
    split
    · rw [Extra.length_wideRecord]
      simp
    · simp
  rw [centralHeader_eq]
  exact CentralHeader.parse_encode (storable_centralRead fits offset_fits)
    (centralArea_carries isWide e offset) area fits.comment rest

end Entry
end ZipArchive
