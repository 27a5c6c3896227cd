import ZipArchive.Proofs.TrailerGuarantee
import ZipArchive.Proofs.Writing

/-!
# Whole archives as they are written

A draft is laid out from its entries: the members from the start on, then the directory, then in the
wide form the wide end record and its locator, and last the classic end record with the archive's
comment. The directory is read back as the members of the draft (`Draft.described_written`), and the
classic end record leads to it (`Draft.completed_written`).
-/
namespace ZipArchive

open LittleEndian

variable {content : ByteArray}

/-! ## Records that are written out -/

namespace Trailer

theorem wordAt_of_toList {before middle after : List UInt8} (long : 4 ≤ middle.length)
    (written : content.data.toList = before ++ (middle ++ after)) :
    wordAt content before.length = toUInt32 (Layout.field middle 0 4) := by
  have inside : before.length + 4 ≤ content.size := by
    rw [size_of_toList written, List.length_append, List.length_append]
    omega
  rw [wordAt_eq_span inside, span_eq, written, List.drop_left, Nat.add_sub_cancel_left,
    List.take_append_of_le_length long, Layout.field, List.drop_zero]

theorem recordAt_of_toList {before after : List UInt8} {record : ClassicEnd}
    (written : content.data.toList = before ++ (record.encode ++ after)) :
    recordAt content before.length = record := by
  have bytes := span_of_middle written
  rw [ClassicEnd.length_encode] at bytes
  rw [recordAt, bytes, ClassicEnd.ofBytes_encode]

theorem locatorAt_of_toList {before after : List UInt8} {locator : WideLocator}
    (written : content.data.toList = before ++ (locator.encode ++ after)) :
    locatorAt content before.length = locator := by
  have bytes := span_of_middle written
  rw [WideLocator.length_encode] at bytes
  rw [locatorAt, bytes, WideLocator.ofBytes_encode]

theorem wideEndAt_of_toList {before unused after : List UInt8} {directory : DirectoryEnd}
    (given : unused.length = 12)
    (written : content.data.toList = before ++ (directory.encode unused ++ after)) :
    wideEndAt content before.length = directory := by
  have bytes := span_of_middle written
  rw [directory.length_encode given] at bytes
  rw [wideEndAt, bytes, DirectoryEnd.ofBytes_encode _ given]

end Trailer

/-! ## Rows of entries -/

/-- The entries one after the other, as they stand in front of the directory. -/
def contentsOf (isWide : Bool) (entries : List Entry) : List UInt8 :=
  entries.flatMap (·.written isWide)

/-- The directory's headers for entries that are written from `offset` on. -/
def headersOf (isWide : Bool) : (entries : List Entry) → (offset : Nat) → List UInt8
  | [], _ => []
  | e :: rest, offset =>
    e.centralHeader isWide offset ++ headersOf isWide rest (offset + (e.written isWide).length)

/-- What the directory tells about an entry's content. -/
def Entry.info (e : Entry) : MemberInfo where
  method := .ofTag e.method
  flags := e.flags
  crc32 := e.crc32
  compressedSize := e.storedSize
  uncompressedSize := e.plainSize
  time := Entry.time
  date := Entry.date
  versionMadeBy := Entry.versionMadeBy
  externalAttributes := Entry.externalAttributes

/-- The member that an entry becomes, at its place in the directory and with its header's offset. -/
def Entry.member (e : Entry) (index offset : Nat) : Member := ⟨index, e.name, offset, e.info⟩

/-- The members that entries become when they are written from `offset` on. -/
def membersOf (isWide : Bool) (entries : List Entry) (index offset : Nat) : List Member :=
  entries.mapIdx fun i e =>
    e.member (index + i) (offset + (contentsOf isWide (entries.take i)).length)

variable {isWide : Bool}

theorem length_headersOf_ge (entries : List Entry) (offset : Nat) :
    CentralHeader.minLength * entries.length ≤ (headersOf isWide entries offset).length := by
  induction entries generalizing offset with
  | nil => exact Nat.le_refl 0
  | cons e rest ih =>
    have later := ih (offset + (e.written isWide).length)
    rw [headersOf, List.length_append, Entry.centralHeader, CentralHeader.length_written,
      List.length_cons, Nat.mul_succ]
    omega

theorem Extent.fits_ofNat {n : Nat} (small : isWide = false → n < 0xffffffff) :
    Extent.Fits isWide (.ofNat n) := by
  intro classic
  have inside := small classic
  rw [UInt64.toNat_ofNat', Nat.mod_eq_of_lt (by omega)]
  exact inside

theorem Entry.info_centralRead {e : Entry} (fits : e.Fits isWide) (offset : Nat) :
    (e.centralRead isWide offset).info = e.info := by
  unfold CentralHeader.info centralRead info
  dsimp only
  rw [Extent.value_ofSlot fits.storedSize, Extent.value_ofSlot fits.plainSize]

variable {σ : Type} {source : Source σ} {options : Options} {directory : DirectoryEnd}

theorem Entry.memberOf_centralRead {e : Entry} (fits : e.Fits isWide)
    (asStored : options.sanitizePaths = false)
    (oneDisk : directory.thisDisk = 0) {offset : Nat} (inside : offset < source.size)
    (size_lt : source.size < fileOffsetLimit) (small : isWide = false → offset < 0xffffffff)
    (index : Nat) :
    Directory.memberOf source options directory index (e.centralRead isWide offset) =
      .ok (e.member index offset) := by
  have sameDisk : ¬ (e.centralRead isWide offset).disk.value ≠ directory.thisDisk := by
    rw [oneDisk]
    exact fun other => other rfl
  have header : (e.centralRead isWide offset).headerOffset.value.toNat = offset := by
    rw [centralRead, Extent.value_ofSlot (Extent.fits_ofNat small),
      toNat_ofNat_of_small (Nat.lt_trans inside size_lt)]
  rw [Directory.memberOf, if_neg sameDisk, header, if_neg (Nat.not_le_of_lt inside), asStored,
    e.info_centralRead fits]
  rfl

theorem membersOf_cons (e : Entry) (rest : List Entry) (index offset : Nat) :
    membersOf isWide (e :: rest) index offset =
      e.member index offset ::
        membersOf isWide rest (index + 1) (offset + (e.written isWide).length) := by
  simp only [membersOf, List.mapIdx_cons, contentsOf, List.take_zero, List.take_succ_cons,
    List.flatMap_nil, List.flatMap_cons, List.length_nil, List.length_append, Nat.add_zero,
    Nat.add_assoc, Nat.add_comm 1]

/-- Headers are read back as the members of their entries, one after the other. -/
theorem listed_headersOf (asStored : options.sanitizePaths = false)
    (oneDisk : directory.thisDisk = 0) (size_lt : source.size < fileOffsetLimit)
    {entries : List Entry} (fits : ∀ e ∈ entries, e.Fits isWide) {offset : Nat}
    (inside : offset + (contentsOf isWide entries).length < source.size)
    (small : isWide = false → offset + (contentsOf isWide entries).length < 0xffffffff)
    (members : Array Member) :
    Directory.listed source options directory entries.length (headersOf isWide entries offset)
        members =
      .ok (members ++ (membersOf isWide entries members.size offset).toArray) := by
  induction entries generalizing offset members with
  | nil =>
    rw [List.length_nil, Directory.listed, membersOf, List.mapIdx_nil, Array.append_empty]
  | cons e rest ih =>
    have here := fits e List.mem_cons_self
    have length : (contentsOf isWide (e :: rest)).length =
        (e.written isWide).length + (contentsOf isWide rest).length := by
      rw [contentsOf, List.flatMap_cons, List.length_append, contentsOf]
    rw [length, ← Nat.add_assoc] at inside small
    have small_here : isWide = false → offset < 0xffffffff := fun classic => by
      have := small classic
      omega
    have described := e.memberOf_centralRead here asStored oneDisk
      (show offset < source.size by omega) size_lt small_here members.size
    have later := ih (fun e' member => fits e' (List.mem_cons_of_mem e member)) inside small
      (members.push (e.member members.size offset))
    rw [List.length_cons, headersOf, Directory.listed,
      e.parse_centralHeader here (Extent.fits_ofNat small_here)]
    dsimp only
    rw [described]
    dsimp only
    rw [later, membersOf_cons, List.toArray_cons, Array.size_push, Array.push_eq_append,
      Array.append_assoc]

/-! ## Drafts -/

/-- What is written as a whole archive. -/
structure Draft where
  /-- Whether sizes, offsets and counts are written in the wide form. -/
  isWide : Bool
  entries : List Entry
  comment : List UInt8
  deriving DecidableEq, Repr

namespace Draft

variable (d : Draft)

def contents : List UInt8 := contentsOf d.isWide d.entries

def headers : List UInt8 := headersOf d.isWide d.entries 0

/-- The values that the end records tell. -/
def directoryEnd : DirectoryEnd where
  thisDisk := 0
  startDisk := 0
  recordsHere := .ofNat d.entries.length
  recordsTotal := .ofNat d.entries.length
  size := .ofNat d.headers.length
  offset := .ofNat d.contents.length

/-- The wide end record's length behind these bytes, and its two versions. -/
def wideHead : List UInt8 := ofUInt64 44 ++ ofUInt16 Entry.version ++ ofUInt16 Entry.version

/-- The locator of the wide end record, which stands right behind the directory. -/
def locator : WideLocator where
  disk := 0
  offset := .ofNat (d.contents.length + d.headers.length)
  totalDisks := 1

/-- The wide end record and its locator. -/
def wideEnd : List UInt8 :=
  if d.isWide then d.directoryEnd.encode wideHead ++ d.locator.encode else []

def classicEnd : ClassicEnd where
  thisDisk := 0
  startDisk := 0
  recordsHere := if d.isWide then 0xffff else .ofNat d.entries.length
  recordsTotal := if d.isWide then 0xffff else .ofNat d.entries.length
  size := if d.isWide then 0xffffffff else .ofNat d.headers.length
  offset := if d.isWide then 0xffffffff else .ofNat d.contents.length
  commentLength := .ofNat d.comment.length

/-- The archive, byte by byte. -/
def bytes : List UInt8 :=
  d.contents ++ (d.headers ++ (d.wideEnd ++ (d.classicEnd.encode ++ d.comment)))

/-- The offset of the classic end record. -/
def trailerOffset : Nat := d.contents.length + d.headers.length + d.wideEnd.length

def trailer : Trailer := ⟨d.directoryEnd, d.trailerOffset, d.isWide⟩

/-- The members of the archive, in order. -/
def members : List Member := membersOf d.isWide d.entries 0 0

/-- Everything keeps to the width of the field that it is written in. -/
structure Fits : Prop where
  entries : ∀ e ∈ d.entries, e.Fits d.isWide
  comment : d.comment.length < 65536
  count : d.isWide = false → d.entries.length < 0xffff
  offset : d.isWide = false → d.contents.length < 0xffffffff
  size : d.isWide = false → d.headers.length < 0xffffffff

instance : Decidable d.Fits :=
  decidable_of_iff ((∀ e ∈ d.entries, e.Fits d.isWide) ∧ d.comment.length < 65536 ∧
      (d.isWide = false → d.entries.length < 0xffff) ∧
      (d.isWide = false → d.contents.length < 0xffffffff) ∧
      (d.isWide = false → d.headers.length < 0xffffffff))
    ⟨fun ⟨entries, comment, count, offset, size⟩ => ⟨entries, comment, count, offset, size⟩,
     fun fits => ⟨fits.entries, fits.comment, fits.count, fits.offset, fits.size⟩⟩

variable {d}

theorem length_wideHead : wideHead.length = 12 := by
  simp only [wideHead, List.length_append, length_ofUInt16, length_ofUInt64]

theorem size_written (written : content.data.toList = d.bytes) :
    content.size = d.trailerOffset + ClassicEnd.length + d.comment.length := by
  rw [size_of_toList written]
  simp only [bytes, trailerOffset, List.length_append, ClassicEnd.length_encode]
  omega

/-- The archive from its classic end record on. -/
theorem toList_trailer (written : content.data.toList = d.bytes) :
    content.data.toList =
      (d.contents ++ (d.headers ++ d.wideEnd)) ++ (d.classicEnd.encode ++ d.comment) := by
  rw [written, bytes]
  simp only [List.append_assoc]

theorem length_before_trailer :
    (d.contents ++ (d.headers ++ d.wideEnd)).length = d.trailerOffset := by
  simp only [List.length_append, trailerOffset]
  omega

theorem recordAt_trailerOffset (written : content.data.toList = d.bytes) :
    Trailer.recordAt content d.trailerOffset = d.classicEnd := by
  rw [← length_before_trailer]
  exact Trailer.recordAt_of_toList (toList_trailer written)

theorem wordAt_trailerOffset (written : content.data.toList = d.bytes) :
    Trailer.wordAt content d.trailerOffset = ClassicEnd.signature := by
  have long : 4 ≤ d.classicEnd.encode.length := by
    rw [ClassicEnd.length_encode]
    decide
  rw [← length_before_trailer, Trailer.wordAt_of_toList long (toList_trailer written),
    ClassicEnd.signature_encode]

/-! ## The values of a draft -/

section Values

variable (written : content.data.toList = d.bytes) (size_lt : content.size < fileOffsetLimit)

include written size_lt

theorem directory_lt : d.contents.length + d.headers.length < fileOffsetLimit := by
  have size := size_written written
  unfold trailerOffset at size
  omega

theorem toNat_offset : d.directoryEnd.offset.toNat = d.contents.length := by
  have small := directory_lt written size_lt
  exact toNat_ofNat_of_small (by omega)

theorem toNat_size : d.directoryEnd.size.toNat = d.headers.length := by
  have small := directory_lt written size_lt
  exact toNat_ofNat_of_small (by omega)

theorem toNat_recordsHere : d.directoryEnd.recordsHere.toNat = d.entries.length := by
  have small := directory_lt written size_lt
  have room : CentralHeader.minLength * d.entries.length ≤ d.headers.length :=
    length_headersOf_ge d.entries 0
  unfold CentralHeader.minLength at room
  exact toNat_ofNat_of_small (by omega)

theorem fits_directoryEnd : Trailer.fits d.directoryEnd content.size = true := by
  have small := directory_lt written size_lt
  have size := size_written written
  unfold trailerOffset at size
  unfold fileOffsetLimit at small
  rw [Trailer.fits_iff, toNat_offset written size_lt, toNat_size written size_lt, offsetBound]
  omega

/-- The values that count are taken whichever record they come from. -/
theorem checked_written :
    Trailer.checked content.size d.trailerOffset d.isWide d.directoryEnd = .ok d.trailer := by
  have one_disk : ¬ (d.directoryEnd.thisDisk ≠ d.directoryEnd.startDisk ∨
      d.directoryEnd.recordsHere ≠ d.directoryEnd.recordsTotal) := by
    rintro (other | other)
    · exact other rfl
    · exact other rfl
  rw [Trailer.checked, if_neg one_disk, if_pos (fits_directoryEnd written size_lt), trailer]

end Values

/-! ## The wide records of a draft -/

theorem length_wideEnd (wide : d.isWide = true) :
    d.wideEnd.length = DirectoryEnd.length + WideLocator.length := by
  rw [wideEnd, if_pos wide, List.length_append, DirectoryEnd.length_encode _ length_wideHead,
    WideLocator.length_encode]

theorem toList_wideEnd (wide : d.isWide = true) (written : content.data.toList = d.bytes) :
    content.data.toList = (d.contents ++ d.headers) ++ (d.directoryEnd.encode wideHead ++
      (d.locator.encode ++ (d.classicEnd.encode ++ d.comment))) := by
  rw [written, bytes, wideEnd, if_pos wide]
  simp only [List.append_assoc]

theorem toList_locator (wide : d.isWide = true) (written : content.data.toList = d.bytes) :
    content.data.toList = (d.contents ++ d.headers ++ d.directoryEnd.encode wideHead) ++
      (d.locator.encode ++ (d.classicEnd.encode ++ d.comment)) := by
  rw [toList_wideEnd wide written, List.append_assoc (d.contents ++ d.headers)]

theorem length_before_locator (wide : d.isWide = true) :
    (d.contents ++ d.headers ++ d.directoryEnd.encode wideHead).length =
      d.trailerOffset - WideLocator.length := by
  rw [trailerOffset, length_wideEnd wide, List.length_append, List.length_append,
    DirectoryEnd.length_encode _ length_wideHead]
  omega

theorem wordAt_locator (wide : d.isWide = true) (written : content.data.toList = d.bytes) :
    Trailer.wordAt content (d.trailerOffset - WideLocator.length) = WideLocator.signature := by
  have long : 4 ≤ d.locator.encode.length := by
    rw [WideLocator.length_encode]
    decide
  rw [← length_before_locator wide, Trailer.wordAt_of_toList long (toList_locator wide written),
    WideLocator.signature_encode]

/-- The locator leads to the wide end record, which has the values of the draft. -/
theorem wideValues_written (wide : d.isWide = true) (written : content.data.toList = d.bytes)
    (size_lt : content.size < fileOffsetLimit) :
    Trailer.wideValues content d.trailerOffset = .ok d.directoryEnd := by
  have located : Trailer.locatorAt content (d.trailerOffset - WideLocator.length) = d.locator := by
    rw [← length_before_locator wide]
    exact Trailer.locatorAt_of_toList (toList_locator wide written)
  have target : d.locator.offset.toNat = (d.contents ++ d.headers).length := by
    rw [List.length_append]
    exact toNat_ofNat_of_small (directory_lt written size_lt)
  have one_disk : ¬ 1 < d.locator.totalDisks := by
    dsimp only [locator]
    decide
  have in_front : ¬ d.trailerOffset - WideLocator.length <
      (d.contents ++ d.headers).length + DirectoryEnd.length := by
    rw [← length_before_locator wide, List.length_append,
      DirectoryEnd.length_encode _ length_wideHead]
    exact Nat.lt_irrefl _
  have long : 4 ≤ (d.directoryEnd.encode wideHead).length := by
    rw [DirectoryEnd.length_encode _ length_wideHead]
    decide
  have signed := Trailer.wordAt_of_toList long (toList_wideEnd wide written)
  have values := Trailer.wideEndAt_of_toList length_wideHead (toList_wideEnd wide written)
  rw [DirectoryEnd.signature_encode] at signed
  unfold Trailer.wideValues
  dsimp only
  rw [located, if_neg one_disk, target, if_neg in_front, if_pos signed, values]

/-! ## The classic record of a draft -/

theorem needsWide_classicEnd (fits : d.Fits) : d.classicEnd.needsWide = d.isWide := by
  cases wide : d.isWide with
  | true =>
    simp [ClassicEnd.needsWide, classicEnd, wide]
  | false =>
    have count := fits.count wide
    have offset := fits.offset wide
    have size := fits.size wide
    have some_count : UInt16.ofNat d.entries.length ≠ 0xffff := by
      intro same
      have numbers := congrArg UInt16.toNat same
      rw [UInt16.toNat_ofNat_of_lt' (by unfold UInt16.size; omega)] at numbers
      exact Nat.ne_of_lt count numbers
    have some_number : ∀ n < 0xffffffff, UInt32.ofNat n ≠ 0xffffffff := by
      intro n small same
      have numbers := congrArg UInt32.toNat same
      rw [UInt32.toNat_ofNat_of_lt' (by unfold UInt32.size; omega)] at numbers
      exact Nat.ne_of_lt small numbers
    rw [ClassicEnd.needsWide_eq_false]
    simp only [classicEnd, wide, Bool.false_eq_true, if_false]
    exact ⟨by decide, by decide, some_count, some_count, some_number _ size, some_number _ offset⟩

theorem widen_classicEnd (classic : d.isWide = false) (fits : d.Fits) :
    d.classicEnd.widen = d.directoryEnd := by
  have count := fits.count classic
  have offset := fits.offset classic
  have size := fits.size classic
  have some_count : (UInt16.ofNat d.entries.length).toUInt64 = .ofNat d.entries.length :=
    UInt16.toUInt64_ofNat' (by unfold UInt16.size; omega)
  have some_number : ∀ n < 0xffffffff, (UInt32.ofNat n).toUInt64 = .ofNat n := fun n small =>
    UInt32.toUInt64_ofNat' (by unfold UInt32.size; omega)
  simp only [ClassicEnd.widen, classicEnd, classic, Bool.false_eq_true, if_false, some_count,
    some_number _ size, some_number _ offset, directoryEnd]
  rfl

theorem consistent_written (fits : d.Fits) (written : content.data.toList = d.bytes) :
    Trailer.Consistent content d.trailerOffset := by
  have size := size_written written
  have comment : d.classicEnd.commentLength.toNat = d.comment.length :=
    UInt16.toNat_ofNat_of_lt' fits.comment
  unfold Trailer.Consistent
  rw [recordAt_trailerOffset written]
  dsimp only
  constructor
  · exact Nat.le_of_eq (by rw [comment, size])
  cases wide : d.isWide with
  | true =>
    have length := length_wideEnd wide
    rw [needsWide_classicEnd fits, wide, if_pos rfl]
    constructor
    · unfold trailerOffset
      omega
    · exact wordAt_locator wide written
  | false =>
    have count := fits.count wide
    have room := @length_headersOf_ge d.isWide d.entries 0
    have offset : d.classicEnd.offset.toNat = d.contents.length := by
      have small := fits.offset wide
      simp only [classicEnd, wide, Bool.false_eq_true, if_false]
      exact UInt32.toNat_ofNat_of_lt' (by unfold UInt32.size; omega)
    have size : d.classicEnd.size.toNat = d.headers.length := by
      have small := fits.size wide
      simp only [classicEnd, wide, Bool.false_eq_true, if_false]
      exact UInt32.toNat_ofNat_of_lt' (by unfold UInt32.size; omega)
    have here : d.classicEnd.recordsHere.toNat = d.entries.length := by
      simp only [classicEnd, wide, Bool.false_eq_true, if_false]
      exact UInt16.toNat_ofNat_of_lt' (by unfold UInt16.size; omega)
    rw [needsWide_classicEnd fits, wide, if_neg Bool.false_ne_true, offset, size, here]
    refine ⟨?_, UInt16.le_refl _, room⟩
    unfold trailerOffset
    omega

/-- The classic end record leads to the values of the draft. -/
theorem completed_written (fits : d.Fits) (written : content.data.toList = d.bytes)
    (size_lt : content.size < fileOffsetLimit) :
    Trailer.completed content d.trailerOffset = .ok d.trailer := by
  have checked := checked_written written size_lt
  unfold Trailer.completed
  rw [recordAt_trailerOffset written]
  dsimp only
  rw [needsWide_classicEnd fits]
  cases wide : d.isWide with
  | true =>
    rw [wide] at checked
    rw [if_pos rfl, wideValues_written wide written size_lt]
    exact checked
  | false =>
    rw [wide] at checked
    rw [if_neg Bool.false_ne_true, widen_classicEnd wide fits]
    exact checked

/-! ## The directory of a draft -/

variable {σ : Type} {source : Source σ} {options : Options}

/-- The directory describes the members of the draft. -/
theorem described_written (fits : d.Fits) (written : content.data.toList = d.bytes)
    (size_lt : content.size < fileOffsetLimit) (size_eq : source.size = content.size)
    (asStored : options.sanitizePaths = false) (all : options.limit = none) :
    Directory.described source options d.directoryEnd content = .ok d.members.toArray := by
  have size := size_written written
  have count : Directory.recordCount options d.directoryEnd = d.entries.length := by
    rw [Directory.recordCount, all]
    exact toNat_recordsHere written size_lt
  have headers : span content d.contents.length (d.contents.length + d.headers.length) =
      d.headers := span_of_middle written
  have inside : 0 + (contentsOf d.isWide d.entries).length < source.size := by
    rw [size_eq, size, trailerOffset, contents, ClassicEnd.length]
    omega
  have listed := @listed_headersOf d.isWide _ source options d.directoryEnd asStored rfl
    (size_eq ▸ size_lt) d.entries fits.entries 0 inside
    (fun classic => by
      rw [Nat.zero_add]
      exact fits.offset classic) #[]
  unfold Directory.described
  dsimp only
  rw [count, toNat_offset written size_lt, toNat_size written size_lt, headers, Draft.headers,
    listed, Array.empty_append]
  rfl

end Draft
end ZipArchive
