import ZipArchive.Proofs.DirectoryGrammar
import ZipArchive.Proofs.ExtraRecords

/-!
# Central headers, exactly

What reading a central header comes to is told by the bytes alone: by the signature, by the three
lengths among the fixed fields, and by the slots that defer to the extra area
(`CentralHeader.parse_cases`). Every header that the slots can tell is read back from its encoding,
whatever unrelated records stand in front of its wide numbers (`CentralHeader.parse_encode`).
-/
namespace ZipArchive

open LittleEndian Layout

theorem field_middle {front middle : List UInt8} {offset width : Nat} (before : front.length = offset)
    (size : middle.length = width) (behind : List UInt8) :
    field (front ++ (middle ++ behind)) offset width = middle := by
  rw [field, List.drop_left' before, List.take_left' size]

theorem field_append_left {bytes : List UInt8} {offset width : Nat}
    (inside : offset + width ≤ bytes.length) (behind : List UInt8) :
    field (bytes ++ behind) offset width = field bytes offset width := by
  rw [field, field, List.drop_append_of_le_length (by omega),
    List.take_append_of_le_length (by rw [List.length_drop]; omega)]

namespace CentralHeader

variable {label record : String} {b : List UInt8}

/-! ## What the bytes tell -/

/-- The fixed fields, where a header stands in front of the bytes. -/
def fixedIn (b : List UInt8) : Fixed := .ofBytes (field b 4 42)

/-- The lengths of the name, the extra area and the comment. -/
def nameLength (b : List UInt8) : Nat := (fixedIn b).nameLength.toNat

def extraLength (b : List UInt8) : Nat := (fixedIn b).extraLength.toNat

def commentLength (b : List UInt8) : Nat := (fixedIn b).commentLength.toNat

def nameIn (b : List UInt8) : List UInt8 := field b minLength (nameLength b)

def extraIn (b : List UInt8) : List UInt8 := field b (minLength + nameLength b) (extraLength b)

/-- Where the header ends. -/
def stop (b : List UInt8) : Nat := minLength + nameLength b + extraLength b + commentLength b

/-- The extra area supplies a number for a field. -/
def Supplied (b : List UInt8) (wideField : WideField) (n : Nat) : Prop :=
  Extra.Supplies (extraIn b) (fixedIn b).wanted wideField n

/-- The bytes start with another signature. -/
def Foreign (b : List UInt8) : Prop := 4 ≤ b.length ∧ b.take 4 ≠ [0x50, 0x4b, 1, 2]

/-- The bytes end before the header does. -/
def Cut (b : List UInt8) : Prop := b.length < minLength ∨ b.length < stop b

/-- A slot is all ones, and the extra area supplies no number for it. -/
def Lacks (b : List UInt8) : Prop :=
  ∃ wideField, (fixedIn b).wanted.wants wideField = true ∧ ∀ n, ¬ Supplied b wideField n

/-- What the bytes tell, slot by slot. -/
structure Tells (b : List UInt8) (h : CentralHeader) : Prop where
  compressedSize :
    h.compressedSize.IsRead (fixedIn b).compressedSize (Supplied b .compressedSize)
  uncompressedSize :
    h.uncompressedSize.IsRead (fixedIn b).uncompressedSize (Supplied b .uncompressedSize)
  headerOffset : h.headerOffset.IsRead (fixedIn b).headerOffset (Supplied b .headerOffset)
  disk : h.disk.IsRead (fixedIn b).disk (Supplied b .disk)
  others : h = { h with
    versionMadeBy := (fixedIn b).versionMadeBy
    versionNeeded := (fixedIn b).versionNeeded
    flags := (fixedIn b).flags
    method := .ofTag (fixedIn b).method
    time := (fixedIn b).time
    date := (fixedIn b).date
    crc32 := (fixedIn b).crc32
    name := nameIn b
    internalAttributes := (fixedIn b).internalAttributes
    externalAttributes := (fixedIn b).externalAttributes }

namespace Stored

variable (s : Stored) (rest : List UInt8)

theorem signature_eq : ofUInt32 signature = [0x50, 0x4b, 1, 2] := by decide

theorem fixedIn_bytes : fixedIn (s.bytes ++ rest) = s.fixed := by
  have bytes : s.bytes ++ rest = ofUInt32 signature ++
      (s.fixed.encode ++ (s.name ++ (s.extra ++ s.comment) ++ rest)) := by
    simp only [Stored.bytes, written, List.append_assoc]
  rw [fixedIn, bytes, field_middle (length_ofUInt32 _) s.fixed.length_encode, Fixed.ofBytes_encode]

theorem nameIn_bytes : nameIn (s.bytes ++ rest) = s.name := by
  have bytes : s.bytes ++ rest = (ofUInt32 signature ++ s.fixed.encode) ++
      (s.name ++ (s.extra ++ s.comment ++ rest)) := by
    simp only [Stored.bytes, written, List.append_assoc]
  have before : (ofUInt32 signature ++ s.fixed.encode).length = minLength := by
    rw [List.length_append, length_ofUInt32, Fixed.length_encode]
    rfl
  rw [nameIn, nameLength, fixedIn_bytes, bytes, field_middle before s.name_length]

theorem extraIn_bytes : extraIn (s.bytes ++ rest) = s.extra := by
  have bytes : s.bytes ++ rest = (ofUInt32 signature ++ s.fixed.encode ++ s.name) ++
      (s.extra ++ (s.comment ++ rest)) := by
    simp only [Stored.bytes, written, List.append_assoc]
  have before : (ofUInt32 signature ++ s.fixed.encode ++ s.name).length =
      minLength + s.fixed.nameLength.toNat := by
    rw [List.length_append, List.length_append, length_ofUInt32, Fixed.length_encode, s.name_length]
    rfl
  rw [extraIn, extraLength, nameLength, fixedIn_bytes, bytes, field_middle before s.extra_length]

theorem stop_bytes : stop (s.bytes ++ rest) = s.bytes.length := by
  rw [stop, nameLength, extraLength, commentLength, fixedIn_bytes, length_bytes, s.name_length,
    s.extra_length, s.comment_length]
  omega

theorem supplied_iff {wideField : WideField} {n : Nat} :
    Supplied (s.bytes ++ rest) wideField n ↔ s.wide.value? wideField = some n := by
  rw [Supplied, fixedIn_bytes, extraIn_bytes]
  exact Extra.value?_find.symm

theorem not_foreign : ¬ Foreign (s.bytes ++ rest) := by
  rintro ⟨-, other⟩
  apply other
  have bytes : s.bytes ++ rest =
      ofUInt32 signature ++ (s.fixed.encode ++ (s.name ++ (s.extra ++ s.comment)) ++ rest) := by
    simp only [Stored.bytes, written, List.append_assoc]
  rw [bytes, List.take_left' (length_ofUInt32 _), signature_eq]

theorem not_cut : ¬ Cut (s.bytes ++ rest) := by
  have long := s.minLength_le
  rintro (short | short)
  · rw [List.length_append] at short
    omega
  · rw [stop_bytes, List.length_append] at short
    omega

variable {s}

/-- The slots that lack a number are those that are all ones with none supplied. -/
theorem mem_lacking {wideField : WideField} :
    wideField ∈ s.lacking ↔
      s.fixed.wanted.wants wideField = true ∧ s.wide.value? wideField = none := by
  cases wideField <;>
    simp [lacking, Fixed.wanted, Extra.Wanted.wants, Extra.Found.value?, Extent.resolve_eq_none,
      DiskNumber.resolve_eq_none]

theorem lacks_iff : Lacks (s.bytes ++ rest) ↔ ∃ wideField, wideField ∈ s.lacking := by
  refine exists_congr fun wideField => ?_
  rw [mem_lacking, fixedIn_bytes]
  refine and_congr_right fun _ => ?_
  simp only [supplied_iff, Option.eq_none_iff_forall_ne_some]

theorem Means.tells {h : CentralHeader} (means : s.Means h) : Tells (s.bytes ++ rest) h := by
  have supplied : ∀ wideField n, s.wide.value? wideField = some n →
      Supplied (s.bytes ++ rest) wideField n := fun _ _ => (s.supplied_iff rest).mpr
  constructor
  · rw [fixedIn_bytes]
    exact Extent.isRead_of_resolve means.compressedSize (supplied .compressedSize)
  · rw [fixedIn_bytes]
    exact Extent.isRead_of_resolve means.uncompressedSize (supplied .uncompressedSize)
  · rw [fixedIn_bytes]
    exact Extent.isRead_of_resolve means.headerOffset (supplied .headerOffset)
  · rw [fixedIn_bytes]
    exact DiskNumber.isRead_of_resolve means.disk (supplied .disk)
  · rw [fixedIn_bytes, nameIn_bytes]
    exact means.others

end Stored

/-! ## Reading -/

/-- What reading a header comes to. -/
inductive Reading (label record : String) (b : List UInt8) : Prop where
  | foreign (other : Foreign b) (found : UInt32)
      (failed : layout.outcome label record b = .error (.badSignature recordName signature found))
  | cut (near : ¬ Foreign b) (short : Cut b)
      (failed : layout.outcome label record b = .error (.corrupt (.truncated record)))
  | lacking (near : ¬ Foreign b) (long : ¬ Cut b) (lacks : Lacks b) (wideField : WideField)
      (failed : layout.outcome label record b =
        .error (.corrupt (.missingWideValue wideField (Text.lossy (nameIn b)))))
  | tells (near : ¬ Foreign b) (long : ¬ Cut b) (holds : ¬ Lacks b) (h : CentralHeader)
      (told : Tells b h) (read : layout.parse label record b = (.ok h, b.drop (stop b)))

/-- Bytes that end within a header are cut, and have no other signature. -/
theorem cut_of_prefix {s : Stored} (front : b <+: s.bytes) (within : b ≠ s.bytes) :
    ¬ Foreign b ∧ Cut b := by
  obtain ⟨behind, whole⟩ := front
  have shorter : b.length < s.bytes.length := by
    have some : behind ≠ [] := by
      rintro rfl
      exact within (by rw [← whole, List.append_nil])
    have length := congrArg List.length whole
    have positive := List.length_pos_iff.mpr some
    rw [List.length_append] at length
    omega
  constructor
  · rintro ⟨four, other⟩
    have near := s.not_foreign []
    rw [List.append_nil, ← whole] at near
    refine near ⟨?_, ?_⟩
    · rw [List.length_append]
      exact Nat.le_add_right_of_le four
    · rwa [List.take_append_of_le_length four]
  -- Where all fixed fields are there, they tell the same lengths as in the whole header.
  · by_cases short : b.length < minLength
    · exact .inl short
    · unfold minLength at short
      have fixed : fixedIn b = s.fixed := by
        rw [← s.fixedIn_bytes [], List.append_nil, ← whole, fixedIn, fixedIn,
          field_append_left (by omega)]
      have ended := s.stop_bytes []
      unfold stop nameLength extraLength commentLength at ended
      rw [s.fixedIn_bytes] at ended
      refine .inr ?_
      unfold stop nameLength extraLength commentLength
      rw [fixed, ended]
      exact shorter

theorem parse_cases (label record : String) (b : List UInt8) : Reading label record b := by
  rcases Stored.stored_cases b with
    few | ⟨found, rest, other, rfl⟩ | ⟨s, rest, rfl⟩ | ⟨s, front, within⟩
  · have near : ¬ Foreign b := fun foreign => absurd foreign.1 (by omega)
    exact .cut near (.inl (Nat.lt_of_lt_of_le few (by decide))) (signature_short few)
  · refine .foreign ⟨?_, ?_⟩ found (outcome_eq_iff.mpr ⟨rest, parse_other_signature other _ rest⟩)
    · rw [List.length_append, length_ofUInt32]
      exact Nat.le_add_right _ _
    · rw [List.take_left' (length_ofUInt32 _), ← Stored.signature_eq]
      intro same
      apply other
      rw [← toUInt32_ofUInt32 found, same, toUInt32_ofUInt32]
  · have near := s.not_foreign rest
    have long := s.not_cut rest
    rcases s.means_or_refused with ⟨h, means⟩ | ⟨wideField, first, refused⟩
    · refine .tells near long ?_ h (means.tells rest) ?_
      · rw [Stored.lacks_iff, means.lacking_eq]
        exact fun ⟨_, among⟩ => absurd among List.not_mem_nil
      · rw [Stored.parse_means means, s.stop_bytes, List.drop_left]
    · refine .lacking near long ?_ wideField ?_
      · exact (Stored.lacks_iff rest).mpr ⟨wideField, List.mem_of_mem_head? first⟩
      · rw [s.nameIn_bytes]
        exact refused label record rest
  · obtain ⟨near, short⟩ := cut_of_prefix front within
    exact .cut near short (Stored.outcome_cut front within)

/-! ## Writing -/

section Writing

variable {h : CentralHeader} {extra comment : List UInt8}

/-- The numbers that the slots of a header defer to. -/
def wideNumbers (h : CentralHeader) : Extra.Found where
  uncompressedSize := h.uncompressedSize.wide?
  compressedSize := h.compressedSize.wide?
  headerOffset := h.headerOffset.wide?
  disk := h.disk.wide?

/-- The fixed fields that a header is written with. -/
def fixedFor (h : CentralHeader) (extra comment : List UInt8) : Fixed where
  versionMadeBy := h.versionMadeBy
  versionNeeded := h.versionNeeded
  flags := h.flags
  method := h.method.tag
  time := h.time
  date := h.date
  crc32 := h.crc32
  compressedSize := h.compressedSize.slot
  uncompressedSize := h.uncompressedSize.slot
  nameLength := .ofNat h.name.length
  extraLength := .ofNat extra.length
  commentLength := .ofNat comment.length
  disk := h.disk.slot
  internalAttributes := h.internalAttributes
  externalAttributes := h.externalAttributes
  headerOffset := h.headerOffset.slot

/-- A header as bytes, with the given extra area and comment. -/
def encode (h : CentralHeader) (extra comment : List UInt8) : List UInt8 :=
  written (h.fixedFor extra comment) h.name extra comment

/-- The fields of a header can tell it. -/
structure Storable (h : CentralHeader) : Prop where
  method : ∃ tag, h.method = .ofTag tag
  compressedSize : h.compressedSize.Tellable
  uncompressedSize : h.uncompressedSize.Tellable
  headerOffset : h.headerOffset.Tellable
  disk : h.disk.Tellable
  name : h.name.length < 65536

/-- The slots that defer are those whose numbers are wide. -/
theorem Storable.wanted_eq (storable : h.Storable) :
    (h.fixedFor extra comment).wanted = h.wideNumbers.wanted := by
  simp only [Fixed.wanted, fixedFor, wideNumbers, Extra.Found.wanted,
    Extent.slot_eq_deferred_iff storable.compressedSize,
    Extent.slot_eq_deferred_iff storable.uncompressedSize,
    Extent.slot_eq_deferred_iff storable.headerOffset,
    DiskNumber.slot_eq_deferred_iff storable.disk, Bool.decide_eq_true]

/-- A header is read back from its encoding, and what is behind it is left. -/
theorem parse_encode (storable : h.Storable) (carries : Extra.Carries extra h.wideNumbers)
    (extra_short : extra.length < 65536) (comment_short : comment.length < 65536)
    (rest : List UInt8) :
    layout.parse label record (h.encode extra comment ++ rest) = (.ok h, rest) := by
  let s : Stored := {
    fixed := h.fixedFor extra comment
    name := h.name
    extra := extra
    comment := comment
    name_length := (UInt16.toNat_ofNat_of_lt' storable.name).symm
    extra_length := (UInt16.toNat_ofNat_of_lt' extra_short).symm
    comment_length := (UInt16.toNat_ofNat_of_lt' comment_short).symm }
  have wide : s.wide = h.wideNumbers := by
    change Extra.find (h.fixedFor extra comment).wanted extra = _
    rw [storable.wanted_eq, Extra.find_carries carries]
  obtain ⟨tag, method⟩ := storable.method
  have means : s.Means h := by
    refine ⟨?_, ?_, ?_, ?_, ?_⟩
    · rw [wide]
      exact Extent.resolve_slot storable.compressedSize
    · rw [wide]
      exact Extent.resolve_slot storable.uncompressedSize
    · rw [wide]
      exact Extent.resolve_slot storable.headerOffset
    · rw [wide]
      exact DiskNumber.resolve_slot storable.disk
    · have told : CompressionMethod.ofTag h.method.tag = h.method := by
        rw [method, CompressionMethod.tag_ofTag]
      change h = { h with method := .ofTag h.method.tag }
      rw [told]
  exact Stored.parse_means means rest

end Writing

/-- Which bytes are refused for their signature, which as corrupt, and what is read from all others,
with what is behind the header left; and every header is read back that is written with its wide
numbers behind any unrelated records. -/
theorem parse_exact (label : String) :
    (∀ b, let read := layout.parse label recordName b
      ((∃ name expected found, read.1 = .error (.badSignature name expected found)) ↔ Foreign b) ∧
      (¬ Foreign b → ((∃ damage, read.1 = .error (.corrupt damage)) ↔ Cut b ∨ Lacks b)) ∧
      (¬ Foreign b → ¬ (Cut b ∨ Lacks b) →
        ∃ h, read = (.ok h, b.drop (stop b)) ∧ Tells b h)) ∧
    ∀ (h : CentralHeader) extra comment, h.Storable → Extra.Carries extra h.wideNumbers →
      extra.length < 65536 → comment.length < 65536 → ∀ rest,
        layout.parse label recordName (h.encode extra comment ++ rest) = (.ok h, rest) := by
  refine ⟨fun b => ?_, fun h extra comment storable carries extra_short comment_short =>
    parse_encode storable carries extra_short comment_short⟩
  intro read
  cases parse_cases label recordName b with
  | foreign other found failed =>
    have refused : read.1 = _ := failed
    rw [refused]
    exact ⟨⟨fun _ => other, fun _ => ⟨_, _, _, rfl⟩⟩, fun near => absurd other near,
      fun near => absurd other near⟩
  | cut near short failed =>
    have refused : read.1 = _ := failed
    rw [refused]
    exact ⟨⟨nofun, fun other => absurd other near⟩,
      fun _ => ⟨fun _ => .inl short, fun _ => ⟨_, rfl⟩⟩, fun _ whole => absurd (.inl short) whole⟩
  | lacking near _ lacks wideField failed =>
    have refused : read.1 = _ := failed
    rw [refused]
    exact ⟨⟨nofun, fun other => absurd other near⟩,
      fun _ => ⟨fun _ => .inr lacks, fun _ => ⟨_, rfl⟩⟩, fun _ whole => absurd (.inr lacks) whole⟩
  | tells near long holds h told parsed =>
    have accepted : read = _ := parsed
    rw [accepted]
    exact ⟨⟨nofun, fun other => absurd other near⟩,
      fun _ => ⟨nofun, fun wrong => absurd wrong (not_or.mpr ⟨long, holds⟩)⟩,
      fun _ _ => ⟨h, rfl, told⟩⟩

/-- A header of a file of the name `a`, whose sizes and disk are wide while its offset is not. -/
def partlyWide : CentralHeader where
  versionMadeBy := 0
  versionNeeded := 45
  flags := 0
  method := .deflate
  time := 0
  date := 0
  crc32 := 0
  compressedSize := .extended 0x100000000
  uncompressedSize := .extended 0xffffffff
  name := [97]
  disk := .extended 1
  internalAttributes := 0
  externalAttributes := 0
  headerOffset := .classic 7

/-- It is read back, and so is what is wrong with a local header in its place. -/
theorem partlyWide_exact :
    let area := (Extra.Record.mk 0x5455 [1, 2, 3] (by decide)).bytes ++
      (partlyWide.wideNumbers.record.bytes ++ [0])
    layout.parse "a.zip" recordName (partlyWide.encode area [99] ++ [0x50]) =
        (.ok partlyWide, [0x50]) ∧
      ∃ name expected found, (layout.parse "a.zip" recordName [0x50, 0x4b, 3, 4]).1 =
        .error (.badSignature name expected found) := by
  intro area
  have storable : partlyWide.Storable :=
    ⟨⟨8, rfl⟩, by decide, by decide, by decide, by decide, by decide⟩
  have carries : Extra.Carries area partlyWide.wideNumbers :=
    .inr ⟨[⟨0x5455, [1, 2, 3], by decide⟩], [0], List.forall_mem_singleton.mpr (by decide), rfl⟩
  obtain ⟨reads, writes⟩ := parse_exact "a.zip"
  exact ⟨writes _ _ _ storable carries (by decide) (by decide) _,
    (reads [0x50, 0x4b, 3, 4]).1.mpr ⟨by decide, by decide⟩⟩

end CentralHeader
end ZipArchive
