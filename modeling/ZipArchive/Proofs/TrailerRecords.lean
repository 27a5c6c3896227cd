import ZipArchive.Proofs.Parsing
import ZipArchive.Proofs.Span
import ZipArchive.Trailer

/-!
# Reading and writing the records at the end of an archive

Each of the three records is read back from its encoding (`parse_encode`, `ofBytes_encode`), and
bytes of the right length that start with the signature are the encoding of what they say
(`encode_ofBytes`).
-/
namespace ZipArchive

open LittleEndian Layout

theorem length_ofUInt16 (n : UInt16) : (ofUInt16 n).length = 2 := length_ofNat _ _

theorem length_ofUInt32 (n : UInt32) : (ofUInt32 n).length = 4 := length_ofNat _ _

theorem length_ofUInt64 (n : UInt64) : (ofUInt64 n).length = 8 := length_ofNat _ _

theorem length_field {bytes : List UInt8} {offset width : Nat}
    (inside : offset + width ≤ bytes.length) : (field bytes offset width).length = width := by
  simp only [field, List.length_take, List.length_drop]
  omega

/-- Neighbouring fields make up a longer one. -/
theorem field_append_field (bytes : List UInt8) {offset m following : Nat}
    (next : offset + m = following) (n : Nat) :
    field bytes offset m ++ field bytes following n = field bytes offset (m + n) := by
  simp only [field, ← next, List.take_add, List.drop_drop]

theorem field_whole {bytes : List UInt8} {length : Nat} (whole : bytes.length = length) :
    field bytes 0 length = bytes := by
  simp [field, ← whole]

theorem field_head {taken : List UInt8} {width : Nat} (whole : taken.length = width)
    (rest : List UInt8) : field (taken ++ rest) 0 width = taken := by
  rw [field, List.drop_zero, List.take_left' whole]

namespace ClassicEnd

@[simp] theorem length_encode (r : ClassicEnd) : r.encode.length = length := by
  simp [encode, length_ofUInt16, length_ofUInt32, length]

theorem parse_encode (r : ClassicEnd) (label record : String) (rest : List UInt8) :
    layout.parse label record (r.encode ++ rest) = (.ok r, rest) := by
  simp [layout, encode, parse_bind]

/-- What 22 bytes say, field by field. -/
def ofBytes (b : List UInt8) : ClassicEnd where
  thisDisk := toUInt16 (field b 4 2)
  startDisk := toUInt16 (field b 6 2)
  recordsHere := toUInt16 (field b 8 2)
  recordsTotal := toUInt16 (field b 10 2)
  size := toUInt32 (field b 12 4)
  offset := toUInt32 (field b 16 4)
  commentLength := toUInt16 (field b 20 2)

theorem encode_ofBytes {b : List UInt8} (whole : b.length = length)
    (signed : toUInt32 (field b 0 4) = signature) : (ofBytes b).encode = b := by
  unfold length at whole
  have parts : ∀ {offset width}, offset + width ≤ 22 → (field b offset width).length = width :=
    fun inside => length_field (by omega)
  simp only [encode, ofBytes, ← signed, ofUInt16_toUInt16 (parts _), ofUInt32_toUInt32 (parts _),
    Nat.reduceAdd, Nat.reduceLeDiff, field_append_field, field_whole whole]

theorem signature_encode (r : ClassicEnd) : toUInt32 (field r.encode 0 4) = signature := by
  simp only [encode, List.append_assoc]
  rw [field_head (length_ofUInt32 _), toUInt32_ofUInt32]

theorem ofBytes_encode (r : ClassicEnd) : ofBytes r.encode = r := by
  have parsed := parse_encode (ofBytes r.encode) "" "" []
  rw [encode_ofBytes r.length_encode r.signature_encode, parse_encode] at parsed
  exact (Except.ok.inj (Prod.mk.inj parsed).1).symm

end ClassicEnd

namespace WideLocator

@[simp] theorem length_encode (r : WideLocator) : r.encode.length = length := by
  simp [encode, length_ofUInt32, length_ofUInt64, length]

theorem parse_encode (r : WideLocator) (label record : String) (rest : List UInt8) :
    layout.parse label record (r.encode ++ rest) = (.ok r, rest) := by
  simp [layout, encode, parse_bind]

/-- What 20 bytes say, field by field. -/
def ofBytes (b : List UInt8) : WideLocator where
  disk := toUInt32 (field b 4 4)
  offset := toUInt64 (field b 8 8)
  totalDisks := toUInt32 (field b 16 4)

theorem encode_ofBytes {b : List UInt8} (whole : b.length = length)
    (signed : toUInt32 (field b 0 4) = signature) : (ofBytes b).encode = b := by
  unfold length at whole
  have parts : ∀ {offset width}, offset + width ≤ 20 → (field b offset width).length = width :=
    fun inside => length_field (by omega)
  simp only [encode, ofBytes, ← signed, ofUInt64_toUInt64 (parts _), ofUInt32_toUInt32 (parts _),
    Nat.reduceAdd, Nat.reduceLeDiff, field_append_field, field_whole whole]

theorem signature_encode (r : WideLocator) : toUInt32 (field r.encode 0 4) = signature := by
  simp only [encode, List.append_assoc]
  rw [field_head (length_ofUInt32 _), toUInt32_ofUInt32]

theorem ofBytes_encode (r : WideLocator) : ofBytes r.encode = r := by
  have parsed := parse_encode (ofBytes r.encode) "" "" []
  rw [encode_ofBytes r.length_encode r.signature_encode, parse_encode] at parsed
  exact (Except.ok.inj (Prod.mk.inj parsed).1).symm

end WideLocator

namespace DirectoryEnd

theorem length_encode {unused : List UInt8} (r : DirectoryEnd) (given : unused.length = 12) :
    (r.encode unused).length = length := by
  simp [encode, length_ofUInt32, length_ofUInt64, length, given]

theorem parse_encode {unused : List UInt8} (r : DirectoryEnd) (given : unused.length = 12)
    (label record : String) (rest : List UInt8) :
    layout.parse label record (r.encode unused ++ rest) = (.ok r, rest) := by
  simp [layout, encode, parse_bind, parse_pass_append given]

/-- What 56 bytes say, field by field. -/
def ofBytes (b : List UInt8) : DirectoryEnd where
  thisDisk := toUInt32 (field b 16 4)
  startDisk := toUInt32 (field b 20 4)
  recordsHere := toUInt64 (field b 24 8)
  recordsTotal := toUInt64 (field b 32 8)
  size := toUInt64 (field b 40 8)
  offset := toUInt64 (field b 48 8)

theorem encode_ofBytes {b : List UInt8} (whole : b.length = length)
    (signed : toUInt32 (field b 0 4) = signature) :
    (ofBytes b).encode (field b 4 12) = b := by
  unfold length at whole
  have parts : ∀ {offset width}, offset + width ≤ 56 → (field b offset width).length = width :=
    fun inside => length_field (by omega)
  simp only [encode, ofBytes, ← signed, ofUInt64_toUInt64 (parts _), ofUInt32_toUInt32 (parts _),
    Nat.reduceAdd, Nat.reduceLeDiff, field_append_field, field_whole whole]

theorem signature_encode (unused : List UInt8) (r : DirectoryEnd) :
    toUInt32 (field (r.encode unused) 0 4) = signature := by
  simp only [encode, List.append_assoc]
  rw [field_head (length_ofUInt32 _), toUInt32_ofUInt32]

theorem ofBytes_encode {unused : List UInt8} (r : DirectoryEnd) (given : unused.length = 12) :
    ofBytes (r.encode unused) = r := by
  have whole := r.length_encode given
  have kept : (field (r.encode unused) 4 12).length = 12 := length_field (by rw [whole]; decide)
  have parsed := parse_encode (ofBytes (r.encode unused)) kept "" "" []
  rw [encode_ofBytes whole (signature_encode unused r), parse_encode _ given] at parsed
  exact (Except.ok.inj (Prod.mk.inj parsed).1).symm

end DirectoryEnd

namespace Trailer

variable {content : ByteArray}

/-! ## Words and records of a content -/

theorem byteAt_eq {i : Nat} (inside : i < content.size) : byteAt content i = content[i] :=
  dif_pos inside

theorem byteAt_slice {offset length i : Nat} (inside : i < length) :
    byteAt (slice content offset length) i = byteAt content (offset + i) := by
  have same : i < (slice content offset length).size ↔ offset + i < content.size := by
    simp only [slice, ByteArray.size_extract]
    omega
  by_cases there : offset + i < content.size
  · rw [byteAt_eq there, byteAt_eq (same.mpr there)]
    exact ByteArray.getElem_extract (same.mpr there)
  · rw [byteAt, byteAt, dif_neg (mt same.mp there), dif_neg there]

theorem wordAt_slice {offset length i : Nat} (inside : i + 4 ≤ length) :
    wordAt (slice content offset length) i = wordAt content (offset + i) := by
  have bytes : ∀ j < 4, byteAt (slice content offset length) (i + j) =
      byteAt content (offset + i + j) := fun j small => by
    rw [byteAt_slice (by omega), Nat.add_assoc]
  simp only [wordAt, bytes 1 (by decide), bytes 2 (by decide), bytes 3 (by decide),
    byteAt_slice (show i < length by omega)]

theorem wordAt_eq_span {offset : Nat} (inside : offset + 4 ≤ content.size) :
    wordAt content offset = LittleEndian.toUInt32 (span content offset (offset + 4)) := by
  rw [span, ByteArray.extract_add_four inside, wordAt, byteAt_eq (by omega), byteAt_eq (by omega),
    byteAt_eq (by omega), byteAt_eq (by omega), List.toList_data_toByteArray]

/-- What the bytes at an offset say when they are taken for a classic end record. -/
def recordAt (content : ByteArray) (offset : Nat) : ClassicEnd :=
  .ofBytes (span content offset (offset + ClassicEnd.length))

/-- What the bytes at an offset say when they are taken for a locator. -/
def locatorAt (content : ByteArray) (offset : Nat) : WideLocator :=
  .ofBytes (span content offset (offset + WideLocator.length))

/-- What the bytes at an offset say when they are taken for a wide end record. -/
def wideEndAt (content : ByteArray) (offset : Nat) : DirectoryEnd :=
  .ofBytes (span content offset (offset + DirectoryEnd.length))

theorem field_span_eq_wordAt {offset length : Nat} (long : 4 ≤ length)
    (inside : offset + length ≤ content.size) :
    toUInt32 (field (span content offset (offset + length)) 0 4) = wordAt content offset := by
  rw [wordAt_eq_span (by omega), field, List.drop_zero, take_span, Nat.min_eq_left (by omega)]

theorem encode_recordAt {offset : Nat} (inside : offset + ClassicEnd.length ≤ content.size)
    (signed : wordAt content offset = ClassicEnd.signature) :
    (recordAt content offset).encode = span content offset (offset + ClassicEnd.length) :=
  ClassicEnd.encode_ofBytes (by rw [length_span_of_le inside, Nat.add_sub_cancel_left])
    (by rw [field_span_eq_wordAt (by decide) inside, signed])

theorem encode_locatorAt {offset : Nat} (inside : offset + WideLocator.length ≤ content.size)
    (signed : wordAt content offset = WideLocator.signature) :
    (locatorAt content offset).encode = span content offset (offset + WideLocator.length) :=
  WideLocator.encode_ofBytes (by rw [length_span_of_le inside, Nat.add_sub_cancel_left])
    (by rw [field_span_eq_wordAt (by decide) inside, signed])

/-- The wide end record also holds twelve bytes that are not looked at. -/
theorem encode_wideEndAt {offset : Nat} (inside : offset + DirectoryEnd.length ≤ content.size)
    (signed : wordAt content offset = DirectoryEnd.signature) :
    ∃ unused, unused.length = 12 ∧ (wideEndAt content offset).encode unused =
      span content offset (offset + DirectoryEnd.length) := by
  have whole : (span content offset (offset + DirectoryEnd.length)).length = DirectoryEnd.length := by
    rw [length_span_of_le inside, Nat.add_sub_cancel_left]
  refine ⟨_, length_field (by rw [whole]; decide), DirectoryEnd.encode_ofBytes whole ?_⟩
  rw [field_span_eq_wordAt (by decide) inside, signed]

end Trailer
end ZipArchive
