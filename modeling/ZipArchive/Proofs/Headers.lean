import ZipArchive.Proofs.Parsing
import ZipArchive.Proofs.TrailerRecords
import ZipArchive.Record.LocalHeader

/-!
# Reading and writing headers

A header is its signature, fields of fixed width, a name and an extra area, and in the directory a
comment. Reading one that is written out comes to resolving its slots (`CentralHeader.parse_written`,
`LocalHeader.parse_written`). A local header that could be read is as long as the bytes that reading
it took (`LocalHeader.parse_length`).
-/
namespace ZipArchive

open LittleEndian Layout

theorem toUInt16_bytes (n : UInt16) :
    toUInt16 [UInt8.ofNat n.toNat, UInt8.ofNat (n.toNat / 256)] = n := toUInt16_ofUInt16 n

theorem toUInt32_bytes (n : UInt32) :
    toUInt32 [UInt8.ofNat n.toNat, UInt8.ofNat (n.toNat / 256), UInt8.ofNat (n.toNat / 256 / 256),
      UInt8.ofNat (n.toNat / 256 / 256 / 256)] = n := toUInt32_ofUInt32 n

variable {label record : String}

namespace CentralHeader

theorem Fixed.length_encode (f : Fixed) : f.encode.length = 42 := by
  simp [encode, length_ofUInt16, length_ofUInt32]

theorem Fixed.ofBytes_encode (f : Fixed) : ofBytes f.encode = f := by
  simp only [ofBytes, encode, ofUInt16, ofUInt32, ofNat, List.cons_append, List.nil_append, field,
    List.drop_succ_cons, List.drop_zero, List.take_succ_cons, List.take_zero, toUInt16_bytes,
    toUInt32_bytes]

/-- A header of the directory as it is written. -/
def written (f : Fixed) (name extra comment : List UInt8) : List UInt8 :=
  ofUInt32 signature ++ (f.encode ++ (name ++ (extra ++ comment)))

theorem length_written (f : Fixed) (name extra comment : List UInt8) :
    (written f name extra comment).length =
      minLength + (name.length + (extra.length + comment.length)) := by
  simp only [written, List.length_append, length_ofUInt32, Fixed.length_encode, minLength]
  omega

theorem parse_written {f : Fixed} {name extra comment : List UInt8}
    (nameLength : name.length = f.nameLength.toNat)
    (extraLength : extra.length = f.extraLength.toNat)
    (commentLength : comment.length = f.commentLength.toNat) (rest : List UInt8) :
    layout.parse label record (written f name extra comment ++ rest) =
      (resolve f name extra).parse label record rest := by
  unfold layout written
  simp only [List.append_assoc]
  rw [parse_bind, parse_signature_append]
  dsimp only
  rw [parse_bind, parse_take_append f.length_encode]
  dsimp only
  rw [Fixed.ofBytes_encode, parse_bind, parse_take_append nameLength]
  dsimp only
  rw [parse_bind, parse_take_append extraLength]
  dsimp only
  rw [parse_bind, parse_pass_append commentLength]

end CentralHeader

namespace LocalHeader

theorem Fixed.length_encode (f : Fixed) {version moment : List UInt8} (two : version.length = 2)
    (eight : moment.length = 8) : (f.encode version moment).length = 26 := by
  simp [encode, length_ofUInt16, length_ofUInt32, two, eight]

theorem Fixed.ofBytes_encode (f : Fixed) {version moment : List UInt8} (two : version.length = 2)
    (eight : moment.length = 8) : ofBytes (f.encode version moment) = f := by
  match version, two, moment, eight with
  | [_, _], _, [_, _, _, _, _, _, _, _], _ =>
    simp only [ofBytes, encode, ofUInt16, ofUInt32, ofNat, List.cons_append, List.nil_append, field,
      List.drop_succ_cons, List.drop_zero, List.take_succ_cons, List.take_zero, toUInt16_bytes,
      toUInt32_bytes]

/-- A local header as it is written, with bytes for the version and for time, date and checksum. -/
def written (f : Fixed) (version moment name extra : List UInt8) : List UInt8 :=
  ofUInt32 signature ++ (f.encode version moment ++ (name ++ extra))

theorem length_written (f : Fixed) {version moment : List UInt8} (two : version.length = 2)
    (eight : moment.length = 8) (name extra : List UInt8) :
    (written f version moment name extra).length = minLength + (name.length + extra.length) := by
  simp only [written, List.length_append, length_ofUInt32, f.length_encode two eight, minLength]
  omega

theorem parse_written {f : Fixed} {version moment name extra : List UInt8}
    (two : version.length = 2) (eight : moment.length = 8)
    (nameLength : name.length = f.nameLength.toNat)
    (extraLength : extra.length = f.extraLength.toNat)
    (rest : List UInt8) :
    layout.parse label record (written f version moment name extra ++ rest) =
      (resolve f extra).parse label record rest := by
  unfold layout written
  simp only [List.append_assoc]
  rw [parse_bind, parse_signature_append]
  dsimp only
  rw [parse_bind, parse_take_append (f.length_encode two eight)]
  dsimp only
  rw [f.ofBytes_encode two eight, parse_bind, parse_pass_append nameLength]
  dsimp only
  rw [parse_bind, parse_take_append extraLength]

theorem resolveSize_some {f : Fixed} {field : WideField} {slot : UInt32} {wide : Option UInt64}
    {extent : Extent} (resolved : Extent.resolve slot wide = some extent) :
    resolveSize f field slot wide = .done extent := by
  rw [resolveSize, resolved]

theorem parse_resolveSize_ok {f : Fixed} {field : WideField} {slot : UInt32} {wide : Option UInt64}
    {bytes rest : List UInt8} {extent : Extent}
    (read : (resolveSize f field slot wide).parse label record bytes = (.ok extent, rest)) :
    rest = bytes := by
  unfold resolveSize at read
  split at read
  · cases read
    rfl
  · split at read
    · cases read
      rfl
    · cases read

theorem parse_resolve_ok {f : Fixed} {extra bytes rest : List UInt8} {h : LocalHeader}
    (read : (resolve f extra).parse label record bytes = (.ok h, rest)) :
    rest = bytes ∧ h.nameLength = f.nameLength ∧ h.extraLength = f.extraLength := by
  obtain ⟨compressed, _, first, behind⟩ := parse_bind_ok read
  obtain ⟨uncompressed, _, second, last⟩ := parse_bind_ok behind
  obtain rfl := parse_resolveSize_ok first
  obtain rfl := parse_resolveSize_ok second
  cases last
  exact ⟨rfl, rfl, rfl⟩

/-- Reading a local header takes as many bytes as the header is long. -/
theorem parse_length {bytes rest : List UInt8} {h : LocalHeader}
    (read : layout.parse label record bytes = (.ok h, rest)) :
    h.length + rest.length = bytes.length := by
  obtain ⟨_, _, signed, behindSignature⟩ := parse_bind_ok read
  obtain ⟨fixed, _, fixedTaken, behindFixed⟩ := parse_bind_ok behindSignature
  obtain ⟨_, _, namePassed, behindName⟩ := parse_bind_ok behindFixed
  obtain ⟨extra, _, extraTaken, resolved⟩ := parse_bind_ok behindName
  obtain ⟨signature_room, rfl⟩ := parse_signature_ok signed
  obtain ⟨fixed_room, -, rfl⟩ := parse_take_ok fixedTaken
  obtain ⟨name_room, rfl⟩ := parse_pass_ok namePassed
  obtain ⟨extra_room, -, rfl⟩ := parse_take_ok extraTaken
  obtain ⟨rfl, nameLength, extraLength⟩ := parse_resolve_ok resolved
  simp only [List.length_drop] at fixed_room name_room extra_room ⊢
  unfold length minLength
  rw [nameLength, extraLength]
  omega

end LocalHeader
end ZipArchive
