import ZipArchive.Proofs.Members

/-!
# The grammar of directories

A directory is a row of headers, each as it is stored (`CentralHeader.Stored`), and each fit to be
listed (`Directory.Listable`). Reading one accepts exactly these rows: it gives one member for each
header, and else it fails with what is wrong at the first place where no such header stands
(`Directory.Offends`). The loop follows a count that comes from the archive, but each header takes
46 bytes of the window at least, so that no more are read than fit there and one
(`Directory.readMembers_capped`).
-/
namespace ZipArchive

open LittleEndian Layout

/-! ## Bytes that are cut short -/

namespace Layout

variable {α β : Type} {label record : String}

theorem outcome_bind_ok {x : Layout α} {f : α → Layout β} {bytes rest : List UInt8} {value : α}
    (read : x.parse label record bytes = (.ok value, rest)) :
    (x >>= f).outcome label record bytes = (f value).outcome label record rest := by
  rw [outcome, parse_bind, read]
  rfl

theorem outcome_bind_error {x : Layout α} {f : α → Layout β} {bytes rest : List UInt8}
    {error : ZipError} (read : x.parse label record bytes = (.error error, rest)) :
    (x >>= f).outcome label record bytes = .error error := by
  rw [outcome, parse_bind, read]

/-- A proper front of two parts ends in the first, or behind it in a proper front of the second. -/
theorem cut_append {first second bytes : List UInt8} (front : bytes <+: first ++ second)
    (cut : bytes ≠ first ++ second) :
    bytes.length < first.length ∨
      ∃ bytes', bytes = first ++ bytes' ∧ bytes' <+: second ∧ bytes' ≠ second := by
  by_cases short : bytes.length < first.length
  · exact .inl short
  · obtain ⟨bytes', rfl⟩ := List.prefix_of_prefix_length_le (List.prefix_append first second) front
      (Nat.le_of_not_lt short)
    exact .inr ⟨bytes', rfl, (List.prefix_append_right_inj first).mp front,
      fun same => cut (same ▸ rfl)⟩

/-- What takes `length` bytes first is cut short where its first part is, or else where what follows
is. -/
theorem take_cut {length : Nat} {f : List UInt8 → Layout α} {first second bytes : List UInt8}
    (size : first.length = length) (front : bytes <+: first ++ second)
    (cut : bytes ≠ first ++ second)
    (onward : ∀ bytes', bytes' <+: second → bytes' ≠ second →
      (f first).outcome label record bytes' = .error (.corrupt (.truncated record))) :
    (take length >>= f).outcome label record bytes = .error (.corrupt (.truncated record)) := by
  rcases cut_append front cut with short | ⟨bytes', rfl, front', cut'⟩
  · exact outcome_bind_error (parse_bytes_short _ (size ▸ short))
  · rw [outcome_bind_ok (parse_take_append size bytes')]
    exact onward bytes' front' cut'

theorem pass_cut {length : Nat} {f : Unit → Layout α} {first second bytes : List UInt8}
    (size : first.length = length) (front : bytes <+: first ++ second)
    (cut : bytes ≠ first ++ second)
    (onward : ∀ bytes', bytes' <+: second → bytes' ≠ second →
      (f ()).outcome label record bytes' = .error (.corrupt (.truncated record))) :
    (pass length >>= f).outcome label record bytes = .error (.corrupt (.truncated record)) := by
  rcases cut_append front cut with short | ⟨bytes', rfl, front', cut'⟩
  · exact outcome_bind_error (parse_skip_short _ (size ▸ short))
  · rw [outcome_bind_ok (parse_pass_append size bytes')]
    exact onward bytes' front' cut'

/-- Fewer than four bytes are no signature, whichever they are. -/
theorem signature_short {name : String} {expected : UInt32} {f : Unit → Layout α}
    {bytes : List UInt8} (short : bytes.length < 4) :
    (signature name expected >>= f).outcome label record bytes =
      .error (.corrupt (.truncated record)) := by
  have number : uint32.parse label record bytes = (.error (.corrupt (.truncated record)), []) :=
    parse_bytes_short _ short
  have refused : (signature name expected).parse label record bytes =
      (.error (.corrupt (.truncated record)), []) := by
    rw [signature, parse_bind, number]
  exact outcome_bind_error refused

theorem signature_cut {name : String} {expected : UInt32} {f : Unit → Layout α}
    {second bytes : List UInt8} (front : bytes <+: ofUInt32 expected ++ second)
    (cut : bytes ≠ ofUInt32 expected ++ second)
    (onward : ∀ bytes', bytes' <+: second → bytes' ≠ second →
      (f ()).outcome label record bytes' = .error (.corrupt (.truncated record))) :
    (signature name expected >>= f).outcome label record bytes =
      .error (.corrupt (.truncated record)) := by
  rcases cut_append front cut with short | ⟨bytes', rfl, front', cut'⟩
  · exact signature_short (by rwa [length_ofUInt32] at short)
  · rw [outcome_bind_ok (parse_signature_append name expected bytes')]
    exact onward bytes' front' cut'

end Layout

/-! ## Headers as they are stored -/

namespace CentralHeader

theorem Fixed.encode_ofBytes {b : List UInt8} (whole : b.length = 42) : (ofBytes b).encode = b := by
  have parts : ∀ {offset width}, offset + width ≤ 42 → (field b offset width).length = width :=
    fun inside => length_field (by omega)
  simp only [encode, ofBytes, ofUInt16_toUInt16 (parts _), ofUInt32_toUInt32 (parts _),
    Nat.reduceAdd, Nat.reduceLeDiff, field_append_field, field_whole whole]

/-- A header as it is stored: fixed fields, and three areas that are as long as these say. -/
structure Stored where
  fixed : Fixed
  name : List UInt8
  extra : List UInt8
  comment : List UInt8
  name_length : name.length = fixed.nameLength.toNat
  extra_length : extra.length = fixed.extraLength.toNat
  comment_length : comment.length = fixed.commentLength.toNat

namespace Stored

variable {label record : String}

def bytes (s : Stored) : List UInt8 := written s.fixed s.name s.extra s.comment

/-- The wide values of the extra area. -/
def wide (s : Stored) : Extra.Found := Extra.find s.fixed.wanted s.extra

/-- The fields whose slots defer to a wide value that the extra area does not hold, in the order
they are resolved in. -/
def lacking (s : Stored) : List WideField :=
  [(WideField.compressedSize, (Extent.resolve s.fixed.compressedSize s.wide.compressedSize).isNone),
    (.uncompressedSize, (Extent.resolve s.fixed.uncompressedSize s.wide.uncompressedSize).isNone),
    (.headerOffset, (Extent.resolve s.fixed.headerOffset s.wide.headerOffset).isNone),
    (.disk, (DiskNumber.resolve s.fixed.disk s.wide.disk).isNone)].filterMap
    fun (field, lacks) => if lacks then some field else none

/-- What the stored bytes mean, with every slot resolved. -/
structure Means (s : Stored) (h : CentralHeader) : Prop where
  compressedSize :
    Extent.resolve s.fixed.compressedSize s.wide.compressedSize = some h.compressedSize
  uncompressedSize :
    Extent.resolve s.fixed.uncompressedSize s.wide.uncompressedSize = some h.uncompressedSize
  headerOffset : Extent.resolve s.fixed.headerOffset s.wide.headerOffset = some h.headerOffset
  disk : DiskNumber.resolve s.fixed.disk s.wide.disk = some h.disk
  others : h = { h with
    versionMadeBy := s.fixed.versionMadeBy
    versionNeeded := s.fixed.versionNeeded
    flags := s.fixed.flags
    method := .ofTag s.fixed.method
    time := s.fixed.time
    date := s.fixed.date
    crc32 := s.fixed.crc32
    name := s.name
    internalAttributes := s.fixed.internalAttributes
    externalAttributes := s.fixed.externalAttributes }

theorem length_bytes (s : Stored) :
    s.bytes.length = minLength + (s.name.length + (s.extra.length + s.comment.length)) :=
  length_written _ _ _ _

theorem minLength_le (s : Stored) : minLength ≤ s.bytes.length := by
  rw [length_bytes]
  exact Nat.le_add_right _ _

theorem parse_bytes (s : Stored) (rest : List UInt8) :
    layout.parse label record (s.bytes ++ rest) =
      (resolve s.fixed s.name s.extra).parse label record rest :=
  parse_written s.name_length s.extra_length s.comment_length rest

/-- Bytes that end within a header are cut short, whatever the header means. -/
theorem outcome_cut {s : Stored} {bytes : List UInt8} (front : bytes <+: s.bytes)
    (cut : bytes ≠ s.bytes) :
    layout.outcome label record bytes = .error (.corrupt (.truncated record)) := by
  unfold layout
  refine signature_cut front cut fun _ front cut => ?_
  refine take_cut s.fixed.length_encode front cut fun _ front cut => ?_
  rw [Fixed.ofBytes_encode]
  refine take_cut s.name_length front cut fun _ front cut => ?_
  refine take_cut s.extra_length front cut fun _ front cut => ?_
  rw [← List.append_nil s.comment] at front cut
  refine pass_cut s.comment_length front cut fun _ front cut => ?_
  exact absurd (List.prefix_nil.mp front) cut

/-- A stored header is read as what it means, and what is behind it is left. -/
theorem parse_means {s : Stored} {h : CentralHeader} (means : s.Means h) (rest : List UInt8) :
    layout.parse label record (s.bytes ++ rest) = (.ok h, rest) := by
  obtain ⟨compressedSize, uncompressedSize, headerOffset, disk, others⟩ := means
  unfold wide at compressedSize uncompressedSize headerOffset disk
  rw [parse_bytes, resolve]
  simp only [parse_bind, compressedSize, uncompressedSize, headerOffset, disk, require, parse_done]
  rw [others]

theorem Means.lacking_eq {s : Stored} {h : CentralHeader} (means : s.Means h) : s.lacking = [] := by
  unfold lacking
  rw [means.compressedSize, means.uncompressedSize, means.headerOffset, means.disk]
  rfl

/-- All slots are resolved, or reading fails with the first one that is not. -/
theorem means_or_refused (s : Stored) :
    (∃ h, s.Means h) ∨ ∃ field, s.lacking.head? = some field ∧ ∀ label record rest,
      layout.outcome label record (s.bytes ++ rest) =
        .error (.corrupt (.missingWideValue field (Text.lossy s.name))) := by
  have resolved : ∀ label record rest, layout.outcome label record (s.bytes ++ rest) =
      (resolve s.fixed s.name s.extra).outcome label record rest := fun _ _ rest => by
    rw [outcome, parse_bytes]
    rfl
  have found : Extra.find s.fixed.wanted s.extra = s.wide := rfl
  simp only [resolved, resolve, lacking, found]
  simp only [outcome, parse_bind]
  -- The slots that are resolved are passed by until the first that is not.
  cases compressed : Extent.resolve s.fixed.compressedSize s.wide.compressedSize with
  | none => exact .inr ⟨_, rfl, fun _ _ _ => rfl⟩
  | some compressedSize =>
  cases uncompressed : Extent.resolve s.fixed.uncompressedSize s.wide.uncompressedSize with
  | none => exact .inr ⟨_, rfl, fun _ _ _ => rfl⟩
  | some uncompressedSize =>
  cases offset : Extent.resolve s.fixed.headerOffset s.wide.headerOffset with
  | none => exact .inr ⟨_, rfl, fun _ _ _ => rfl⟩
  | some headerOffset =>
  cases number : DiskNumber.resolve s.fixed.disk s.wide.disk with
  | none => exact .inr ⟨_, rfl, fun _ _ _ => rfl⟩
  | some disk =>
    refine .inl ⟨⟨s.fixed.versionMadeBy, s.fixed.versionNeeded, s.fixed.flags,
      .ofTag s.fixed.method, s.fixed.time, s.fixed.date, s.fixed.crc32, compressedSize,
      uncompressedSize, s.name, disk, s.fixed.internalAttributes, s.fixed.externalAttributes,
      headerOffset⟩, compressed, uncompressed, offset, number, rfl⟩

theorem outcome_lacking {s : Stored} {field : WideField} (first : s.lacking.head? = some field)
    (rest : List UInt8) :
    layout.outcome label record (s.bytes ++ rest) =
      .error (.corrupt (.missingWideValue field (Text.lossy s.name))) := by
  rcases s.means_or_refused with ⟨h, means⟩ | ⟨field', first', refused⟩
  · rw [means.lacking_eq] at first
    cases first
  · cases first.symm.trans first'
    exact refused label record rest

/-- Bytes that start with the signature and are long enough start with a header. -/
theorem exists_stored {bytes : List UInt8} (signed : toUInt32 (field bytes 0 4) = signature)
    (long : minLength + (65535 + (65535 + 65535)) ≤ bytes.length) :
    ∃ (s : Stored) (rest : List UInt8), bytes = s.bytes ++ rest := by
  have short : ∀ n : UInt16, n.toNat ≤ 65535 := fun n => Nat.le_of_lt_succ n.toNat_lt
  unfold minLength at long
  let f := Fixed.ofBytes (field bytes 4 42)
  have names := short f.nameLength
  have extras := short f.extraLength
  have comments := short f.commentLength
  have fixed : f.encode = field bytes 4 42 := Fixed.encode_ofBytes (length_field (by omega))
  have four : ofUInt32 signature = field bytes 0 4 := by
    rw [← signed, ofUInt32_toUInt32 (length_field (by omega))]
  let s : Stored := {
    fixed := f
    name := field bytes 46 f.nameLength.toNat
    extra := field bytes (46 + f.nameLength.toNat) f.extraLength.toNat
    comment := field bytes (46 + f.nameLength.toNat + f.extraLength.toNat) f.commentLength.toNat
    name_length := length_field (by omega)
    extra_length := length_field (by omega)
    comment_length := length_field (by omega) }
  have front : s.bytes <+: bytes := by
    change written f _ _ _ <+: _
    rw [written, fixed, four, ← List.append_assoc, ← List.append_assoc, ← List.append_assoc,
      field_append_field bytes rfl, field_append_field bytes rfl, field_append_field bytes (by omega),
      field_append_field bytes (by omega), field, List.drop_zero]
    exact List.take_prefix _ _
  obtain ⟨rest, parts⟩ := front
  exact ⟨s, rest, parts.symm⟩

/-- Bytes are too few for a signature, start with another one, start with a header, or end within
one. -/
theorem stored_cases (bytes : List UInt8) :
    bytes.length < 4 ∨
      (∃ (found : UInt32) (rest : List UInt8), found ≠ signature ∧ bytes = ofUInt32 found ++ rest) ∨
      (∃ (s : Stored) (rest : List UInt8), bytes = s.bytes ++ rest) ∨
      ∃ s : Stored, bytes <+: s.bytes ∧ bytes ≠ s.bytes := by
  by_cases few : bytes.length < 4
  · exact .inl few
  right
  have four : (bytes.take 4).length = 4 := List.length_take_of_le (Nat.le_of_not_lt few)
  by_cases signed : toUInt32 (bytes.take 4) = signature
  case neg =>
    refine .inl ⟨_, bytes.drop 4, signed, ?_⟩
    rw [ofUInt32_toUInt32 four, List.take_append_drop]
  right
  -- With bytes enough behind them they start with a header, and may end in it.
  let zeros : List UInt8 := .replicate (minLength + (65535 + (65535 + 65535))) 0
  have same : field (bytes ++ zeros) 0 4 = bytes.take 4 := by
    rw [field, List.drop_zero, List.take_append_of_le_length (Nat.le_of_not_lt few)]
  have long : minLength + (65535 + (65535 + 65535)) ≤ (bytes ++ zeros).length := by
    rw [List.length_append, List.length_replicate]
    exact Nat.le_add_left _ _
  obtain ⟨s, rest, parts⟩ := exists_stored (same ▸ signed) long
  have front : bytes <+: s.bytes ++ rest := parts ▸ List.prefix_append bytes zeros
  by_cases inside : s.bytes.length ≤ bytes.length
  · obtain ⟨rest', rfl⟩ :=
      List.prefix_of_prefix_length_le (List.prefix_append s.bytes rest) front inside
    exact .inl ⟨s, rest', rfl⟩
  · refine .inr ⟨s, List.prefix_of_prefix_length_le front (List.prefix_append _ _) (by omega), ?_⟩
    rintro rfl
    exact inside (Nat.le_refl _)

end Stored

/-- Reading a header gives what the stored header in front of the bytes means, and no other bytes
can be read as one. -/
theorem parse_ok_iff {label record : String} {bytes rest : List UInt8} {h : CentralHeader} :
    layout.parse label record bytes = (.ok h, rest) ↔
      ∃ s : Stored, bytes = s.bytes ++ rest ∧ s.Means h := by
  constructor
  · intro read
    have ok : layout.outcome label record bytes = .ok h := outcome_eq_iff.mpr ⟨rest, read⟩
    rcases Stored.stored_cases bytes with
      few | ⟨found, rest', other, rfl⟩ | ⟨s, rest', rfl⟩ | ⟨s, front, cut⟩
    · rw [layout, signature_short few] at ok
      cases ok
    · rw [layout, parse_other_signature other] at read
      cases read
    · rcases s.means_or_refused with ⟨h', means⟩ | ⟨field, -, refused⟩
      · rw [Stored.parse_means means] at read
        cases read
        exact ⟨s, rfl, means⟩
      · rw [refused] at ok
        cases ok
    · rw [Stored.outcome_cut front cut] at ok
      cases ok
  · rintro ⟨s, rfl, means⟩
    exact Stored.parse_means means rest

end CentralHeader

/-! ## Headers that are listed -/

namespace Directory

variable {σ : Type} {source : Source σ} {content : ByteArray}

/-- The header is one of this disk, in an archive of `size` bytes. -/
structure Listable (size : Nat) (directory : DirectoryEnd) (s : CentralHeader.Stored)
    (h : CentralHeader) : Prop where
  means : s.Means h
  disk : h.disk.value = directory.thisDisk
  offset : h.headerOffset.value.toNat < size

/-- What is wrong with bytes that no header to be listed stands in front of. -/
inductive Offends (size : Nat) (directory : DirectoryEnd) : List UInt8 → ZipError → Prop where
  | short {bytes : List UInt8} (few : bytes.length < 4) :
    Offends size directory bytes (.corrupt (.truncated CentralHeader.recordName))
  | signature {found : UInt32} (other : found ≠ CentralHeader.signature) (rest : List UInt8) :
    Offends size directory (ofUInt32 found ++ rest)
      (.badSignature CentralHeader.recordName CentralHeader.signature found)
  | cut {bytes : List UInt8} (s : CentralHeader.Stored) (front : bytes <+: s.bytes)
      (cut : bytes ≠ s.bytes) :
    Offends size directory bytes (.corrupt (.truncated CentralHeader.recordName))
  | lacking {s : CentralHeader.Stored} {field : WideField} (first : s.lacking.head? = some field)
      (rest : List UInt8) :
    Offends size directory (s.bytes ++ rest)
      (.corrupt (.missingWideValue field (Text.lossy s.name)))
  | otherDisk {s : CentralHeader.Stored} {h : CentralHeader} (means : s.Means h)
      (disk : h.disk.value ≠ directory.thisDisk) (rest : List UInt8) :
    Offends size directory (s.bytes ++ rest) (.multiDisk none)
  | beyondEnd {s : CentralHeader.Stored} {h : CentralHeader} (means : s.Means h)
      (disk : h.disk.value = directory.thisDisk) (offset : size ≤ h.headerOffset.value.toNat)
      (rest : List UInt8) :
    Offends size directory (s.bytes ++ rest)
      (.corrupt (.headerBeyondEnd (Text.lossy h.name) h.headerOffset.value.toNat))

/-- A header to be listed stands in front of the bytes, or something is wrong with them. -/
theorem listable_or_offends (size : Nat) (directory : DirectoryEnd) (bytes : List UInt8) :
    (∃ s h rest, bytes = s.bytes ++ rest ∧ Listable size directory s h) ∨
      ∃ error, Offends size directory bytes error := by
  rcases CentralHeader.Stored.stored_cases bytes with
    few | ⟨found, rest, other, rfl⟩ | ⟨s, rest, rfl⟩ | ⟨s, front, cut⟩
  · exact .inr ⟨_, .short few⟩
  · exact .inr ⟨_, .signature other rest⟩
  · rcases s.means_or_refused with ⟨h, means⟩ | ⟨field, first, -⟩
    · by_cases disk : h.disk.value = directory.thisDisk
      · by_cases offset : h.headerOffset.value.toNat < size
        · exact .inl ⟨s, h, rest, rfl, means, disk, offset⟩
        · exact .inr ⟨_, .beyondEnd means disk (Nat.le_of_not_lt offset) rest⟩
      · exact .inr ⟨_, .otherDisk means disk rest⟩
    · exact .inr ⟨_, .lacking first rest⟩
  · exact .inr ⟨_, .cut s front cut⟩

/-- The member that a header is listed as, at its place in the directory. -/
def memberFor (options : Options) (index : Nat) (h : CentralHeader) : Member where
  index
  path := if options.sanitizePaths then Path.sanitize h.name else h.name
  headerStart := h.headerOffset.value.toNat
  info := h.info

variable (options : Options) (directory : DirectoryEnd)

theorem listed_cons {s : CentralHeader.Stored} {h : CentralHeader}
    (fit : Listable source.size directory s h) (count : Nat) (rest : List UInt8)
    (members : Array Member) :
    listed source options directory (count + 1) (s.bytes ++ rest) members =
      listed source options directory count rest
        (members.push (memberFor options members.size h)) := by
  obtain ⟨means, disk, offset⟩ := fit
  have member : memberOf source options directory members.size h =
      .ok (memberFor options members.size h) := by
    rw [memberOf, if_neg (not_not_intro disk), if_neg (Nat.not_le_of_lt offset)]
    rfl
  rw [listed, CentralHeader.Stored.parse_means means]
  simp only [member]

theorem listed_offends {bytes : List UInt8} {error : ZipError}
    (wrong : Offends source.size directory bytes error) (count : Nat) (members : Array Member) :
    listed source options directory (count + 1) bytes members = .error error := by
  have refused : ∀ {bytes error}, CentralHeader.layout.outcome source.label
      CentralHeader.recordName bytes = .error error →
        listed source options directory (count + 1) bytes members = .error error := by
    intro bytes error read
    obtain ⟨rest, parsed⟩ := outcome_eq_iff.mp read
    rw [listed, parsed]
  have unfit : ∀ {s : CentralHeader.Stored} {h : CentralHeader} {rest error}, s.Means h →
      memberOf source options directory members.size h = .error error →
        listed source options directory (count + 1) (s.bytes ++ rest) members = .error error := by
    intro s h rest error means member
    rw [listed, CentralHeader.Stored.parse_means means]
    simp only [member]
  cases wrong with
  | short few => exact refused (signature_short few)
  | signature other rest =>
    exact refused (outcome_eq_iff.mpr ⟨_, parse_other_signature other _ rest⟩)
  | cut s front cut => exact refused (CentralHeader.Stored.outcome_cut front cut)
  | lacking first rest => exact refused (CentralHeader.Stored.outcome_lacking first rest)
  | otherDisk means disk rest => exact unfit means (if_pos disk)
  | beyondEnd means disk offset rest =>
    refine unfit means ?_
    rw [memberOf, if_neg (not_not_intro disk), if_pos offset]

/-- The bytes begin with these headers, one right behind the other, and each is to be listed. -/
structure BeginsWith (size : Nat) (bytes : List UInt8)
    (entries : List (CentralHeader.Stored × CentralHeader)) (rest : List UInt8) : Prop where
  parts : bytes = entries.flatMap (·.1.bytes) ++ rest
  listable : ∀ entry ∈ entries, Listable size directory entry.1 entry.2

theorem beginsWith_nil (size : Nat) (bytes : List UInt8) :
    BeginsWith directory size bytes [] bytes where
  parts := rfl
  listable _ among := absurd among List.not_mem_nil

variable {directory}

/-- A row of headers is listed one by one, and then comes what is behind it. -/
theorem listed_row {bytes rest : List UInt8}
    {entries : List (CentralHeader.Stored × CentralHeader)}
    (row : BeginsWith directory source.size bytes entries rest) (count : Nat)
    (members : Array Member) :
    listed source options directory (entries.length + count) bytes members =
      listed source options directory count rest
        (members ++ (entries.mapIdx fun i entry =>
          memberFor options (members.size + i) entry.2).toArray) := by
  obtain ⟨rfl, listable⟩ := row
  induction entries generalizing members with
  | nil => simp
  | cons entry entries ih =>
    have fit := listable entry List.mem_cons_self
    have others := ih (members.push (memberFor options members.size entry.2))
      fun e among => listable e (List.mem_cons_of_mem entry among)
    rw [List.length_cons, Nat.add_right_comm, List.flatMap_cons, List.append_assoc,
      listed_cons options directory fit, others]
    simp [List.mapIdx_cons, Nat.add_comm 1, Nat.add_assoc]

/-- As far as headers to be listed stand in front of some bytes, they are a row: of all that are
counted, or up to bytes that no such header stands in front of. -/
theorem row_or_offends (size : Nat) (directory : DirectoryEnd) (count : Nat)
    (bytes : List UInt8) :
    ∃ entries rest, BeginsWith directory size bytes entries rest ∧
      (entries.length = count ∨
        entries.length < count ∧ ∃ error, Offends size directory rest error) := by
  induction count generalizing bytes with
  | zero => exact ⟨[], bytes, beginsWith_nil directory size bytes, .inl rfl⟩
  | succ count ih =>
    rcases listable_or_offends size directory bytes with ⟨s, h, rest, rfl, fit⟩ | ⟨error, wrong⟩
    · obtain ⟨entries, rest', ⟨rfl, listable⟩, ends⟩ := ih rest
      refine ⟨(s, h) :: entries, rest', ⟨?_, ?_⟩, ?_⟩
      · rw [List.flatMap_cons, List.append_assoc]
      · exact List.forall_mem_cons.mpr ⟨fit, listable⟩
      · rw [List.length_cons, Nat.add_right_cancel_iff, Nat.add_lt_add_iff_right]
        exact ends
    · exact ⟨[], bytes, beginsWith_nil directory size bytes,
        .inr ⟨Nat.zero_lt_succ count, error, wrong⟩⟩

theorem listed_ok_iff {count : Nat} {bytes : List UInt8} {table : Array Member} :
    listed source options directory count bytes #[] = .ok table ↔
      ∃ entries rest, BeginsWith directory source.size bytes entries rest ∧
        entries.length = count ∧
        table = (entries.mapIdx fun i entry => memberFor options i entry.2).toArray := by
  constructor
  · intro read
    obtain ⟨entries, rest, row, all | ⟨some, error, wrong⟩⟩ :=
      row_or_offends source.size directory count bytes
    · have whole := listed_row options row 0 #[]
      rw [Nat.add_zero, all, read] at whole
      refine ⟨entries, rest, row, all, ?_⟩
      simpa [listed] using whole
    · obtain ⟨left, rfl⟩ := Nat.exists_eq_add_of_lt some
      rw [Nat.add_assoc, listed_row options row, listed_offends options directory wrong] at read
      cases read
  · rintro ⟨entries, rest, row, rfl, rfl⟩
    have whole := listed_row options row 0 #[]
    simpa [listed] using whole

theorem listed_error_iff {count : Nat} {bytes : List UInt8} {error : ZipError} :
    listed source options directory count bytes #[] = .error error ↔
      ∃ entries rest, BeginsWith directory source.size bytes entries rest ∧
        entries.length < count ∧ Offends source.size directory rest error := by
  have offending : ∀ {entries rest error}, BeginsWith directory source.size bytes entries rest →
      entries.length < count → Offends source.size directory rest error →
        listed source options directory count bytes #[] = .error error := by
    intro entries rest error row some wrong
    obtain ⟨left, rfl⟩ := Nat.exists_eq_add_of_lt some
    rw [Nat.add_assoc, listed_row options row, listed_offends options directory wrong]
  constructor
  · intro read
    obtain ⟨entries, rest, row, all | ⟨some, error', wrong⟩⟩ :=
      row_or_offends source.size directory count bytes
    · have whole := listed_row options row 0 #[]
      rw [Nat.add_zero, all, read] at whole
      cases whole
    · cases (offending row some wrong).symm.trans read
      exact ⟨entries, rest, row, some, wrong⟩
  · rintro ⟨entries, rest, row, some, wrong⟩
    exact offending row some wrong

/-! ## Headers that are read at all -/

/-- The window is used up before this many headers, so reading more of them is the same run. -/
theorem readMembers_capped (holds : source.Holds content) {n m : Nat} (le : n ≤ m) {b : Buffered}
    {cursor stop : Nat} (reads : b.Reads content cursor stop)
    (few : (span content cursor stop).length < CentralHeader.minLength * n)
    (members : Array Member) (r : Run σ) :
    (readMembers source options directory m b members).run r =
      (readMembers source options directory n b members).run r := by
  induction n generalizing m b cursor members r with
  | zero => exact absurd few (Nat.not_lt_zero _)
  | succ n ih =>
    obtain ⟨m, rfl⟩ : ∃ m', m = m' + 1 := ⟨m - 1, by omega⟩
    unfold readMembers
    rcases parsed : CentralHeader.layout.parse source.label CentralHeader.recordName
      (span content cursor stop) with ⟨e | header, rest⟩
    · obtain ⟨s, read⟩ := Action.run_readRecord_error holds reads parsed r
      rw [Action.run_bind_error read, Action.run_bind_error read]
    · obtain ⟨b', cursor', s, onward, rfl, read⟩ := Action.run_readRecord_ok holds reads parsed r
      rw [Action.run_bind_ok read, Action.run_bind_ok read]
      obtain ⟨stored, parts, _⟩ := CentralHeader.parse_ok_iff.mp parsed
      have taken := stored.minLength_le
      rw [parts, List.length_append, Nat.mul_succ] at few
      dsimp only
      cases memberOf source options directory members.size header with
      | error e =>
        have raised := fun α => @Action.run_raise σ α source e ⟨s, r.log⟩
        exact (Action.run_bind_error (raised _)).trans (Action.run_bind_error (raised _)).symm
      | ok member => exact ih (Nat.le_of_succ_le_succ le) onward (by omega) _ _

/-- Reading the first so many headers of a directory. What is logged is how many there should be. -/
def readFirst (source : Source σ) (options : Options) (directory : DirectoryEnd) (count : Nat) :
    Action σ (Array Member) := do
  Action.log (.readingDirectory (recordCount options directory) directory.recordsHere.toNat)
  let stop ← Action.inRange source (addOffset? directory.offset.toNat directory.size.toNat)
  let view := View.new source.size directory.offset.toNat stop
  readMembers source options directory count ⟨view, blockSize, .empty, 0⟩ #[]

theorem read_eq_readFirst (source : Source σ) :
    read source options directory =
      readFirst source options directory (recordCount options directory) := rfl

theorem readFirst_capped (holds : source.Holds content)
    (inside : directory.offset.toNat + directory.size.toNat ≤ content.size) {n m : Nat} (le : n ≤ m)
    (few : directory.size.toNat < CentralHeader.minLength * n) (r : Run σ) :
    (readFirst source options directory m).run r = (readFirst source options directory n).run r := by
  have in_range : directory.offset.toNat + directory.size.toNat < offsetBound :=
    Nat.lt_of_le_of_lt inside holds.size_lt
  have window := Buffered.reads_new_inside (Nat.le_add_right directory.offset.toNat
    directory.size.toNat) inside blockSize
  unfold readFirst
  rw [addOffset?, if_pos in_range, holds.size_eq]
  refine readMembers_capped options holds le window ?_ #[]
    { r with log := r.log.push (.readingDirectory _ _) }
  rwa [length_span_of_le inside, Nat.add_sub_cancel_left]

/-- Reading a directory accepts a row of as many headers as are counted and wanted, gives a member
for each in its place, and else fails with what is wrong at the first place where no such header
stands. Whatever the count is, no more headers are read than the directory has room for, and one. -/
theorem read_accepts (holds : source.Holds content)
    (inside : directory.offset.toNat + directory.size.toNat ≤ content.size) (r : Run σ) :
    let window := span content directory.offset.toNat
      (directory.offset.toNat + directory.size.toNat)
    let count := recordCount options directory
    let result := ((read source options directory).run r).1
    (∀ table, result = .ok table ↔
      ∃ entries rest, BeginsWith directory content.size window entries rest ∧
        entries.length = count ∧
        (entries.flatMap (·.1.bytes)).length ≤ directory.size.toNat ∧
        table = (entries.mapIdx fun i entry => memberFor options i entry.2).toArray) ∧
    (∀ error, result = .error error ↔
      ∃ entries rest, BeginsWith directory content.size window entries rest ∧
        entries.length < count ∧ Offends content.size directory rest error) ∧
    (read source options directory).run r =
      (readFirst source options directory (min count (directory.size.toNat / 46 + 1))).run r := by
  intro window count result
  have in_range : directory.offset.toNat + directory.size.toNat < offsetBound :=
    Nat.lt_of_le_of_lt inside holds.size_lt
  have result_eq : result = listed source options directory count window #[] :=
    (read_yields options directory holds in_range).result_eq r
  rw [result_eq, ← holds.size_eq]
  refine ⟨fun table => ?_, fun error => listed_error_iff options, ?_⟩
  · rw [listed_ok_iff]
    constructor
    · rintro ⟨entries, rest, row, all, table_eq⟩
      have length := congrArg List.length row.parts
      rw [length_span_of_le inside, List.length_append] at length
      exact ⟨entries, rest, row, all, by omega, table_eq⟩
    · rintro ⟨entries, rest, row, all, _, table_eq⟩
      exact ⟨entries, rest, row, all, table_eq⟩
  · rw [read_eq_readFirst]
    rcases Nat.le_total count (directory.size.toNat / 46 + 1) with few | many
    · rw [Nat.min_eq_left few]
    · rw [Nat.min_eq_right many]
      refine readFirst_capped options holds inside many ?_ r
      unfold CentralHeader.minLength
      omega

/-- The header of an empty member `a` whose local header is at offset 0. -/
def lonelyHeader : CentralHeader.Stored where
  fixed := ⟨20, 20, 0, 0, 0, 0, 0, 0, 0, 1, 0, 0, 0, 0, 0, 0⟩
  name := [97]
  extra := []
  comment := []
  name_length := rfl
  extra_length := rfl
  comment_length := rfl

/-- What the header means. -/
def lonelyMeaning : CentralHeader :=
  ⟨20, 20, 0, .stored, 0, 0, 0, .classic 0, .classic 0, [97], .classic 0, 0, 0, .classic 0⟩

/-- The end record of a directory that holds just this header, and tells of all that can be told. -/
def boastfulEnd : DirectoryEnd where
  thisDisk := 0
  startDisk := 0
  recordsHere := 18446744073709551615
  recordsTotal := 18446744073709551615
  size := 47
  offset := 0

/-- If one header is wanted it is listed, and if all are, the directory is cut short behind it. -/
theorem boastfulEnd_read :
    let source := Source.ofContent "a.zip" lonelyHeader.bytes.toByteArray
    ((read source { limit := some 1 } boastfulEnd).run ⟨(), #[]⟩).1 =
        .ok #[⟨0, [97], 0, lonelyMeaning.info⟩] ∧
      ((read source {} boastfulEnd).run ⟨(), #[]⟩).1 =
        .error (.corrupt (.truncated CentralHeader.recordName)) := by
  have size : lonelyHeader.bytes.toByteArray.size = 47 := by
    rw [List.size_toByteArray]
    rfl
  have small : lonelyHeader.bytes.toByteArray.size < fileOffsetLimit := by
    rw [size]
    decide
  have holds := (Source.ofContent_serves "a.zip" small).holds
  have inside : boastfulEnd.offset.toNat + boastfulEnd.size.toNat ≤
      lonelyHeader.bytes.toByteArray.size := by
    rw [size]
    decide
  have fit : Listable lonelyHeader.bytes.toByteArray.size boastfulEnd lonelyHeader lonelyMeaning :=
    ⟨⟨rfl, rfl, rfl, rfl, rfl⟩, rfl, by rw [size]; decide⟩
  have row : BeginsWith boastfulEnd lonelyHeader.bytes.toByteArray.size
      (span lonelyHeader.bytes.toByteArray 0 (0 + 47)) [(lonelyHeader, lonelyMeaning)] [] :=
    ⟨by decide +kernel, List.forall_mem_singleton.mpr fit⟩
  obtain ⟨ok_iff, _⟩ := read_accepts { limit := some 1 } holds inside ⟨(), #[]⟩
  obtain ⟨_, error_iff, _⟩ := read_accepts {} holds inside ⟨(), #[]⟩
  exact ⟨(ok_iff _).mpr ⟨_, _, row, rfl, by decide, rfl⟩,
    (error_iff _).mpr ⟨_, _, row, by decide, .short (by decide)⟩⟩

end Directory
end ZipArchive
