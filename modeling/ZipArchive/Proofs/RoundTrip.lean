import ZipArchive.Decode.Standard
import ZipArchive.Proofs.Drafts
import ZipArchive.Proofs.FaultRuns
import ZipArchive.Proofs.StreamServing

/-!
# Archives are read back as they were written

Opening an archive that is laid out from a draft gives the members of the draft, and each of them is
found where its entry was written (`Draft.read_back`). The comment may hold what looks like another
end record, as long as that record is not consistent.
-/
namespace ZipArchive

variable {σ : Type} {source : Source σ} {content : ByteArray} {isWide : Bool}

/-! ## One entry -/

namespace Entry

/-- Where the content of a member is found whose local header stands at `offset`. -/
def range (isWide : Bool) (e : Entry) (offset : Nat) : DataRange where
  header := e.localRead isWide
  compressedSize := e.storedSize
  uncompressedSize := e.plainSize
  start := offset + (e.localHeader isWide).length
  stop := offset + (e.localHeader isWide).length + e.payload.length

variable {e : Entry}

theorem flag_set_iff (flagged : Bool) :
    decide ((if flagged then descriptorFlag else 0) &&& descriptorFlag ≠ 0) = flagged := by
  cases flagged with
  | true => decide
  | false => decide

/-- The local header tells of a descriptor if there is one. -/
theorem hasDescriptor_localRead : (e.localRead isWide).hasDescriptor = e.hasDescriptor :=
  flag_set_iff e.hasDescriptor

/-- The sizes that count are those of the entry, whichever header they come from. -/
theorem sizes_localRead (fits : e.Fits isWide) (index offset : Nat) :
    (e.member index offset).sizes (e.localRead isWide) = (e.storedSize, e.plainSize) := by
  unfold Member.sizes
  rw [hasDescriptor_localRead]
  cases descriptor : e.hasDescriptor with
  | true =>
    rw [if_pos rfl]
    rfl
  | false =>
    have compressed := Extent.value_ofSlot fits.storedSize
    have uncompressed := Extent.value_ofSlot fits.plainSize
    simp only [localRead, localExtent, descriptor, Bool.false_eq_true, if_false, compressed,
      uncompressed]

theorem length_localHeader_le (fits : e.Fits isWide) :
    (e.localHeader isWide).length ≤ LocalHeader.maxLength := by
  have name := fits.name
  have area := fits.localArea
  have length := LocalHeader.length_written (e.localFixed isWide) (length_ofUInt16 version)
    (@length_moment e) e.name (e.localArea isWide)
  unfold LocalHeader.maxLength
  rw [localHeader, length]
  omega

/-- The content of a member is found behind its local header. -/
theorem ranged_written (fits : e.Fits isWide) {before after : List UInt8} (index : Nat)
    (written : content.data.toList = before ++ (e.localHeader isWide ++ (e.payload ++ after)))
    (size_lt : content.size < fileOffsetLimit) :
    (e.member index before.length).ranged source content = .ok (e.range isWide before.length) := by
  obtain ⟨rest, window⟩ := span_of_front written (length_localHeader_le fits)
  have size : content.size =
      before.length + ((e.localHeader isWide).length + (e.payload.length + after.length)) := by
    rw [size_of_toList written]
    simp only [List.length_append]
  have stored : e.storedSize.toNat = e.payload.length := toNat_ofNat_of_small (by omega)
  have inside :
      before.length + (e.localHeader isWide).length + e.payload.length ≤ content.size := by omega
  have header : (e.member index before.length).headerBytes content = e.localHeader isWide ++ rest :=
    window
  have read : (e.member index before.length).headerRead source content =
      .ok (e.localRead isWide) := by
    refine Layout.outcome_eq_iff.mpr ⟨rest, ?_⟩
    rw [header]
    exact parse_localHeader fits rest
  unfold Member.ranged
  rw [read]
  change Member.rangeBehind _ content.size (e.localRead isWide) = _
  unfold Member.rangeBehind
  rw [sizes_localRead fits, length_localRead fits]
  dsimp only
  rw [stored]
  exact if_pos inside

end Entry

/-! ## Stored members -/

section
variable [Decoders]

theorem Member.plug_stored {m : Member} {range : DataRange} {r r' : Run σ}
    (found : (m.dataRange source).run r = (.ok range, r'))
    (stage : range.header.method.stage? = some .identity) :
    (m.plug source).run r = (.ok ⟨m.path, range.uncompressedSize,
      .stored (View.new source.size range.start range.stop)⟩, r') := by
  unfold Member.plug
  rw [Action.run_bind_ok found]
  simp only [stage]
  rfl

/-- A member is not plugged if there is no decoder for the method that its local header names. -/
theorem Member.plug_unsupported {m : Member} {range : DataRange} {r r' : Run σ}
    (found : (m.dataRange source).run r = (.ok range, r'))
    (stage : range.header.method.stage? = none) :
    ∃ r'', (m.plug source).run r =
      (.error (.unsupportedMethod m.name range.header.method), r'') := by
  unfold Member.plug
  rw [Action.run_bind_ok found]
  simp only [stage]
  exact ⟨_, Action.run_raise ..⟩

/-- A stored member is extracted as the bytes of its range. -/
theorem Archive.extract_stored (serves : source.Serves content) {a : Archive} {index : Nat}
    {path : List UInt8} {size : UInt64} {start stop : Nat} {r r' : Run σ} (ordered : start ≤ stop)
    (inside : stop ≤ content.size)
    (plugged : (a.plug source index).run r =
      (.ok ⟨path, size, .stored (View.new source.size start stop)⟩, r')) :
    ∃ bytes : ByteArray,
      ((a.extract source index none).run r).1 = .ok ⟨bytes, bytes.size.toUInt64⟩ ∧
      bytes.data.toList = span content start stop := by
  have view : View.new source.size start stop = ⟨start, stop, start⟩ := by
    rw [View.new, serves.size_eq, Nat.min_eq_left inside, Nat.min_eq_left ordered]
  have window : View.WellFormed ⟨start, stop, start⟩ content.size :=
    ⟨Nat.le_refl start, ordered, inside⟩
  have asks : ∀ there, 0 < askWithin none there := fun _ => Nat.zero_lt_succ _
  have collected := MemberStream.collect_stored serves asks .empty _ r'.state window
  rw [view] at plugged
  rcases answer : (MemberStream.stored ⟨start, stop, start⟩).collect source (askWithin none) .empty
    r'.state with ⟨result, stream, s⟩
  rw [answer, ByteArray.empty_append] at collected
  dsimp only at collected
  subst collected
  refine ⟨slice content start (stop - start), ?_, ?_⟩
  · rw [extract_eq, Action.run_bind_ok plugged, Action.run_bind_ok (run_collectWithin _ r' answer)]
    rfl
  · rw [toList_slice, Nat.add_sub_cancel' ordered]

end

/-! ## Entries in their places -/

theorem contentsOf_split {entries : List Entry} {i : Nat} (inside : i < entries.length) :
    contentsOf isWide entries = contentsOf isWide (entries.take i) ++
      (entries[i].written isWide ++ contentsOf isWide (entries.drop (i + 1))) := by
  have parts : entries = entries.take i ++ entries[i] :: entries.drop (i + 1) := by
    rw [List.getElem_cons_drop, List.take_append_drop]
  calc contentsOf isWide entries
      = contentsOf isWide (entries.take i ++ entries[i] :: entries.drop (i + 1)) := by rw [← parts]
    _ = _ := by simp only [contentsOf, List.flatMap_append, List.flatMap_cons]

namespace Draft

variable {d : Draft}

/-- The offset of an entry's local header. -/
def headerOffset (d : Draft) (i : Nat) : Nat := (contentsOf d.isWide (d.entries.take i)).length

theorem members_getElem? {i : Nat} (inside : i < d.entries.length) :
    d.members[i]? = some (d.entries[i].member i (d.headerOffset i)) := by
  simp only [members, membersOf, List.getElem?_mapIdx, List.getElem?_eq_getElem inside,
    Option.map_some, Nat.zero_add, headerOffset]

/-- An entry in its place: its local header, its payload, and the rest of the archive. -/
theorem toList_entry (written : content.data.toList = d.bytes) {i : Nat}
    (inside : i < d.entries.length) :
    ∃ after, content.data.toList = contentsOf d.isWide (d.entries.take i) ++
      (d.entries[i].localHeader d.isWide ++ (d.entries[i].payload ++ after)) := by
  refine ⟨d.entries[i].descriptor ++ (contentsOf d.isWide (d.entries.drop (i + 1)) ++
    (d.headers ++ (d.wideEnd ++ (d.classicEnd.encode ++ d.comment)))), ?_⟩
  rw [written, bytes, contents, contentsOf_split inside, Entry.written]
  simp only [List.append_assoc]

theorem ranged_member (fits : d.Fits) (written : content.data.toList = d.bytes)
    (size_lt : content.size < fileOffsetLimit) {i : Nat} (inside : i < d.entries.length) :
    (d.entries[i].member i (d.headerOffset i)).ranged source content =
      .ok (d.entries[i].range d.isWide (d.headerOffset i)) := by
  obtain ⟨after, placed⟩ := toList_entry written inside
  exact Entry.ranged_written (fits.entries _ (List.getElem_mem inside)) i placed size_lt

/-- The range of an entry delimits its payload. -/
theorem span_range (written : content.data.toList = d.bytes) {i : Nat}
    (inside : i < d.entries.length) :
    let range := d.entries[i].range d.isWide (d.headerOffset i)
    span content range.start range.stop = d.entries[i].payload := by
  obtain ⟨after, placed⟩ := toList_entry written inside
  rw [← List.append_assoc] at placed
  have payload := span_of_middle placed
  rwa [List.length_append] at payload

/-! ## Opening the archive -/

/-- Nothing above the classic end record is consistent, so the scan ends with it. -/
theorem last_written (fits : d.Fits) (written : content.data.toList = d.bytes) {tailWindow : Nat}
    (reach : d.comment.length + ClassicEnd.length ≤ max tailWindow ClassicEnd.length)
    (alone : ∀ o > d.trailerOffset, Trailer.Candidate content tailWindow o →
      ¬ Trailer.Consistent content o) :
    IsGreatest {o | Trailer.Candidate content tailWindow o ∧ Trailer.Consistent content o}
      d.trailerOffset := by
  have size := size_written written
  have candidate : Trailer.Candidate content tailWindow d.trailerOffset := by
    refine ⟨?_, ?_, wordAt_trailerOffset written⟩
    · unfold Trailer.windowLength
      omega
    · omega
  constructor
  · exact ⟨candidate, consistent_written fits written⟩
  · rintro o ⟨other, consistent⟩
    by_contra above
    exact alone o (Nat.lt_of_not_le above) other consistent

/-- Without a comment there is no room above the classic end record. -/
theorem candidate_le (written : content.data.toList = d.bytes) (bare : d.comment = [])
    {tailWindow o : Nat} (candidate : Trailer.Candidate content tailWindow o) :
    o ≤ d.trailerOffset := by
  have size := size_written written
  have room := candidate.room
  rw [bare, List.length_nil] at size
  omega

theorem load_written (serves : source.Serves content) (fits : d.Fits)
    (written : content.data.toList = d.bytes) {options : Options}
    (asStored : options.sanitizePaths = false) (all : options.limit = none)
    (reach : d.comment.length + ClassicEnd.length ≤ max options.tailWindow ClassicEnd.length)
    (alone : ∀ o > d.trailerOffset, Trailer.Candidate content options.tailWindow o →
      ¬ Trailer.Consistent content o) (r : Run σ) :
    ((Archive.load source options).run r).1 = .ok ⟨d.members.toArray⟩ := by
  have small := directory_lt written serves.size_lt
  have in_range : d.directoryEnd.offset.toNat + d.directoryEnd.size.toNat < offsetBound := by
    rw [toNat_offset written serves.size_lt, toNat_size written serves.size_lt]
    exact Nat.lt_trans small (by decide)
  have located := Trailer.locate_result serves options.tailWindow r
  rw [Trailer.located_accepted (last_written fits written reach alone),
    completed_written fits written serves.size_lt] at located
  obtain ⟨s, read⟩ := Directory.read_yields options d.directoryEnd serves.holds in_range
    ((Trailer.locate source options.tailWindow).run r).2
  rw [described_written fits written serves.size_lt serves.size_eq asStored all] at read
  unfold Archive.load
  rw [Action.run_bind_ok (Prod.ext located rfl)]
  change ((Directory.read source options d.directoryEnd >>= _).run _).1 = _
  rw [Action.run_bind_ok read]
  rfl

/-! ## Reading its members -/

/-- The archive that a draft is read back as. -/
def archive (d : Draft) : Archive := ⟨d.members.toArray⟩

theorem member_written {i : Nat} (inside : i < d.entries.length) (r : Run σ) :
    (d.archive.member source i).run r = (.ok (d.entries[i].member i (d.headerOffset i)), r) := by
  have found : d.archive.members[i]? = some (d.entries[i].member i (d.headerOffset i)) := by
    rw [archive, List.getElem?_toArray, members_getElem? inside]
  unfold Archive.member
  rw [found]
  rfl

theorem dataRange_written (serves : source.Serves content) (fits : d.Fits)
    (written : content.data.toList = d.bytes) {i : Nat} (inside : i < d.entries.length)
    (r : Run σ) :
    ∃ r', (d.archive.dataRange source i).run r =
      (.ok (d.entries[i].range d.isWide (d.headerOffset i)), r') := by
  obtain ⟨s, found⟩ :=
    (d.entries[i].member i (d.headerOffset i)).dataRange_yields serves.holds r
  rw [ranged_member fits written serves.size_lt inside] at found
  exact ⟨_, (Action.run_bind_ok (member_written inside r)).trans found⟩

section
variable [Decoders]

theorem plug_written (serves : source.Serves content) (fits : d.Fits)
    (written : content.data.toList = d.bytes) {i : Nat} (inside : i < d.entries.length)
    (stored : d.entries[i].method = 0) (r : Run σ) :
    let range := d.entries[i].range d.isWide (d.headerOffset i)
    ∃ r', (d.archive.plug source i).run r =
      (.ok ⟨d.entries[i].name, d.entries[i].plainSize,
        .stored (View.new source.size range.start range.stop)⟩, r') := by
  obtain ⟨s, found⟩ :=
    (d.entries[i].member i (d.headerOffset i)).dataRange_yields serves.holds r
  rw [ranged_member fits written serves.size_lt inside] at found
  have stage : (CompressionMethod.ofTag d.entries[i].method).stage? = some .identity := by
    rw [stored]
    rfl
  exact ⟨_, (Action.run_bind_ok (member_written inside r)).trans (Member.plug_stored found stage)⟩

theorem plug_unsupported (serves : source.Serves content) (fits : d.Fits)
    (written : content.data.toList = d.bytes) {i : Nat} (inside : i < d.entries.length)
    (unsupported : (CompressionMethod.ofTag d.entries[i].method).stage? = none) (r : Run σ) :
    ∃ error r', (d.archive.plug source i).run r = (.error error, r') := by
  obtain ⟨s, found⟩ :=
    (d.entries[i].member i (d.headerOffset i)).dataRange_yields serves.holds r
  rw [ranged_member fits written serves.size_lt inside] at found
  obtain ⟨r', refused⟩ := Member.plug_unsupported found unsupported
  exact ⟨_, r', (Action.run_bind_ok (member_written inside r)).trans refused⟩

/-- A stored member is extracted as its payload. -/
theorem extract_written (serves : source.Serves content) (fits : d.Fits)
    (written : content.data.toList = d.bytes) {i : Nat} (inside : i < d.entries.length)
    (stored : d.entries[i].method = 0) (r : Run σ) :
    ∃ bytes : ByteArray,
      ((d.archive.extract source i none).run r).1 = .ok ⟨bytes, bytes.size.toUInt64⟩ ∧
      bytes.data.toList = d.entries[i].payload := by
  obtain ⟨r', plugged⟩ := plug_written serves fits written inside stored r
  obtain ⟨after, placed⟩ := toList_entry written inside
  have room : (d.entries[i].range d.isWide (d.headerOffset i)).stop ≤ content.size := by
    rw [size_of_toList placed]
    simp only [List.length_append, Entry.range, headerOffset]
    omega
  rw [← span_range written inside]
  exact Archive.extract_stored serves (Nat.le_add_right _ _) room plugged

/-- An archive that is laid out from a draft is read back as the draft: opening it succeeds with the
members in order, each member's range delimits the payload of its entry, and a stored member is
extracted as it was given. A comment must not hold a consistent end record of its own, and without a
comment there is none. -/
theorem read_back (serves : source.Serves content) (fits : d.Fits)
    (written : content.data.toList = d.bytes) {tailWindow : Nat}
    (reach : d.comment.length + ClassicEnd.length ≤ max tailWindow ClassicEnd.length) :
    (d.comment = [] → ∀ o > d.trailerOffset, ¬ Trailer.Candidate content tailWindow o) ∧
    ((∀ o > d.trailerOffset, Trailer.Candidate content tailWindow o →
        ¬ Trailer.Consistent content o) →
      ∀ r : Run σ, ((Archive.load source { tailWindow }).run r).1 = .ok d.archive) ∧
    d.archive.members.size = d.entries.length ∧
    ∀ i (inside : i < d.entries.length),
      let e := d.entries[i]
      let range := e.range d.isWide (d.headerOffset i)
      d.archive.members[i]? = some (e.member i (d.headerOffset i)) ∧
        span content range.start range.stop = e.payload ∧
        ∀ r : Run σ, ((d.archive.dataRange source i).run r).1 = .ok range ∧
          (e.method = 0 → ∃ bytes : ByteArray,
            ((d.archive.extract source i none).run r).1 = .ok ⟨bytes, bytes.size.toUInt64⟩ ∧
            bytes.data.toList = e.payload) := by
  refine ⟨?_, ?_, ?_, ?_⟩
  · intro bare o above candidate
    exact Nat.not_lt_of_le (candidate_le written bare candidate) above
  · intro alone r
    exact @load_written σ source content d serves fits written { tailWindow } rfl rfl reach alone r
  · rw [archive, List.size_toArray, members, membersOf, List.length_mapIdx]
  · intro i inside
    refine ⟨?_, span_range written inside, ?_⟩
    · rw [archive, List.getElem?_toArray, members_getElem? inside]
    · intro r
      obtain ⟨r', found⟩ := dataRange_written serves fits written inside r
      exact ⟨by rw [found], fun stored => extract_written serves fits written inside stored r⟩

end

/-- Two members in the wide form: a stored one with an extra record of its own, and one whose sizes
follow its payload. The archive's comment starts like a record. -/
def twoMembers : Draft where
  isWide := true
  entries := [
    { name := [0x61], payload := [1, 2, 3], plainSize := 3, crc32 := 0x55bc801d, method := 0
      localExtra := [0x0a, 0, 1, 0, 7], comment := [], hasDescriptor := false },
    { name := [0x62], payload := [3, 0], plainSize := 0, crc32 := 0, method := 8
      localExtra := [], comment := [0x21], hasDescriptor := true }]
  comment := [0x50, 0x4b]

theorem twoMembers_read_back :
    let source := Source.ofContent "a.zip" twoMembers.bytes.toByteArray
    ((Archive.load source { tailWindow := 1024 }).run ⟨(), #[]⟩).1 = .ok twoMembers.archive ∧
      ∃ bytes : ByteArray,
        ((twoMembers.archive.extract source 0 none).run ⟨(), #[]⟩).1 =
          .ok ⟨bytes, bytes.size.toUInt64⟩ ∧
        bytes.data.toList = [1, 2, 3] := by
  have written : twoMembers.bytes.toByteArray.data.toList = twoMembers.bytes :=
    List.toList_data_toByteArray
  have size := size_written written
  have small : twoMembers.bytes.toByteArray.size < fileOffsetLimit := by
    rw [size_of_toList written]
    decide +kernel
  have others : ∀ n < 3, 0 < n → LittleEndian.toUInt32
      ((twoMembers.bytes.drop (twoMembers.trailerOffset + n)).take 4) ≠ ClassicEnd.signature := by
    decide +kernel
  have back := read_back (Source.ofContent_serves "a.zip" small)
    (show twoMembers.Fits by decide +kernel) written
    (show twoMembers.comment.length + ClassicEnd.length ≤ max 1024 ClassicEnd.length by decide)
  refine ⟨back.2.1 ?_ _, ((back.2.2.2 0 (by decide)).2.2 _).2 rfl⟩
  rintro o above ⟨-, room, signed⟩
  have comment : twoMembers.comment.length = 2 := rfl
  have length : ClassicEnd.length = 22 := rfl
  have inside : o - twoMembers.trailerOffset < 3 := by omega
  have place : twoMembers.trailerOffset + (o - twoMembers.trailerOffset) = o := by omega
  rw [Trailer.wordAt_eq_span (by omega), span_eq, written, ← place, Nat.add_sub_cancel_left]
    at signed
  exact absurd signed (others _ inside (by omega))

end Draft
end ZipArchive
