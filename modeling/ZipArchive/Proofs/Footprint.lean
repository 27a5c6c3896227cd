import ZipArchive.Proofs.Extracting
import ZipArchive.Proofs.RoundTrip
import ZipArchive.Proofs.TrailerGuarantee

/-!
# Damage elsewhere

What opening an archive and reading one of its members come to depends on few of its bytes: the end
record with its locator and all behind them, the directory, the wide end record where there is one,
and the member itself with its local header. An archive that agrees with another on these has the
same members and gives the same content for this one (`Archive.damage_elsewhere`). The searched tail
holds more than that, and so does the window that a local header is read from, but what is in front
of the accepted record is not looked at, and what is behind a header is not used.
-/
namespace ZipArchive

variable {σ τ : Type} {source : Source σ} {other : Source τ} {content changed : ByteArray}
  {start stop : Nat}

/-- Two contents have the same bytes from `start` on up to `stop`. -/
def Agree (content changed : ByteArray) (start stop : Nat) : Prop :=
  ∀ i, start ≤ i → i < stop → content.data[i]? = changed.data[i]?

namespace Agree

theorem symm (agree : Agree content changed start stop) : Agree changed content start stop :=
  fun i first last => (agree i first last).symm

theorem mono (agree : Agree content changed start stop) {p q : Nat} (first : start ≤ p)
    (last : q ≤ stop) : Agree content changed p q :=
  fun i above below => agree i (Nat.le_trans first above) (Nat.lt_of_lt_of_le below last)

theorem extract (agree : Agree content changed start stop) {p q : Nat} (first : start ≤ p)
    (last : q ≤ stop) : content.extract p q = changed.extract p q := by
  ext1
  apply Array.ext_getElem?
  intro i
  simp only [ByteArray.data_extract, Array.getElem?_extract]
  by_cases inside : i < min q content.data.size - p
  · have within : p + i < content.data.size := by omega
    have here := agree (p + i) (by omega) (by omega)
    have there : p + i < changed.data.size := by
      rw [Array.getElem?_eq_getElem within] at here
      exact (Array.getElem?_eq_some_iff.mp here.symm).1
    rw [if_pos inside, if_pos (by omega), here]
  · by_cases inside' : i < min q changed.data.size - p
    · have within : p + i < changed.data.size := by omega
      have here := agree (p + i) (by omega) (by omega)
      rw [Array.getElem?_eq_getElem within] at here
      have there := (Array.getElem?_eq_some_iff.mp here).1
      omega
    · rw [if_neg inside, if_neg inside']

theorem span (agree : Agree content changed start stop) {p q : Nat} (first : start ≤ p)
    (last : q ≤ stop) : ZipArchive.span content p q = ZipArchive.span changed p q := by
  rw [ZipArchive.span, ZipArchive.span, agree.extract first last]

theorem slice (agree : Agree content changed start stop) {offset length : Nat}
    (first : start ≤ offset) (last : offset + length ≤ stop) :
    ZipArchive.slice content offset length = ZipArchive.slice changed offset length :=
  agree.extract first last

end Agree

/-! ## The trailer -/

namespace Trailer

theorem wordAt_agree (agree : Agree content changed start stop) {offset : Nat}
    (first : start ≤ offset) (last : offset + 4 ≤ stop) (inside : offset + 4 ≤ content.size)
    (inside' : offset + 4 ≤ changed.size) : wordAt content offset = wordAt changed offset := by
  rw [wordAt_eq_span inside, wordAt_eq_span inside', agree.span first last]

variable {offset tailWindow : Nat}

/-- What is looked at to accept a record: the record and the locator in front of it. -/
theorem consistent_agree (same : content.size = changed.size)
    (agree : Agree content changed (offset - WideLocator.length) content.size)
    (room : offset + ClassicEnd.length ≤ content.size) :
    Consistent content offset ↔ Consistent changed offset := by
  have record : recordAt content offset = recordAt changed offset := by
    rw [recordAt, recordAt, agree.span (Nat.sub_le _ _) room]
  have long : 4 ≤ ClassicEnd.length := by decide
  have word : wordAt content (offset - WideLocator.length) =
      wordAt changed (offset - WideLocator.length) :=
    wordAt_agree agree (Nat.le_refl _) (by omega) (by omega) (by omega)
  unfold Consistent
  rw [record, word, same]

theorem candidate_agree (same : content.size = changed.size)
    (agree : Agree content changed (offset - WideLocator.length) content.size)
    (candidate : Candidate content tailWindow offset) : Candidate changed tailWindow offset where
  in_window := by
    unfold windowLength
    rw [← same]
    exact candidate.in_window
  room := same ▸ candidate.room
  signed := by
    have room := candidate.room
    unfold ClassicEnd.length at room
    rw [← candidate.signed]
    exact (wordAt_agree agree (by omega) (by omega) (by omega) (by omega)).symm

/-- The last consistent candidate is the last one in the changed content: one above it would be
consistent in both. -/
theorem last_agree (same : content.size = changed.size)
    (agree : Agree content changed (offset - WideLocator.length) content.size)
    (last : IsGreatest {o | Candidate content tailWindow o ∧ Consistent content o} offset) :
    IsGreatest {o | Candidate changed tailWindow o ∧ Consistent changed o} offset := by
  obtain ⟨⟨candidate, consistent⟩, greatest⟩ := last
  constructor
  · exact ⟨candidate_agree same agree candidate,
      (consistent_agree same agree candidate.room).mp consistent⟩
  · rintro o ⟨candidate', consistent'⟩
    by_contra above
    have tail : Agree content changed (o - WideLocator.length) content.size :=
      agree.mono (by omega) (Nat.le_refl _)
    have candidate'' : Candidate content tailWindow o :=
      candidate_agree same.symm (same ▸ tail.symm) candidate'
    exact above (greatest ⟨candidate'',
      (consistent_agree same tail candidate''.room).mpr consistent'⟩)

/-- The values that a locator leads to, where the locator and the wide end record are intact. -/
theorem wideValues_agree {directory : DirectoryEnd} (same : content.size = changed.size)
    (agree : Agree content changed (offset - WideLocator.length) content.size)
    (inFront : WideLocator.length ≤ offset) (inside : offset ≤ content.size)
    (values : wideValues content offset = .ok directory)
    (wide : Agree content changed
      (locatorAt content (offset - WideLocator.length)).offset.toNat
      ((locatorAt content (offset - WideLocator.length)).offset.toNat + DirectoryEnd.length)) :
    wideValues changed offset = .ok directory := by
  obtain ⟨-, target_room, -, -⟩ := wideValues_ok values
  have locator : locatorAt content (offset - WideLocator.length) =
      locatorAt changed (offset - WideLocator.length) := by
    rw [locatorAt, locatorAt, agree.span (Nat.le_refl _) (by omega)]
  have long : 4 ≤ DirectoryEnd.length := by decide
  have word := wordAt_agree wide (Nat.le_refl _) (by omega) (by omega) (by omega)
  have record := congrArg DirectoryEnd.ofBytes (wide.span (Nat.le_refl _) (Nat.le_refl _))
  unfold wideValues at values ⊢
  rw [← locator]
  dsimp only at values ⊢
  rw [word] at values
  rw [wideEndAt, ← record]
  exact values

/-- What an accepted record leads to, the wide end record included. -/
theorem completed_agree {t : Trailer} (same : content.size = changed.size)
    (agree : Agree content changed (offset - WideLocator.length) content.size)
    (room : offset + ClassicEnd.length ≤ content.size) (consistent : Consistent content offset)
    (found : completed content offset = .ok t)
    (wide : t.isWide = true → Agree content changed
      (locatorAt content (offset - WideLocator.length)).offset.toNat
      ((locatorAt content (offset - WideLocator.length)).offset.toNat + DirectoryEnd.length)) :
    completed changed offset = .ok t := by
  have record : recordAt content offset = recordAt changed offset := by
    rw [recordAt, recordAt, agree.span (Nat.sub_le _ _) room]
  have surroundings := consistent.2
  unfold completed at found ⊢
  rw [← record, ← same]
  dsimp only at found ⊢
  cases needsWide : (recordAt content offset).needsWide with
  | false =>
    simp only [needsWide, Bool.false_eq_true, if_false] at found ⊢
    exact found
  | true =>
    simp only [needsWide, if_true] at found surroundings ⊢
    cases values : wideValues content offset with
    | error e =>
      rw [values] at found
      cases found
    | ok directory =>
      rw [values] at found
      have isWide : t.isWide = true := by rw [(checked_ok found).1]
      rw [wideValues_agree same agree surroundings.1 (by omega) values (wide isWide)]
      exact found

theorem located_ok {t : Trailer} (found : located content tailWindow = .ok t) :
    IsGreatest {o | Candidate content tailWindow o ∧ Consistent content o} t.offset ∧
      completed content t.offset = .ok t := by
  unfold located at found
  rcases accepted : scanned content (candidateOffsets content tailWindow) none with
    e | ⟨offset, record⟩
  · rw [accepted] at found
    cases found
  · rw [accepted] at found
    obtain rfl := completed_offset found
    exact ⟨(candidateOffsets_find? content tailWindow t.offset).mp (scanned_ok accepted).1, found⟩

/-- The trailer is found again where its own records are intact. -/
theorem located_agree {t : Trailer} (same : content.size = changed.size)
    (found : located content tailWindow = .ok t)
    (agree : Agree content changed (t.offset - WideLocator.length) content.size)
    (wide : t.isWide = true → Agree content changed
      (locatorAt content (t.offset - WideLocator.length)).offset.toNat
      ((locatorAt content (t.offset - WideLocator.length)).offset.toNat + DirectoryEnd.length)) :
    located changed tailWindow = .ok t := by
  obtain ⟨last, completes⟩ := located_ok found
  rw [located_accepted (last_agree same agree last)]
  exact completed_agree same agree last.1.1.room last.1.2 completes wide

end Trailer

/-! ## Members -/

/-- The directory describes the same members where its bytes are intact. -/
theorem Directory.readFrom_agree (source : Source σ) (options : Options) (directory : DirectoryEnd)
    (agree : Agree content changed directory.offset.toNat
      (directory.offset.toNat + directory.size.toNat)) :
    readFrom source options directory content = readFrom source options directory changed := by
  unfold readFrom described
  dsimp only
  rw [agree.span (Nat.le_refl _) (Nat.le_refl _)]

namespace Member

variable {m : Member} {range : DataRange}

theorem ranged_ok (found : m.ranged source content = .ok range) :
    m.headerRead source content = .ok range.header ∧
      range.start = m.headerStart + range.header.length := by
  unfold ranged at found
  cases read : m.headerRead source content with
  | error e =>
    rw [read] at found
    cases found
  | ok header =>
    rw [read] at found
    change m.rangeBehind content.size header = _ at found
    unfold rangeBehind at found
    dsimp only at found
    split at found
    · cases found
      exact ⟨rfl, rfl⟩
    · cases found

/-- A local header is read again where it is intact, whatever else is in the window that it is read
from. -/
theorem headerRead_agree {header : LocalHeader} (read : m.headerRead source content = .ok header)
    (agree : Agree content changed m.headerStart (m.headerStart + header.length)) :
    m.headerRead source changed = .ok header := by
  obtain ⟨rest, parsed⟩ := Layout.outcome_eq_iff.mp read
  have length := LocalHeader.parse_length parsed
  obtain ⟨taken, parts, onward⟩ := Layout.parse_ok_taken parsed
  have taken_length : taken.length = header.length := by
    rw [parts, List.length_append] at length
    omega
  have within : header.length ≤ LocalHeader.maxLength := by
    have window := length
    rw [headerBytes, length_span] at window
    omega
  -- The bytes that were taken are those of the header itself.
  have split : ∀ bytes : ByteArray, m.headerBytes bytes =
      span bytes m.headerStart (m.headerStart + header.length) ++
        span bytes (m.headerStart + header.length) (m.headerStart + LocalHeader.maxLength) :=
    fun bytes => (span_append_span (Nat.le_add_right _ _) (by omega)).symm
  have own : span content m.headerStart (m.headerStart + header.length) = taken := by
    have front := congrArg (List.take header.length) parts
    rwa [List.take_left' taken_length, headerBytes, take_span, Nat.min_eq_left (by omega)] at front
  apply Layout.outcome_eq_iff.mpr
  rw [split changed, ← agree.span (Nat.le_refl _) (Nat.le_refl _), own]
  exact ⟨_, onward _⟩

/-- A member's content is found again where its local header is intact. -/
theorem ranged_agree (same : content.size = changed.size)
    (found : m.ranged source content = .ok range)
    (agree : Agree content changed m.headerStart range.stop) :
    m.ranged source changed = .ok range := by
  obtain ⟨read, start⟩ := ranged_ok found
  have ordered := (ranged_inside found).1
  have again := headerRead_agree read (agree.mono (Nat.le_refl _) (by omega))
  unfold ranged at found ⊢
  rw [read] at found
  rw [again, ← same]
  exact found

/-- What is found there decodes to the same. -/
theorem unpackedFrom_agree [Decoders] (found : m.ranged source content = .ok range)
    (agree : Agree content changed m.headerStart range.stop) :
    m.unpackedFrom content range = m.unpackedFrom changed range := by
  obtain ⟨-, start⟩ := ranged_ok found
  have ordered := (ranged_inside found).1
  unfold unpackedFrom
  rw [agree.slice (by omega) (by omega)]

end Member

namespace Archive

variable {a : Archive} {index : Nat} {m : Member}

theorem memberAt_eq (member : a.members[index]? = some m) : a.memberAt index = .ok m := by
  unfold memberAt
  rw [member]

theorem ranged_eq (member : a.members[index]? = some m) :
    a.ranged source index content = m.ranged source content := by
  rw [ranged, memberAt_eq member, bind_ok]

theorem plugged_eq [Decoders] (member : a.members[index]? = some m) :
    a.plugged source index content =
      (m.ranged source content).bind (m.pluggedFrom content.size) := by
  rw [plugged, memberAt_eq member, bind_ok]

theorem extracted_eq [Decoders] (member : a.members[index]? = some m) :
    a.extracted source index content =
      (m.ranged source content).bind (m.unpackedFrom content) := by
  rw [extracted, memberAt_eq member, bind_ok]

/-- An archive opens again where its trailer and its directory are intact. -/
theorem loaded_agree {options : Options} {t : Trailer} (same : content.size = changed.size)
    (found : Trailer.located content options.tailWindow = .ok t)
    (tail : Agree content changed (t.offset - WideLocator.length) content.size)
    (directory : Agree content changed t.directory.offset.toNat
      (t.directory.offset.toNat + t.directory.size.toNat))
    (wide : t.isWide = true → Agree content changed
      (Trailer.locatorAt content (t.offset - WideLocator.length)).offset.toNat
      ((Trailer.locatorAt content (t.offset - WideLocator.length)).offset.toNat +
        DirectoryEnd.length)) :
    loaded source options content = loaded source options changed := by
  rw [loaded, loaded, found, Trailer.located_agree same found tail wide]
  exact congrArg (Except.map Archive.mk)
    (Directory.readFrom_agree source options t.directory directory)

/-- An archive that is intact in what counts opens as before, and so does a member whose local
header and content are intact: whatever else has changed, it is found, plugged and extracted as
before. -/
theorem damage_elsewhere [Decoders] (serves : source.Serves content)
    (others : other.Serves changed) (label : source.label = other.label)
    (same : content.size = changed.size) {options : Options} {t : Trailer} {range : DataRange}
    (r : Run σ)
    (found : ((Trailer.locate source options.tailWindow).run r).1 = .ok t)
    (opened : ((load source options).run r).1 = .ok a) (member : a.members[index]? = some m)
    (placed : ((a.dataRange source index).run r).1 = .ok range)
    (tail : Agree content changed (t.offset - WideLocator.length) content.size)
    (directory : Agree content changed t.directory.offset.toNat
      (t.directory.offset.toNat + t.directory.size.toNat))
    (wide : t.isWide = true →
      let target := (Trailer.locatorAt content (t.offset - WideLocator.length)).offset.toNat
      Agree content changed target (target + DirectoryEnd.length))
    (own : Agree content changed m.headerStart range.stop) (r' : Run τ) :
    ((load other options).run r').1 = .ok a ∧
    ((a.dataRange other index).run r').1 = .ok range ∧
    ((a.plug other index).run r').1 = ((a.plug source index).run r).1 ∧
    ((a.extract other index none).run r').1 = ((a.extract source index none).run r).1 := by
  have size : other.size = source.size := by rw [others.size_eq, serves.size_eq, same]
  rw [Trailer.locate_result serves] at found
  rw [(load_yields options serves).result_eq] at opened
  rw [(a.dataRange_yields index serves).result_eq, ranged_eq member] at placed
  have placed' : m.ranged source changed = .ok range := Member.ranged_agree same placed own
  refine ⟨?_, ?_, ?_, ?_⟩
  · rw [(load_yields options others).result_eq, loaded_congr label.symm size,
      ← loaded_agree same found tail directory wide, opened]
  · rw [(a.dataRange_yields index others).result_eq, a.ranged_congr index changed label.symm,
      ranged_eq member, placed']
  · rw [(a.plug_yields index others).result_eq, (a.plug_yields index serves).result_eq,
      a.plugged_congr index changed label.symm, plugged_eq member, plugged_eq member, placed,
      placed', same]
  · rw [(a.extract_yields index others).result_eq, (a.extract_yields index serves).result_eq,
      a.extracted_congr index changed label.symm, extracted_eq member, extracted_eq member, placed,
      placed']
    exact (Member.unpackedFrom_agree placed own).symm

end Archive

/-! ## A damaged header -/

theorem Agree.of_set {bytes : List UInt8} {position : Nat} {byte : UInt8}
    (apart : position < start ∨ stop ≤ position) :
    Agree bytes.toByteArray (bytes.set position byte).toByteArray start stop := by
  intro i above below
  have listed : ∀ l : List UInt8, l.toByteArray.data[i]? = l[i]? := fun l => by
    rw [← Array.getElem?_toList, List.toList_data_toByteArray]
  rw [listed, listed, List.getElem?_set_ne (by omega)]

/-- Two members in the wide form, and no comment. -/
def Draft.bare : Draft := { twoMembers with comment := [] }

/-- The same with a broken signature in front of the second member. -/
def Draft.bareBroken : List UInt8 := bare.bytes.set 59 0

theorem Archive.bareBroken_elsewhere :
    let source := Source.ofContent "a.zip" Draft.bare.bytes.toByteArray
    let other := Source.ofContent "a.zip" Draft.bareBroken.toByteArray
    ((load other {}).run ⟨(), #[]⟩).1 = .ok Draft.bare.archive ∧
      ((Draft.bare.archive.extract other 0 none).run ⟨(), #[]⟩).1 =
        ((Draft.bare.archive.extract source 0 none).run ⟨(), #[]⟩).1 := by
  have written : Draft.bare.bytes.toByteArray.data.toList = Draft.bare.bytes :=
    List.toList_data_toByteArray
  have same : Draft.bare.bytes.toByteArray.size = Draft.bareBroken.toByteArray.size := by
    rw [size_of_toList written, size_of_toList List.toList_data_toByteArray, Draft.bareBroken,
      List.length_set]
  have small : Draft.bare.bytes.toByteArray.size < fileOffsetLimit := by
    rw [size_of_toList written]
    decide +kernel
  have fits : Draft.bare.Fits := by decide +kernel
  have reach : Draft.bare.comment.length + ClassicEnd.length ≤ max 1024 ClassicEnd.length := by
    decide
  have serves := Source.ofContent_serves "a.zip" small
  have others := Source.ofContent_serves "a.zip" (same ▸ small)
  have alone : ∀ o > Draft.bare.trailerOffset,
      Trailer.Candidate Draft.bare.bytes.toByteArray 1024 o →
        ¬ Trailer.Consistent Draft.bare.bytes.toByteArray o :=
    fun o above candidate =>
      absurd (Draft.candidate_le written rfl candidate) (Nat.not_le_of_lt above)
  have located : Trailer.located Draft.bare.bytes.toByteArray 1024 = .ok Draft.bare.trailer :=
    (Trailer.located_accepted (Draft.last_written fits written reach alone)).trans
      (Draft.completed_written fits written small)
  have found : ((Trailer.locate (Source.ofContent "a.zip" Draft.bare.bytes.toByteArray)
      ({} : Options).tailWindow).run ⟨(), #[]⟩).1 = .ok Draft.bare.trailer :=
    (Trailer.locate_result serves 1024 ⟨(), #[]⟩).trans located
  have opened : ((load (Source.ofContent "a.zip" Draft.bare.bytes.toByteArray) {}).run
      ⟨(), #[]⟩).1 = .ok Draft.bare.archive :=
    Draft.load_written serves fits written rfl rfl reach alone ⟨(), #[]⟩
  have own : ((Draft.bare.entries.get ⟨0, by decide⟩).range Draft.bare.isWide
      (Draft.bare.headerOffset 0)).stop ≤ 59 := by decide +kernel
  have first : 0 < Draft.bare.entries.length := by decide
  have member : Draft.bare.archive.members[0]? =
      some ((Draft.bare.entries.get ⟨0, first⟩).member 0 (Draft.bare.headerOffset 0)) := by
    rw [Draft.archive, List.getElem?_toArray, Draft.members_getElem? first]
    rfl
  obtain ⟨r', placed⟩ := Draft.dataRange_written serves fits written first ⟨(), #[]⟩
  -- The byte that was changed is in front of all that counts, and behind the first member.
  have inFront : ∀ {p q : Nat}, 59 < p →
      Agree Draft.bare.bytes.toByteArray Draft.bareBroken.toByteArray p q :=
    fun above => Agree.of_set (.inl above)
  have tail : 59 < Draft.bare.trailer.offset - WideLocator.length := by decide +kernel
  have directory : 59 < Draft.bare.trailer.directory.offset.toNat := by decide +kernel
  have offset : Draft.bare.trailer.offset = Draft.bare.trailerOffset := rfl
  have locator := Trailer.locatorAt_of_toList (Draft.toList_locator rfl written)
  rw [Draft.length_before_locator rfl, ← offset] at locator
  have wide : 59 < (Trailer.locatorAt Draft.bare.bytes.toByteArray
      (Draft.bare.trailer.offset - WideLocator.length)).offset.toNat := by
    rw [locator]
    decide +kernel
  have header : Agree Draft.bare.bytes.toByteArray Draft.bareBroken.toByteArray
      ((Draft.bare.entries.get ⟨0, first⟩).member 0 (Draft.bare.headerOffset 0)).headerStart
      ((Draft.bare.entries.get ⟨0, first⟩).range Draft.bare.isWide
        (Draft.bare.headerOffset 0)).stop := Agree.of_set (.inr own)
  have elsewhere := Archive.damage_elsewhere serves others (Eq.refl "a.zip") same ⟨(), #[]⟩ found
    opened member (congrArg Prod.fst placed) (inFront tail) (inFront directory)
    (fun _ => inFront wide) header ⟨(), #[]⟩
  exact ⟨elsewhere.1, elsewhere.2.2.2⟩

end ZipArchive
