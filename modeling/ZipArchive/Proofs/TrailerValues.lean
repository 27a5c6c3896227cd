import ZipArchive.Proofs.Outcome
import ZipArchive.Proofs.TrailerRecords

/-!
# What an accepted record leads to

A classic end record is consistent when it fits its surroundings. From a consistent record on, the
rest of finding the trailer depends on the content alone: `completed` says what it comes to, and
`complete_yields` that it comes to it.
-/
namespace ZipArchive.Trailer

variable {σ : Type} {source : Source σ} {content : ByteArray}

/-- The record at an offset fits its surroundings: its comment ends within the content, and if some
field is all ones, the locator's signature stands in front of it, and if none is, the directory ends
in front of it and has room for as many headers as it is said to hold here. -/
def Consistent (content : ByteArray) (offset : Nat) : Prop :=
  let record := recordAt content offset
  offset + ClassicEnd.length + record.commentLength.toNat ≤ content.size ∧
    if record.needsWide then
      WideLocator.length ≤ offset ∧
        wordAt content (offset - WideLocator.length) = WideLocator.signature
    else
      record.offset.toNat + record.size.toNat ≤ offset ∧
        record.recordsHere ≤ record.recordsTotal ∧
        CentralHeader.minLength * record.recordsHere.toNat ≤ record.size.toNat

instance (content : ByteArray) (offset : Nat) : Decidable (Consistent content offset) := by
  unfold Consistent
  infer_instance

/-- What is done with the values that count. -/
def conclude (source : Source σ) (offset : Nat) (isWide : Bool) (directory : DirectoryEnd) :
    Action σ Trailer :=
  if directory.thisDisk ≠ directory.startDisk ∨ directory.recordsHere ≠ directory.recordsTotal then
    Action.raise source (.multiDisk none)
  else if fits directory source.size then
    return ⟨directory, offset, isWide⟩
  else
    Action.raise source (.corrupt
      (.directoryBeyondEnd directory.offset.toNat directory.size.toNat source.size))

/-- What is done once a record has been accepted. -/
def complete (source : Source σ) (offset : Nat) (record : ClassicEnd) : Action σ Trailer := do
  Action.log .readingEndRecord
  let directory ← if record.needsWide then readWide source offset else pure record.widen
  conclude source offset record.needsWide directory

theorem locate_eq (source : Source σ) (tailWindow : Nat) :
    locate source tailWindow =
      findClassic source tailWindow >>= fun found => complete source found.1 found.2 := rfl

/-- What the locator in front of an offset leads to. -/
def wideValues (content : ByteArray) (offset : Nat) : Except ZipError DirectoryEnd :=
  let locator := locatorAt content (offset - WideLocator.length)
  let target := locator.offset.toNat
  if 1 < locator.totalDisks then .error (.multiDisk (some locator.totalDisks))
  else if offset - WideLocator.length < target + DirectoryEnd.length then
    .error (.corrupt (.endRecordOverlap target))
  else if wordAt content target = DirectoryEnd.signature then .ok (wideEndAt content target)
  else .error (.badSignature DirectoryEnd.recordName DirectoryEnd.signature (wordAt content target))

/-- The trailer with the given values, unless they tell of several disks or do not fit. -/
def checked (size offset : Nat) (isWide : Bool) (directory : DirectoryEnd) :
    Except ZipError Trailer :=
  if directory.thisDisk ≠ directory.startDisk ∨ directory.recordsHere ≠ directory.recordsTotal then
    .error (.multiDisk none)
  else if fits directory size then .ok ⟨directory, offset, isWide⟩
  else .error (.corrupt
    (.directoryBeyondEnd directory.offset.toNat directory.size.toNat size))

/-- What a consistent record at an offset comes to. -/
def completed (content : ByteArray) (offset : Nat) : Except ZipError Trailer :=
  let record := recordAt content offset
  if record.needsWide then wideValues content offset >>= checked content.size offset true
  else checked content.size offset false record.widen

/-- What is logged on the way. -/
def steps (isWide : Bool) : Array Event :=
  if isWide then #[.readingEndRecord, .readingLocator] else #[.readingEndRecord]

theorem size_lt_lastOffset (serves : source.Serves content) : content.size < offsetBound - 1 :=
  Nat.lt_trans serves.size_lt (by decide)

theorem parse_wideEnd {start stop : Nat} (room : start + DirectoryEnd.length ≤ stop)
    (inside : stop ≤ content.size) (label record : String) :
    (DirectoryEnd.layout.parse label record (span content start stop)).1 =
      if wordAt content start = DirectoryEnd.signature then .ok (wideEndAt content start)
      else .error
        (.badSignature DirectoryEnd.recordName DirectoryEnd.signature (wordAt content start)) := by
  by_cases signed : wordAt content start = DirectoryEnd.signature
  · obtain ⟨unused, given, encoded⟩ :=
      encode_wideEndAt (Nat.le_trans room inside) signed
    rw [if_pos signed, ← span_append_span (Nat.le_add_right _ _) room, ← encoded,
      DirectoryEnd.parse_encode _ given]
  · have head : span content start stop =
        LittleEndian.ofUInt32 (wordAt content start) ++ span content (start + 4) stop := by
      unfold DirectoryEnd.length at room
      rw [wordAt_eq_span (by omega), LittleEndian.ofUInt32_toUInt32
        (by rw [length_span_of_le (by omega)]; omega), span_append_span (by omega) (by omega)]
    rw [if_neg signed, head, DirectoryEnd.layout, Layout.parse_other_signature signed]

/-- The values that a locator leads to are read as the content has them. -/
theorem readWide_yields (serves : source.Serves content) {offset : Nat}
    (room : WideLocator.length ≤ offset) (inside : offset ≤ content.size)
    (signed : wordAt content (offset - WideLocator.length) = WideLocator.signature) :
    (readWide source offset).Yields (wideValues content offset)
      (#[.readingLocator] ++ reportsOf source.label (wideValues content offset)) := by
  have small := size_lt_lastOffset serves
  have back : offset - WideLocator.length + WideLocator.length = offset := Nat.sub_add_cancel room
  have parsed : WideLocator.layout.parse source.label WideLocator.recordName
      (span content (offset - WideLocator.length) offset) =
        (.ok (locatorAt content (offset - WideLocator.length)), []) := by
    have encoded := encode_locatorAt (by rwa [back]) signed
    rw [back] at encoded
    rw [← encoded, ← List.append_nil (WideLocator.encode _), WideLocator.parse_encode]
  unfold readWide
  rw [subOffset?, if_pos room, serves.size_eq]
  refine (Action.inRange_yields _ _).andThen ((Action.log_yields _).bind ?_)
  refine Action.readRecord_bind serves.holds _ _
    (Buffered.reads_new_inside (Nat.sub_le _ _) inside 0) _ ?_
  rw [parsed]
  intro b cursor _ _
  unfold wideValues
  generalize locatorAt content (offset - WideLocator.length) = locator
  by_cases disks : 1 < locator.totalDisks
  · simp only [disks, if_true]
    exact Action.raise_yields source _
  by_cases overlap : offset - WideLocator.length < locator.offset.toNat + DirectoryEnd.length
  · have clamped : offset - WideLocator.length <
        min (locator.offset.toNat + DirectoryEnd.length) (offsetBound - 1) := by omega
    simp only [disks, overlap, clamped, if_true, if_false]
    exact Action.raise_yields source _
  · have clamped : ¬ offset - WideLocator.length <
        min (locator.offset.toNat + DirectoryEnd.length) (offsetBound - 1) := by omega
    simp only [disks, overlap, clamped, if_false]
    have target_room := Nat.le_of_not_lt overlap
    have stop_le : offset - WideLocator.length ≤ content.size := by omega
    refine Action.readRecord_bind serves.holds _ _
      (Buffered.reads_new_inside (by omega) stop_le 0) _ ?_
    rw [← parse_wideEnd target_room stop_le source.label DirectoryEnd.recordName]
    rcases DirectoryEnd.layout.parse source.label DirectoryEnd.recordName
      (span content locator.offset.toNat (offset - WideLocator.length)) with ⟨e | directory, rest⟩
    · exact ⟨rfl, rfl⟩
    · exact fun _ _ _ _ => Action.pure_yields source directory

/-- Values that count are checked as the content's size has it. -/
theorem conclude_yields (source : Source σ) (offset : Nat) (isWide : Bool)
    (directory : DirectoryEnd) :
    (conclude source offset isWide directory).Yields
      (checked source.size offset isWide directory)
      (reportsOf source.label (checked source.size offset isWide directory)) := by
  unfold conclude checked
  split
  · exact Action.raise_yields source _
  · split
    · exact Action.pure_yields source _
    · exact Action.raise_yields source _

/-- A consistent record comes to what the content says. -/
theorem complete_yields (serves : source.Serves content) {offset : Nat}
    (consistent : Consistent content offset) :
    (complete source offset (recordAt content offset)).Yields (completed content offset)
      (steps (recordAt content offset).needsWide ++
        reportsOf source.label (completed content offset)) := by
  obtain ⟨inside, surroundings⟩ := consistent
  unfold complete completed steps
  generalize recordAt content offset = record at inside surroundings ⊢
  by_cases wide : record.needsWide
  · simp only [wide, if_true] at surroundings ⊢
    have read := readWide_yields serves surroundings.1 (by omega) surroundings.2
    have logged : (#[.readingEndRecord, .readingLocator] : Array Event) =
        #[.readingEndRecord] ++ #[.readingLocator] := rfl
    rw [logged, Array.append_assoc]
    apply (Action.log_yields _).bind
    cases values : wideValues content offset with
    | error e =>
      rw [values] at read
      exact read.bind_error
    | ok directory =>
      rw [values] at read
      exact read.bind (serves.size_eq ▸ conclude_yields source offset true directory)
  · simp only [wide, Bool.false_eq_true, if_false] at surroundings ⊢
    exact (Action.log_yields _).bind ((Action.Yields.pure _).andThen
      (serves.size_eq ▸ conclude_yields source offset false record.widen))

end ZipArchive.Trailer
