import ZipArchive.Proofs.TrailerScan

/-!
# What a trailer that was found guarantees

Later steps trust the trailer: the directory lies within the archive, all of it is on one disk, and
its values are those of the one record that counts (`Guaranteed`). The checks behind this are spread
over the scan, the wide detour and the last step; here they are put together. After a candidate has
been accepted, few errors are left (`Refused`).
-/
namespace ZipArchive

theorem ClassicEnd.needsWide_eq_false (r : ClassicEnd) :
    r.needsWide = false ↔ r.thisDisk ≠ 0xffff ∧ r.startDisk ≠ 0xffff ∧ r.recordsHere ≠ 0xffff ∧
      r.recordsTotal ≠ 0xffff ∧ r.size ≠ 0xffffffff ∧ r.offset ≠ 0xffffffff := by
  simp only [needsWide, Bool.or_eq_false_iff, decide_eq_false_iff_not, and_assoc, ne_eq]

namespace Trailer

variable {σ : Type} {source : Source σ} {content : ByteArray}

/-- The values are those of a classic record of which no field is all ones, and the directory lies
in front of it and has room for its headers. -/
structure FromClassic (content : ByteArray) (t : Trailer) (record : ClassicEnd) : Prop where
  widened : t.directory = record.widen
  no_field_deferred : record.thisDisk ≠ 0xffff ∧ record.startDisk ≠ 0xffff ∧
    record.recordsHere ≠ 0xffff ∧ record.recordsTotal ≠ 0xffff ∧ record.size ≠ 0xffffffff ∧
    record.offset ≠ 0xffffffff
  in_front : t.directory.offset.toNat + t.directory.size.toNat ≤ t.offset
  headers_fit : 46 * t.directory.recordsHere.toNat ≤ t.directory.size.toNat

/-- The values are those of the wide record that the locator in front of the classic one leads to. -/
structure FromWide (content : ByteArray) (t : Trailer) (locator : WideLocator)
    (unused : List UInt8) : Prop where
  room : 20 ≤ t.offset
  located : locator.encode = span content (t.offset - 20) t.offset
  one_disk : locator.totalDisks ≤ 1
  in_front : locator.offset.toNat + 56 ≤ t.offset - 20
  unused_length : unused.length = 12
  stored : t.directory.encode unused =
    span content locator.offset.toNat (locator.offset.toNat + 56)

/-- What holds of a trailer that was found in a content. -/
structure Guaranteed (content : ByteArray) (t : Trailer) : Prop where
  room : t.offset + 22 ≤ content.size
  one_disk : t.directory.thisDisk = t.directory.startDisk
  all_here : t.directory.recordsHere = t.directory.recordsTotal
  in_range : t.directory.offset.toNat + t.directory.size.toNat ≤ 0xffffffffffffffff
  inside : t.directory.offset.toNat + t.directory.size.toNat ≤ content.size
  classic : t.isWide = false → ∃ record : ClassicEnd,
    record.encode = span content t.offset (t.offset + 22) ∧ FromClassic content t record
  wide : t.isWide = true → ∃ locator unused, FromWide content t locator unused

/-- The errors that are left once a record has been accepted: several disks, and what can only be
wrong with a wide record. -/
inductive Refused (content : ByteArray) (isWide : Bool) : ZipError → Prop where
  | multiDisk (declared : Option UInt32) : Refused content isWide (.multiDisk declared)
  | unsigned (found : UInt32) (wide : isWide = true) (other : found ≠ DirectoryEnd.signature) :
    Refused content isWide (.badSignature DirectoryEnd.recordName DirectoryEnd.signature found)
  | overlap (target : Nat) (wide : isWide = true) :
    Refused content isWide (.corrupt (.endRecordOverlap target))
  | beyondEnd (offset size : Nat) (wide : isWide = true) :
    Refused content isWide (.corrupt (.directoryBeyondEnd offset size content.size))

theorem fits_iff (directory : DirectoryEnd) (size : Nat) :
    fits directory size = true ↔
      directory.offset.toNat + directory.size.toNat < offsetBound ∧
        directory.offset.toNat + directory.size.toNat ≤ size := by
  unfold fits addOffset?
  by_cases range : directory.offset.toNat + directory.size.toNat < offsetBound
  · simp only [range, if_true, true_and, decide_eq_true_eq]
  · simp only [range, if_false, false_and, Bool.false_eq_true]

/-! ## The last step -/

theorem checked_ok {size offset : Nat} {isWide : Bool} {directory : DirectoryEnd} {t : Trailer}
    (accepted : checked size offset isWide directory = .ok t) :
    t = ⟨directory, offset, isWide⟩ ∧ directory.thisDisk = directory.startDisk ∧
      directory.recordsHere = directory.recordsTotal ∧ fits directory size = true := by
  unfold checked at accepted
  by_cases several : directory.thisDisk ≠ directory.startDisk ∨
      directory.recordsHere ≠ directory.recordsTotal
  · rw [if_pos several] at accepted
    cases accepted
  rw [if_neg several] at accepted
  cases room : fits directory size with
  | false =>
    rw [room] at accepted
    cases accepted
  | true =>
    rw [room] at accepted
    cases accepted
    exact ⟨rfl, Decidable.of_not_not fun other => several (.inl other),
      Decidable.of_not_not fun other => several (.inr other), rfl⟩

theorem checked_error {offset : Nat} {isWide : Bool} {directory : DirectoryEnd} {e : ZipError}
    (beyond : isWide = true ∨ fits directory content.size = true)
    (refused : checked content.size offset isWide directory = .error e) :
    Refused content isWide e := by
  unfold checked at refused
  by_cases several : directory.thisDisk ≠ directory.startDisk ∨
      directory.recordsHere ≠ directory.recordsTotal
  · rw [if_pos several] at refused
    cases refused
    exact .multiDisk none
  rw [if_neg several] at refused
  cases room : fits directory content.size with
  | false =>
    rw [room] at refused beyond
    cases refused
    exact .beyondEnd _ _ (beyond.resolve_right Bool.false_ne_true)
  | true =>
    rw [room] at refused
    cases refused

/-! ## The wide detour -/

theorem wideValues_ok {offset : Nat} {directory : DirectoryEnd}
    (found : wideValues content offset = .ok directory) :
    let locator := locatorAt content (offset - WideLocator.length)
    locator.totalDisks ≤ 1 ∧
      locator.offset.toNat + DirectoryEnd.length ≤ offset - WideLocator.length ∧
      wordAt content locator.offset.toNat = DirectoryEnd.signature ∧
      directory = wideEndAt content locator.offset.toNat := by
  unfold wideValues at found
  generalize locatorAt content (offset - WideLocator.length) = locator at found ⊢
  dsimp only at found ⊢
  split at found
  · cases found
  rename_i disks
  split at found
  · cases found
  rename_i overlap
  split at found
  · rename_i signed
    cases found
    exact ⟨UInt32.not_lt.mp disks, Nat.le_of_not_lt overlap, signed, rfl⟩
  · cases found

theorem wideValues_error {offset : Nat} {e : ZipError}
    (refused : wideValues content offset = .error e) : Refused content true e := by
  unfold wideValues at refused
  generalize locatorAt content (offset - WideLocator.length) = locator at refused
  dsimp only at refused
  split at refused
  · cases refused
    exact .multiDisk _
  · split at refused
    · cases refused
      exact .overlap _ rfl
    · split at refused
      · cases refused
      · rename_i unsigned
        cases refused
        exact .unsigned _ rfl unsigned

/-! ## Both ways together -/

theorem completed_guaranteed {offset : Nat} {t : Trailer}
    (room : offset + ClassicEnd.length ≤ content.size)
    (signed : wordAt content offset = ClassicEnd.signature)
    (consistent : Consistent content offset) (found : completed content offset = .ok t) :
    Guaranteed content t := by
  obtain ⟨_, surroundings⟩ := consistent
  have stored := encode_recordAt room signed
  unfold completed at found
  generalize recordAt content offset = record at surroundings stored found
  cases needsWide : record.needsWide with
  | false =>
    simp only [needsWide, Bool.false_eq_true, if_false] at surroundings found
    obtain ⟨rfl, one_disk, all_here, fit⟩ := checked_ok found
    obtain ⟨in_range, inside⟩ := (fits_iff _ _).mp fit
    have values : FromClassic content ⟨record.widen, offset, false⟩ record :=
      ⟨rfl, (ClassicEnd.needsWide_eq_false record).mp needsWide, surroundings.1, surroundings.2.2⟩
    exact ⟨room, one_disk, all_here, Nat.le_pred_of_lt in_range, inside,
      fun _ => ⟨record, stored, values⟩, fun wide => absurd wide Bool.false_ne_true⟩
  | true =>
    simp only [needsWide, if_true] at surroundings found
    obtain ⟨inFront, locatorSigned⟩ := surroundings
    cases values : wideValues content offset with
    | error e =>
      rw [values] at found
      cases found
    | ok directory =>
      rw [values] at found
      obtain ⟨rfl, one_disk, all_here, fit⟩ := checked_ok found
      obtain ⟨in_range, inside⟩ := (fits_iff _ _).mp fit
      obtain ⟨disks, target_room, targetSigned, rfl⟩ := wideValues_ok values
      have back : offset - WideLocator.length + WideLocator.length = offset :=
        Nat.sub_add_cancel inFront
      have located := encode_locatorAt (by omega) locatorSigned
      rw [back] at located
      obtain ⟨unused, given, written⟩ := encode_wideEndAt (by omega) targetSigned
      exact ⟨room, one_disk, all_here, Nat.le_pred_of_lt in_range, inside,
        fun classic => absurd classic.symm Bool.false_ne_true,
        fun _ => ⟨_, unused, inFront, located, disks, target_room, given, written⟩⟩

theorem completed_refused {offset : Nat} {e : ZipError} (consistent : Consistent content offset)
    (refused : completed content offset = .error e) :
    Refused content (recordAt content offset).needsWide e := by
  obtain ⟨inside, surroundings⟩ := consistent
  unfold completed at refused
  generalize recordAt content offset = record at surroundings refused ⊢
  cases needsWide : record.needsWide with
  | false =>
    simp only [needsWide, Bool.false_eq_true, if_false] at surroundings refused
    have fit : fits record.widen content.size = true := by
      have := record.offset.toNat_lt
      have := record.size.toNat_lt
      have := surroundings.1
      apply (fits_iff record.widen content.size).mpr
      simp only [ClassicEnd.widen, UInt32.toNat_toUInt64, offsetBound]
      omega
    exact checked_error (.inr fit) refused
  | true =>
    simp only [needsWide, if_true] at refused
    cases values : wideValues content offset with
    | error other =>
      rw [values] at refused
      cases refused
      exact wideValues_error values
    | ok directory =>
      rw [values] at refused
      exact checked_error (.inl rfl) refused

theorem located_guaranteed {tailWindow : Nat} {t : Trailer}
    (found : located content tailWindow = .ok t) : Guaranteed content t := by
  unfold located at found
  rcases accepted : scanned content (candidateOffsets content tailWindow) none with
    e | ⟨offset, record⟩
  · rw [accepted] at found
    cases found
  · rw [accepted] at found
    obtain ⟨⟨candidate, consistent⟩, -⟩ :=
      (candidateOffsets_find? content tailWindow offset).mp (scanned_ok accepted).1
    exact completed_guaranteed candidate.room candidate.signed consistent found

theorem located_refused {tailWindow offset : Nat} {record : ClassicEnd} {e : ZipError}
    (accepted : scanned content (candidateOffsets content tailWindow) none = .ok (offset, record))
    (failed : located content tailWindow = .error e) : Refused content record.needsWide e := by
  obtain ⟨found, rfl⟩ := scanned_ok accepted
  obtain ⟨⟨candidate, consistent⟩, -⟩ := (candidateOffsets_find? content tailWindow offset).mp found
  unfold located at failed
  rw [accepted] at failed
  exact completed_refused consistent failed

/-- Whatever is found keeps its guarantees. Once the scan has accepted a record, an error is one of
the few that are left then. -/
theorem locate_guaranteed (serves : source.Serves content) (tailWindow : Nat) (r : Run σ) :
    (∀ t, ((locate source tailWindow).run r).1 = .ok t → Guaranteed content t) ∧
    ∀ offset record r', (findClassic source tailWindow).run r = (.ok (offset, record), r') →
      ∀ e, ((locate source tailWindow).run r).1 = .error e → Refused content record.needsWide e := by
  rw [locate_result serves]
  refine ⟨fun t found => located_guaranteed found, ?_⟩
  intro offset record r' scan e failed
  have accepted := (findClassic_yields serves tailWindow).result_eq r
  rw [scan] at accepted
  exact located_refused accepted.symm failed

/-- The three records at the end of an empty archive in the wide form. -/
def wideEmpty : ByteArray :=
  ((DirectoryEnd.mk 0 0 0 0 0 0).encode (List.replicate 12 0) ++ (WideLocator.mk 0 0 1).encode ++
    (ClassicEnd.mk 0 0 0xffff 0xffff 0xffffffff 0xffffffff 0).encode).toByteArray

theorem wideEmpty_guaranteed :
    ((locate (Source.ofContent "a.zip" wideEmpty) 22).run ⟨(), #[]⟩).1 =
        .ok ⟨⟨0, 0, 0, 0, 0, 0⟩, 76, true⟩ ∧
      Guaranteed wideEmpty ⟨⟨0, 0, 0, 0, 0, 0⟩, 76, true⟩ := by
  have serves := Source.ofContent_serves "a.zip" (show wideEmpty.size < fileOffsetLimit by decide)
  have last : IsGreatest {o | Candidate wideEmpty 22 o ∧ Consistent wideEmpty o} 76 := by
    refine ⟨⟨⟨by decide, by decide, by decide⟩, by decide⟩, ?_⟩
    rintro o ⟨⟨_, room, _⟩, _⟩
    exact Nat.le_of_add_le_add_right room
  have found : ((locate (Source.ofContent "a.zip" wideEmpty) 22).run ⟨(), #[]⟩).1 =
      .ok ⟨⟨0, 0, 0, 0, 0, 0⟩, 76, true⟩ :=
    (locate_result serves 22 ⟨(), #[]⟩).trans ((located_accepted last).trans rfl)
  exact ⟨found, (locate_guaranteed serves 22 ⟨(), #[]⟩).1 _ found⟩

end Trailer
end ZipArchive
