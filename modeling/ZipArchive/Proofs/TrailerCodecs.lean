import ZipArchive.Proofs.LocalHeaders

/-!
# The records at the end of an archive and their encodings

A record whose fields are all of fixed width takes the same number of bytes whatever they are
(`Layout.Takes`). Behind its signature nothing is refused, so that reading fails in two ways only:
the signature is another one, or the bytes end too early. The classic end record, the locator and
the wide end record are such records, and reading each is inverse to writing it
(`trailer_records_inverse`).
-/
namespace ZipArchive

open LittleEndian Layout

namespace Layout

variable {α : Type} {label record : String}

/-- Whatever the bytes are, exactly this many are read and none are refused. -/
def Takes : Layout α → (length : Nat) → Prop
  | .done _, length => length = 0
  | .refuse _, _ => False
  | .bytes n next, length => n ≤ length ∧ ∀ b, (next b).Takes (length - n)
  | .skip n next, length => n ≤ length ∧ next.Takes (length - n)

/-- Enough bytes are read, and what is behind them is left. -/
theorem Takes.parse_long {x : Layout α} {length : Nat} (takes : x.Takes length)
    {bytes : List UInt8} (long : length ≤ bytes.length) :
    ∃ value, x.parse label record bytes = (.ok value, bytes.drop length) := by
  induction x generalizing length bytes with
  | done value =>
    obtain rfl := takes
    exact ⟨value, rfl⟩
  | refuse error => exact takes.elim
  | bytes n next ih =>
    obtain ⟨part, onward⟩ := takes
    have behind : length - n ≤ (bytes.drop n).length := by
      rw [List.length_drop]
      omega
    obtain ⟨value, read⟩ := ih _ (onward (bytes.take n)) behind
    refine ⟨value, ?_⟩
    rw [parse_bytes_long next (Nat.le_trans part long), read, List.drop_drop,
      Nat.add_sub_of_le part]
  | skip n next ih =>
    obtain ⟨part, onward⟩ := takes
    have behind : length - n ≤ (bytes.drop n).length := by
      rw [List.length_drop]
      omega
    obtain ⟨value, read⟩ := ih onward behind
    refine ⟨value, ?_⟩
    rw [parse_skip_long next (Nat.le_trans part long), read, List.drop_drop,
      Nat.add_sub_of_le part]

/-- Fewer bytes are cut short, wherever they end. -/
theorem Takes.outcome_short {x : Layout α} {length : Nat} (takes : x.Takes length)
    {bytes : List UInt8} (short : bytes.length < length) :
    x.outcome label record bytes = .error (.corrupt (.truncated record)) := by
  induction x generalizing length bytes with
  | done value =>
    obtain rfl := takes
    exact absurd short (Nat.not_lt_zero _)
  | refuse error => exact takes.elim
  | bytes n next ih =>
    obtain ⟨part, onward⟩ := takes
    unfold outcome
    by_cases few : bytes.length < n
    · rw [parse_bytes_short next few]
    · rw [parse_bytes_long next (Nat.le_of_not_lt few)]
      exact ih _ (onward (bytes.take n)) (by rw [List.length_drop]; omega)
  | skip n next ih =>
    obtain ⟨part, onward⟩ := takes
    unfold outcome
    by_cases few : bytes.length < n
    · rw [parse_skip_short next few]
    · rw [parse_skip_long next (Nat.le_of_not_lt few)]
      exact ih onward (by rw [List.length_drop]; omega)

/-- The first four bytes are there, and are not the ones that a record starts with. -/
def Unsigned (magic bytes : List UInt8) : Prop := 4 ≤ bytes.length ∧ bytes.take 4 ≠ magic

/-- Reading a record is inverse to writing it. What is written of a record has one length, is read
back, and is left with exactly the bytes behind it; nothing else is read. Reading fails in two ways
only, and each tells what is wrong with the bytes. -/
structure IsInverse (layout : Layout α) (Writes : α → List UInt8 → Prop) (name : String)
    (signature : UInt32) (magic : List UInt8) (length : Nat) : Prop where
  length_eq : ∀ r bytes, Writes r bytes → bytes.length = length
  reads : ∀ label r bytes rest, Writes r bytes →
    layout.parse label name (bytes ++ rest) = (.ok r, rest)
  only_written : ∀ label bytes r rest, layout.parse label name bytes = (.ok r, rest) →
    ∃ taken, Writes r taken ∧ bytes = taken ++ rest
  unsigned_iff : ∀ label bytes,
    (∃ what expected found,
      layout.outcome label name bytes = .error (.badSignature what expected found)) ↔
      Unsigned magic bytes
  short_iff : ∀ label bytes,
    (∃ damage, layout.outcome label name bytes = .error (.corrupt damage)) ↔
      ¬ Unsigned magic bytes ∧ bytes.length < length
  error_eq : ∀ label bytes e, layout.outcome label name bytes = .error e →
    e = .badSignature name signature (toUInt32 (bytes.take 4)) ∨ e = .corrupt (.truncated name)

section
variable {name : String} {expected : UInt32} {magic : List UInt8} {f : Unit → Layout α}
  {length : Nat}

/-- What reading a signed record of a fixed length comes to. -/
inductive Reading (x : Layout α) (label record name : String) (expected : UInt32)
    (magic : List UInt8) (length : Nat) (bytes : List UInt8) : Prop where
  | unsigned (other : Unsigned magic bytes)
      (failed : x.outcome label record bytes =
        .error (.badSignature name expected (toUInt32 (bytes.take 4))))
  | short (near : ¬ Unsigned magic bytes) (few : bytes.length < length)
      (failed : x.outcome label record bytes = .error (.corrupt (.truncated record)))
  | whole (signed : bytes.take 4 = magic) (long : length ≤ bytes.length) (value : α)
      (read : x.parse label record bytes = (.ok value, bytes.drop length))

theorem signed_reading (begins : ofUInt32 expected = magic) (takes : (f ()).Takes length)
    (label record : String) (bytes : List UInt8) :
    (signature name expected >>= f).Reading label record name expected magic (4 + length)
      bytes := by
  by_cases few : bytes.length < 4
  · exact .short (fun there => absurd few (Nat.not_lt_of_le there.1)) (by omega)
      (signature_short few)
  have four : (bytes.take 4).length = 4 := List.length_take_of_le (Nat.le_of_not_lt few)
  by_cases signed : bytes.take 4 = magic
  · have onward : (signature name expected >>= f).parse label record bytes =
        (f ()).parse label record (bytes.drop 4) := parse_signed f (signed.trans begins.symm)
    have behind : (bytes.drop 4).length = bytes.length - 4 := List.length_drop
    by_cases short : bytes.length < 4 + length
    · refine .short (fun there => there.2 signed) short ?_
      unfold outcome
      rw [onward]
      exact takes.outcome_short (by omega)
    · have long : length ≤ (bytes.drop 4).length := by omega
      obtain ⟨value, read⟩ := takes.parse_long long
      refine .whole signed (Nat.le_of_not_lt short) value ?_
      rw [onward, read, List.drop_drop]
  · have other : toUInt32 (bytes.take 4) ≠ expected := by
      intro same
      rw [← begins, ← same, ofUInt32_toUInt32 four] at signed
      exact signed rfl
    have parts := List.take_append_drop 4 bytes
    rw [← ofUInt32_toUInt32 four] at parts
    have refused : (signature name expected >>= f).parse label record
        (ofUInt32 (toUInt32 (bytes.take 4)) ++ bytes.drop 4) = _ :=
      parse_other_signature other f (bytes.drop 4)
    rw [parts] at refused
    exact .unsigned ⟨Nat.le_of_not_lt few, signed⟩ (outcome_eq_iff.mpr ⟨_, refused⟩)

/-- A signed record of fixed length is read as it is written, if what is written is read back and
every signed string of that length is written. -/
theorem isInverse_of_takes {Writes : α → List UInt8 → Prop} (begins : ofUInt32 expected = magic)
    (takes : (f ()).Takes length)
    (length_eq : ∀ r bytes, Writes r bytes → bytes.length = 4 + length)
    (reads : ∀ label r bytes rest, Writes r bytes →
      (signature name expected >>= f).parse label name (bytes ++ rest) = (.ok r, rest))
    (written : ∀ bytes, bytes.length = 4 + length → bytes.take 4 = magic → ∃ r, Writes r bytes) :
    (signature name expected >>= f).IsInverse Writes name expected magic (4 + length) where
  length_eq := length_eq
  reads := reads
  only_written label bytes r rest read := by
    have outcome_eq := outcome_eq_iff.mpr ⟨rest, read⟩
    cases signed_reading begins takes label name bytes with
    | unsigned other failed => cases outcome_eq.symm.trans failed
    | short near few failed => cases outcome_eq.symm.trans failed
    | whole signed long value found =>
      have front : (bytes.take (4 + length)).take 4 = magic := by
        rw [List.take_take, Nat.min_eq_left (Nat.le_add_right _ _), signed]
      obtain ⟨r', writes⟩ := written _ (List.length_take_of_le long) front
      have again := reads label r' _ (bytes.drop (4 + length)) writes
      rw [List.take_append_drop, read] at again
      cases again
      exact ⟨_, writes, (List.take_append_drop _ _).symm⟩
  unsigned_iff label bytes := by
    cases signed_reading begins takes label name bytes with
    | unsigned other failed => exact ⟨fun _ => other, fun _ => ⟨_, _, _, failed⟩⟩
    | short near few failed =>
      exact ⟨fun ⟨_, _, _, refused⟩ => (by cases failed.symm.trans refused), fun there =>
        absurd there near⟩
    | whole signed long value read =>
      have outcome_eq := outcome_eq_iff.mpr ⟨_, read⟩
      exact ⟨fun ⟨_, _, _, refused⟩ => (by cases outcome_eq.symm.trans refused), fun there =>
        absurd signed there.2⟩
  short_iff label bytes := by
    cases signed_reading begins takes label name bytes with
    | unsigned other failed =>
      exact ⟨fun ⟨_, refused⟩ => (by cases failed.symm.trans refused), fun there =>
        absurd other there.1⟩
    | short near few failed => exact ⟨fun _ => ⟨near, few⟩, fun _ => ⟨_, failed⟩⟩
    | whole signed long value read =>
      have outcome_eq := outcome_eq_iff.mpr ⟨_, read⟩
      exact ⟨fun ⟨_, refused⟩ => (by cases outcome_eq.symm.trans refused), fun there =>
        absurd there.2 (Nat.not_lt_of_le long)⟩
  error_eq label bytes e failed := by
    cases signed_reading begins takes label name bytes with
    | unsigned other refused =>
      cases failed.symm.trans refused
      exact .inl rfl
    | short near few refused =>
      cases failed.symm.trans refused
      exact .inr rfl
    | whole signed long value read => cases failed.symm.trans (outcome_eq_iff.mpr ⟨_, read⟩)

end

end Layout

/-! ## The three records -/

theorem ClassicEnd.layout_isInverse :
    ClassicEnd.layout.IsInverse (fun r bytes => bytes = r.encode) recordName signature
      [0x50, 0x4b, 5, 6] 22 := by
  refine @isInverse_of_takes _ _ _ _ _ 18 _ (by decide) ?_ ?_ ?_ ?_
  · exact ⟨by decide, fun _ => ⟨by decide, fun _ => ⟨by decide, fun _ => ⟨by decide, fun _ =>
      ⟨by decide, fun _ => ⟨by decide, fun _ => ⟨by decide, fun _ => rfl⟩⟩⟩⟩⟩⟩⟩
  · rintro r _ rfl
    exact r.length_encode
  · rintro label r _ rest rfl
    exact r.parse_encode label recordName rest
  · intro bytes whole signed
    refine ⟨ofBytes bytes, (encode_ofBytes whole ?_).symm⟩
    rw [field, List.drop_zero, signed]
    decide

theorem WideLocator.layout_isInverse :
    WideLocator.layout.IsInverse (fun r bytes => bytes = r.encode) recordName signature
      [0x50, 0x4b, 6, 7] 20 := by
  refine @isInverse_of_takes _ _ _ _ _ 16 _ (by decide) ?_ ?_ ?_ ?_
  · exact ⟨by decide, fun _ => ⟨by decide, fun _ => ⟨by decide, fun _ => rfl⟩⟩⟩
  · rintro r _ rfl
    exact r.length_encode
  · rintro label r _ rest rfl
    exact r.parse_encode label recordName rest
  · intro bytes whole signed
    refine ⟨ofBytes bytes, (encode_ofBytes whole ?_).symm⟩
    rw [field, List.drop_zero, signed]
    decide

/-- What the wide end record says of its own size and the two versions may be any twelve bytes. -/
theorem DirectoryEnd.layout_isInverse :
    DirectoryEnd.layout.IsInverse
      (fun r bytes => ∃ unused, unused.length = 12 ∧ bytes = r.encode unused) recordName signature
      [0x50, 0x4b, 6, 6] 56 := by
  refine @isInverse_of_takes _ _ _ _ _ 52 _ (by decide) ?_ ?_ ?_ ?_
  · exact ⟨by decide, ⟨by decide, fun _ => ⟨by decide, fun _ => ⟨by decide, fun _ =>
      ⟨by decide, fun _ => ⟨by decide, fun _ => ⟨by decide, fun _ => rfl⟩⟩⟩⟩⟩⟩⟩
  · rintro r _ ⟨unused, given, rfl⟩
    exact r.length_encode given
  · rintro label r _ rest ⟨unused, given, rfl⟩
    exact r.parse_encode given label recordName rest
  · intro bytes whole signed
    refine ⟨ofBytes bytes, field bytes 4 12, length_field (by omega),
      (encode_ofBytes whole ?_).symm⟩
    rw [field, List.drop_zero, signed]
    decide

/-! ## Wide values -/

namespace ClassicEnd

/-- The values as the wide record has them are the same numbers. -/
structure SameNumbers (r : ClassicEnd) (d : DirectoryEnd) : Prop where
  thisDisk : d.thisDisk.toNat = r.thisDisk.toNat
  startDisk : d.startDisk.toNat = r.startDisk.toNat
  recordsHere : d.recordsHere.toNat = r.recordsHere.toNat
  recordsTotal : d.recordsTotal.toNat = r.recordsTotal.toNat
  size : d.size.toNat = r.size.toNat
  offset : d.offset.toNat = r.offset.toNat

theorem sameNumbers_widen (r : ClassicEnd) : r.SameNumbers r.widen where
  thisDisk := UInt16.toNat_toUInt32 _
  startDisk := UInt16.toNat_toUInt32 _
  recordsHere := UInt16.toNat_toUInt64 _
  recordsTotal := UInt16.toNat_toUInt64 _
  size := UInt32.toNat_toUInt64 _
  offset := UInt32.toNat_toUInt64 _

/-- A field defers when it is as great as its width allows. The length of the comment never does. -/
theorem needsWide_iff (r : ClassicEnd) :
    r.needsWide = true ↔ r.thisDisk.toNat = 0xffff ∨ r.startDisk.toNat = 0xffff ∨
      r.recordsHere.toNat = 0xffff ∨ r.recordsTotal.toNat = 0xffff ∨
      r.size.toNat = 0xffffffff ∨ r.offset.toNat = 0xffffffff := by
  simp only [needsWide, Bool.or_eq_true, decide_eq_true_eq, or_assoc, ← UInt16.toNat_inj,
    ← UInt32.toNat_inj]
  rfl

end ClassicEnd

/-- Each of the three records is read as it is written: from its encoding, with any bytes behind it
left, and from nothing else. Reading fails only if the first four bytes are there and are others, or
if the bytes end too early. A classic record has its own numbers when it is widened, and needs the
wide record exactly if one of its fields, the length of the comment aside, is as great as can be. -/
theorem trailer_records_inverse :
    ClassicEnd.layout.IsInverse (fun r bytes => bytes = r.encode)
      ClassicEnd.recordName ClassicEnd.signature [0x50, 0x4b, 5, 6] 22 ∧
    WideLocator.layout.IsInverse (fun r bytes => bytes = r.encode)
      WideLocator.recordName WideLocator.signature [0x50, 0x4b, 6, 7] 20 ∧
    DirectoryEnd.layout.IsInverse
      (fun r bytes => ∃ unused, unused.length = 12 ∧ bytes = r.encode unused)
      DirectoryEnd.recordName DirectoryEnd.signature [0x50, 0x4b, 6, 6] 56 ∧
    ∀ r : ClassicEnd, r.SameNumbers r.widen ∧
      (r.needsWide = true ↔ r.thisDisk.toNat = 0xffff ∨ r.startDisk.toNat = 0xffff ∨
        r.recordsHere.toNat = 0xffff ∨ r.recordsTotal.toNat = 0xffff ∨
        r.size.toNat = 0xffffffff ∨ r.offset.toNat = 0xffffffff) :=
  ⟨ClassicEnd.layout_isInverse, WideLocator.layout_isInverse, DirectoryEnd.layout_isInverse,
    fun r => ⟨r.sameNumbers_widen, r.needsWide_iff⟩⟩

end ZipArchive
