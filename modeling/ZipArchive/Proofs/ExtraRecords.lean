import ZipArchive.Error
import ZipArchive.Proofs.TrailerRecords
import ZipArchive.Record.Extra
import ZipArchive.Record.Wide

/-!
# Records of extra areas

The first record of an extra area that has the wide tag is reached behind a row of others
(`Extra.Reaches`), and each wanted number has its place in it, behind the wanted ones before it
(`Extra.Wanted.place`). The walk over the area finds just the numbers that stand at their places
(`Extra.value?_find`), and so it finds the numbers that were written (`Extra.find_carries`). A slot of
a header tells its own number or defers to one of these.
-/
namespace ZipArchive

open LittleEndian Layout

theorem toNat_ofUInt16 (n : UInt16) : toNat (ofUInt16 n) = n.toNat := by
  have small := n.toNat_lt
  rw [ofUInt16, toNat_ofNat]
  simp only [capacity]
  omega

theorem toNat_toUInt64 {bytes : List UInt8} (size : bytes.length = 8) :
    (toUInt64 bytes).toNat = toNat bytes := by
  have small := toNat_lt bytes
  rw [size] at small
  exact UInt64.toNat_ofNat_of_lt' small

theorem toNat_toUInt32 {bytes : List UInt8} (size : bytes.length = 4) :
    (toUInt32 bytes).toNat = toNat bytes := by
  have small := toNat_lt bytes
  rw [size] at small
  exact UInt32.toNat_ofNat_of_lt' small

namespace Extra

/-! ## Rows of records -/

/-- A record of an extra area. -/
structure Record where
  tag : UInt16
  content : List UInt8
  short : content.length < 65536

def Record.bytes (r : Record) : List UInt8 :=
  ofUInt16 r.tag ++ (ofUInt16 (.ofNat r.content.length) ++ r.content)

/-- None of the records holds wide numbers. -/
def Unrelated (records : List Record) : Prop := ∀ r ∈ records, r.tag ≠ wideTag

/-- The first record with the wide tag has the given content, cut short where the area ends. -/
def Reaches (area content : List UInt8) : Prop :=
  ∃ records length behind, Unrelated records ∧
    area = records.flatMap Record.bytes ++ (ofUInt16 wideTag ++ (ofUInt16 length ++ behind)) ∧
    content = behind.take length.toNat

theorem wideContent_head (tag length : UInt16) (behind : List UInt8) :
    wideContent (ofUInt16 tag ++ (ofUInt16 length ++ behind)) =
      if tag = wideTag then some (behind.take length.toNat)
      else wideContent (behind.drop length.toNat) := by
  obtain ⟨t₀, t₁, tagged⟩ : ∃ t₀ t₁, ofUInt16 tag = [t₀, t₁] := ⟨_, _, rfl⟩
  obtain ⟨l₀, l₁, long⟩ : ∃ l₀ l₁, ofUInt16 length = [l₀, l₁] := ⟨_, _, rfl⟩
  have told := toUInt16_ofUInt16 tag
  have counted := toNat_ofUInt16 length
  rw [tagged] at told
  rw [long] at counted
  rw [tagged, long]
  simp only [List.cons_append, List.nil_append]
  rw [wideContent, told, counted]

theorem Record.wideContent_bytes (r : Record) (behind : List UInt8) :
    wideContent (r.bytes ++ behind) =
      if r.tag = wideTag then some r.content else wideContent behind := by
  have size : (UInt16.ofNat r.content.length).toNat = r.content.length :=
    UInt16.toNat_ofNat_of_lt' r.short
  rw [bytes, List.append_assoc, List.append_assoc, wideContent_head, size, List.take_left,
    List.drop_left]

/-- Records with other tags are passed by. -/
theorem wideContent_unrelated {records : List Record} (unrelated : Unrelated records)
    (area : List UInt8) : wideContent (records.flatMap Record.bytes ++ area) = wideContent area := by
  induction records with
  | nil => rfl
  | cons r rest ih =>
    obtain ⟨other, others⟩ := List.forall_mem_cons.mp unrelated
    rw [List.flatMap_cons, List.append_assoc, r.wideContent_bytes, if_neg other, ih others]

theorem wideContent_reaches {area content : List UInt8} (found : wideContent area = some content) :
    Reaches area content := by
  fun_induction wideContent area with
  | case1 tag₀ tag₁ length₀ length₁ rest length tagged =>
    refine ⟨[], toUInt16 [length₀, length₁], rest, nofun, ?_, ?_⟩
    · rw [← tagged, ofUInt16_toUInt16 rfl, ofUInt16_toUInt16 rfl]
      rfl
    · rw [← toNat_ofUInt16, ofUInt16_toUInt16 rfl]
      exact (Option.some.inj found).symm
  | case2 tag₀ tag₁ length₀ length₁ rest length other ih =>
    obtain ⟨records, size, behind, unrelated, parts, cut⟩ := ih found
    have small : length < 65536 := toNat_lt [length₀, length₁]
    -- There is something behind the record, so that it ends within the area.
    have whole : (rest.take length).length = length := by
      have some : 0 < (rest.drop length).length := by
        rw [parts]
        simp only [List.length_append, length_ofUInt16]
        omega
      rw [List.length_drop] at some
      exact List.length_take_of_le (by omega)
    let r : Record := ⟨toUInt16 [tag₀, tag₁], rest.take length, by rwa [whole]⟩
    refine ⟨r :: records, size, behind, List.forall_mem_cons.mpr ⟨other, unrelated⟩, ?_, cut⟩
    have first : r.bytes = tag₀ :: tag₁ :: length₀ :: length₁ :: rest.take length := by
      change ofUInt16 (toUInt16 [tag₀, tag₁]) ++ (ofUInt16 (.ofNat (rest.take length).length) ++ _) = _
      rw [whole, ofUInt16_toUInt16 rfl]
      change _ ++ (ofUInt16 (toUInt16 [length₀, length₁]) ++ _) = _
      rw [ofUInt16_toUInt16 rfl]
      rfl
    rw [List.flatMap_cons, first, List.append_assoc, ← parts]
    simp only [List.cons_append, List.take_append_drop]
  | case3 => cases found

/-- The walk over an area ends at the first record with the wide tag, wherever the area ends. -/
theorem wideContent_eq_some_iff {area content : List UInt8} :
    wideContent area = some content ↔ Reaches area content := by
  refine ⟨wideContent_reaches, ?_⟩
  rintro ⟨records, length, behind, unrelated, rfl, rfl⟩
  rw [wideContent_unrelated unrelated, wideContent_head, if_pos rfl]

/-! ## Places of numbers -/

/-- Whether the number of a field is wanted. -/
def Wanted.wants (w : Wanted) : WideField → Bool
  | .uncompressedSize => w.uncompressedSize
  | .compressedSize => w.compressedSize
  | .headerOffset => w.headerOffset
  | .disk => w.disk

/-- The number that was found for a field. -/
def Found.value? (found : Found) : WideField → Option Nat
  | .uncompressedSize => found.uncompressedSize.map UInt64.toNat
  | .compressedSize => found.compressedSize.map UInt64.toNat
  | .headerOffset => found.headerOffset.map UInt64.toNat
  | .disk => found.disk.map UInt32.toNat

/-- How many bytes the number of a field takes. -/
def width : WideField → Nat
  | .disk => 4
  | _ => 8

/-- How many bytes the number of a field takes in a wide record. One that is not wanted is not there. -/
def Wanted.room (w : Wanted) (field : WideField) : Nat := if w.wants field then width field else 0

/-- Where the number of a field stands in a wide record: behind the wanted ones before it. -/
def Wanted.place (w : Wanted) : WideField → Nat
  | .uncompressedSize => 0
  | .compressedSize => w.room .uncompressedSize
  | .headerOffset => w.room .uncompressedSize + w.room .compressedSize
  | .disk => w.room .uncompressedSize + w.room .compressedSize + w.room .headerOffset

/-- A wanted number stands at its place in a wide record's content. -/
def numberAt (wanted : Bool) (place width : Nat) (content : List UInt8) : Option (List UInt8) :=
  if wanted = true ∧ place + width ≤ content.length then some (field content place width) else none

/-- A step of the walk over the numbers. Where one has no room, neither have those after it. -/
theorem nextNumber_drop (wanted : Bool) {width : Nat} (some : 0 < width) (place : Nat)
    (content : List UInt8) :
    nextNumber wanted width (content.drop place) =
      (numberAt wanted place width content,
        content.drop (place + if wanted then width else 0)) := by
  unfold nextNumber numberAt
  cases wanted with
  | false => simp
  | true =>
    by_cases room : place + width ≤ content.length
    · have fits : width ≤ content.length - place := by omega
      simp [room, fits, field, List.drop_drop]
    · have short : ¬ width ≤ content.length - place := by omega
      have ended : content.drop (place + width) = [] := List.drop_of_length_le (by omega)
      simp [room, short, ended]

theorem numbers_eq (w : Wanted) (content : List UInt8) :
    numbers w content =
      ⟨(numberAt w.uncompressedSize (w.place .uncompressedSize) 8 content).map toUInt64,
        (numberAt w.compressedSize (w.place .compressedSize) 8 content).map toUInt64,
        (numberAt w.headerOffset (w.place .headerOffset) 8 content).map toUInt64,
        (numberAt w.disk (w.place .disk) 4 content).map toUInt32⟩ := by
  have start : nextNumber w.uncompressedSize 8 content =
      nextNumber w.uncompressedSize 8 (content.drop 0) := rfl
  simp only [numbers, start, nextNumber_drop _ (show 0 < 8 by decide),
    nextNumber_drop _ (show 0 < 4 by decide), Nat.zero_add]
  rfl

theorem value?_numbers (w : Wanted) (content : List UInt8) (field : WideField) :
    (numbers w content).value? field =
      (numberAt (w.wants field) (w.place field) (width field) content).map toNat := by
  have read : ∀ wanted place, ((numberAt wanted place 8 content).map toUInt64).map UInt64.toNat =
      (numberAt wanted place 8 content).map toNat := by
    intro wanted place
    unfold numberAt
    split
    · rename_i there
      exact congrArg some (toNat_toUInt64 (length_field there.2))
    · rfl
  have readDisk : ∀ wanted place,
      ((numberAt wanted place 4 content).map toUInt32).map UInt32.toNat =
        (numberAt wanted place 4 content).map toNat := by
    intro wanted place
    unfold numberAt
    split
    · rename_i there
      exact congrArg some (toNat_toUInt32 (length_field there.2))
    · rfl
  rw [numbers_eq]
  cases field with
  | disk => exact readDisk _ _
  | _ => exact read _ _

/-- The extra area supplies a number for a field: it stands at its place in the first record with the
wide tag. -/
def Supplies (area : List UInt8) (w : Wanted) (wideField : WideField) (v : Nat) : Prop :=
  w.wants wideField = true ∧ ∃ content, Reaches area content ∧
    w.place wideField + width wideField ≤ content.length ∧
    v = toNat (field content (w.place wideField) (width wideField))

/-- What is found in an area are the numbers that stand at their places. -/
theorem value?_find {area : List UInt8} {w : Wanted} {field : WideField} {v : Nat} :
    (find w area).value? field = some v ↔ Supplies area w field v := by
  unfold find Supplies
  cases content : wideContent area with
  | none =>
    have nowhere : ∀ content, ¬ Reaches area content := by
      intro found reaches
      cases content.symm.trans (wideContent_eq_some_iff.mpr reaches)
    have nothing : (({} : Found).value? field) = none := by
      cases field <;> rfl
    rw [nothing]
    exact ⟨nofun, fun ⟨_, found, reaches, _⟩ => absurd reaches (nowhere found)⟩
  | some found =>
    have reaches := wideContent_eq_some_iff.mp content
    dsimp only
    rw [value?_numbers, numberAt]
    constructor
    · intro told
      split at told
      · rename_i there
        exact ⟨there.1, found, reaches, there.2, (Option.some.inj told).symm⟩
      · cases told
    · rintro ⟨wanted, other, reaches', room, rfl⟩
      cases content.symm.trans (wideContent_eq_some_iff.mpr reaches')
      rw [if_pos ⟨wanted, room⟩]
      rfl

/-! ## Numbers that are written -/

namespace Found

/-- The fields that a number was found for. -/
def wanted (found : Found) : Wanted where
  uncompressedSize := found.uncompressedSize.isSome
  compressedSize := found.compressedSize.isSome
  headerOffset := found.headerOffset.isSome
  disk := found.disk.isSome

/-- The numbers one behind the other, as a wide record holds them. -/
def bytes (found : Found) : List UInt8 :=
  found.uncompressedSize.elim [] ofUInt64 ++ (found.compressedSize.elim [] ofUInt64 ++
    (found.headerOffset.elim [] ofUInt64 ++ found.disk.elim [] ofUInt32))

theorem length_bytes_le (found : Found) : found.bytes.length ≤ 28 := by
  have size : ∀ n : Option UInt64, (n.elim [] ofUInt64).length ≤ 8
    | none => Nat.zero_le _
    | some n => Nat.le_of_eq (length_ofUInt64 n)
  have sizeDisk : ∀ n : Option UInt32, (n.elim [] ofUInt32).length ≤ 4
    | none => Nat.zero_le _
    | some n => Nat.le_of_eq (length_ofUInt32 n)
  have uncompressed := size found.uncompressedSize
  have compressed := size found.compressedSize
  have offset := size found.headerOffset
  have disk := sizeDisk found.disk
  simp only [bytes, List.length_append]
  omega

/-- The wide record that holds the numbers. -/
def record (found : Found) : Record :=
  ⟨wideTag, found.bytes, Nat.lt_of_le_of_lt found.length_bytes_le (by decide)⟩

end Found

theorem nextNumber_written {α : Type} {write : α → List UInt8} {width : Nat}
    (size : ∀ a, (write a).length = width) (number : Option α) (rest : List UInt8) :
    nextNumber number.isSome width (number.elim [] write ++ rest) = (number.map write, rest) := by
  cases number with
  | none => rfl
  | some a =>
    have room : width ≤ (write a ++ rest).length := by
      rw [List.length_append, size]
      exact Nat.le_add_right _ _
    simp only [Option.isSome_some, Option.elim_some, nextNumber, if_true, if_pos room,
      List.take_left' (size a), List.drop_left' (size a), Option.map_some]

/-- What a wide record holds behind its numbers makes no difference. -/
theorem numbers_bytes (found : Found) (behind : List UInt8) :
    numbers found.wanted (found.bytes ++ behind) = found := by
  have back : ∀ n : Option UInt64, (n.map ofUInt64).map toUInt64 = n
    | none => rfl
    | some n => congrArg some (toUInt64_ofUInt64 n)
  have backDisk : ∀ n : Option UInt32, (n.map ofUInt32).map toUInt32 = n
    | none => rfl
    | some n => congrArg some (toUInt32_ofUInt32 n)
  unfold numbers Found.bytes Found.wanted
  simp only [List.append_assoc, nextNumber_written length_ofUInt64,
    nextNumber_written length_ofUInt32, back, backDisk]

theorem find_nothing (area : List UInt8) : find ({} : Found).wanted area = {} := by
  unfold find
  cases wideContent area <;> rfl

/-- The numbers at the front of the first wide record are found. -/
theorem find_written {records : List Record} (unrelated : Unrelated records) {wide : Record}
    (tagged : wide.tag = wideTag) {found : Found} {tail : List UInt8}
    (holds : wide.content = found.bytes ++ tail) (behind : List UInt8) :
    find found.wanted (records.flatMap Record.bytes ++ (wide.bytes ++ behind)) = found := by
  rw [find, wideContent_unrelated unrelated, Record.wideContent_bytes, if_pos tagged, holds]
  exact numbers_bytes found tail

/-- An area that holds just these wide numbers: in the first record with the wide tag, or in none
when there are none. -/
def Carries (area : List UInt8) (found : Found) : Prop :=
  found = {} ∨ ∃ records behind, Unrelated records ∧
    area = records.flatMap Record.bytes ++ (found.record.bytes ++ behind)

/-- The numbers that an area carries are found in it. -/
theorem find_carries {area : List UInt8} {found : Found} (carries : Carries area found) :
    find found.wanted area = found := by
  rcases carries with rfl | ⟨records, behind, unrelated, rfl⟩
  · exact find_nothing area
  · exact find_written unrelated rfl (List.append_nil _).symm behind

end Extra

/-! ## Slots -/

namespace Extent

variable {e : Extent} {number : UInt32} {found : Option UInt64}

theorem resolve_eq_none : resolve number found = none ↔ number = deferred ∧ found = none := by
  unfold resolve
  split <;> simp_all

/-- The extent is what a slot tells: the slot's own number, or if the slot is all ones, one that is
supplied for it. -/
def IsRead (e : Extent) (number : UInt32) (supplied : Nat → Prop) : Prop :=
  match e with
  | .classic n => number ≠ deferred ∧ n = number
  | .extended n => number = deferred ∧ supplied n.toNat

theorem isRead_of_resolve {supplied : Nat → Prop} (resolved : resolve number found = some e)
    (given : ∀ n, found.map UInt64.toNat = some n → supplied n) : e.IsRead number supplied := by
  unfold resolve at resolved
  split at resolved
  · rename_i all_ones
    obtain ⟨n, rfl, rfl⟩ := Option.map_eq_some_iff.mp resolved
    exact ⟨all_ones, given _ rfl⟩
  · rename_i plain
    cases resolved
    exact ⟨plain, rfl⟩

/-- The number that a slot defers to. -/
def wide? : Extent → Option UInt64
  | .classic _ => none
  | .extended n => some n

/-- What stands in the slot. -/
def slot : Extent → UInt32
  | .classic n => n
  | .extended _ => deferred

/-- A slot can tell the extent: its own number is not the one that defers. -/
def Tellable (e : Extent) : Prop := e ≠ .classic deferred

instance (e : Extent) : Decidable e.Tellable := inferInstanceAs (Decidable (e ≠ .classic deferred))

theorem slot_eq_deferred_iff (tellable : e.Tellable) :
    e.slot = deferred ↔ e.wide?.isSome = true := by
  cases e with
  | classic n => exact ⟨fun same => absurd (congrArg classic same) tellable, nofun⟩
  | extended n => exact ⟨fun _ => rfl, fun _ => rfl⟩

theorem resolve_slot (tellable : e.Tellable) : resolve e.slot e.wide? = some e := by
  cases e with
  | classic n => exact if_neg fun same => tellable (congrArg classic same)
  | extended n => rfl

end Extent

namespace DiskNumber

variable {d : DiskNumber} {number : UInt16} {found : Option UInt32}

theorem resolve_eq_none : resolve number found = none ↔ number = deferred ∧ found = none := by
  unfold resolve
  split <;> simp_all

/-- The disk is what a slot tells: the slot's own number, or if the slot is all ones, one that is
supplied for it. -/
def IsRead (d : DiskNumber) (number : UInt16) (supplied : Nat → Prop) : Prop :=
  match d with
  | .classic n => number ≠ deferred ∧ n = number
  | .extended n => number = deferred ∧ supplied n.toNat

theorem isRead_of_resolve {supplied : Nat → Prop} (resolved : resolve number found = some d)
    (given : ∀ n, found.map UInt32.toNat = some n → supplied n) : d.IsRead number supplied := by
  unfold resolve at resolved
  split at resolved
  · rename_i all_ones
    obtain ⟨n, rfl, rfl⟩ := Option.map_eq_some_iff.mp resolved
    exact ⟨all_ones, given _ rfl⟩
  · rename_i plain
    cases resolved
    exact ⟨plain, rfl⟩

/-- The number that a slot defers to. -/
def wide? : DiskNumber → Option UInt32
  | .classic _ => none
  | .extended n => some n

/-- What stands in the slot. -/
def slot : DiskNumber → UInt16
  | .classic n => n
  | .extended _ => deferred

/-- A slot can tell the disk: its own number is not the one that defers. -/
def Tellable (d : DiskNumber) : Prop := d ≠ .classic deferred

instance (d : DiskNumber) : Decidable d.Tellable :=
  inferInstanceAs (Decidable (d ≠ .classic deferred))

theorem slot_eq_deferred_iff (tellable : d.Tellable) :
    d.slot = deferred ↔ d.wide?.isSome = true := by
  cases d with
  | classic n => exact ⟨fun same => absurd (congrArg classic same) tellable, nofun⟩
  | extended n => exact ⟨fun _ => rfl, fun _ => rfl⟩

theorem resolve_slot (tellable : d.Tellable) : resolve d.slot d.wide? = some d := by
  cases d with
  | classic n => exact if_neg fun same => tellable (congrArg classic same)
  | extended n => rfl

end DiskNumber
end ZipArchive
