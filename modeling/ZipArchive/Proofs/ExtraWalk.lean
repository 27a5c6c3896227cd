import ZipArchive.Proofs.CheckedSlices
import ZipArchive.Proofs.ExtraRecords

/-!
# The walk over an extra area

The walk starts at the front of the area and steps from each record to where that one ends by its
own account, until it finds one with the wide tag (`Extra.FindsAt`). What is found are the wanted
numbers that stand at their places in that record (`Extra.value?_eq_some_iff`). So a number that has
no room there takes those behind it along (`Extra.value?_none_onward`), and what is behind the
record makes no difference (`Extra.find_congr`).
-/
namespace ZipArchive.Extra

open LittleEndian Layout

variable {area other : List UInt8} {w : Wanted} {pos : Nat}

/-! ## Positions -/

/-- The tag of the record at a position. -/
def tagAt (area : List UInt8) (pos : Nat) : UInt16 := toUInt16 (field area pos 2)

/-- The length of the record at a position, by its own account. -/
def lengthAt (area : List UInt8) (pos : Nat) : Nat := toNat (field area (pos + 2) 2)

/-- Where the record at a position ends, by its own account. -/
def stopAt (area : List UInt8) (pos : Nat) : Nat := pos + 4 + lengthAt area pos

/-- The content of the record at a position, cut short where the area ends. -/
def contentAt (area : List UInt8) (pos : Nat) : List UInt8 :=
  field area (pos + 4) (lengthAt area pos)

/-- The walk comes to a position: it starts at the front, and goes on behind each record that has
another tag than the wide one. -/
inductive ComesTo (area : List UInt8) : Nat → Prop where
  | start : ComesTo area 0
  | next {pos : Nat} (before : ComesTo area pos) (head : pos + 4 ≤ area.length)
      (passed : tagAt area pos ≠ wideTag) : ComesTo area (stopAt area pos)

/-- The walk comes to a record with the wide tag, whose tag and length are in the area. -/
structure FindsAt (area : List UInt8) (pos : Nat) : Prop where
  comes : ComesTo area pos
  head : pos + 4 ≤ area.length
  wide : tagAt area pos = wideTag

theorem drop_eq_head (area : List UInt8) (pos : Nat) :
    area.drop pos = field area pos 2 ++ (field area (pos + 2) 2 ++ area.drop (pos + 4)) := by
  have first : area.drop pos = field area pos 2 ++ area.drop (pos + 2) := by
    rw [field, ← List.drop_drop, List.take_append_drop]
  have second : area.drop (pos + 2) = field area (pos + 2) 2 ++ area.drop (pos + 4) := by
    rw [field, ← List.drop_drop (i := 2) (j := pos + 2), List.take_append_drop]
  rw [← second, ← first]

/-- One step of the walk. -/
theorem wideContent_drop (head : pos + 4 ≤ area.length) :
    wideContent (area.drop pos) =
      if tagAt area pos = wideTag then some (contentAt area pos)
      else wideContent (area.drop (stopAt area pos)) := by
  have tag : ofUInt16 (tagAt area pos) = field area pos 2 :=
    ofUInt16_toUInt16 (length_field (by omega))
  have length : ofUInt16 (toUInt16 (field area (pos + 2) 2)) = field area (pos + 2) 2 :=
    ofUInt16_toUInt16 (length_field (by omega))
  have counted : (toUInt16 (field area (pos + 2) 2)).toNat = lengthAt area pos := by
    rw [← toNat_ofUInt16, length]
    rfl
  rw [drop_eq_head area pos, ← tag, ← length, wideContent_head, counted, List.drop_drop]
  rfl

/-- What is passed by makes no difference to what is found. -/
theorem ComesTo.wideContent_eq (comes : ComesTo area pos) :
    wideContent area = wideContent (area.drop pos) := by
  induction comes with
  | start => rfl
  | next _ head passed ih => rw [ih, wideContent_drop head, if_neg passed]

theorem FindsAt.wideContent_eq (finds : FindsAt area pos) :
    wideContent area = some (contentAt area pos) := by
  rw [finds.comes.wideContent_eq, wideContent_drop finds.head, if_pos finds.wide]

theorem ComesTo.findsAt (comes : ComesTo area pos) {content : List UInt8}
    (found : wideContent (area.drop pos) = some content) :
    ∃ pos', FindsAt area pos' ∧ content = contentAt area pos' := by
  induction left : area.length - pos using Nat.strongRecOn generalizing pos with
  | ind left' ih =>
    by_cases head : pos + 4 ≤ area.length
    · rw [wideContent_drop head] at found
      by_cases wide : tagAt area pos = wideTag
      · rw [if_pos wide] at found
        exact ⟨pos, ⟨comes, head, wide⟩, (Option.some.inj found).symm⟩
      · rw [if_neg wide] at found
        have further : area.length - stopAt area pos < left' := by
          unfold stopAt
          omega
        exact ih _ further (comes.next head wide) found rfl
    · have short : (area.drop pos).length < 4 := by
        rw [List.length_drop]
        omega
      rw [wideContent_short short] at found
      cases found

/-- The content that is found is the one of the record that the walk ends at. -/
theorem reaches_iff {content : List UInt8} :
    Reaches area content ↔ ∃ pos, FindsAt area pos ∧ content = contentAt area pos := by
  rw [← wideContent_eq_some_iff]
  constructor
  · exact ComesTo.start.findsAt
  · rintro ⟨pos, finds, rfl⟩
    exact finds.wideContent_eq

/-! ## What is found -/

/-- The wanted numbers of an area, by the checked form of the walk. -/
def find? (w : Wanted) (area : List UInt8) : Option Found := do
  match ← contentFrom? area 0 with
  | some content => return numbers w content
  | none => return {}

/-- The walk looks at nothing outside of the area. -/
theorem find?_eq (small : area.length < fileOffsetLimit) (w : Wanted) :
    find? w area = some (find w area) := by
  unfold find? find
  rw [contentFrom?_eq small (Nat.zero_le _), List.drop_zero]
  cases wideContent area <;> rfl

/-- The numbers that are found are the wanted ones that stand at their places in the record that the
walk ends at. -/
theorem value?_eq_some_iff {wideField : WideField} {v : Nat} :
    (find w area).value? wideField = some v ↔
      w.wants wideField = true ∧ ∃ pos, FindsAt area pos ∧
        w.place wideField + width wideField ≤ (contentAt area pos).length ∧
        v = toNat (field (contentAt area pos) (w.place wideField) (width wideField)) := by
  rw [value?_find, Supplies]
  refine and_congr_right fun _ => ⟨?_, ?_⟩
  · rintro ⟨content, reaches, room, told⟩
    obtain ⟨pos, finds, rfl⟩ := reaches_iff.mp reaches
    exact ⟨pos, finds, room, told⟩
  · rintro ⟨pos, finds, room, told⟩
    exact ⟨contentAt area pos, reaches_iff.mpr ⟨pos, finds, rfl⟩, room, told⟩

/-- Where a field's number comes among the numbers of a wide record. -/
def rank : WideField → Nat
  | .uncompressedSize => 0
  | .compressedSize => 1
  | .headerOffset => 2
  | .disk => 3

/-- A wanted number ends before the places of those behind it. -/
theorem Wanted.place_le {earlier later : WideField} (wanted : w.wants earlier = true)
    (behind : rank earlier < rank later) : w.place earlier + width earlier ≤ w.place later := by
  cases earlier <;> cases later <;>
    simp_all [rank, Wanted.place, Wanted.room, Wanted.wants, width]
  omega

/-- A wanted number that has no room takes along those behind it. -/
theorem value?_none_onward {earlier later : WideField} (wanted : w.wants earlier = true)
    (absent : (find w area).value? earlier = none) (behind : rank earlier < rank later) :
    (find w area).value? later = none := by
  cases found : (find w area).value? later with
  | none => rfl
  | some v =>
    obtain ⟨_, pos, finds, room, -⟩ := value?_eq_some_iff.mp found
    have before := w.place_le wanted behind
    have there := value?_eq_some_iff.mpr
      ⟨wanted, pos, finds, Nat.le_trans before (Nat.le_of_add_right_le room), rfl⟩
    rw [absent] at there
    cases there

theorem find_nowhere (nowhere : ∀ pos, ¬ FindsAt area pos) (w : Wanted) : find w area = {} := by
  unfold find
  cases found : wideContent area with
  | none => rfl
  | some content =>
    obtain ⟨pos, finds, -⟩ := reaches_iff.mp (wideContent_eq_some_iff.mp found)
    exact absurd finds (nowhere pos)

/-! ## What is behind the record -/

section Front

variable {n : Nat}

theorem field_congr (front : other.take n = area.take n) {offset width : Nat}
    (inside : offset + width ≤ n) : field other offset width = field area offset width := by
  have cut : ∀ bytes : List UInt8,
      field (bytes.take n) offset width = field bytes offset width := by
    intro bytes
    rw [field, field, List.drop_take, List.take_take, Nat.min_eq_left (by omega)]
  rw [← cut other, front, cut]

theorem length_le_of_front (front : other.take n = area.take n) {k : Nat} (inside : k ≤ n)
    (there : k ≤ area.length) : k ≤ other.length := by
  have length := congrArg List.length front
  simp only [List.length_take] at length
  omega

theorem take_front (front : other.take n = area.take n) {k : Nat} (inside : k ≤ n) :
    other.take k = area.take k := by
  rw [← Nat.min_eq_left inside, ← List.take_take, front, List.take_take]

theorem tagAt_congr (front : other.take n = area.take n) (inside : pos + 4 ≤ n) :
    tagAt other pos = tagAt area pos := by
  rw [tagAt, field_congr front (by omega), tagAt]

theorem lengthAt_congr (front : other.take n = area.take n) (inside : pos + 4 ≤ n) :
    lengthAt other pos = lengthAt area pos := by
  rw [lengthAt, field_congr front (by omega), lengthAt]

theorem ComesTo.congr (comes : ComesTo area pos) (front : other.take pos = area.take pos) :
    ComesTo other pos := by
  induction comes with
  | start => exact .start
  | @next pos _ head passed ih =>
    have inside : pos + 4 ≤ stopAt area pos := Nat.le_add_right _ _
    have before := ih (take_front front (Nat.le_of_add_right_le inside))
    have tag := tagAt_congr front inside
    have stop : stopAt other pos = stopAt area pos := by
      rw [stopAt, lengthAt_congr front inside, stopAt]
    rw [← stop]
    exact before.next (length_le_of_front front inside head) (tag ▸ passed)

/-- What is behind the record that the walk ends at makes no difference. -/
theorem find_congr (finds : FindsAt area pos)
    (front : other.take (stopAt area pos) = area.take (stopAt area pos)) (w : Wanted) :
    find w other = find w area := by
  have inside : pos + 4 ≤ stopAt area pos := Nat.le_add_right _ _
  have comes := finds.comes.congr (take_front front (Nat.le_of_add_right_le inside))
  have tag := tagAt_congr front inside
  have finds' : FindsAt other pos :=
    ⟨comes, length_le_of_front front inside finds.head, tag.trans finds.wide⟩
  have content : contentAt other pos = contentAt area pos := by
    rw [contentAt, lengthAt_congr front inside, field_congr front (Nat.le_refl _), contentAt]
  rw [find, find, finds.wideContent_eq, finds'.wideContent_eq, content]

end Front

/-- What the scan of an area finds: the wanted numbers that stand at their places in the first
record with the wide tag that the walk comes to, up to the first that has no room there. It looks at
nothing outside of the area, and what is behind this record makes no difference. Numbers that were
written are found behind any records with other tags. -/
theorem find_exact (w : Wanted) (area : List UInt8) :
    (area.length < fileOffsetLimit → find? w area = some (find w area)) ∧
    (∀ wideField v, (find w area).value? wideField = some v ↔
      w.wants wideField = true ∧ ∃ pos, FindsAt area pos ∧
        w.place wideField + width wideField ≤ (contentAt area pos).length ∧
        v = toNat (field (contentAt area pos) (w.place wideField) (width wideField))) ∧
    (∀ earlier later, w.wants earlier = true → (find w area).value? earlier = none →
      rank earlier < rank later → (find w area).value? later = none) ∧
    (∀ pos, FindsAt area pos → ∀ other : List UInt8,
      other.take (stopAt area pos) = area.take (stopAt area pos) → find w other = find w area) ∧
    ((∀ pos, ¬ FindsAt area pos) → find w area = {}) ∧
    ∀ (found : Found) (records : List Record) (wide : Record) (tail behind : List UInt8),
      Unrelated records → wide.tag = wideTag → wide.content = found.bytes ++ tail →
        find found.wanted (records.flatMap Record.bytes ++ (wide.bytes ++ behind)) = found := by
  refine ⟨fun small => find?_eq small w, fun _ _ => value?_eq_some_iff,
    fun _ _ wanted absent behind => value?_none_onward wanted absent behind,
    fun _ finds _ front => find_congr finds front w, fun nowhere => find_nowhere nowhere w, ?_⟩
  intro found records wide tail behind unrelated tagged holds
  exact find_written unrelated tagged holds behind

/-- A wide record that ends four bytes behind its first number. -/
def shortRecord : List UInt8 :=
  [0x55, 0x54, 1, 0, 9, 1, 0, 12, 0, 1, 2, 0, 0, 0, 0, 0, 0, 3, 0, 0, 0]

/-- These four bytes are not taken for the number of a disk. -/
theorem shortRecord_exact :
    let w : Wanted := { uncompressedSize := true, compressedSize := true, disk := true }
    find? w shortRecord = some ⟨some 0x201, none, none, none⟩ ∧
      (find w shortRecord).value? .disk = none := by
  intro w
  have found : find w shortRecord = ⟨some 0x201, none, none, none⟩ := by decide +kernel
  obtain ⟨inside, -, onward, -⟩ := find_exact w shortRecord
  refine ⟨found ▸ inside (by decide), onward .compressedSize .disk rfl ?_ (by decide)⟩
  rw [found]
  rfl

end ZipArchive.Extra
