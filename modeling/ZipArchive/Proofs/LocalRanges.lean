import Mathlib.Data.Nat.Bitwise
import ZipArchive.Decode.Standard
import ZipArchive.Proofs.Extracting

/-!
# The local header decides

A local header is read through a window of bounded length (`Member.headerWindow`). The window is no
part of the outcome: a layout that never gets past a number of bytes (`Layout.Within`) comes to the
same on that many bytes as on all there are (`Layout.Within.outcome_take`), and no local header is
longer than the window (`LocalHeader.layout_within`). So where the content of a member lies is what
the header says that stands in the whole remainder of the source, and of the directory only the two
sizes can matter, and only to a header whose sizes follow the data
(`Member.local_header_decides`).
-/
namespace ZipArchive

/-! ## Layouts of bounded length -/

namespace Layout

variable {α β : Type} {label record : String}

/-- Whatever the bytes are, the layout never gets past the first `n` of them. -/
def Within : Layout α → (n : Nat) → Prop
  | .done _, _ => True
  | .refuse _, _ => True
  | .bytes length next, n => length ≤ n ∧ ∀ b, (next b).Within (n - length)
  | .skip length next, n => length ≤ n ∧ next.Within (n - length)

theorem Within.mono {x : Layout α} {m n : Nat} (within : x.Within m) (le : m ≤ n) : x.Within n := by
  induction x generalizing m n with
  | done value => trivial
  | refuse error => trivial
  | bytes length next ih =>
    obtain ⟨room, rest⟩ := within
    exact ⟨Nat.le_trans room le, fun b => ih b (rest b) (by omega)⟩
  | skip length next ih =>
    obtain ⟨room, rest⟩ := within
    exact ⟨Nat.le_trans room le, ih rest (by omega)⟩

theorem Within.bind {x : Layout α} {f : α → Layout β} {m n : Nat} (first : x.Within m)
    (second : ∀ a, (f a).Within n) : (x >>= f).Within (m + n) := by
  change (x.bind f).Within (m + n)
  induction x generalizing m with
  | done value => exact (second value).mono (Nat.le_add_left n m)
  | refuse error => trivial
  | bytes length next ih =>
    obtain ⟨room, rest⟩ := first
    refine ⟨Nat.le_add_right_of_le room, fun b => ?_⟩
    rw [Nat.sub_add_comm room]
    exact ih b (rest b)
  | skip length next ih =>
    obtain ⟨room, rest⟩ := first
    refine ⟨Nat.le_add_right_of_le room, ?_⟩
    rw [Nat.sub_add_comm room]
    exact ih rest

theorem take_within (length : Nat) : (take length).Within length :=
  ⟨Nat.le_refl length, fun _ => trivial⟩

theorem pass_within (length : Nat) : (pass length).Within length :=
  ⟨Nat.le_refl length, trivial⟩

theorem signature_within (name : String) (expected : UInt32) : (signature name expected).Within 4 :=
  Within.bind (x := uint32) (n := 0) ⟨Nat.le_refl 4, fun _ => trivial⟩ fun found => by
    split <;> trivial

/-- Bytes behind the last one that the layout can get to make no difference. -/
theorem Within.outcome_take {x : Layout α} {n : Nat} (within : x.Within n) (bytes : List UInt8) :
    x.outcome label record (bytes.take n) = x.outcome label record bytes := by
  unfold outcome
  induction x generalizing n bytes with
  | done value => rfl
  | refuse error => rfl
  | bytes length next ih =>
    obtain ⟨room, rest⟩ := within
    have cut : (bytes.take n).length = min n bytes.length := List.length_take
    by_cases long : length ≤ bytes.length
    · rw [parse_bytes_long next long, parse_bytes_long next (by omega), List.take_take,
        Nat.min_eq_left room, List.drop_take]
      exact ih _ (rest _) _
    · have short : bytes.length < length := Nat.lt_of_not_le long
      rw [parse_bytes_short next short, parse_bytes_short next (by omega)]
  | skip length next ih =>
    obtain ⟨room, rest⟩ := within
    have cut : (bytes.take n).length = min n bytes.length := List.length_take
    by_cases long : length ≤ bytes.length
    · rw [parse_skip_long next long, parse_skip_long next (by omega), List.drop_take]
      exact ih rest _
    · have short : bytes.length < length := Nat.lt_of_not_le long
      rw [parse_skip_short next short, parse_skip_short next (by omega)]

/-- Reading a record through blocks of a window has the outcome of parsing the window's bytes. -/
theorem readWindow_outcome {σ : Type} {source : Source σ} {content : ByteArray}
    (holds : source.Holds content) (layout : Layout α) (record : String) {b : Buffered}
    {cursor stop : Nat} (reads : b.Reads content cursor stop) (s : σ) :
    (layout.readWindow source record b s).1 =
      layout.outcome source.label record (span content cursor stop) := by
  have read := layout.readWindow_serves holds record reads s
  unfold Layout.outcome
  rcases parsed : layout.parse source.label record (span content cursor stop) with
    ⟨e | value, rest⟩
  · rw [parsed] at read
    obtain ⟨_, _, read⟩ := read
    rw [read]
  · rw [parsed] at read
    obtain ⟨_, _, _, read, _⟩ := read
    rw [read]

end Layout

namespace LocalHeader

theorem resolveSize_within (f : Fixed) (field : WideField) (slot : UInt32) (wide : Option UInt64) :
    (resolveSize f field slot wide).Within 0 := by
  unfold resolveSize
  split
  · trivial
  · split <;> trivial

theorem resolve_within (f : Fixed) (extra : List UInt8) : (resolve f extra).Within 0 :=
  (resolveSize_within ..).bind (n := 0) fun _ =>
    (resolveSize_within ..).bind (n := 0) fun _ => trivial

/-- Name and extra area are as long as two bytes can tell. -/
theorem layout_within : layout.Within maxLength := by
  have short : ∀ n : UInt16, n.toNat ≤ 65535 := fun n => Nat.le_of_lt_succ n.toNat_lt
  have variableParts : ∀ f : Fixed, (do
      .pass f.nameLength.toNat
      let extra ← .take f.extraLength.toNat
      resolve f extra : Layout LocalHeader).Within (65535 + (65535 + 0)) := fun f =>
    ((Layout.pass_within _).mono (short _)).bind fun _ =>
      ((Layout.take_within _).mono (short _)).bind fun extra => resolve_within f extra
  have whole := (Layout.signature_within recordName signature).bind fun _ =>
    (Layout.take_within 26).bind fun taken => variableParts (.ofBytes taken)
  exact whole.mono (by decide)

/-- The descriptor flag is bit 3. -/
theorem descriptorFlag_set_iff (flags : UInt16) :
    flags &&& descriptorFlag ≠ 0 ↔ flags.toNat.testBit 3 = true := by
  have bit : flags.toNat &&& 8 = (flags.toNat.testBit 3).toNat * 8 := Nat.and_two_pow _ 3
  have same : (flags &&& descriptorFlag).toNat = flags.toNat &&& 8 := UInt16.toNat_and _ _
  rw [bit] at same
  cases set : flags.toNat.testBit 3 with
  | false =>
    rw [set] at same
    simp only [Bool.false_eq_true, iff_false, not_not]
    exact UInt16.toNat_inj.mp same
  | true =>
    rw [set] at same
    simp only [iff_true]
    intro zero
    rw [zero] at same
    cases same

theorem hasDescriptor_eq (h : LocalHeader) : h.hasDescriptor = h.flags.toNat.testBit 3 := by
  rw [Bool.eq_iff_iff, ← descriptorFlag_set_iff]
  exact decide_eq_true_iff

end LocalHeader

/-! ## Ranges -/

namespace Member

variable {σ : Type} {source : Source σ} {content : ByteArray}

/-- What reading a local header comes to with all that is left of the content from its start on. -/
def headerInRemainder (source : Source σ) (m : Member) (content : ByteArray) :
    Except ZipError LocalHeader :=
  LocalHeader.layout.outcome source.label LocalHeader.recordName
    (span content m.headerStart content.size)

/-- The bounded window does not change the outcome. -/
theorem headerRead_eq (source : Source σ) (m : Member) (content : ByteArray) :
    m.headerRead source content = m.headerInRemainder source content := by
  have cut : m.headerBytes content =
      (span content m.headerStart content.size).take LocalHeader.maxLength := by
    rw [take_span, headerBytes, ← span_clamped content m.headerStart (m.headerStart + _),
      ← span_clamped content m.headerStart (min _ content.size), Nat.min_assoc, Nat.min_self]
  rw [headerRead, cut, LocalHeader.layout_within.outcome_take, headerInRemainder]

/-- The range that a local header tells of. The directory is asked for the two sizes if bit 3 of the
header's flags is set, and for nothing else. -/
def rangeTold (m : Member) (header : LocalHeader) : DataRange :=
  let start := m.headerStart + 30 + header.nameLength.toNat + header.extraLength.toNat
  let (compressedSize, uncompressedSize) :=
    if header.flags.toNat.testBit 3 then (m.info.compressedSize, m.info.uncompressedSize)
    else (header.compressedSize.value, header.uncompressedSize.value)
  ⟨header, compressedSize, uncompressedSize, start, start + compressedSize.toNat⟩

theorem rangeBehind_eq (m : Member) (size : Nat) (header : LocalHeader) :
    m.rangeBehind size header =
      if (m.rangeTold header).stop ≤ size then .ok (m.rangeTold header)
      else .error (.corrupt (.dataBeyondEnd m.name (m.rangeTold header).compressedSize.toNat
        (m.rangeTold header).start)) := by
  have start : m.headerStart + header.length =
      m.headerStart + 30 + header.nameLength.toNat + header.extraLength.toNat := by
    simp only [LocalHeader.length, LocalHeader.minLength]
    omega
  unfold rangeBehind sizes rangeTold
  rw [header.hasDescriptor_eq, start]

/-- Members that agree on where the header is agree on the range it tells of, as long as they agree
on the sizes that it does not tell itself. -/
theorem rangeTold_congr {m other : Member} {header : LocalHeader}
    (start : other.headerStart = m.headerStart)
    (sizes : header.flags.toNat.testBit 3 = true →
      other.info.compressedSize = m.info.compressedSize ∧
        other.info.uncompressedSize = m.info.uncompressedSize) :
    other.rangeTold header = m.rangeTold header := by
  unfold rangeTold
  rw [start]
  by_cases set : header.flags.toNat.testBit 3 = true
  · rw [if_pos set, if_pos set, (sizes set).1, (sizes set).2]
  · rw [if_neg set, if_neg set]

/-- A member's range is the one its header tells of, unless it runs past the end. -/
theorem ranged_eq (source : Source σ) (m : Member) (content : ByteArray) :
    m.ranged source content =
      match m.headerInRemainder source content with
      | .ok header =>
        if (m.rangeTold header).stop ≤ content.size then .ok (m.rangeTold header)
        else .error (.corrupt (.dataBeyondEnd m.name (m.rangeTold header).compressedSize.toNat
          (m.rangeTold header).start))
      | .error e => .error e := by
  rw [ranged, headerRead_eq]
  cases m.headerInRemainder source content with
  | error e => rfl
  | ok header => rw [bind_ok, rangeBehind_eq]

theorem ranged_ok_iff {m : Member} {range : DataRange} :
    m.ranged source content = .ok range ↔
      ∃ header, m.headerInRemainder source content = .ok header ∧
        range = m.rangeTold header ∧ range.stop ≤ content.size := by
  rw [ranged_eq]
  cases m.headerInRemainder source content with
  | error e => simp
  | ok header => by_cases fits : (m.rangeTold header).stop ≤ content.size <;> grind

theorem ranged_error_iff {m : Member} {error : ZipError} :
    m.ranged source content = .error error ↔
      m.headerInRemainder source content = .error error ∨
        ∃ header, m.headerInRemainder source content = .ok header ∧
          content.size < (m.rangeTold header).stop ∧
          error = .corrupt (.dataBeyondEnd m.name (m.rangeTold header).compressedSize.toNat
            (m.rangeTold header).start) := by
  rw [ranged_eq]
  cases m.headerInRemainder source content with
  | error e => simp
  | ok header => by_cases fits : (m.rangeTold header).stop ≤ content.size <;> grind

/-- What finding the content of one member comes to, said of another with the same header. -/
theorem ranged_apart {m other : Member} (start : other.headerStart = m.headerStart)
    (sizes : ∀ header, m.headerInRemainder source content = .ok header →
      header.flags.toNat.testBit 3 = true →
        other.info.compressedSize = m.info.compressedSize ∧
          other.info.uncompressedSize = m.info.uncompressedSize) :
    (other.ranged source content).toOption = (m.ranged source content).toOption ∧
      (other.path = m.path → other.ranged source content = m.ranged source content) := by
  have header_eq : other.headerInRemainder source content = m.headerInRemainder source content := by
    unfold headerInRemainder
    rw [start]
  rw [ranged_eq, ranged_eq, header_eq]
  cases read : m.headerInRemainder source content with
  | error e => exact ⟨rfl, fun _ => rfl⟩
  | ok header =>
    have told := rangeTold_congr start (sizes header read)
    simp only [told]
    constructor
    · split <;> rfl
    · intro path
      rw [name, name, path]

/-! ## Running -/

/-- The header is read in the whole remainder, through blocks of whatever size. -/
theorem readWindow_remainder (holds : source.Holds content) (m : Member) (capacity : Nat) (s : σ) :
    (LocalHeader.layout.readWindow source LocalHeader.recordName
      ⟨.new source.size m.headerStart source.size, capacity, .empty, 0⟩ s).1 =
      m.headerInRemainder source content := by
  have window := Buffered.reads_new content m.headerStart content.size capacity
  rw [headerInRemainder, ← span_clamped, holds.size_eq,
    LocalHeader.layout.readWindow_outcome holds _ window]

/-- What plugging a member comes to. -/
theorem plug_result [Decoders] (holds : source.Holds content) (m : Member) (r : Run σ) :
    ((m.plug source).run r).1 =
      (m.ranged source content).bind (m.pluggedFrom content.size) :=
  ((m.dataRange_yields holds).bindReported fun range _ =>
    m.plugRange_yields holds range).result_eq r

/-- The content of a member is decoded as its range says, whatever else is known of the member. -/
theorem plugged_map [Decoders] (m : Member) (size : Nat) :
    ((m.ranged source content).bind (m.pluggedFrom size)).toOption.map
        (fun plugged => (plugged.uncompressedSize, plugged.stream)) =
      (m.ranged source content).toOption.bind fun range =>
        range.header.method.stage?.map fun stage =>
          (range.uncompressedSize, .new stage (.new size range.start range.stop)) := by
  cases m.ranged source content with
  | error e => rfl
  | ok range =>
    rw [bind_ok, pluggedFrom]
    cases stage : range.header.method.stage? with
    | none => simp [Except.toOption, stage]
    | some found => simp [Except.toOption, stage]

/-- The content of a member is found where its local header says, read with all that is left of the
source from the header on. Of two members with one header, the ranges, declared sizes and decoders
are the same unless bit 3 of the header's flags has the sizes of the directory count and these
differ. -/
theorem local_header_decides [Decoders] (holds : source.Holds content) (m : Member) (r : Run σ) :
    let header := m.headerInRemainder source content
    let found := ((m.dataRange source).run r).1
    let plugged := ((m.plug source).run r).1
    (∀ capacity s, (LocalHeader.layout.readWindow source LocalHeader.recordName
      ⟨.new source.size m.headerStart source.size, capacity, .empty, 0⟩ s).1 = header) ∧
    (∀ range, found = .ok range ↔
      ∃ h, header = .ok h ∧ range = m.rangeTold h ∧ range.stop ≤ content.size) ∧
    (∀ error, found = .error error ↔
      header = .error error ∨ ∃ h, header = .ok h ∧ content.size < (m.rangeTold h).stop ∧
        error = .corrupt (.dataBeyondEnd m.name (m.rangeTold h).compressedSize.toNat
          (m.rangeTold h).start)) ∧
    (∀ range, found = .ok range → range.start ≤ range.stop ∧ range.stop ≤ content.size) ∧
    ∀ (other : Member) (r' : Run σ), other.headerStart = m.headerStart →
      (∀ h, header = .ok h → h.flags.toNat.testBit 3 = true →
        other.info.compressedSize = m.info.compressedSize ∧
          other.info.uncompressedSize = m.info.uncompressedSize) →
      ((other.dataRange source).run r').1.toOption = found.toOption ∧
      ((other.plug source).run r').1.toOption.map (fun p => (p.uncompressedSize, p.stream)) =
        plugged.toOption.map (fun p => (p.uncompressedSize, p.stream)) ∧
      (other.path = m.path →
        ((other.dataRange source).run r').1 = found ∧ ((other.plug source).run r').1 = plugged) := by
  intro header found plugged
  have found_eq : found = m.ranged source content := (m.dataRange_yields holds).result_eq r
  have plugged_eq : plugged = _ := m.plug_result holds r
  rw [found_eq, plugged_eq]
  refine ⟨m.readWindow_remainder holds, fun _ => ranged_ok_iff, fun _ => ranged_error_iff,
    fun _ => ranged_inside, ?_⟩
  intro other r' start sizes
  obtain ⟨ranges, same⟩ := ranged_apart start sizes
  rw [(other.dataRange_yields holds).result_eq r', other.plug_result holds r', plugged_map,
    plugged_map, ranges]
  refine ⟨rfl, rfl, fun path => ⟨same path, ?_⟩⟩
  have plugs : other.pluggedFrom content.size = m.pluggedFrom content.size := by
    unfold pluggedFrom name
    rw [path]
  rw [same path, plugs]

/-- A file of the name `a` that holds three bytes as they are. -/
def storedFile : List UInt8 :=
  LocalHeader.written ⟨0, 0, 3, 3, 1, 0⟩ [20, 0] (.replicate 8 0) [97] [] ++ [1, 2, 3]

/-- The file in a directory that is right about it. -/
def storedFileTold : Member := ⟨0, [97], 0, ⟨.stored, 0, 0, 3, 3, 0, 0, 0, 0⟩⟩

/-- The file in a directory that has it compressed, followed by its sizes, and of other sizes. -/
def storedFileMistold : Member := ⟨0, [97], 0, ⟨.deflate, 8, 0, 70, 9, 0, 0, 0, 0⟩⟩

/-- Where the content of the file lies. -/
def storedFileRange : DataRange := ⟨⟨0, .stored, .classic 3, .classic 3, 1, 0⟩, 3, 3, 31, 34⟩

theorem storedFile_decides :
    let source := Source.ofContent "a.zip" storedFile.toByteArray
    ((storedFileTold.dataRange source).run ⟨(), #[]⟩).1 = .ok storedFileRange ∧
      ((storedFileMistold.dataRange source).run ⟨(), #[]⟩).1 = .ok storedFileRange := by
  have small : storedFile.toByteArray.size < fileOffsetLimit := by
    rw [List.size_toByteArray]
    decide
  have header : storedFileTold.headerInRemainder
      (Source.ofContent "a.zip" storedFile.toByteArray) storedFile.toByteArray =
        .ok storedFileRange.header := by decide +kernel
  have told : storedFileRange = storedFileTold.rangeTold storedFileRange.header := by
    decide +kernel
  have inside : storedFileRange.stop ≤ storedFile.toByteArray.size := by
    rw [List.size_toByteArray]
    decide
  obtain ⟨_, ok_iff, _, _, apart⟩ := local_header_decides
    (Source.ofContent_serves "a.zip" small).holds storedFileTold ⟨(), #[]⟩
  have found := (ok_iff storedFileRange).mpr ⟨_, header, told, inside⟩
  have same := apart storedFileMistold ⟨(), #[]⟩ rfl fun h read set => by
    rw [header] at read
    cases read
    cases set
  exact ⟨found, (same.2.2 rfl).1.trans found⟩

end Member
end ZipArchive
