import ZipArchive.Decode.Standard
import ZipArchive.Proofs.CheckedSlices
import ZipArchive.Proofs.ConfinedReads
import ZipArchive.Proofs.Members
import ZipArchive.Proofs.TrailerGuarantee

/-!
# Offsets within their range

An offset that is no number of 64 bits makes the operation that computes it fail with
`offsetOverflow`. This never happens, whatever the source answers (`Source.stays_in_range`). Each
offset stays in its range because of a test that was made elsewhere: the locator in front of an end
record because of the candidate's check, the end of the directory because it has been found to lie
within the archive, the start of a member's content because its local header has been read through a
window that ends with the source.
-/
namespace ZipArchive

variable {σ α β : Type} {source : Source σ}

/-! ## Actions -/

namespace Action

/-- What holds of an action, wherever it is run and whatever the source answers: only bytes within
the source are asked for, no offset leaves its range, and a result is as told. -/
structure Confined (source : Source σ) (x : Action σ α) (good : α → Prop) : Prop where
  within : ∀ r, source.Reaches r.state (x.run r).2.state
  in_range : ∀ r e, (x.run r).1 = .error e → e.InRange
  result : ∀ r a, (x.run r).1 = .ok a → good a

variable {x : Action σ α} {f : α → Action σ β} {good good' : α → Prop} {last : β → Prop}

theorem Confined.pure {value : α} (holds : good value) :
    Confined source (Pure.pure value : Action σ α) good where
  within _ := .refl
  in_range _ _ failed := by cases failed
  result _ a same := by
    cases same
    exact holds

theorem Confined.mono (confined : Confined source x good) (weaker : ∀ a, good a → good' a) :
    Confined source x good' where
  within := confined.within
  in_range := confined.in_range
  result r a found := weaker a (confined.result r a found)

/-- Wherever an action is run, it ends with an error or with a result. -/
theorem Confined.of_run (parts : ∀ r, source.Reaches r.state (x.run r).2.state ∧
      match (x.run r).1 with
      | .ok a => good a
      | .error e => e.InRange) : Confined source x good where
  within r := (parts r).1
  in_range r e failed := by
    have ended := (parts r).2
    rwa [failed] at ended
  result r a found := by
    have ended := (parts r).2
    rwa [found] at ended

theorem Confined.bind (first : Confined source x good)
    (next : ∀ a, good a → Confined source (f a) last) : Confined source (x >>= f) last := by
  refine .of_run fun r => ?_
  have within := first.within r
  rcases here : x.run r with ⟨e | a, r'⟩
  · rw [here] at within
    rw [run_bind_error here]
    exact ⟨within, first.in_range r e (by rw [here])⟩
  · rw [here] at within
    rw [run_bind_ok here]
    have onward := next a (first.result r a (by rw [here]))
    refine ⟨within.trans (onward.within r'), ?_⟩
    rcases there : (f a).run r' with ⟨e | b, r''⟩
    · exact onward.in_range r' e (by rw [there])
    · exact onward.result r' b (by rw [there])

theorem log_confined (event : Event) :
    Confined source (log event : Action σ Unit) fun _ => True where
  within _ := .refl
  in_range _ _ failed := by cases failed
  result _ _ _ := trivial

theorem raise_confined {error : ZipError} (in_range : error.InRange) :
    Confined source (raise source error : Action σ α) good where
  within r := by
    rw [run_raise]
    exact .refl
  in_range r e failed := by
    rw [run_raise] at failed
    cases failed
    exact in_range
  result r a found := by
    rw [run_raise] at found
    cases found

/-- An error that tells of the archive, not of the source, is raised. -/
theorem refuse_confined {error : ZipError} (structural : error.isStructural = true) :
    Confined source (raise source error : Action σ α) good :=
  raise_confined (ZipError.inRange_of_structural structural)

theorem ofExcept_confined {result : Except ZipError α}
    (structural : ∀ e, result = .error e → e.isStructural = true) :
    Confined source (ofExcept source result) fun a => result = .ok a := by
  cases result with
  | ok a => exact .pure rfl
  | error e => exact refuse_confined (structural e rfl)

/-- The sum is an offset. -/
theorem addOffset_confined {a b : Nat} (inside : a + b < offsetBound) :
    Confined source (inRange source (addOffset? a b)) (· = a + b) := by
  rw [addOffset?, if_pos inside]
  exact .pure rfl

/-- The difference is not negative. -/
theorem subOffset_confined {a b : Nat} (ordered : b ≤ a) :
    Confined source (inRange source (subOffset? a b)) (· = a - b) := by
  rw [subOffset?, if_pos ordered]
  exact .pure rfl

theorem readExactAt_confined (record : String) {offset length : Nat}
    (inside : offset + length ≤ source.size) :
    Confined source (readExactAt source record offset length) fun bytes => bytes.size = length := by
  refine .of_run fun r => ?_
  have read := Source.readExactFrom_confined inside .empty r.state
  rw [run_readExactAt, Source.readExactAt]
  rcases answer : source.readExactFrom offset length .empty r.state with ⟨e | bytes, s⟩
  · rw [answer] at read
    exact ⟨read.within, ZipError.ofRead_inRange source.label record (read.in_range e rfl)⟩
  · rw [answer] at read
    have whole := read.left bytes rfl
    rw [ByteArray.size_empty, Nat.zero_add] at whole
    exact ⟨read.within, whole⟩

/-- A record that has been read was as long as the bytes that it is parsed from. -/
theorem readRecord_confined (small : source.size < offsetBound) (record : String)
    {layout : Layout α} (structural : layout.Structural) {b : Buffered} {cursor stop : Nat}
    (within : b.Within source.size cursor stop) :
    Confined source (readRecord source record layout b) fun read => ∃ taken : List UInt8,
      read.2.Within source.size (cursor + taken.length) stop ∧
        layout.parse source.label record taken = (.ok read.1, []) := by
  refine .of_run fun r => ?_
  have read := layout.readWindow_confined small structural record within r.state
  rw [run_readRecord]
  rcases answer : layout.readWindow source record b r.state with ⟨e | value, b', s⟩
  · rw [answer] at read
    exact ⟨read.1, read.2.1 e rfl⟩
  · rw [answer] at read
    obtain ⟨reaches, -, cursor', behind, found⟩ := read
    obtain ⟨taken, rfl, parsed⟩ := found value rfl
    exact ⟨reaches, taken, behind, parsed⟩

end Action

/-! ## Opening an archive -/

theorem ClassicEnd.layout_structural : ClassicEnd.layout.Structural := by
  refine (Layout.signature_structural _ _).bind fun _ => ?_
  exact fun _ _ _ _ _ _ _ => trivial

theorem WideLocator.layout_structural : WideLocator.layout.Structural := by
  refine (Layout.signature_structural _ _).bind fun _ => ?_
  exact fun _ _ _ => trivial

theorem DirectoryEnd.layout_structural : DirectoryEnd.layout.Structural := by
  refine (Layout.signature_structural _ _).bind fun _ => ?_
  exact fun _ _ _ _ _ _ => trivial

namespace Trailer

/-- A record that is accepted has room for the locator that it needs. -/
theorem check_confined (small : source.size < fileOffsetLimit) {offset : Nat}
    (inside : offset + ClassicEnd.length ≤ source.size) (record : ClassicEnd) :
    (check source offset record).Confined source fun rejection =>
      rejection = none → record.needsWide → WideLocator.length ≤ offset := by
  have comment := record.commentLength.toNat_lt
  have in_range : offset + (ClassicEnd.length + record.commentLength.toNat) < offsetBound := by
    unfold fileOffsetLimit at small
    unfold offsetBound
    omega
  unfold check
  refine (Action.addOffset_confined in_range).bind ?_
  rintro _ rfl
  split
  · exact .pure fun none => by cases none
  · by_cases needsWide : record.needsWide
    · rw [if_pos needsWide]
      by_cases room : WideLocator.length ≤ offset
      · rw [subOffset?, if_pos room]
        have locator : offset - WideLocator.length + 4 ≤ source.size := by
          unfold WideLocator.length at *
          unfold ClassicEnd.length at inside
          omega
        refine (Action.readExactAt_confined _ locator).bind fun bytes _ => ?_
        dsimp only
        split
        · exact .pure fun _ _ => room
        · exact .pure fun none => by cases none
      · rw [subOffset?, if_neg room]
        exact .pure fun none => by cases none
    · rw [if_neg needsWide]
      exact .pure fun _ wide => absurd wide needsWide

theorem select_confined (small : source.size < fileOffsetLimit) {windowStart : Nat}
    {block : ByteArray} {candidates : List Nat}
    (inside : ∀ i ∈ candidates, windowStart + i + ClassicEnd.length ≤ source.size)
    (badLocator : Option UInt32) :
    (select source windowStart block candidates badLocator).Confined source fun found =>
      found.1 + ClassicEnd.length ≤ source.size ∧
        (found.2.needsWide → WideLocator.length ≤ found.1) := by
  induction candidates generalizing badLocator with
  | nil =>
    cases badLocator with
    | none => exact Action.refuse_confined rfl
    | some found => exact Action.refuse_confined rfl
  | cons i rest ih =>
    obtain ⟨here, behind⟩ := List.forall_mem_cons.mp inside
    have parsed : ∀ e, (ClassicEnd.layout.parse source.label ClassicEnd.recordName
        (slice block i ClassicEnd.length).data.toList).1 = .error e → e.isStructural = true :=
      fun e failed =>
        Layout.parse_structural ClassicEnd.layout_structural (Prod.ext failed rfl)
    unfold select
    refine (Action.ofExcept_confined parsed).bind fun record _ => ?_
    refine (check_confined small here record).bind fun rejection room => ?_
    cases rejection with
    | none => exact .pure ⟨here, room rfl⟩
    | some reason => exact (Action.log_confined _).bind fun _ _ => ih behind _

theorem findClassic_confined (small : source.size < fileOffsetLimit) (tailWindow : Nat) :
    (findClassic source tailWindow).Confined source fun found =>
      found.1 + ClassicEnd.length ≤ source.size ∧
        (found.2.needsWide → WideLocator.length ≤ found.1) := by
  have window : min source.size (max tailWindow ClassicEnd.length) ≤ source.size :=
    Nat.min_le_left _ _
  unfold findClassic
  refine (Action.subOffset_confined window).bind ?_
  rintro _ rfl
  have tail : source.size - min source.size (max tailWindow ClassicEnd.length) +
      min source.size (max tailWindow ClassicEnd.length) ≤ source.size := by omega
  refine (Action.readExactAt_confined _ tail).bind fun block size => ?_
  refine select_confined small (fun i found => ?_) none
  have below := ((mem_matchesBelow block _ i).mp found).1
  omega

theorem readWide_confined (small : source.size < offsetBound) {offset : Nat}
    (room : WideLocator.length ≤ offset) :
    (readWide source offset).Confined source fun _ => True := by
  unfold readWide
  refine (Action.subOffset_confined room).bind ?_
  rintro _ rfl
  refine (Action.log_confined _).bind fun _ _ => ?_
  refine (Action.readRecord_confined small _ WideLocator.layout_structural
    (Buffered.within_new source.size _ _ 0)).bind fun locator _ => ?_
  dsimp only
  split
  · exact Action.refuse_confined rfl
  · split
    · exact Action.refuse_confined rfl
    · exact (Action.readRecord_confined small _ DirectoryEnd.layout_structural
        (Buffered.within_new source.size _ _ 0)).bind fun directory _ => .pure trivial

theorem conclude_confined (offset : Nat) (isWide : Bool) (directory : DirectoryEnd) :
    (conclude source offset isWide directory).Confined source fun trailer =>
      trailer.directory.offset.toNat + trailer.directory.size.toNat ≤ source.size := by
  unfold conclude
  split
  · exact Action.refuse_confined rfl
  · split
    · rename_i fit
      exact .pure ((fits_iff directory source.size).mp fit).2
    · exact Action.refuse_confined rfl

/-- The directory that is found lies within the source, whatever the end record says. -/
theorem locate_confined (small : source.size < fileOffsetLimit) (tailWindow : Nat) :
    (locate source tailWindow).Confined source fun trailer =>
      trailer.directory.offset.toNat + trailer.directory.size.toNat ≤ source.size := by
  have small' : source.size < offsetBound := Nat.lt_trans small (by decide)
  rw [locate_eq]
  refine (findClassic_confined small tailWindow).bind fun found ⟨_, room⟩ => ?_
  unfold complete
  refine (Action.log_confined _).bind fun _ _ => ?_
  dsimp only
  split
  · rename_i needsWide
    exact (readWide_confined small' (room needsWide)).bind fun directory _ =>
      conclude_confined _ _ directory
  · exact conclude_confined _ _ _

end Trailer

namespace Directory

variable (options : Options) (directory : DirectoryEnd)

theorem readMembers_confined (small : source.size < offsetBound) (count : Nat) {b : Buffered}
    {cursor stop : Nat} (within : b.Within source.size cursor stop) {members : Array Member}
    (known : ∀ m ∈ members, m.headerStart < source.size) :
    (readMembers source options directory count b members).Confined source fun members' =>
      ∀ m ∈ members', m.headerStart < source.size := by
  induction count generalizing b cursor members with
  | zero => exact .pure known
  | succ count ih =>
    unfold readMembers
    refine (Action.readRecord_confined small _ CentralHeader.layout_structural within).bind
      fun header read => ?_
    obtain ⟨taken, behind, _⟩ := read
    refine (Action.ofExcept_confined fun e failed =>
      memberOf_structural options directory _ header.1 failed).bind fun member described => ?_
    refine ih behind fun m found => ?_
    rcases Array.mem_push.mp found with before | rfl
    · exact known m before
    · unfold memberOf at described
      split at described
      · cases described
      · split at described
        · cases described
        · rename_i inside
          cases described
          exact Nat.lt_of_not_le inside

theorem read_confined (small : source.size < offsetBound)
    (inside : directory.offset.toNat + directory.size.toNat ≤ source.size) :
    (read source options directory).Confined source fun members =>
      ∀ m ∈ members, m.headerStart < source.size := by
  unfold read
  refine (Action.log_confined _).bind fun _ _ => ?_
  refine (Action.addOffset_confined (Nat.lt_of_le_of_lt inside small)).bind fun stop _ => ?_
  exact readMembers_confined options directory small _ (Buffered.within_new source.size _ _ _)
    fun m found => absurd found (Array.not_mem_empty m)

end Directory

/-! ## Members of an open archive -/

namespace Member

variable (m : Member)

/-- The start of the content is an offset, since the header in front of it has been read. -/
theorem dataRange_confined (small : source.size < offsetBound) :
    (m.dataRange source).Confined source fun range =>
      range.start = m.headerStart + range.header.length ∧ range.start ≤ range.stop ∧
        range.stop ≤ source.size := by
  rw [dataRange_eq]
  refine (Action.readRecord_confined small _ LocalHeader.layout_structural
    (Buffered.within_new source.size m.headerStart _ blockSize)).bind
      fun header ⟨taken, behind, parsed⟩ => ?_
  have header_end : m.headerStart + header.1.length ≤ source.size := by
    have length := LocalHeader.parse_length parsed
    have window := behind.cursor_le
    have some : 0 < header.1.length := by
      unfold LocalHeader.length LocalHeader.minLength
      omega
    simp only [List.length_nil] at length
    omega
  have found : (m.rangeFrom source header.1).Confined source fun range =>
      range.start = m.headerStart + range.header.length ∧ range.start ≤ range.stop ∧
        range.stop ≤ source.size := by
    unfold rangeFrom
    refine (Action.addOffset_confined (Nat.lt_of_le_of_lt header_end small)).bind ?_
    rintro _ rfl
    cases sum : addOffset? (m.headerStart + header.1.length) (m.sizes header.1).1.toNat with
    | none => exact Action.refuse_confined rfl
    | some stop =>
      obtain ⟨rfl, -⟩ := addOffset?_eq_some.mp sum
      dsimp only
      split
      · rename_i fits
        exact .pure ⟨rfl, Nat.le_add_right _ _, fits⟩
      · exact Action.refuse_confined rfl
  by_cases descriptor : header.1.hasDescriptor
  · simp only [descriptor, if_true]
    exact (Action.log_confined _).bind fun _ _ => found
  · simp only [descriptor, if_false, Bool.false_eq_true]
    exact found

theorem plug_confined [Decoders] (small : source.size < offsetBound) :
    (m.plug source).Confined source fun plugged =>
      plugged.stream.view.WellFormed source.size := by
  unfold plug
  refine (m.dataRange_confined small).bind fun range _ => ?_
  cases range.header.method.stage? with
  | none => exact Action.refuse_confined rfl
  | some stage =>
    refine .pure ?_
    cases stage <;> exact View.new_wellFormed source.size range.start range.stop

end Member

theorem Extraction.failureOf_inRange (name : String) {e : IoError}
    (in_range : e.cause ≠ .offsetOverflow) : (failureOf name e).InRange := by
  unfold failureOf
  intro file overflow
  split at overflow
  · cases overflow
    exact in_range rfl
  · cases overflow

theorem Extraction.ofRead_inRange {name : String} {limit : Option Nat}
    {result : Except IoError Unit} {bytes : ByteArray}
    (in_range : ∀ e, result = .error e → e.cause ≠ .offsetOverflow) {e : ZipError}
    (failed : (ofRead name limit result bytes).outcome = .error e) : e.InRange := by
  unfold ofRead at failed
  split at failed
  · cases failed
    exact nofun
  · cases result with
    | ok _ => cases failed
    | error e' =>
      cases failed
      exact failureOf_inRange name (in_range e' rfl)

namespace Archive

variable (a : Archive) (index : Nat)

theorem load_confined (small : source.size < fileOffsetLimit) (options : Options) :
    (load source options).Confined source fun archive =>
      ∀ m ∈ archive.members, m.headerStart < source.size := by
  have small' : source.size < offsetBound := Nat.lt_trans small (by decide)
  unfold load
  refine (Trailer.locate_confined small options.tailWindow).bind fun trailer inside => ?_
  exact (Directory.read_confined options trailer.directory small' inside).bind
    fun members known => .pure known

theorem member_confined :
    (a.member source index).Confined source fun m => a.members[index]? = some m := by
  unfold member
  cases a.members[index]? with
  | some member => exact .pure rfl
  | none => exact Action.refuse_confined rfl

theorem dataRange_confined (small : source.size < offsetBound) :
    (a.dataRange source index).Confined source fun range =>
      (∃ m, a.members[index]? = some m ∧ range.start = m.headerStart + range.header.length) ∧
        range.start ≤ range.stop ∧ range.stop ≤ source.size := by
  refine (a.member_confined index).bind fun m here => ?_
  exact (m.dataRange_confined small).mono fun range ⟨behind, inside⟩ => ⟨⟨m, here, behind⟩, inside⟩

variable [Decoders]

theorem plug_confined (small : source.size < offsetBound) :
    (a.plug source index).Confined source fun plugged =>
      plugged.stream.view.WellFormed source.size :=
  (a.member_confined index).bind fun m _ => m.plug_confined small

theorem extraction_confined (small : source.size < offsetBound) (limit : Option Nat) :
    (a.extraction source index limit).Confined source fun found =>
      ∀ e, found.outcome = .error e → e.InRange := by
  rw [extraction_eq]
  refine (a.plug_confined index small).bind fun plugged inside => ?_
  have collected : (collectWithin source limit plugged).Confined source fun answer =>
      ∀ e, answer.1 = .error e → e.cause ≠ .offsetOverflow := by
    refine .of_run fun r => ?_
    have read := MemberStream.collect_confined small inside (askWithin limit) .empty r.state
    exact ⟨read.within, read.in_range⟩
  refine collected.bind fun answer in_range => .pure fun e failed => ?_
  exact Extraction.ofRead_inRange in_range failed

theorem extract_confined (small : source.size < offsetBound) (limit : Option Nat) :
    (a.extract source index limit).Confined source fun _ => True := by
  unfold extract
  refine (a.extraction_confined index small limit).bind fun found in_range => ?_
  cases outcome : found.outcome with
  | ok _ => exact .pure trivial
  | error e => exact Action.raise_confined (in_range e outcome)

end Archive

/-! ## Sources -/

/-- What holds of a view, whatever the source answers: no difference is negative, no read leaves the
range of offsets or the source, and a seek goes exactly where it is said to. -/
structure View.StaysInRange (v : View) (source : Source σ) : Prop where
  length : subOffset? v.stop v.start = some v.length
  position : subOffset? v.pos v.start = some v.position
  remaining : subOffset? v.stop v.pos = some v.remaining
  read : ∀ length s, Confined source s (fun _ (v' : View) => v'.WellFormed source.size)
    (v.read source length s)
  readFrom : ∀ length position s,
    Confined source s (fun _ (v' : View) => v'.WellFormed source.size)
      (v.readFrom source length position s)
  seek : ∀ target, offset? (v.clamped target) = some (v.seek target).pos ∧
    (v.seek target).WellFormed source.size
  wanted : ∀ target : SeekTarget, target.Fits →
    -2 ^ 127 ≤ v.wanted target ∧ v.wanted target < 2 ^ 127

/-- What holds of a source, whatever it answers. -/
structure Source.StaysInRange [Decoders] (source : Source σ) : Prop where
  /-- An end record that is accepted lies within the source, behind the locator that it needs. -/
  endRecord : ∀ tailWindow, (Trailer.findClassic source tailWindow).Confined source fun found =>
    found.1 + ClassicEnd.length ≤ source.size ∧
      (found.2.needsWide → WideLocator.length ≤ found.1)
  /-- The directory lies within the source. -/
  directory : ∀ tailWindow, (Trailer.locate source tailWindow).Confined source fun trailer =>
    trailer.directory.offset.toNat + trailer.directory.size.toNat ≤ source.size
  opening : ∀ options, (Archive.load source options).Confined source fun archive =>
    ∀ m ∈ archive.members, m.headerStart < source.size
  /-- The content of a member begins right behind its header and lies within the source. -/
  dataRange : ∀ (a : Archive) index, (a.dataRange source index).Confined source fun range =>
    (∃ m, a.members[index]? = some m ∧ range.start = m.headerStart + range.header.length) ∧
      range.start ≤ range.stop ∧ range.stop ≤ source.size
  plugging : ∀ (a : Archive) index, (a.plug source index).Confined source fun plugged =>
    plugged.stream.view.WellFormed source.size
  extraction : ∀ (a : Archive) index limit,
    (a.extract source index limit).Confined source fun _ => True
  streamRead : ∀ stream : MemberStream, stream.view.WellFormed source.size → ∀ length s,
    Confined source s (fun _ (stream' : MemberStream) => stream'.view.WellFormed source.size)
      (stream.read source length s)
  streamCollect : ∀ stream : MemberStream, stream.view.WellFormed source.size → ∀ ask there s,
    Confined source s (fun _ (stream' : MemberStream) => stream'.view.WellFormed source.size)
      ((stream.collect source ask there s).1.1, (stream.collect source ask there s).2)
  newView : ∀ start stop, (View.new source.size start stop).WellFormed source.size
  view : ∀ v : View, v.WellFormed source.size → v.StaysInRange source

/-- Whatever a source of less than 2⁶³ bytes answers, no offset leaves its range while an archive is
opened and its members are found and read, nothing outside the source is asked for, and no byte
outside a buffer is looked at. -/
theorem Source.stays_in_range [Decoders] (source : Source σ)
    (small : source.size < fileOffsetLimit) :
    source.StaysInRange ∧
      (∀ block, Trailer.candidates? block =
        some ((Trailer.candidates block).map fun i => (i, slice block i ClassicEnd.length))) ∧
      ∀ area : List UInt8, area.length < fileOffsetLimit →
        Extra.contentFrom? area 0 = some (Extra.wideContent area) := by
  have small' : source.size < offsetBound := Nat.lt_trans small (by decide)
  refine ⟨?_, Trailer.candidates?_eq, fun area short => ?_⟩
  · exact {
      endRecord := Trailer.findClassic_confined small
      directory := Trailer.locate_confined small
      opening := Archive.load_confined small
      dataRange := fun a index => a.dataRange_confined index small'
      plugging := fun a index => a.plug_confined index small'
      extraction := fun a index => a.extract_confined index small'
      streamRead := fun _ inside => MemberStream.read_confined small' inside
      streamCollect := fun _ inside => MemberStream.collect_confined small' inside
      newView := View.new_wellFormed source.size
      view := fun v inside => {
        length := inside.exact.1
        position := inside.exact.2.1
        remaining := inside.exact.2.2
        read := fun length s =>
          (View.read_confined small' inside length s).mono fun _ _ left => left.1
        readFrom := View.readFrom_confined small' inside
        seek := View.seek_exact small' inside
        wanted := fun _ => View.wanted_fits small' inside } }
  · rw [Extra.contentFrom?_eq short (Nat.zero_le _), List.drop_zero]

/-- A source as large as can be, whose answers change from one read to the next: a failure, nothing,
the first bytes of an end record. -/
def Source.fickle : Source Nat where
  label := "a.zip"
  size := 0x7fffffffffffffff
  readAt _ length turn :=
    match turn % 3 with
    | 0 => (.error (.os .inputOutput), turn + 1)
    | 1 => (.ok .empty, turn + 1)
    | _ => (.ok (slice ⟨#[0x50, 0x4b, 5, 6]⟩ 0 length), turn + 1)
  patience _ := 0
  size_readAt := by
    intro offset length turn bytes turn' answer
    split at answer
    · cases answer
    · cases answer
      exact Nat.zero_le length
    · cases answer
      exact size_slice_le _ _ _
  patience_readAt := by
    intro offset length turn turn' answer
    split at answer <;> cases answer

theorem Source.fickle_in_range :
    Source.fickle.size < fileOffsetLimit ∧ Source.fickle.StaysInRange ∧
      (∀ block, Trailer.candidates? block =
        some ((Trailer.candidates block).map fun i => (i, slice block i ClassicEnd.length))) ∧
      ∀ area : List UInt8, area.length < fileOffsetLimit →
        Extra.contentFrom? area 0 = some (Extra.wideContent area) := by
  have small : Source.fickle.size < fileOffsetLimit := by decide
  exact ⟨small, Source.stays_in_range Source.fickle small⟩

end ZipArchive
