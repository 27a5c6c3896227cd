import ZipArchive.Proofs.Faults
import ZipArchive.Proofs.Members
import ZipArchive.Proofs.TrailerValues

/-!
# Runs on a failing source

What is done with an archive is run on a failing source and on the sound one side by side
(`Action.Follows`). The comparison is kept by sequencing, so that it holds of whole operations once it
holds of their reads.
-/
namespace ZipArchive

open OsError (FinalCode)

variable {σ α β : Type} {source : Source σ} {faults : Nat → Option FinalCode}

namespace Action

/-- How an action on a failing source compares with the same action on the sound one, from the same
state and log: it performs no failing read and comes to the same, or ends with the one failing read
that it performs. -/
def Follows (label : String) (sound : Action σ α) (tried : Action (σ × List FinalCode) α) :
    Prop :=
  ∀ (r : Run σ) (codes : List FinalCode),
    tried.run ⟨(r.state, codes), r.log⟩ =
        ((sound.run r).1, ⟨((sound.run r).2.state, codes), (sound.run r).2.log⟩) ∨
      ∃ code, ReadFailedWith label code (tried.run ⟨(r.state, codes), r.log⟩).1 ∧
        (tried.run ⟨(r.state, codes), r.log⟩).2.state.2 = codes ++ [code]

variable {label : String}

theorem Follows.pure (value : α) :
    Follows label (Pure.pure value : Action σ α) (Pure.pure value) :=
  fun _ _ => .inl rfl

theorem Follows.bind {x : Action σ α} {x' : Action (σ × List FinalCode) α} {f : α → Action σ β}
    {f' : α → Action (σ × List FinalCode) β} (first : Follows label x x')
    (next : ∀ value, Follows label (f value) (f' value)) :
    Follows label (x >>= f) (x' >>= f') := by
  intro r codes
  rcases here : x.run r with ⟨e | value, r'⟩
  · rcases first r codes with same | ⟨code, failed, harmed⟩
    · rw [here] at same
      rw [run_bind_error here, run_bind_error same]
      exact .inl rfl
    · rcases there : x'.run ⟨(r.state, codes), r.log⟩ with ⟨result, r''⟩
      rw [there] at failed harmed
      cases failed
      rw [run_bind_error there]
      exact .inr ⟨code, rfl, harmed⟩
  · rcases first r codes with same | ⟨code, failed, harmed⟩
    · rw [here] at same
      rw [run_bind_ok here, run_bind_ok same]
      exact next value r' codes
    · rcases there : x'.run ⟨(r.state, codes), r.log⟩ with ⟨result, r''⟩
      rw [there] at failed harmed
      cases failed
      rw [run_bind_error there]
      exact .inr ⟨code, rfl, harmed⟩

theorem log_follows (event : Event) : Follows label (log event : Action σ Unit) (log event) :=
  fun _ _ => .inl rfl

theorem raise_follows (error : ZipError) :
    Follows label (raise source error : Action σ α) (raise (source.failing faults) error) := by
  intro r codes
  rw [run_raise, run_raise]
  exact .inl rfl

theorem ofExcept_follows (result : Except ZipError α) :
    Follows label (ofExcept source result) (ofExcept (source.failing faults) result) := by
  cases result with
  | ok value => exact .pure value
  | error e => exact raise_follows e

theorem inRange_follows (offset : Option Nat) :
    Follows label (inRange source offset) (inRange (source.failing faults) offset) := by
  cases offset with
  | some offset => exact .pure offset
  | none =>
    unfold inRange
    exact raise_follows _

theorem readExactAt_follows (record : String) (offset length : Nat) :
    Follows source.label (readExactAt source record offset length)
      (readExactAt (source.failing faults) record offset length) := by
  intro r codes
  rw [run_readExactAt, run_readExactAt]
  have read := @Source.readExactFrom_failing σ source faults offset length .empty (r.state, codes)
  unfold Source.readExactAt
  rcases answer : (source.failing faults).readExactFrom offset length .empty (r.state, codes) with
    ⟨e | bytes, t⟩
  · rw [answer] at read
    rcases read with ⟨same, rfl⟩ | ⟨code, failed, harmed⟩
    · rw [same]
      exact .inl rfl
    · cases failed
      exact .inr ⟨code, rfl, harmed⟩
  · rw [answer] at read
    rcases read with ⟨same, rfl⟩ | ⟨code, failed, harmed⟩
    · rw [same]
      exact .inl rfl
    · cases failed

theorem readRecord_follows (record : String) (layout : Layout α) (b : Buffered) :
    Follows source.label (readRecord source record layout b)
      (readRecord (source.failing faults) record layout b) := by
  intro r codes
  rw [run_readRecord, run_readRecord]
  have read := @Layout.readWindow_failing σ source faults α layout record b (r.state, codes)
  rcases answer : layout.readWindow (source.failing faults) record b (r.state, codes) with
    ⟨e | value, b', t⟩
  · rw [answer] at read
    rcases read with ⟨same, rfl⟩ | ⟨code, failed, harmed⟩
    · rw [same]
      exact .inl rfl
    · cases failed
      exact .inr ⟨code, rfl, harmed⟩
  · rw [answer] at read
    rcases read with ⟨same, rfl⟩ | ⟨code, failed, harmed⟩
    · rw [same]
      exact .inl rfl
    · cases failed

end Action

/-! ## Opening an archive -/

namespace Trailer

theorem check_follows (offset : Nat) (record : ClassicEnd) :
    Action.Follows source.label (check source offset record)
      (check (source.failing faults) offset record) := by
  unfold check
  refine (Action.inRange_follows _).bind fun commentEnd => ?_
  simp only [Source.failing_size]
  split
  · exact .pure _
  · split
    · cases subOffset? offset WideLocator.length with
      | none => exact .pure _
      | some locator =>
        refine (Action.readExactAt_follows _ _ _).bind fun bytes => ?_
        split
        · exact .pure _
        · exact .pure _
    · exact .pure _

theorem select_follows (windowStart : Nat) (block : ByteArray) (candidates : List Nat)
    (badLocator : Option UInt32) :
    Action.Follows source.label (select source windowStart block candidates badLocator)
      (select (source.failing faults) windowStart block candidates badLocator) := by
  induction candidates generalizing badLocator with
  | nil =>
    cases badLocator with
    | none => exact Action.raise_follows _
    | some found => exact Action.raise_follows _
  | cons i rest ih =>
    unfold select
    refine (Action.ofExcept_follows _).bind fun record => ?_
    refine (check_follows _ record).bind fun rejection => ?_
    cases rejection with
    | none => exact .pure _
    | some reason => exact (Action.log_follows _).bind fun _ => ih _

theorem findClassic_follows (tailWindow : Nat) :
    Action.Follows source.label (findClassic source tailWindow)
      (findClassic (source.failing faults) tailWindow) := by
  unfold findClassic
  refine (Action.inRange_follows _).bind fun windowStart => ?_
  refine (Action.readExactAt_follows _ _ _).bind fun block => ?_
  exact select_follows windowStart block (candidates block) none

theorem readWide_follows (offset : Nat) :
    Action.Follows source.label (readWide source offset)
      (readWide (source.failing faults) offset) := by
  unfold readWide
  refine (Action.inRange_follows _).bind fun locatorOffset => ?_
  refine (Action.log_follows _).bind fun _ => ?_
  refine (Action.readRecord_follows _ _ _).bind fun locator => ?_
  dsimp only
  split
  · exact Action.raise_follows _
  · split
    · exact Action.raise_follows _
    · exact (Action.readRecord_follows _ _ _).bind fun directory => .pure _

theorem conclude_follows (offset : Nat) (isWide : Bool) (directory : DirectoryEnd) :
    Action.Follows source.label (conclude source offset isWide directory)
      (conclude (source.failing faults) offset isWide directory) := by
  unfold conclude
  rw [Source.failing_size]
  by_cases several : directory.thisDisk ≠ directory.startDisk ∨
      directory.recordsHere ≠ directory.recordsTotal
  · rw [if_pos several, if_pos several]
    exact Action.raise_follows _
  rw [if_neg several, if_neg several]
  cases fits directory source.size with
  | true => exact .pure _
  | false =>
    simp only [Bool.false_eq_true, if_false]
    exact Action.raise_follows _

theorem locate_follows (tailWindow : Nat) :
    Action.Follows source.label (locate source tailWindow)
      (locate (source.failing faults) tailWindow) := by
  rw [locate_eq, locate_eq]
  refine (findClassic_follows tailWindow).bind fun found => ?_
  refine (Action.log_follows _).bind fun _ => ?_
  dsimp only
  split
  · exact (readWide_follows found.1).bind fun directory => conclude_follows _ _ directory
  · exact conclude_follows _ _ _

end Trailer

namespace Directory

theorem readMembers_follows (options : Options) (directory : DirectoryEnd) (count : Nat)
    (window : Buffered) (members : Array Member) :
    Action.Follows source.label (readMembers source options directory count window members)
      (readMembers (source.failing faults) options directory count window members) := by
  induction count generalizing window members with
  | zero => exact .pure members
  | succ count ih =>
    unfold readMembers
    refine (Action.readRecord_follows _ _ _).bind fun header => ?_
    exact (Action.ofExcept_follows _).bind fun member => ih _ _

theorem read_follows (options : Options) (directory : DirectoryEnd) :
    Action.Follows source.label (read source options directory)
      (read (source.failing faults) options directory) := by
  unfold read
  refine (Action.log_follows _).bind fun _ => ?_
  refine (Action.inRange_follows _).bind fun stop => ?_
  exact readMembers_follows options directory _ _ #[]

end Directory

/-! ## Members of an open archive -/

namespace Member

theorem rangeFrom_follows (m : Member) (header : LocalHeader) :
    Action.Follows source.label (m.rangeFrom source header)
      (m.rangeFrom (source.failing faults) header) := by
  unfold rangeFrom
  refine (Action.inRange_follows _).bind fun start => ?_
  rw [Source.failing_size]
  cases addOffset? start (m.sizes header).1.toNat with
  | none => exact Action.raise_follows _
  | some stop =>
    by_cases fits : stop ≤ source.size
    · simp only [fits, if_true]
      exact .pure _
    · simp only [fits, if_false]
      exact Action.raise_follows _

theorem dataRange_follows (m : Member) :
    Action.Follows source.label (m.dataRange source) (m.dataRange (source.failing faults)) := by
  rw [dataRange_eq, dataRange_eq]
  refine (Action.readRecord_follows _ _ _).bind fun header => ?_
  by_cases descriptor : header.1.hasDescriptor
  · simp only [descriptor, if_true]
    exact (Action.log_follows _).bind fun _ => m.rangeFrom_follows header.1
  · simp only [descriptor, if_false, Bool.false_eq_true]
    exact m.rangeFrom_follows header.1

theorem plug_follows [Decoders] (m : Member) :
    Action.Follows source.label (m.plug source) (m.plug (source.failing faults)) := by
  unfold plug
  refine m.dataRange_follows.bind fun range => ?_
  cases range.header.method.stage? with
  | some stage => exact .pure _
  | none => exact Action.raise_follows _

end Member

namespace Archive

theorem load_follows (options : Options) :
    Action.Follows source.label (load source options) (load (source.failing faults) options) := by
  unfold load
  refine (Trailer.locate_follows options.tailWindow).bind fun trailer => ?_
  exact (Directory.read_follows options trailer.directory).bind fun members => .pure _

theorem member_follows (a : Archive) (index : Nat) :
    Action.Follows source.label (a.member source index)
      (a.member (source.failing faults) index) := by
  unfold member
  cases a.members[index]? with
  | some member => exact .pure member
  | none => exact Action.raise_follows _

theorem dataRange_follows (a : Archive) (index : Nat) :
    Action.Follows source.label (a.dataRange source index)
      (a.dataRange (source.failing faults) index) :=
  (a.member_follows index).bind fun member => member.dataRange_follows

/-- What a collected member comes to. -/
def handOver (source : Source σ) (name : String) :
    Except IoError Unit × ByteArray → Action σ Extracted
  | (.ok (), bytes) => pure ⟨bytes, bytes.size.toUInt64⟩
  | (.error e, _) => Action.raise source (Extraction.failureOf name e)

theorem handOver_follows (name : String) (answer : Except IoError Unit × ByteArray) :
    Action.Follows source.label (handOver source name answer)
      (handOver (source.failing faults) name answer) := by
  rcases answer with ⟨e | _, bytes⟩
  · exact Action.raise_follows _
  · exact .pure _

variable [Decoders]

theorem plug_follows (a : Archive) (index : Nat) :
    Action.Follows source.label (a.plug source index) (a.plug (source.failing faults) index) :=
  (a.member_follows index).bind fun member => member.plug_follows

theorem extract_eq (source : Source σ) (a : Archive) (index : Nat) :
    a.extract source index none = a.plug source index >>= fun plugged =>
      collectWithin source none plugged >>= handOver source plugged.name := by
  unfold extract
  rw [extraction_eq]
  simp only [bind_assoc, pure_bind]
  refine congrArg _ (funext fun plugged => congrArg _ (funext fun answer => ?_))
  rcases answer with ⟨e | _, bytes⟩
  · rfl
  · rfl

/-- A fault in the middle of a member is not lost, though the bytes before it have been read. -/
theorem drain_follows (plugged : Plugged) :
    Action.Follows source.label
      (collectWithin source none plugged >>= handOver source plugged.name)
      (collectWithin (source.failing faults) none plugged >>=
        handOver (source.failing faults) plugged.name) := by
  intro r codes
  have collected := @MemberStream.collect_failing σ source faults _ (askWithin none) .empty
    plugged.stream (r.state, codes)
  rcases answer : plugged.stream.collect (source.failing faults) (askWithin none) .empty
    (r.state, codes) with ⟨⟨result, bytes⟩, stream, t⟩
  have tried := run_collectWithin plugged ⟨(r.state, codes), r.log⟩ answer
  rw [answer] at collected
  rw [Action.run_bind_ok tried]
  rcases collected with ⟨same, rfl⟩ | ⟨code, failed, harmed⟩
  · rw [Action.run_bind_ok (run_collectWithin plugged r same)]
    exact handOver_follows plugged.name (result, bytes) ⟨t.1, r.log⟩ t.2
  · cases failed
    exact .inr ⟨code, rfl, harmed⟩

theorem extract_follows (a : Archive) (index : Nat) :
    Action.Follows source.label (a.extract source index none)
      (a.extract (source.failing faults) index none) := by
  rw [extract_eq, extract_eq]
  exact (a.plug_follows index).bind drain_follows

end Archive

end ZipArchive
