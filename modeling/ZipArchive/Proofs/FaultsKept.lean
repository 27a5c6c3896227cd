import ZipArchive.Decode.Standard
import ZipArchive.Proofs.FaultRuns
import ZipArchive.Proofs.StreamServing
import ZipArchive.Proofs.TrailerGuarantee

/-!
# Faults are kept apart from damage

On a source that serves a content, whatever fails is the archive's own damage: no operation fails with
an error of the operating system. On a failing source, an operation either comes to the same or
fails with the code of the first failing read (`faults_kept`), so that a fault is never taken for
damage, nor damage for a fault.
-/
namespace ZipArchive

open OsError (FinalCode)

variable {σ α β : Type} {source : Source σ} {content : ByteArray} {label record : String}

/-! ## Damage -/

namespace Layout

/-- A layout refuses a record only for what it holds. -/
def Structural : Layout α → Prop
  | .done _ => True
  | .refuse e => e.isStructural = true
  | .bytes _ next => ∀ bytes, (next bytes).Structural
  | .skip _ next => next.Structural

theorem Structural.bind {x : Layout α} {f : α → Layout β} (first : x.Structural)
    (next : ∀ a, (f a).Structural) : (x >>= f).Structural := by
  change (x.bind f).Structural
  induction x with
  | done value => exact next value
  | refuse e => exact first
  | bytes length rest ih => exact fun bytes => ih bytes (first bytes)
  | skip length rest ih => exact ih first

theorem signature_structural (name : String) (expected : UInt32) :
    (signature name expected).Structural := by
  refine Structural.bind (fun _ => trivial) fun found => ?_
  split
  · trivial
  · rfl

theorem take_structural (length : Nat) : (take length).Structural := fun _ => trivial

theorem pass_structural (length : Nat) : (pass length).Structural := trivial

theorem parse_structural {layout : Layout α} (structural : layout.Structural)
    {bytes rest : List UInt8} {e : ZipError}
    (failed : layout.parse label record bytes = (.error e, rest)) : e.isStructural = true := by
  induction layout generalizing bytes with
  | done value => cases failed
  | refuse e =>
    cases failed
    exact structural
  | bytes length next ih =>
    by_cases long : length ≤ bytes.length
    · rw [parse_bytes_long next long] at failed
      exact ih _ (structural _) failed
    · rw [parse_bytes_short next (Nat.lt_of_not_le long)] at failed
      cases failed
      rfl
  | skip length next ih =>
    by_cases long : length ≤ bytes.length
    · rw [parse_skip_long next long] at failed
      exact ih structural failed
    · rw [parse_skip_short next (Nat.lt_of_not_le long)] at failed
      cases failed
      rfl

end Layout

namespace CentralHeader

theorem require_structural (name : List UInt8) (field : WideField) (value : Option α) :
    (require name field value).Structural := by
  cases value with
  | some value => trivial
  | none => rfl

theorem resolve_structural (f : Fixed) (name extra : List UInt8) :
    (resolve f name extra).Structural := by
  refine (require_structural _ _ _).bind fun compressedSize => ?_
  refine (require_structural _ _ _).bind fun uncompressedSize => ?_
  refine (require_structural _ _ _).bind fun headerOffset => ?_
  exact (require_structural _ _ _).bind fun disk => trivial

theorem layout_structural : layout.Structural := by
  refine (Layout.signature_structural _ _).bind fun _ => ?_
  refine (Layout.take_structural _).bind fun fixed => ?_
  refine (Layout.take_structural _).bind fun name => ?_
  refine (Layout.take_structural _).bind fun extra => ?_
  exact (Layout.pass_structural _).bind fun _ => resolve_structural _ name extra

end CentralHeader

namespace LocalHeader

theorem resolveSize_structural (f : Fixed) (field : WideField) (slot : UInt32)
    (wide : Option UInt64) : (resolveSize f field slot wide).Structural := by
  unfold resolveSize
  split
  · trivial
  · split
    · trivial
    · rfl

theorem resolve_structural (f : Fixed) (extra : List UInt8) : (resolve f extra).Structural := by
  refine (resolveSize_structural _ _ _ _).bind fun compressedSize => ?_
  exact (resolveSize_structural _ _ _ _).bind fun uncompressedSize => trivial

theorem layout_structural : layout.Structural := by
  refine (Layout.signature_structural _ _).bind fun _ => ?_
  refine (Layout.take_structural _).bind fun fixed => ?_
  refine (Layout.pass_structural _).bind fun _ => ?_
  exact (Layout.take_structural _).bind fun extra => resolve_structural _ extra

end LocalHeader

/-! ## Operations on a source that serves a content -/

namespace Directory

theorem memberOf_structural (options : Options) (directory : DirectoryEnd) (index : Nat)
    (header : CentralHeader) {e : ZipError}
    (failed : memberOf source options directory index header = .error e) :
    e.isStructural = true := by
  unfold memberOf at failed
  split at failed
  · cases failed
    rfl
  · split at failed
    · cases failed
      rfl
    · cases failed

theorem listed_structural (options : Options) (directory : DirectoryEnd) (count : Nat)
    (bytes : List UInt8) (members : Array Member) {e : ZipError}
    (failed : listed source options directory count bytes members = .error e) :
    e.isStructural = true := by
  induction count generalizing bytes members with
  | zero => cases failed
  | succ count ih =>
    unfold listed at failed
    rcases parsed : CentralHeader.layout.parse source.label CentralHeader.recordName bytes with
      ⟨e' | header, rest⟩
    · rw [parsed] at failed
      cases failed
      exact Layout.parse_structural CentralHeader.layout_structural parsed
    · rw [parsed] at failed
      cases described : memberOf source options directory members.size header with
      | error e' =>
        simp only [described] at failed
        cases failed
        exact memberOf_structural options directory _ header described
      | ok member =>
        simp only [described] at failed
        exact ih rest _ failed

end Directory

namespace Member

theorem ranged_structural (m : Member) {e : ZipError}
    (failed : m.ranged source content = .error e) : e.isStructural = true := by
  unfold ranged at failed
  cases read : m.headerRead source content with
  | error e' =>
    rw [read] at failed
    cases failed
    obtain ⟨rest, parsed⟩ := Layout.outcome_eq_iff.mp read
    exact Layout.parse_structural LocalHeader.layout_structural parsed
  | ok header =>
    rw [read] at failed
    change m.rangeBehind content.size header = .error e at failed
    unfold rangeBehind at failed
    dsimp only at failed
    split at failed
    · cases failed
    · cases failed
      rfl

end Member

namespace Action

/-- Wherever the action fails, the archive is at fault. -/
def NeverIo (x : Action σ α) : Prop := ∀ r e, (x.run r).1 = .error e → e.isStructural = true

theorem Yields.neverIo {x : Action σ α} {result : Except ZipError α} {events : Array Event}
    (yields : x.Yields result events) (structural : ∀ e, result = .error e → e.isStructural = true) :
    x.NeverIo := by
  intro r e failed
  rw [yields.result_eq] at failed
  exact structural e failed

theorem NeverIo.pure (value : α) : (Pure.pure value : Action σ α).NeverIo :=
  fun _ _ failed => by cases failed

theorem NeverIo.bind {x : Action σ α} {f : α → Action σ β} (first : x.NeverIo)
    (next : ∀ r value r', x.run r = (.ok value, r') → (f value).NeverIo) : (x >>= f).NeverIo := by
  intro r e failed
  rcases here : x.run r with ⟨e' | value, r'⟩
  · rw [run_bind_error here] at failed
    cases failed
    exact first r e (by rw [here])
  · rw [run_bind_ok here] at failed
    exact next r value r' here r' e failed

theorem raise_neverIo {error : ZipError} (structural : error.isStructural = true) :
    (raise source error : Action σ α).NeverIo := by
  intro r e failed
  rw [run_raise] at failed
  cases failed
  exact structural

end Action

namespace Trailer

theorem Refused.structural {isWide : Bool} {e : ZipError} (refused : Refused content isWide e) :
    e.isStructural = true := by
  cases refused <;> rfl

theorem scanned_structural {offsets : List Nat} {badLocator : Option UInt32} {e : ZipError}
    (failed : scanned content offsets badLocator = .error e) : e.isStructural = true := by
  unfold scanned at failed
  split at failed
  · cases failed
  · split at failed
    · cases failed
      rfl
    · cases failed
      rfl

theorem locate_neverIo (serves : source.Serves content) (tailWindow : Nat) :
    (locate source tailWindow).NeverIo := by
  intro r e failed
  rw [locate_result serves] at failed
  rcases accepted : scanned content (candidateOffsets content tailWindow) none with
    e' | ⟨offset, record⟩
  · unfold located at failed
    rw [accepted] at failed
    cases failed
    exact scanned_structural accepted
  · exact (located_refused accepted failed).structural

end Trailer

theorem Directory.read_neverIo (serves : source.Serves content) (options : Options)
    (directory : DirectoryEnd)
    (in_range : directory.offset.toNat + directory.size.toNat < offsetBound) :
    (read source options directory).NeverIo :=
  (read_yields options directory serves.holds in_range).neverIo
    fun _ failed => listed_structural options directory _ _ #[] failed

namespace Member

theorem dataRange_neverIo (serves : source.Serves content) (m : Member) :
    (m.dataRange source).NeverIo :=
  (m.dataRange_yields serves.holds).neverIo fun _ failed => m.ranged_structural failed

theorem plug_neverIo [Decoders] (serves : source.Serves content) (m : Member) :
    (m.plug source).NeverIo := by
  refine (m.dataRange_neverIo serves).bind fun r range r' _ => ?_
  cases range.header.method.stage? with
  | some stage => exact .pure _
  | none => exact Action.raise_neverIo rfl

/-- A plugged member reads from a window within the source. -/
theorem plug_view [Decoders] {m : Member} {plugged : Plugged} {r r' : Run σ}
    (ready : (m.plug source).run r = (.ok plugged, r')) :
    plugged.stream.view.WellFormed source.size := by
  obtain ⟨range, r₁, _, last⟩ := Action.run_bind_inv ready
  cases found : range.header.method.stage? with
  | none =>
    simp only [found, Action.run_raise] at last
    cases last
  | some stage =>
    simp only [found] at last
    cases last
    cases stage <;> exact View.new_wellFormed _ _ _

end Member

namespace Archive

theorem load_neverIo (serves : source.Serves content) (options : Options) :
    (load source options).NeverIo := by
  refine (Trailer.locate_neverIo serves options.tailWindow).bind fun r trailer r' found => ?_
  have located : Trailer.located content options.tailWindow = .ok trailer := by
    rw [← Trailer.locate_result serves options.tailWindow r, found]
  have in_range := (Trailer.located_guaranteed located).in_range
  refine (Directory.read_neverIo serves options trailer.directory
    (Nat.lt_of_le_pred (by decide) in_range)).bind fun _ members _ _ => .pure _

theorem member_neverIo (a : Archive) (index : Nat) : (a.member source index).NeverIo := by
  unfold member
  cases a.members[index]? with
  | some member => exact .pure member
  | none => exact Action.raise_neverIo rfl

theorem dataRange_neverIo (serves : source.Serves content) (a : Archive) (index : Nat) :
    (a.dataRange source index).NeverIo :=
  (a.member_neverIo index).bind fun _ member _ _ => member.dataRange_neverIo serves

theorem handOver_neverIo {name : String} {answer : Except IoError Unit × ByteArray}
    (cause : ∀ e, answer.1 = .error e → e.file = none) : (handOver source name answer).NeverIo := by
  rcases answer with ⟨e | _, bytes⟩
  · have undecodable : Extraction.failureOf name e = .corrupt (.undecodable name e) := by
      unfold Extraction.failureOf
      rw [cause e rfl]
    change (Action.raise source (Extraction.failureOf name e)).NeverIo
    rw [undecodable]
    exact Action.raise_neverIo rfl
  · exact .pure _

variable [Decoders]

theorem plug_neverIo (serves : source.Serves content) (a : Archive) (index : Nat) :
    (a.plug source index).NeverIo :=
  (a.member_neverIo index).bind fun _ member _ _ => member.plug_neverIo serves

theorem extract_neverIo (serves : source.Serves content) (a : Archive) (index : Nat) :
    (a.extract source index none).NeverIo := by
  rw [extract_eq]
  refine (a.plug_neverIo serves index).bind fun r plugged r' ready => ?_
  obtain ⟨member, r₁, _, ready⟩ := Action.run_bind_inv ready
  have inside := Member.plug_view ready
  rw [serves.size_eq] at inside
  refine Action.NeverIo.bind (fun _ _ failed => by cases failed) fun r₂ answer r₃ collected => ?_
  apply handOver_neverIo
  intro e failed
  rcases given : plugged.stream.collect source (askWithin none) .empty r₂.state with
    ⟨answer', stream, s⟩
  rw [run_collectWithin plugged r₂ given] at collected
  cases collected
  exact MemberStream.collect_error serves _ _ plugged.stream r₂.state inside e
    (by rw [given, failed])

end Archive

/-! ## Faults -/

/-- On the sound source the action never fails with an error of the operating system. On the failing
one it comes to the same if no failing read is performed, and else fails with the code of the first
one, on the archive of the given name. -/
def KeepsFaults (label : String) (sound : Action σ α) (tried : Action (σ × List FinalCode) α) :
    Prop :=
  ∀ r : Run σ,
    (∀ e, (sound.run r).1 ≠ .error (.io e)) ∧
    match tried.run ⟨(r.state, []), r.log⟩ with
    | (result, ⟨(_, []), _⟩) => result = (sound.run r).1
    | (result, ⟨(_, code :: _), _⟩) => result = .error (.io ⟨.os code.number, some label⟩)

theorem Action.Follows.keepsFaults {sound : Action σ α} {tried : Action (σ × List FinalCode) α}
    (follows : Follows label sound tried) (never : sound.NeverIo) :
    KeepsFaults label sound tried := by
  intro r
  constructor
  · intro e failed
    have structural := never r (.io e) failed
    cases structural
  · rcases reached : tried.run ⟨(r.state, []), r.log⟩ with ⟨result, ⟨s, codes⟩, log⟩
    rcases follows r [] with same | ⟨code, failed, performed⟩
    · rw [reached] at same
      cases same
      rfl
    · rw [reached] at failed performed
      cases failed
      obtain rfl : codes = [code] := performed
      rfl

/-- Faults of a source are kept as they are by everything that is done with an archive: finding the
trailer, reading a directory within the 64-bit range as a trailer promises it, opening the archive,
and finding, plugging and extracting its members. -/
theorem faults_kept [Decoders] (serves : source.Serves content)
    (faults : Nat → Option FinalCode) :
    (∀ tailWindow, KeepsFaults source.label (Trailer.locate source tailWindow)
      (Trailer.locate (source.failing faults) tailWindow)) ∧
    (∀ options directory, directory.offset.toNat + directory.size.toNat < offsetBound →
      KeepsFaults source.label (Directory.read source options directory)
        (Directory.read (source.failing faults) options directory)) ∧
    (∀ options, KeepsFaults source.label (Archive.load source options)
      (Archive.load (source.failing faults) options)) ∧
    ∀ (a : Archive) index,
      KeepsFaults source.label (a.dataRange source index)
        (a.dataRange (source.failing faults) index) ∧
      KeepsFaults source.label (a.plug source index) (a.plug (source.failing faults) index) ∧
      KeepsFaults source.label (a.extract source index none)
        (a.extract (source.failing faults) index none) := by
  refine ⟨?_, ?_, ?_, ?_⟩
  · intro tailWindow
    exact (Trailer.locate_follows tailWindow).keepsFaults (Trailer.locate_neverIo serves tailWindow)
  · intro options directory in_range
    exact (Directory.read_follows options directory).keepsFaults
      (Directory.read_neverIo serves options directory in_range)
  · intro options
    exact (Archive.load_follows options).keepsFaults (Archive.load_neverIo serves options)
  · intro a index
    refine ⟨?_, ?_, ?_⟩
    · exact (a.dataRange_follows index).keepsFaults (a.dataRange_neverIo serves index)
    · exact (a.plug_follows index).keepsFaults (a.plug_neverIo serves index)
    · exact (a.extract_follows index).keepsFaults (a.extract_neverIo serves index)

/-- A disk on which the first byte cannot be read. -/
def firstByteLost (offset : Nat) : Option FinalCode :=
  if offset = 0 then some .inputOutput else none

theorem firstByteLost_kept :
    let source := Source.ofContent "a.zip" Trailer.recordInComment
    KeepsFaults "a.zip" (Trailer.locate source 44)
        (Trailer.locate (source.failing firstByteLost) 44) ∧
      KeepsFaults "a.zip" (Directory.read source {} ⟨0, 0, 0, 0, 0, 0⟩)
        (Directory.read (source.failing firstByteLost) {} ⟨0, 0, 0, 0, 0, 0⟩) ∧
      ((Trailer.locate (source.failing firstByteLost) 44).run ⟨((), []), #[]⟩).1 =
        .error (.io ⟨.os 5, some "a.zip"⟩) := by
  intro source
  have serves : source.Serves Trailer.recordInComment :=
    Source.ofContent_serves "a.zip" (by decide)
  have kept := faults_kept serves firstByteLost
  have lost : (source.failing firstByteLost).readExactAt 0 44 ((), []) =
      (.error ⟨.os 5, none⟩, ((), [.inputOutput])) := by
    rw [Source.readExactAt, Source.readExactFrom_step (by decide)]
    rfl
  have failed : ((Trailer.findClassic (source.failing firstByteLost) 44).run ⟨((), []), #[]⟩) =
      (.error (.io ⟨.os 5, some "a.zip"⟩), ⟨((), [.inputOutput]), #[]⟩) := by
    have start : (Action.inRange (source.failing firstByteLost) (subOffset? 44 44)).run
        ⟨((), []), #[]⟩ = (.ok 0, ⟨((), []), #[]⟩) := rfl
    have read := Action.run_readExactAt (source.failing firstByteLost) "archive tail" 0 44
      ⟨((), []), #[]⟩
    rw [lost] at read
    exact (Action.run_bind_ok start).trans (Action.run_bind_error read)
  refine ⟨kept.1 44, kept.2.1 {} _ (by decide), ?_⟩
  rw [Trailer.locate_eq, Action.run_bind_error failed]

end ZipArchive
