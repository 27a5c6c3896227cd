import ZipArchive.Proofs.Extracting
import ZipArchive.Proofs.RoundTrip

/-!
# Short and interrupted reads do not show

Two sources of one name that serve the same content are not told apart by what is done with them,
however many bytes each of their reads gives and whichever reads are interrupted. In particular a
source that gives a few bytes at a time, and interrupts the first read at any offsets, is as good as
one that serves every read in full (`Source.scheduled_unseen`).
-/
namespace ZipArchive

variable {σ τ : Type} {source : Source σ} {other : Source τ} {content : ByteArray}

/-- Whatever states they are run in, two actions have the same result and log the same events. -/
def Action.Agrees {α : Type} (x : Action σ α) (y : Action τ α) : Prop :=
  ∀ (r : Run σ) (r' : Run τ), (x.run r).1 = (y.run r').1 ∧
    ∃ events, (x.run r).2.log = r.log ++ events ∧ (y.run r').2.log = r'.log ++ events

theorem Action.Yields.agrees {α : Type} {x : Action σ α} {y : Action τ α}
    {result : Except ZipError α} {events : Array Event} (hx : x.Yields result events)
    (hy : y.Yields result events) : x.Agrees y := by
  intro r r'
  obtain ⟨s, here⟩ := hx r
  obtain ⟨s', there⟩ := hy r'
  rw [here, there]
  exact ⟨rfl, events, rfl, rfl⟩

/-! ## Sources of one content -/

section
variable (serves : source.Serves content) (others : other.Serves content)
  (label : source.label = other.label)
include serves others label

theorem Trailer.locate_agrees (tailWindow : Nat) :
    (locate source tailWindow).Agrees (locate other tailWindow) := by
  have here := locate_yields serves tailWindow
  rw [label] at here
  exact here.agrees (locate_yields others tailWindow)

theorem Directory.read_agrees (options : Options) (directory : DirectoryEnd) :
    (read source options directory).Agrees (read other options directory) := by
  have here := readFrom_yields options directory serves
  rw [readFrom_congr label (serves.size_eq.trans others.size_eq.symm), label] at here
  exact here.agrees (readFrom_yields options directory others)

namespace Archive

theorem load_agrees (options : Options) : (load source options).Agrees (load other options) := by
  have here := load_yields options serves
  rw [loaded_congr label (serves.size_eq.trans others.size_eq.symm), label] at here
  exact here.agrees (load_yields options others)

variable (a : Archive) (index : Nat)

theorem dataRange_agrees : (a.dataRange source index).Agrees (a.dataRange other index) := by
  have here := a.dataRange_yields index serves
  rw [a.ranged_congr index content label, a.stepsBehind_congr index content label, label] at here
  exact here.agrees (a.dataRange_yields index others)

theorem extract_agrees [Decoders] :
    (a.extract source index none).Agrees (a.extract other index none) := by
  have here := a.extract_yields index serves
  rw [a.extracted_congr index content label, a.stepsBehind_congr index content label, label] at here
  exact here.agrees (a.extract_yields index others)

end Archive
end

/-! ## Scheduled sources -/

/-- A source that gives at least one byte with each read, and interrupts first reads at any offsets,
is not told apart from one that serves every read in full: finding the trailer, reading a directory,
opening the archive, finding the content of a member and extracting it end with the same result and
the same log, whichever interruptions are still to come. -/
theorem Source.scheduled_unseen [Decoders] (label : String) {content : ByteArray} {plan : Schedule}
    (small : content.size < fileOffsetLimit) (sound : plan.failing = [])
    (true_size : plan.size = none) (some : ∀ cap, plan.cap = some cap → 0 < cap) :
    let flaky := Source.scheduled label content plan
    let full := Source.ofContent label content
    (∀ tailWindow, (Trailer.locate flaky tailWindow).Agrees (Trailer.locate full tailWindow)) ∧
    (∀ options directory,
      (Directory.read flaky options directory).Agrees (Directory.read full options directory)) ∧
    (∀ options, (Archive.load flaky options).Agrees (Archive.load full options)) ∧
    ∀ (a : Archive) (index : Nat),
      (a.dataRange flaky index).Agrees (a.dataRange full index) ∧
      (a.extract flaky index none).Agrees (a.extract full index none) := by
  intro flaky full
  have serves : flaky.Serves content := scheduled_serves label small sound true_size some
  have others : full.Serves content := ofContent_serves label small
  have same : flaky.label = full.label := rfl
  refine ⟨?_, ?_, ?_, ?_⟩
  · exact Trailer.locate_agrees serves others same
  · exact Directory.read_agrees serves others same
  · exact Archive.load_agrees serves others same
  · intro a index
    constructor
    · exact a.dataRange_agrees serves others same index
    · exact a.extract_agrees serves others same index

/-- Two members, read one byte at a time with interruptions in both local headers and in the end
record. -/
theorem Source.twoMembers_unseen :
    let content := Draft.twoMembers.bytes.toByteArray
    let plan : Schedule := { interrupted := [0, 59, 340], cap := some 1 }
    let flaky := Source.scheduled "a.zip" content plan
    let full := Source.ofContent "a.zip" content
    ((Archive.load flaky {}).run ⟨plan.interrupted, #[]⟩).1 =
        ((Archive.load full {}).run ⟨(), #[]⟩).1 ∧
      ((Draft.twoMembers.archive.extract flaky 1 none).run ⟨plan.interrupted, #[]⟩).1 =
        ((Draft.twoMembers.archive.extract full 1 none).run ⟨(), #[]⟩).1 := by
  have small : Draft.twoMembers.bytes.toByteArray.size < fileOffsetLimit := by
    rw [size_of_toList List.toList_data_toByteArray]
    decide +kernel
  have unseen := @scheduled_unseen _ "a.zip" _ { interrupted := [0, 59, 340], cap := some 1 } small
    rfl rfl (by rintro cap ⟨⟩; decide)
  exact ⟨(unseen.2.2.1 {} _ _).1, ((unseen.2.2.2 _ 1).2 _ _).1⟩

end ZipArchive
