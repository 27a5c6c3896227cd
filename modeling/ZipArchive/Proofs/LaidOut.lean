import ZipArchive.Proofs.Attempts
import ZipArchive.Proofs.RoundTrip

/-!
# Opening archives that are laid out

A command line that names a file with an archive laid out from a draft opens that archive
(`laidOut_opens`). What it delivers of a stored member is its content (`laidOut_delivery`), and of a
member that it has no decoder for, nothing (`laidOut_unsupported`).
-/
namespace ZipArchive.Command

open FileTree

variable {a : Arguments} {c : Console}

/-- An archive that is laid out from a draft, once it is opened. -/
def laidOut (d : Draft) (file : String) : Opened :=
  ⟨file, d.bytes.toByteArray.size, d.bytes.toByteArray, d.archive⟩

section

variable {d : Draft} (fits : d.Fits) (small : d.bytes.length < fileOffsetLimit)
include fits small

/-- It is opened as it was laid out. -/
theorem laidOut_opens (bare : d.comment = []) (asStored : a.sanitize = false)
    (all : a.limit = none) (reads : c.tree.read a.file = .ok d.bytes.toByteArray) :
    ((openArchive Console.host a).run c).1 = .ok (laidOut d a.file) := by
  have written : d.bytes.toByteArray.data.toList = d.bytes := List.toList_data_toByteArray
  rw [← size_of_toList written] at small
  apply openArchive_opens reads
  apply Draft.load_written (Source.ofContent_serves a.file small) fits written asStored all
  · rw [bare, List.length_nil, Nat.zero_add]
    exact Nat.le_max_right _ _
  · intro o above candidate
    exact absurd (Draft.candidate_le written bare candidate) (Nat.not_le_of_lt above)

variable [Decoders] {i : Nat} (inside : i < d.entries.length) (file : String)

/-- A stored member is delivered as it was given. -/
theorem laidOut_delivery (stored : d.entries[i].method = 0) :
    ∃ bytes, (laidOut d file).delivery (d.entries[i].member i (d.headerOffset i)) =
        ⟨bytes, .ok bytes.size.toUInt64⟩ ∧
      bytes.data.toList = d.entries[i].payload := by
  have written : d.bytes.toByteArray.data.toList = d.bytes := List.toList_data_toByteArray
  rw [← size_of_toList written] at small
  obtain ⟨bytes, extracted, payload⟩ := Draft.extract_written (Source.ofContent_serves file small)
    fits written inside stored ⟨(), #[]⟩
  refine ⟨bytes, ?_, payload⟩
  have whole : (laidOut d file).extraction (d.entries[i].member i (d.headerOffset i)) =
      .ok ⟨bytes, .ok bytes.size.toUInt64⟩ := d.archive.extraction_of_extract i extracted
  rw [Opened.delivery, whole]

/-- Of a member with a method that there is no decoder for, nothing is. -/
theorem laidOut_unsupported
    (unsupported : (CompressionMethod.ofTag d.entries[i].method).stage? = none) :
    ∃ error, (laidOut d file).delivery (d.entries[i].member i (d.headerOffset i)) =
      ⟨.empty, .error error⟩ := by
  have written : d.bytes.toByteArray.data.toList = d.bytes := List.toList_data_toByteArray
  rw [← size_of_toList written] at small
  obtain ⟨error, r', refused⟩ := Draft.plug_unsupported (Source.ofContent_serves file small) fits
    written inside unsupported ⟨(), #[]⟩
  have nothing : (laidOut d file).extraction (d.entries[i].member i (d.headerOffset i)) =
      .error error := congrArg Prod.fst (d.archive.extraction_of_plug_error i none refused)
  exact ⟨error, by rw [Opened.delivery, nothing]⟩

end

/-- A member `f` with the content `new`, by the method with the given tag. -/
def newFile (method : UInt16) : Entry where
  name := [0x66]
  payload := [0x6e, 0x65, 0x77]
  plainSize := 3
  crc32 := 0x6be34445
  method := method
  localExtra := []
  comment := []
  hasDescriptor := false

/-- An archive with this one member. -/
def oneMember (method : UInt16) : Draft := ⟨false, [newFile method], []⟩

theorem newFile_delivered [Decoders] :
    ∃ bytes, (laidOut (oneMember 0) "a.zip").delivery ((newFile 0).member 0 0) =
        ⟨bytes, .ok bytes.size.toUInt64⟩ ∧
      bytes.data.toList = [0x6e, 0x65, 0x77] := by
  have fits : (oneMember 0).Fits := by decide +kernel
  have small : (oneMember 0).bytes.length < fileOffsetLimit := by decide +kernel
  exact laidOut_delivery fits small Nat.zero_lt_one "a.zip" rfl

theorem newFile_undelivered [Decoders] :
    ∃ error, (laidOut (oneMember 77) "a.zip").delivery ((newFile 77).member 0 0) =
      ⟨.empty, .error error⟩ := by
  have fits : (oneMember 77).Fits := by decide +kernel
  have small : (oneMember 77).bytes.length < fileOffsetLimit := by decide +kernel
  exact laidOut_unsupported fits small Nat.zero_lt_one "a.zip" rfl

/-- A file `f` with the content `old`, beside the archive. -/
def besideOld (method : UInt16) : Console where
  tree := {
    nodes := [(["f"], .file [0x6f, 0x6c, 0x64].toByteArray),
      (["a.zip"], .file (oneMember method).bytes.toByteArray)]
    workingDirectory := [] }

theorem besideOld_wellFormed (method : UInt16) : (besideOld method).tree.WellFormed := by
  apply wellFormed_of_listed
  simp only [besideOld, List.forall_mem_cons]
  exact ⟨rfl, rfl, fun _ none => absurd none List.not_mem_nil⟩

theorem besideOld_opens {method : UInt16} (fits : (oneMember method).Fits)
    (small : (oneMember method).bytes.length < fileOffsetLimit) (file : a.file = "a.zip")
    (asStored : a.sanitize = false) (all : a.limit = none) :
    ((openArchive Console.host a).run (besideOld method)).1 =
      .ok (laidOut (oneMember method) "a.zip") := by
  have reads : (besideOld method).tree.read a.file = .ok (oneMember method).bytes.toByteArray := by
    rw [file]
    exact read_eq_ok_iff.mpr ⟨["a.zip"], by rfl, rfl⟩
  rw [laidOut_opens fits small rfl asStored all reads, file]

theorem parentMade_besideOld (a : Arguments) (member : Member) (method : UInt16) :
    (parentMade a member (besideOld method)).2.tree.node? ["f"] ≠ some .directory := by
  have old : (besideOld method).tree.node? ["f"] =
    some (.file [0x6f, 0x6c, 0x64].toByteArray) := rfl
  rw [parentMade_furnished.file_iff.mpr old]
  exact nofun

end ZipArchive.Command
