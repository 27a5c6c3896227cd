import ZipArchive.Proofs.LossyText
import ZipArchive.Proofs.Outcome
import ZipArchive.Proofs.SanitizedPaths
import ZipArchive.Archive

/-!
# Where sanitized members go

An archive that is opened with sanitized paths has the same members as without, each with its path
sanitized (`Archive.load_sanitized`). The parts of a name's text are the texts of its segments
(`Command.nameParts_lossy`). So a name that is not refused goes where the sanitized one does, as
there is nothing to resolve in it, and of the sanitized ones only the root is refused
(`Command.sanitized_output`).
-/
namespace ZipArchive

/-! ## Archives that are opened with sanitized paths -/

/-- The member with its path sanitized. -/
def Member.sanitized (m : Member) : Member := { m with path := Path.sanitize m.path }

/-- The archive with all paths sanitized. -/
def Archive.sanitized (a : Archive) : Archive := ⟨a.members.map Member.sanitized⟩

section
variable {σ α β : Type} (source : Source σ)

theorem Action.map_raise (f : α → β) (error : ZipError) :
    f <$> (raise source error : Action σ α) = raise source error := by
  rw [← bind_pure_comp]
  refine funext fun r => ?_
  exact (run_bind_error (run_raise source error r)).trans (run_raise source error r).symm

theorem Action.ofExcept_map (f : α → β) (result : Except ZipError α) :
    ofExcept source (result.map f) = f <$> ofExcept source result := by
  cases result with
  | ok value => exact (map_pure f value).symm
  | error error => exact (map_raise source f error).symm

variable (options : Options) (directory : DirectoryEnd)

theorem Directory.memberOf_sanitized (index : Nat) (header : CentralHeader) :
    memberOf source { options with sanitizePaths := true } directory index header =
      (memberOf source { options with sanitizePaths := false } directory index header).map
        Member.sanitized := by
  unfold memberOf
  split
  · rfl
  · split <;> rfl

theorem Directory.readMembers_sanitized (count : Nat) (window : Buffered) (members : Array Member) :
    readMembers source { options with sanitizePaths := true } directory count window
        (members.map Member.sanitized) =
      (·.map Member.sanitized) <$>
        readMembers source { options with sanitizePaths := false } directory count window
          members := by
  induction count generalizing window members with
  | zero => exact (map_pure _ members).symm
  | succ count ih =>
    unfold readMembers
    rw [map_bind]
    refine bind_congr fun (header, window) => ?_
    dsimp only
    rw [memberOf_sanitized, Action.ofExcept_map, bind_map_left, map_bind, Array.size_map]
    refine bind_congr fun member => ?_
    rw [← ih, Array.map_push]

/-- Sanitizing paths while an archive is opened makes no other difference. -/
theorem Archive.load_sanitized :
    load source { options with sanitizePaths := true } =
      sanitized <$> load source { options with sanitizePaths := false } := by
  have read : ∀ directory, Directory.read source { options with sanitizePaths := true } directory =
      (·.map Member.sanitized) <$>
        Directory.read source { options with sanitizePaths := false } directory := by
    intro directory
    unfold Directory.read
    simp only [map_bind]
    refine bind_congr fun _ => bind_congr fun stop => ?_
    have members := Directory.readMembers_sanitized source options directory
      (Directory.recordCount options directory)
      ⟨View.new source.size directory.offset.toNat stop, blockSize, .empty, 0⟩ #[]
    rwa [Array.map_empty] at members
  unfold load
  simp only [read, map_bind, bind_map_left, map_pure]
  rfl

end

namespace Command

open ZipArchive.Path ZipArchive.Text

variable {raw segment : List UInt8}

/-! ## Parts and segments -/

theorem nameParts_lossy (raw : List UInt8) :
    nameParts (lossy raw) = (raw.splitOnP isSeparator).map lossy := by
  have cut : (lossyChars raw).splitOnP (fun c => c = '/' || c = '\\') =
      (raw.splitOnP isSeparator).map lossyChars := splitOnP_lossyChars raw
  rw [nameParts, lossy_eq, String.toList_ofList, cut, List.map_map]
  exact List.map_congr_left fun segment _ => (lossy_eq segment).symm

theorem lossy_eq_empty : lossy segment = "" ↔ segment = [] := by
  rw [lossy_eq, ofList_eq_iff]
  exact lossyChars_eq_nil

/-- Dots are read as dots, and nothing else is. -/
theorem lossy_eq_dots : (lossy segment = "." ↔ segment = [dot]) ∧
    (lossy segment = ".." ↔ segment = [dot, dot]) := by
  have starts : ∀ {bytes : List UInt8} {chars : List Char}, lossyChars bytes = '.' :: chars ↔
      ∃ rest, bytes = dot :: rest ∧ lossyChars rest = chars :=
    lossyChars_eq_cons (b := dot) (by decide) (by decide)
  rw [lossy_eq, ofList_eq_iff, ofList_eq_iff]
  constructor
  · change lossyChars segment = '.' :: [] ↔ _
    simp only [starts, lossyChars_eq_nil, exists_eq_right]
  · change lossyChars segment = '.' :: '.' :: [] ↔ _
    simp only [starts, lossyChars_eq_nil, exists_eq_right]

theorem isReal_lossy (segment : List UInt8) : isReal (lossy segment) = isTold segment := by
  have none : lossy segment = "" ↔ segment = [] := lossy_eq_empty
  simp only [isReal, isTold, ne_eq, none, lossy_eq_dots.1]

/-- The parts of a name's text that lead down are the texts of its segments that say anything. -/
theorem realParts_lossy (raw : List UInt8) : (nameParts (lossy raw)).filter isReal =
    ((raw.splitOnP isSeparator).filter isTold).map lossy := by
  rw [nameParts_lossy, List.filter_map]
  exact congrArg (List.map lossy) (List.filter_congr fun segment _ => isReal_lossy segment)

theorem dots_mem_nameParts :
    ".." ∈ nameParts (lossy raw) ↔ [dot, dot] ∈ raw.splitOnP isSeparator := by
  rw [nameParts_lossy, List.mem_map]
  constructor
  · rintro ⟨segment, among, up⟩
    rwa [← lossy_eq_dots.2.mp up]
  · exact fun among => ⟨_, among, lossy_eq_dots.2.mpr rfl⟩

/-! ## Sanitized names -/

/-- Where no segment leads up, all that say anything are kept. -/
theorem resolved_eq_filter (level : [dot, dot] ∉ raw.splitOnP isSeparator) :
    resolved raw = (raw.splitOnP isSeparator).filter isTold := by
  have along : ∀ (segments kept : List (List UInt8)), [dot, dot] ∉ segments →
      segments.foldl descend kept = kept ++ segments := by
    intro segments
    induction segments with
    | nil => exact fun kept _ => (List.append_nil kept).symm
    | cons segment segments ih =>
      intro kept level
      obtain ⟨other, level⟩ := List.ne_and_not_mem_of_not_mem_cons level
      rw [List.foldl_cons, descend, if_neg (Ne.symm other), ih _ level, List.append_assoc]
      rfl
  rw [resolved_eq_foldl_descend, along _ _ fun among => level (List.mem_of_mem_filter among),
    List.nil_append]

theorem splitOnP_sanitize (raw : List UInt8) : ∃ last, (last = [] ∨ last = [[]]) ∧
    (sanitize raw).splitOnP isSeparator = [] :: (resolved raw ++ last) := by
  refine ⟨_, ?_, sanitize_eq raw ▸ splitOnP_laid fun _ => plain_of_mem_resolved⟩
  split
  · exact .inr rfl
  · exact .inl rfl

/-- No part of a sanitized name leads up, and those that lead down are the segments that are
kept. -/
theorem realParts_sanitize (raw : List UInt8) :
    ".." ∉ nameParts (lossy (sanitize raw)) ∧
      (nameParts (lossy (sanitize raw))).filter isReal = (resolved raw).map lossy := by
  obtain ⟨last, none, split⟩ := splitOnP_sanitize raw
  have level : [dot, dot] ∉ (sanitize raw).splitOnP isSeparator := by
    rw [split]
    intro among
    rcases List.mem_cons.mp among with root | among
    · cases root
    rcases List.mem_append.mp among with inside | behind
    · exact (plain_of_mem_resolved inside).ne_dots rfl
    · rcases none with rfl | rfl
      · exact absurd behind List.not_mem_nil
      · cases List.mem_singleton.mp behind
  refine ⟨fun up => level (dots_mem_nameParts.mp up), ?_⟩
  rw [realParts_lossy, ← resolved_eq_filter level, resolved_sanitize]

theorem isRefused_sanitize : IsRefused (lossy (sanitize raw)) ↔ sanitize raw = [slash] := by
  obtain ⟨level, parts⟩ := realParts_sanitize raw
  rw [IsRefused, or_iff_right level, ← filter_isReal_eq_nil, parts, List.map_eq_nil_iff,
    sanitize_eq_root]

/-- Names that are not refused have the same parts when they are sanitized. -/
theorem components_sanitize (junkPaths : Bool) (fit : ¬ IsRefused (lossy raw)) :
    components junkPaths (lossy (sanitize raw)) = components junkPaths (lossy raw) := by
  have level : [dot, dot] ∉ raw.splitOnP isSeparator := fun up =>
    fit (.inl (dots_mem_nameParts.mpr up))
  rw [components, components, (realParts_sanitize raw).2, resolved_eq_filter level, realParts_lossy]

theorem sanitize_ne_root (fit : ¬ IsRefused (lossy raw)) : sanitize raw ≠ [slash] := by
  intro root
  have level : [dot, dot] ∉ raw.splitOnP isSeparator := fun up =>
    fit (.inl (dots_mem_nameParts.mpr up))
  apply filter_isReal_ne_nil fit
  rw [realParts_lossy, ← resolved_eq_filter level, sanitize_eq_root.mp root, List.map_nil]

/-- A name that is accepted is accepted with the same parts when it is sanitized, and a sanitized
name is refused only if it is the root. An archive that is opened with sanitized paths has the same
members as without, each with the name of its sanitized path. So a member that is extracted without
goes to the same place, and every other one that does not resolve to the root goes somewhere. -/
theorem sanitized_output (junkPaths : Bool) (raw : List UInt8) :
    (∀ parts, outputParts junkPaths (lossy raw) = some parts →
      outputParts junkPaths (lossy (sanitize raw)) = some parts) ∧
    (outputParts junkPaths (lossy (sanitize raw)) = none ↔ sanitize raw = [slash]) ∧
    (∀ {σ : Type} (source : Source σ) (options : Options),
      Archive.load source { options with sanitizePaths := true } =
        Archive.sanitized <$> Archive.load source { options with sanitizePaths := false }) ∧
    ∀ m : Member, m.name = lossy m.path ∧ m.sanitized.name = lossy (sanitize m.path) := by
  have accepted : ∀ parts, outputParts junkPaths (lossy raw) = some parts →
      outputParts junkPaths (lossy (sanitize raw)) = some parts := by
    intro parts found
    rw [outputParts_eq] at found
    split at found
    · cases found
    · rename_i fit
      rw [outputParts_eq, if_neg fun refused =>
        sanitize_ne_root fit (isRefused_sanitize.mp refused), components_sanitize junkPaths fit]
      exact found
  have refused : outputParts junkPaths (lossy (sanitize raw)) = none ↔ sanitize raw = [slash] := by
    rw [outputParts_eq, ← isRefused_sanitize]
    split
    · rename_i refused
      exact ⟨fun _ => refused, fun _ => rfl⟩
    · rename_i fit
      exact ⟨nofun, fun refused => absurd refused fit⟩
  exact ⟨accepted, refused, Archive.load_sanitized, fun m => ⟨rfl, rfl⟩⟩

/-- A name with a byte that starts no character and a dot goes to the same place when it is
sanitized. -/
theorem brokenName_output :
    outputParts false (lossy [0x61, 0xff, 0x5c, 0x2e, 0x2f, 0x62]) = some ["a\ufffd", "b"] ∧
      outputParts false (lossy (sanitize [0x61, 0xff, 0x5c, 0x2e, 0x2f, 0x62])) =
        some ["a\ufffd", "b"] := by
  have goes : outputParts false (lossy [0x61, 0xff, 0x5c, 0x2e, 0x2f, 0x62]) =
      some ["a\ufffd", "b"] := by decide +kernel
  exact ⟨goes, (sanitized_output false [0x61, 0xff, 0x5c, 0x2e, 0x2f, 0x62]).1 _ goes⟩

end Command
end ZipArchive
