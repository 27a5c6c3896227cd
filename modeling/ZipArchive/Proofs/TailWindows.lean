import ZipArchive.Proofs.Extracting
import ZipArchive.Proofs.TrailerGuarantee

/-!
# Wider tail windows

A wider window only adds candidates that lie below all those of a narrower one
(`Trailer.Candidate.narrowed`). So whatever stands last in the narrower window stands last in the
wider one too, be it a consistent record or a bad locator (`Trailer.last_widened`), and a trailer
that is found with a window is found with every wider one (`Trailer.locate_widened`). More can be
found only where nothing was.
-/
namespace ZipArchive

variable {σ : Type} {source : Source σ} {content : ByteArray}

/-- The error of a scan that accepts no record: there is none, or the only ones have a bad locator in
front of them. -/
def ZipError.IsUnlocated (e : ZipError) : Prop :=
  e = .missingTrailer ∨ ∃ expected found, e = .badSignature WideLocator.recordName expected found

namespace Trailer

variable {narrow wide : Nat}

/-! ## Candidates of two windows -/

theorem windowLength_mono (le : narrow ≤ wide) :
    windowLength content narrow ≤ windowLength content wide := by
  unfold windowLength
  omega

theorem Candidate.widened {offset : Nat} (le : narrow ≤ wide)
    (candidate : Candidate content narrow offset) : Candidate content wide offset where
  in_window := by
    have longer := @windowLength_mono content _ _ le
    have in_window := candidate.in_window
    omega
  room := candidate.room
  signed := candidate.signed

/-- The candidates that only the wider window has lie below those of the narrower one. -/
theorem Candidate.narrowed {offset known : Nat} (added : Candidate content wide offset)
    (candidate : Candidate content narrow known) (above : known ≤ offset) :
    Candidate content narrow offset where
  in_window := Nat.le_trans candidate.in_window above
  room := added.room
  signed := added.signed

/-- What stands last in a window stands last in every wider one. -/
theorem last_widened {p : Nat → Prop} {offset : Nat} (le : narrow ≤ wide)
    (last : IsGreatest {o | Candidate content narrow o ∧ p o} offset) :
    IsGreatest {o | Candidate content wide o ∧ p o} offset := by
  obtain ⟨⟨candidate, here⟩, greatest⟩ := last
  refine ⟨⟨candidate.widened le, here⟩, ?_⟩
  rintro o ⟨added, there⟩
  rcases Nat.le_total o offset with below | above
  · exact below
  · exact greatest ⟨added.narrowed candidate above, there⟩

/-! ## What a window leads to -/

/-- How a search for the trailer ends: with the last consistent candidate, or else with the last bad
locator, or else with nothing. -/
inductive Ends (content : ByteArray) (tailWindow : Nat) : Except ZipError Trailer → Prop where
  | accepted {offset : Nat}
      (last : IsGreatest {o | Candidate content tailWindow o ∧ Consistent content o} offset) :
    Ends content tailWindow (completed content offset)
  | badLocator {offset : Nat}
      (none : ∀ o, Candidate content tailWindow o → ¬ Consistent content o)
      (last : IsGreatest {o | Candidate content tailWindow o ∧ BadLocator content o} offset) :
    Ends content tailWindow (.error (.badSignature WideLocator.recordName WideLocator.signature
      (wordAt content (offset - WideLocator.length))))
  | missing (none : ∀ o, Candidate content tailWindow o → ¬ Consistent content o)
      (sound : ∀ o, Candidate content tailWindow o → ¬ BadLocator content o) :
    Ends content tailWindow (.error .missingTrailer)

theorem located_ends (content : ByteArray) (tailWindow : Nat) :
    Ends content tailWindow (located content tailWindow) := by
  cases consistent : (candidateOffsets content tailWindow).find? (Consistent content ·) with
  | some offset =>
    have last := (candidateOffsets_find? content tailWindow offset).mp consistent
    rw [located_accepted last]
    exact .accepted last
  | none =>
    have inconsistent := (candidateOffsets_find?_none content tailWindow).mp consistent
    unfold located scanned
    rw [consistent]
    cases bad : (candidateOffsets content tailWindow).find? (BadLocator content ·) with
    | some offset =>
      exact .badLocator inconsistent ((candidateOffsets_find? content tailWindow offset).mp bad)
    | none =>
      exact .missing inconsistent ((candidateOffsets_find?_none content tailWindow).mp bad)

theorem Refused.located {isWide : Bool} {e : ZipError} (refused : Refused content isWide e) :
    ¬ e.IsUnlocated := by
  rintro (rfl | ⟨expected, found, rfl⟩)
  · cases refused
  · generalize name : WideLocator.recordName = record at refused
    cases refused
    exact absurd name (by decide)

/-- A record that was accepted does not end as if there were none. -/
theorem completed_located {offset : Nat} {e : ZipError} (consistent : Consistent content offset)
    (failed : completed content offset = .error e) : ¬ e.IsUnlocated :=
  (completed_refused consistent failed).located

theorem located_refused_iff {tailWindow : Nat} {e : ZipError}
    (failed : located content tailWindow = .error e) :
    ¬ e.IsUnlocated ↔ ∃ isWide, Refused content isWide e := by
  refine ⟨fun here => ?_, fun ⟨_, refused⟩ => refused.located⟩
  have ends := located_ends content tailWindow
  rw [failed] at ends
  generalize result : (Except.error e : Except ZipError Trailer) = r at ends
  cases ends with
  | accepted last => exact ⟨_, completed_refused last.1.2 result.symm⟩
  | badLocator none last =>
    cases result
    exact absurd (.inr ⟨_, _, rfl⟩) here
  | missing none sound =>
    cases result
    exact absurd (.inl rfl) here

/-- A search that ends with a bad locator has the last one there is. -/
theorem located_badLocator {tailWindow : Nat} {expected found : UInt32}
    (failed : located content tailWindow =
      .error (.badSignature WideLocator.recordName expected found)) :
    ∃ offset, IsGreatest {o | Candidate content tailWindow o ∧ BadLocator content o} offset ∧
      found = wordAt content (offset - WideLocator.length) := by
  have ends := located_ends content tailWindow
  generalize result : located content tailWindow = r at ends failed
  cases ends with
  | accepted last => exact absurd (.inr ⟨_, _, rfl⟩) (completed_located last.1.2 failed)
  | badLocator none last =>
    cases failed
    exact ⟨_, last, rfl⟩
  | missing none sound => cases failed

/-! ## Two windows -/

theorem located_widened (le : narrow ≤ wide)
    (found : ∀ e, located content narrow = .error e → ¬ e.IsUnlocated) :
    located content wide = located content narrow := by
  have ends := located_ends content narrow
  generalize located content narrow = result at ends found
  cases ends with
  | accepted last => exact located_accepted (last_widened le last)
  | badLocator none last => exact absurd (.inr ⟨_, _, rfl⟩) (found _ rfl)
  | missing none sound => exact absurd (.inl rfl) (found _ rfl)

theorem located_missing (le : narrow ≤ wide)
    (failed : located content wide = .error .missingTrailer) :
    located content narrow = .error .missingTrailer := by
  have wideEnds := located_ends content wide
  rw [failed] at wideEnds
  have nothing : ∀ o, Candidate content wide o → ¬ Consistent content o ∧ ¬ BadLocator content o := by
    generalize result : (Except.error .missingTrailer : Except ZipError Trailer) = r at wideEnds
    cases wideEnds with
    | accepted last => exact absurd (.inl rfl) (completed_located last.1.2 result.symm)
    | badLocator none last => cases result
    | missing none sound => exact fun o candidate => ⟨none o candidate, sound o candidate⟩
  have ends := located_ends content narrow
  generalize located content narrow = result at ends ⊢
  cases ends with
  | accepted last => exact absurd last.1.2 (nothing _ (last.1.1.widened le)).1
  | badLocator none last => exact absurd last.1.2 (nothing _ (last.1.1.widened le)).2
  | missing none sound => rfl

/-- The bad locator that is told of is the same. -/
theorem located_badLocator_widened (le : narrow ≤ wide) {expected found expected' found' : UInt32}
    (before : located content narrow =
      .error (.badSignature WideLocator.recordName expected found))
    (after : located content wide =
      .error (.badSignature WideLocator.recordName expected' found')) : found = found' := by
  obtain ⟨offset, last, rfl⟩ := located_badLocator before
  obtain ⟨offset', last', rfl⟩ := located_badLocator after
  have widened := last_widened le last
  rw [Nat.le_antisymm (last'.2 widened.1) (widened.2 last'.1)]

/-- Windows are told apart by how many bytes are searched. -/
theorem locate_congr {tailWindow other : Nat}
    (same : min source.size (max tailWindow ClassicEnd.length) =
      min source.size (max other ClassicEnd.length)) :
    locate source tailWindow = locate source other := by
  have searched : findClassic source tailWindow = findClassic source other := by
    unfold findClassic
    rw [same]
  rw [locate_eq, locate_eq, searched]

end Trailer

/-- Opening an archive goes on with the trailer that the wider window finds too. -/
theorem Archive.loaded_widened {narrow wide : Nat} (le : narrow ≤ wide) (options : Options)
    (found : ∀ e, loaded source { options with tailWindow := narrow } content = .error e →
      ¬ e.IsUnlocated) :
    loaded source { options with tailWindow := wide } content =
      loaded source { options with tailWindow := narrow } content := by
  have same : ∀ directory, Directory.readFrom source { options with tailWindow := wide } directory
      content = Directory.readFrom source { options with tailWindow := narrow } directory content := by
    intro directory
    have listed := @Directory.listed_options σ source { options with tailWindow := narrow }
      { options with tailWindow := wide } rfl directory
    unfold Directory.readFrom Directory.described
    dsimp only
    rw [listed]
    rfl
  have located : Trailer.located content wide = Trailer.located content narrow := by
    refine Trailer.located_widened le fun e failed => found e ?_
    rw [loaded, failed]
    rfl
  unfold loaded
  simp only [located, same]

namespace Trailer

/-- A trailer that is found is found with every wider window, and so is what is wrong with a record
that was accepted, and the archive is opened alike. Nothing is missing with a narrower window only,
and two windows that end in a bad locator end in the same one. Windows that are shorter than an end
record are alike, and so are those that are longer than the source. -/
theorem locate_widened (serves : source.Serves content) {narrow wide : Nat} (le : narrow ≤ wide)
    (r r' : Run σ) :
    let before := ((locate source narrow).run r).1
    let after := ((locate source wide).run r').1
    ((∀ e, before = .error e → ¬ e.IsUnlocated) → after = before) ∧
    (∀ e, before = .error e → (¬ e.IsUnlocated ↔ ∃ isWide, Refused content isWide e)) ∧
    (after = .error .missingTrailer → before = .error .missingTrailer) ∧
    (∀ expected found expected' found',
      before = .error (.badSignature WideLocator.recordName expected found) →
      after = .error (.badSignature WideLocator.recordName expected' found') → found = found') ∧
    (wide ≤ 22 → locate source narrow = locate source wide) ∧
    (source.size ≤ narrow → locate source narrow = locate source wide) ∧
    ∀ options : Options,
      let opened := ((Archive.load source { options with tailWindow := narrow }).run r).1
      (∀ e, opened = .error e → ¬ e.IsUnlocated) →
        ((Archive.load source { options with tailWindow := wide }).run r').1 = opened := by
  intro before after
  have before_eq : before = located content narrow := locate_result serves narrow r
  have after_eq : after = located content wide := locate_result serves wide r'
  rw [before_eq, after_eq]
  refine ⟨located_widened le, fun e => located_refused_iff, located_missing le, ?_, ?_, ?_, ?_⟩
  · intro expected found expected' found'
    exact located_badLocator_widened le
  · intro short
    exact locate_congr (by unfold ClassicEnd.length; omega)
  · intro long
    exact locate_congr (by omega)
  · intro options opened found
    have opened_eq : opened = _ := (Archive.load_yields _ serves).result_eq r
    rw [opened_eq] at found ⊢
    rw [(Archive.load_yields _ serves).result_eq r']
    exact Archive.loaded_widened le options found

/-- Two end records of an empty archive, the second one in the comment of the first. Both are
consistent. -/
def endTwice : ByteArray :=
  ((ClassicEnd.mk 0 0 0 0 0 0 22).encode ++ (ClassicEnd.mk 0 0 0 0 0 0 0).encode).toByteArray

/-- The second one is found with a window that has room for it alone, and also with one that has the
first one in it. -/
theorem endTwice_widened :
    ((locate (Source.ofContent "a.zip" endTwice) 22).run ⟨(), #[]⟩).1 =
        .ok ⟨⟨0, 0, 0, 0, 0, 0⟩, 22, false⟩ ∧
      ((locate (Source.ofContent "a.zip" endTwice) 44).run ⟨(), #[]⟩).1 =
        .ok ⟨⟨0, 0, 0, 0, 0, 0⟩, 22, false⟩ ∧
      ((Archive.load (Source.ofContent "a.zip" endTwice) { tailWindow := 44 }).run ⟨(), #[]⟩).1 =
        ((Archive.load (Source.ofContent "a.zip" endTwice) { tailWindow := 22 }).run ⟨(), #[]⟩).1 := by
  have serves := Source.ofContent_serves "a.zip" (show endTwice.size < fileOffsetLimit by decide)
  have last : IsGreatest {o | Candidate endTwice 22 o ∧ Consistent endTwice o} 22 := by
    refine ⟨⟨⟨by decide, by decide, by decide⟩, by decide⟩, ?_⟩
    rintro o ⟨⟨_, room, _⟩, _⟩
    exact Nat.le_of_add_le_add_right room
  have found : ((locate (Source.ofContent "a.zip" endTwice) 22).run ⟨(), #[]⟩).1 =
      .ok ⟨⟨0, 0, 0, 0, 0, 0⟩, 22, false⟩ :=
    (locate_result serves 22 ⟨(), #[]⟩).trans ((located_accepted last).trans rfl)
  have listed : ((Archive.load (Source.ofContent "a.zip" endTwice) { tailWindow := 22 }).run
      ⟨(), #[]⟩).1 = .ok ⟨#[]⟩ := by
    rw [(Archive.load_yields _ serves).result_eq, Archive.loaded, located_accepted last]
    rfl
  have widened := locate_widened serves (show 22 ≤ 44 by decide) ⟨(), #[]⟩ ⟨(), #[]⟩
  refine ⟨found, (widened.1 fun e failed => ?_).trans found,
    widened.2.2.2.2.2.2 {} fun e failed => ?_⟩
  · cases found.symm.trans failed
  · cases listed.symm.trans failed

end Trailer
end ZipArchive
