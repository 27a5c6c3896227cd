import Mathlib.Data.Set.Operations
import Mathlib.Order.Bounds.Defs
import ZipArchive.Proofs.TrailerValues

/-!
# The scan for the trailer

Every place near the end of the content where the signature of the classic end record stands is a
candidate. The scan visits them from the end (`candidateOffsets`) and passes over those that are not
consistent, each for a reason that the content alone gives (`rejection?`). It goes on with the last
consistent one, and when there is none, the last bad locator decides on the error (`locate_scan`).
-/
namespace ZipArchive.Trailer

variable {σ : Type} {source : Source σ} {content : ByteArray}

/-- How many bytes at the end of a content are searched. -/
def windowLength (content : ByteArray) (tailWindow : Nat) : Nat :=
  min content.size (max tailWindow ClassicEnd.length)

/-- The signature of the classic end record stands at an offset within the searched bytes, and the
record has room there. -/
structure Candidate (content : ByteArray) (tailWindow offset : Nat) : Prop where
  in_window : content.size - windowLength content tailWindow ≤ offset
  room : offset + ClassicEnd.length ≤ content.size
  signed : wordAt content offset = ClassicEnd.signature

/-- Some field of the record at an offset is all ones, its comment ends within the content, and
something else than the locator's signature stands in front of it. -/
def BadLocator (content : ByteArray) (offset : Nat) : Prop :=
  let record := recordAt content offset
  offset + ClassicEnd.length + record.commentLength.toNat ≤ content.size ∧ record.needsWide ∧
    WideLocator.length ≤ offset ∧
    wordAt content (offset - WideLocator.length) ≠ WideLocator.signature

instance (content : ByteArray) (offset : Nat) : Decidable (BadLocator content offset) := by
  unfold BadLocator
  infer_instance

/-- Why the record at an offset is passed over, if it is. -/
def rejection? (content : ByteArray) (offset : Nat) : Option Rejection :=
  let record := recordAt content offset
  if content.size < offset + (ClassicEnd.length + record.commentLength.toNat) then
    some (.commentBeyondEnd record.commentLength)
  else if record.needsWide then
    if WideLocator.length ≤ offset then
      let found := wordAt content (offset - WideLocator.length)
      if found = WideLocator.signature then none else some (.badLocator found)
    else some .noRoomForLocator
  else checkClassic offset record

theorem checkClassic_eq_none (offset : Nat) (record : ClassicEnd) :
    checkClassic offset record = none ↔
      record.offset.toNat + record.size.toNat ≤ offset ∧
        record.recordsHere ≤ record.recordsTotal ∧
        CentralHeader.minLength * record.recordsHere.toNat ≤ record.size.toNat := by
  rw [← Nat.not_lt, ← UInt16.not_lt, ← Nat.not_lt, Nat.mul_comm]
  unfold checkClassic
  by_cases behind : offset < record.offset.toNat + record.size.toNat
  · simp only [behind, if_true, not_true, false_and, reduceCtorEq]
  by_cases many : record.recordsTotal < record.recordsHere
  · simp only [behind, many, if_true, if_false, not_true, false_and, and_false, reduceCtorEq]
  · simp only [behind, many, if_false, not_false_eq_true, true_and, ite_eq_right_iff, reduceCtorEq,
      imp_false]

theorem rejection?_eq_none (content : ByteArray) (offset : Nat) :
    rejection? content offset = none ↔ Consistent content offset := by
  unfold rejection? Consistent
  generalize recordAt content offset = record
  simp only [Nat.add_assoc, ← Nat.not_lt]
  by_cases beyond : content.size < offset + (ClassicEnd.length + record.commentLength.toNat)
  · simp [beyond]
  by_cases wide : record.needsWide
  · by_cases room : WideLocator.length ≤ offset
    · by_cases signed : wordAt content (offset - WideLocator.length) = WideLocator.signature
      · simp [beyond, wide, room, signed]
      · simp [beyond, wide, room, signed]
    · simp [beyond, wide, room]
  · simp [beyond, wide, checkClassic_eq_none]

theorem checkClassic_ne_badLocator (offset : Nat) (record : ClassicEnd) (found : UInt32) :
    checkClassic offset record ≠ some (.badLocator found) := by
  unfold checkClassic
  dsimp only
  split
  · simp
  · split
    · simp
    · split <;> simp

theorem rejection?_eq_badLocator (content : ByteArray) (offset : Nat) (found : UInt32) :
    rejection? content offset = some (.badLocator found) ↔
      BadLocator content offset ∧ wordAt content (offset - WideLocator.length) = found := by
  unfold rejection? BadLocator
  generalize recordAt content offset = record
  simp only [Nat.add_assoc, ← Nat.not_lt]
  by_cases beyond : content.size < offset + (ClassicEnd.length + record.commentLength.toNat)
  · simp [beyond]
  by_cases wide : record.needsWide
  · by_cases room : WideLocator.length ≤ offset
    · by_cases signed : wordAt content (offset - WideLocator.length) = WideLocator.signature
      · simp [beyond, wide, room, signed]
      · simp [beyond, wide, room, signed]
    · simp [beyond, wide, room]
  · simp [beyond, wide, checkClassic_ne_badLocator]

/-- Checking a candidate tells whether and why the content passes it over. -/
theorem check_yields (serves : source.Serves content) {offset : Nat}
    (room : offset + ClassicEnd.length ≤ content.size) :
    (check source offset (recordAt content offset)).Yields (.ok (rejection? content offset)) #[] := by
  have commentEnd_lt : offset + (ClassicEnd.length + (recordAt content offset).commentLength.toNat) <
      offsetBound := by
    have := (recordAt content offset).commentLength.toNat_lt
    have := serves.size_lt
    unfold offsetBound
    unfold fileOffsetLimit at this
    omega
  unfold check rejection?
  generalize recordAt content offset = record at commentEnd_lt ⊢
  rw [addOffset?, if_pos commentEnd_lt, serves.size_eq]
  apply (Action.inRange_yields _ _).andThen
  by_cases beyond : content.size < offset + (ClassicEnd.length + record.commentLength.toNat)
  · simp only [beyond, if_true]
    exact .pure _
  by_cases wide : record.needsWide
  · by_cases inFront : WideLocator.length ≤ offset
    · have head : offset - WideLocator.length + 4 ≤ content.size := by
        unfold WideLocator.length at inFront ⊢
        omega
      simp only [beyond, wide, subOffset?, inFront, if_true, if_false]
      apply (Action.readExactAt_yields serves _ head).andThen
      rw [wordAt_slice (Nat.le_refl 4), Nat.add_zero]
      split
      · exact .pure _
      · exact .pure _
    · simp only [beyond, wide, subOffset?, inFront, if_true, if_false]
      exact .pure _
  · simp only [beyond, wide, if_false, Bool.false_eq_true]
    exact .pure _

/-! ## The candidates in order -/

theorem matchesBelow_succ (block : ByteArray) (n : Nat) :
    matchesBelow block (n + 1) =
      if wordAt block n = ClassicEnd.signature then n :: matchesBelow block n
      else matchesBelow block n := by
  simp only [matchesBelow, Nat.fold_succ]

theorem mem_matchesBelow (block : ByteArray) (n i : Nat) :
    i ∈ matchesBelow block n ↔ i < n ∧ wordAt block i = ClassicEnd.signature := by
  induction n with
  | zero => simp [matchesBelow]
  | succ n ih =>
    rw [matchesBelow_succ]
    by_cases last : i = n
    · subst last
      by_cases here : wordAt block i = ClassicEnd.signature
      · simp [here]
      · simp [here, ih]
    · have below : i < n + 1 ↔ i < n := by omega
      split
      · rw [List.mem_cons, ih, below, or_iff_right last]
      · rw [ih, below]

theorem matchesBelow_descending (block : ByteArray) (n : Nat) :
    (matchesBelow block n).Pairwise (· > ·) := by
  induction n with
  | zero => exact .nil
  | succ n ih =>
    rw [matchesBelow_succ]
    split
    · exact ih.cons fun i found => ((mem_matchesBelow block n i).mp found).1
    · exact ih

/-- The offsets of the candidates, greatest first. -/
def candidateOffsets (content : ByteArray) (tailWindow : Nat) : List Nat :=
  let window := windowLength content tailWindow
  (candidates (slice content (content.size - window) window)).map (content.size - window + ·)

theorem mem_candidateOffsets (content : ByteArray) (tailWindow offset : Nat) :
    offset ∈ candidateOffsets content tailWindow ↔ Candidate content tailWindow offset := by
  have window_le : windowLength content tailWindow ≤ content.size := Nat.min_le_left _ _
  have size : (slice content (content.size - windowLength content tailWindow)
      (windowLength content tailWindow)).size = windowLength content tailWindow :=
    size_slice (by omega)
  simp only [candidateOffsets, candidates, List.mem_map, mem_matchesBelow, size]
  constructor
  · rintro ⟨i, ⟨below, signed⟩, rfl⟩
    unfold ClassicEnd.length at below
    rw [wordAt_slice (by omega)] at signed
    exact ⟨by omega, by unfold ClassicEnd.length; omega, signed⟩
  · rintro ⟨in_window, room, signed⟩
    have back : content.size - windowLength content tailWindow +
        (offset - (content.size - windowLength content tailWindow)) = offset := by omega
    unfold ClassicEnd.length at room ⊢
    refine ⟨offset - (content.size - windowLength content tailWindow), ⟨by omega, ?_⟩, back⟩
    rw [wordAt_slice (by omega), back, signed]

theorem candidateOffsets_descending (content : ByteArray) (tailWindow : Nat) :
    (candidateOffsets content tailWindow).Pairwise (· > ·) := by
  refine List.pairwise_map.mpr ((matchesBelow_descending _ _).imp ?_)
  intro i j above
  omega

/-- In a descending list, the first element with a property is the greatest one. -/
theorem find?_eq_some_iff_isGreatest {p : Nat → Prop} [DecidablePred p] {l : List Nat}
    (descending : l.Pairwise (· > ·)) (n : Nat) :
    l.find? (p ·) = some n ↔ IsGreatest {m | m ∈ l ∧ p m} n := by
  induction l with
  | nil =>
    constructor
    · intro found
      cases found
    · rintro ⟨⟨member, -⟩, -⟩
      exact absurd member List.not_mem_nil
  | cons first rest ih =>
    obtain ⟨above, descending⟩ := List.pairwise_cons.mp descending
    by_cases holds : p first
    · rw [List.find?_cons_of_pos (by simpa using holds), Option.some_inj]
      constructor
      · rintro rfl
        refine ⟨⟨List.mem_cons_self, holds⟩, ?_⟩
        rintro m ⟨member, -⟩
        rcases List.mem_cons.mp member with rfl | later
        · exact Nat.le_refl _
        · exact Nat.le_of_lt (above m later)
      · rintro ⟨⟨member, -⟩, greatest⟩
        rcases List.mem_cons.mp member with same | later
        · exact same.symm
        · exact absurd (greatest ⟨List.mem_cons_self, holds⟩) (Nat.not_le_of_lt (above n later))
    · have others : {m | m ∈ first :: rest ∧ p m} = {m | m ∈ rest ∧ p m} := by
        ext m
        simp only [Set.mem_ofPred_eq, List.mem_cons]
        constructor
        · rintro ⟨rfl | later, here⟩
          · exact absurd here holds
          · exact ⟨later, here⟩
        · rintro ⟨later, here⟩
          exact ⟨.inr later, here⟩
      rw [List.find?_cons_of_neg (by simpa using holds), ih descending, others]

/-! ## The scan -/

/-- What the scan comes to, for the offsets of candidates and the bad locator that is remembered. -/
def scanned (content : ByteArray) (offsets : List Nat) (badLocator : Option UInt32) :
    Except ZipError (Nat × ClassicEnd) :=
  match offsets.find? (Consistent content ·) with
  | some offset => .ok (offset, recordAt content offset)
  | none =>
    match badLocator.or ((offsets.find? (BadLocator content ·)).map fun offset =>
      wordAt content (offset - WideLocator.length)) with
    | some found => .error (.badSignature WideLocator.recordName WideLocator.signature found)
    | none => .error .missingTrailer

/-- What is logged about the candidates that are passed over. -/
def passedOver (content : ByteArray) : (offsets : List Nat) → Array Event
  | [] => #[]
  | offset :: rest =>
    match rejection? content offset with
    | some reason => #[.candidateIgnored offset reason] ++ passedOver content rest
    | none => #[]

/-- The bad locator that is remembered behind a candidate that is passed over. -/
def remembered (badLocator : Option UInt32) (reason : Rejection) : Option UInt32 :=
  match badLocator, reason with
  | none, .badLocator found => some found
  | known, _ => known

theorem scanned_rejected {offset : Nat} {reason : Rejection}
    (rejected : rejection? content offset = some reason) (rest : List Nat)
    (badLocator : Option UInt32) :
    scanned content (offset :: rest) badLocator =
      scanned content rest (remembered badLocator reason) := by
  have inconsistent : ¬ Consistent content offset := by
    rw [← rejection?_eq_none, rejected]
    exact Option.some_ne_none reason
  unfold scanned
  rw [List.find?_cons_of_neg (by simpa using inconsistent)]
  by_cases bad : BadLocator content offset
  · have found := (rejection?_eq_badLocator content offset _).mpr ⟨bad, rfl⟩
    obtain rfl : reason = .badLocator _ := Option.some.inj (rejected.symm.trans found)
    rw [List.find?_cons_of_pos (by simpa using bad)]
    cases badLocator with
    | none => rfl
    | some known => rfl
  · have kept : remembered badLocator reason = badLocator := by
      cases reason with
      | badLocator found => exact absurd ((rejection?_eq_badLocator _ _ _).mp rejected).1 bad
      | _ => cases badLocator <;> rfl
    rw [List.find?_cons_of_neg (by simpa using bad), kept]

/-- The scan takes the first consistent record of the offsets it is given. -/
theorem select_yields (serves : source.Serves content) {windowStart window : Nat}
    (inside : windowStart + window ≤ content.size) (indices : List Nat)
    (candidates : ∀ i ∈ indices, i + ClassicEnd.length ≤ window ∧
      wordAt content (windowStart + i) = ClassicEnd.signature) (badLocator : Option UInt32) :
    (select source windowStart (slice content windowStart window) indices badLocator).Yields
      (scanned content (indices.map (windowStart + ·)) badLocator)
      (passedOver content (indices.map (windowStart + ·)) ++
        reportsOf source.label (scanned content (indices.map (windowStart + ·)) badLocator)) := by
  induction indices generalizing badLocator with
  | nil =>
    rw [List.map_nil, passedOver, Array.empty_append]
    cases badLocator with
    | none => exact Action.raise_yields source _
    | some found => exact Action.raise_yields source _
  | cons i rest ih =>
    obtain ⟨room, signed⟩ := candidates i List.mem_cons_self
    have parsed : (ClassicEnd.layout.parse source.label ClassicEnd.recordName
        (slice (slice content windowStart window) i ClassicEnd.length).data.toList).1 =
          .ok (recordAt content (windowStart + i)) := by
      rw [slice_slice room, toList_slice, ← encode_recordAt (by omega) signed,
        ← List.append_nil (ClassicEnd.encode _), ClassicEnd.parse_encode]
    have checked := check_yields serves (show windowStart + i + ClassicEnd.length ≤ content.size by
      omega)
    unfold select
    rw [parsed]
    refine (Action.ofExcept_yields source _).andThen (checked.andThen ?_)
    rw [List.map_cons]
    cases rejected : rejection? content (windowStart + i) with
    | none =>
      have consistent := (rejection?_eq_none content (windowStart + i)).mp rejected
      simp only [scanned, passedOver, rejected, List.find?_cons, consistent, decide_true,
        Array.empty_append]
      exact Action.pure_yields source _
    | some reason =>
      have later := ih (fun j member => candidates j (List.mem_cons_of_mem i member))
        (remembered badLocator reason)
      rw [scanned_rejected rejected]
      simp only [passedOver, rejected, Array.append_assoc]
      exact (Action.log_yields _).bind later

theorem windowLength_le (content : ByteArray) (tailWindow : Nat) :
    windowLength content tailWindow ≤ content.size := Nat.min_le_left _ _

/-- The scan goes through the candidates from the end. -/
theorem findClassic_yields (serves : source.Serves content) (tailWindow : Nat) :
    (findClassic source tailWindow).Yields
      (scanned content (candidateOffsets content tailWindow) none)
      (passedOver content (candidateOffsets content tailWindow) ++
        reportsOf source.label (scanned content (candidateOffsets content tailWindow) none)) := by
  have window_le := windowLength_le content tailWindow
  have whole : content.size - windowLength content tailWindow + windowLength content tailWindow =
      content.size := Nat.sub_add_cancel window_le
  simp only [findClassic, serves.size_eq, subOffset?, Nat.min_le_left, if_true]
  apply (Action.inRange_yields source _).andThen
  apply (Action.readExactAt_yields serves _ (Nat.le_of_eq whole)).andThen
  refine select_yields serves (Nat.le_of_eq whole) _ ?_ none
  intro i member
  have candidate := (mem_candidateOffsets content tailWindow _).mp
    (List.mem_map_of_mem (f := (content.size - windowLength content tailWindow + ·)) member)
  exact ⟨by have := candidate.room; omega, candidate.signed⟩

theorem passedOver_above {offsets : List Nat} (descending : offsets.Pairwise (· > ·)) (event : Event)
    (logged : event ∈ passedOver content offsets) :
    ∃ offset ∈ offsets, (∀ accepted ∈ offsets, Consistent content accepted → accepted < offset) ∧
      ∃ reason, event = .candidateIgnored offset reason := by
  induction offsets with
  | nil => exact absurd logged (Array.not_mem_empty event)
  | cons first rest ih =>
    obtain ⟨above, descending⟩ := List.pairwise_cons.mp descending
    unfold passedOver at logged
    cases rejected : rejection? content first with
    | none =>
      rw [rejected] at logged
      exact absurd logged (Array.not_mem_empty event)
    | some reason =>
      have inconsistent : ¬ Consistent content first := by
        rw [← rejection?_eq_none, rejected]
        exact Option.some_ne_none reason
      simp only [rejected, Array.mem_append, List.mem_toArray, List.mem_singleton] at logged
      rcases logged with rfl | later
      · refine ⟨first, List.mem_cons_self, ?_, reason, rfl⟩
        intro accepted member consistent
        rcases List.mem_cons.mp member with rfl | below
        · exact absurd consistent inconsistent
        · exact above accepted below
      · obtain ⟨offset, member, bound, logged⟩ := ih descending later
        refine ⟨offset, List.mem_cons_of_mem first member, ?_, logged⟩
        intro accepted member' consistent
        rcases List.mem_cons.mp member' with rfl | below
        · exact absurd consistent inconsistent
        · exact bound accepted below consistent

theorem candidateOffsets_find? (content : ByteArray) (tailWindow offset : Nat) {p : Nat → Prop}
    [DecidablePred p] :
    (candidateOffsets content tailWindow).find? (p ·) = some offset ↔
      IsGreatest {o | Candidate content tailWindow o ∧ p o} offset := by
  rw [find?_eq_some_iff_isGreatest (candidateOffsets_descending content tailWindow)]
  simp only [mem_candidateOffsets]

theorem candidateOffsets_find?_none (content : ByteArray) (tailWindow : Nat) {p : Nat → Prop}
    [DecidablePred p] :
    (candidateOffsets content tailWindow).find? (p ·) = none ↔
      ∀ o, Candidate content tailWindow o → ¬ p o := by
  simp only [List.find?_eq_none, mem_candidateOffsets, decide_eq_true_eq]

theorem completed_offset {offset : Nat} {t : Trailer} (found : completed content offset = .ok t) :
    t.offset = offset := by
  have kept : ∀ isWide directory, checked content.size offset isWide directory = .ok t →
      t.offset = offset := by
    intro isWide directory accepted
    unfold checked at accepted
    split at accepted
    · cases accepted
    · split at accepted
      · cases accepted
        rfl
      · cases accepted
  unfold completed at found
  dsimp only at found
  split at found
  · cases values : wideValues content offset with
    | error e =>
      rw [values] at found
      cases found
    | ok directory =>
      rw [values] at found
      exact kept true directory found
  · exact kept false _ found

/-- What finding the trailer comes to. -/
def located (content : ByteArray) (tailWindow : Nat) : Except ZipError Trailer :=
  match scanned content (candidateOffsets content tailWindow) none with
  | .ok (offset, _) => completed content offset
  | .error e => .error e

theorem scanned_ok {offsets : List Nat} {badLocator : Option UInt32} {offset : Nat}
    {record : ClassicEnd} (accepted : scanned content offsets badLocator = .ok (offset, record)) :
    offsets.find? (Consistent content ·) = some offset ∧ record = recordAt content offset := by
  unfold scanned at accepted
  split at accepted
  · rename_i found
    cases accepted
    exact ⟨found, rfl⟩
  · split at accepted
    · cases accepted
    · cases accepted

theorem locate_result (serves : source.Serves content) (tailWindow : Nat) (r : Run σ) :
    ((locate source tailWindow).run r).1 = located content tailWindow := by
  obtain ⟨s, scan⟩ := findClassic_yields serves tailWindow r
  unfold located
  rcases accepted : scanned content (candidateOffsets content tailWindow) none with
    e | ⟨offset, record⟩
  · rw [accepted] at scan
    rw [locate_eq, Action.run_bind_error scan]
  · obtain ⟨found, rfl⟩ := scanned_ok accepted
    have last := (candidateOffsets_find? content tailWindow offset).mp found
    rw [accepted] at scan
    rw [locate_eq, Action.run_bind_ok scan, (complete_yields serves last.1.2).result_eq]

/-- The scan ends at the last consistent candidate, if there is one. -/
theorem scanned_accepted {tailWindow offset : Nat}
    (last : IsGreatest {o | Candidate content tailWindow o ∧ Consistent content o} offset) :
    scanned content (candidateOffsets content tailWindow) none =
      .ok (offset, recordAt content offset) := by
  have selected := (candidateOffsets_find? content tailWindow offset).mpr last
  simp only [scanned, selected]

theorem located_accepted {tailWindow offset : Nat}
    (last : IsGreatest {o | Candidate content tailWindow o ∧ Consistent content o} offset) :
    located content tailWindow = completed content offset := by
  unfold located
  rw [scanned_accepted last]

/-- The trailer is found from the last consistent candidate. Only candidates above it are logged,
and what is found depends on nothing but the content it leads to. When no candidate is consistent,
the last bad locator is the error, if there is one. -/
theorem locate_scan (serves : source.Serves content) (tailWindow : Nat) (r : Run σ) :
    (∀ offset, IsGreatest {o | Candidate content tailWindow o ∧ Consistent content o} offset →
      (∃ s warnings, (locate source tailWindow).run r =
          (complete source offset (recordAt content offset)).run ⟨s, r.log ++ warnings⟩ ∧
        ∀ event ∈ warnings, ∃ o > offset, Candidate content tailWindow o ∧
          ∃ reason, event = .candidateIgnored o reason) ∧
      ((locate source tailWindow).run r).1 = completed content offset ∧
      ∀ t, ((locate source tailWindow).run r).1 = .ok t → t.offset = offset) ∧
    ((∀ o, Candidate content tailWindow o → ¬ Consistent content o) →
      (∀ offset, IsGreatest {o | Candidate content tailWindow o ∧ BadLocator content o} offset →
        ((locate source tailWindow).run r).1 =
          .error (.badSignature WideLocator.recordName WideLocator.signature
            (wordAt content (offset - WideLocator.length)))) ∧
      ((∀ o, Candidate content tailWindow o → ¬ BadLocator content o) →
        ((locate source tailWindow).run r).1 = .error .missingTrailer)) := by
  obtain ⟨s, scan⟩ := findClassic_yields serves tailWindow r
  rw [locate_result serves]
  constructor
  · intro offset last
    have result := located_accepted last
    rw [scanned_accepted last] at scan
    refine ⟨⟨s, _, (by rw [locate_eq, Action.run_bind_ok scan]), ?_⟩, result, ?_⟩
    · intro event logged
      rw [reportsOf, Array.append_empty] at logged
      obtain ⟨o, member, above, ignored⟩ :=
        passedOver_above (candidateOffsets_descending content tailWindow) event logged
      have listed := (mem_candidateOffsets content tailWindow offset).mpr last.1.1
      exact ⟨o, above offset listed last.1.2,
        (mem_candidateOffsets content tailWindow o).mp member, ignored⟩
    · intro t found
      exact completed_offset (result.symm.trans found)
  · intro inconsistent
    have nothing := (candidateOffsets_find?_none content tailWindow).mpr inconsistent
    constructor
    · intro offset last
      have bad := (candidateOffsets_find? content tailWindow offset).mpr last
      have refused : scanned content (candidateOffsets content tailWindow) none =
          .error (.badSignature WideLocator.recordName WideLocator.signature
            (wordAt content (offset - WideLocator.length))) := by
        simp only [scanned, nothing, bad, Option.map_some, Option.none_or]
      unfold located
      rw [refused]
    · intro sound
      have bad := (candidateOffsets_find?_none content tailWindow).mpr sound
      have refused : scanned content (candidateOffsets content tailWindow) none =
          .error .missingTrailer := by
        simp only [scanned, nothing, bad, Option.map_none, Option.none_or]
      unfold located
      rw [refused]

/-- An end record whose comment holds the signature once more. -/
def recordInComment : ByteArray :=
  ((ClassicEnd.mk 0 0 0 0 0 0 22).encode ++ (ClassicEnd.mk 0 0 0 0 0 0 1).encode).toByteArray

theorem locate_recordInComment :
    ((locate (Source.ofContent "a.zip" recordInComment) 65557).run ⟨(), #[]⟩).1 =
      .ok ⟨⟨0, 0, 0, 0, 0, 0⟩, 0, false⟩ := by
  have serves := Source.ofContent_serves "a.zip" (show recordInComment.size < fileOffsetLimit by
    decide)
  have inconsistent : ∀ o < 23, wordAt recordInComment o = ClassicEnd.signature →
      Consistent recordInComment o → o ≤ 0 := by decide +kernel
  have last :
      IsGreatest {o | Candidate recordInComment 65557 o ∧ Consistent recordInComment o} 0 := by
    refine ⟨⟨⟨by decide, by decide, by decide⟩, by decide⟩, ?_⟩
    rintro o ⟨⟨_, room, signed⟩, consistent⟩
    exact inconsistent o (Nat.lt_succ_of_le (Nat.le_of_add_le_add_right room)) signed consistent
  have found : completed recordInComment 0 = .ok ⟨⟨0, 0, 0, 0, 0, 0⟩, 0, false⟩ := rfl
  exact ((locate_scan serves 65557 ⟨(), #[]⟩).1 0 last).2.1.trans found

end ZipArchive.Trailer
