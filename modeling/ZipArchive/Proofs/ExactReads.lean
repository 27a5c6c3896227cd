import ZipArchive.Proofs.Faults

/-!
# Exact reads on any schedule

A source gives a content (`Source.Gives`) when the bytes of every read that does not fail are the
content's, however few, and none come only where none can. What an exact read comes to is told by
the answers it meets (`Source.Fills`), which a recording source writes down: on any schedule of
short, interrupted and failing reads it gives the bytes asked for, tells that the content ends before
them, or fails as the source did (`Source.readExactAt_exact`).
-/
namespace ZipArchive

open OsError (FinalCode)

variable {σ : Type} {source : Source σ} {content : ByteArray}

/-- Reads give bytes of the content, from the offset asked for on. None come only if none were asked
for or the content ends there. Any read may also fail, or be interrupted. -/
structure Source.Gives (source : Source σ) (content : ByteArray) : Prop where
  true_bytes : ∀ {offset length : Nat} {s s' : σ} {bytes : ByteArray},
    source.readAt offset length s = (.ok bytes, s') → bytes = slice content offset bytes.size
  none_iff : ∀ {offset length : Nat} {s s' : σ} {bytes : ByteArray},
    source.readAt offset length s = (.ok bytes, s') →
      (bytes.size = 0 ↔ length = 0 ∨ content.size ≤ offset)

theorem size_slice_eq (content : ByteArray) (offset length : Nat) :
    (slice content offset length).size = min length (content.size - offset) := by
  simp only [slice, ByteArray.size_extract]
  omega

/-- Some bytes that a source gives lie in the content. -/
theorem Source.Gives.inside (gives : source.Gives content) {offset length : Nat} {s s' : σ}
    {bytes : ByteArray} (answer : source.readAt offset length s = (.ok bytes, s'))
    (some : bytes.size ≠ 0) : offset + bytes.size ≤ content.size := by
  have size := congrArg ByteArray.size (gives.true_bytes answer)
  rw [size_slice_eq] at size
  omega

/-- A schedule that gives at least one byte with each read may fail and be interrupted anywhere. -/
theorem Source.scheduled_gives (label : String) (content : ByteArray) {plan : Schedule}
    (some : ∀ cap, plan.cap = some cap → 0 < cap) :
    (Source.scheduled label content plan).Gives content := by
  have given : ∀ {offset length : Nat} {waiting waiting' : List Nat} {bytes : ByteArray},
      plan.readAt content offset length waiting = (.ok bytes, waiting') →
        bytes = slice content offset (plan.limit length) := by
    intro offset length waiting waiting' bytes answer
    unfold Schedule.readAt at answer
    split at answer
    · cases answer
    · split at answer
      · cases answer
      · split at answer
        · cases answer
        · cases answer
          rfl
  have limit_eq_zero : ∀ length, plan.limit length = 0 ↔ length = 0 := by
    intro length
    unfold Schedule.limit
    split
    · have := some _ ‹_›
      omega
    · rfl
  constructor
  · intro offset length waiting waiting' bytes answer
    rw [given answer, size_slice_eq, slice_min]
  · intro offset length waiting waiting' bytes answer
    rw [given answer, size_slice_eq, ← limit_eq_zero length]
    omega

/-! ## Writing answers down -/

/-- A read that a source was asked for, and how it answered. -/
structure ReadNote where
  offset : Nat
  length : Nat
  answer : Except ReadFailure ByteArray

def ReadNote.isInterrupted (note : ReadNote) : Bool :=
  match note.answer with
  | .error .interrupted => true
  | _ => false

namespace Source

/-- The same source, which writes down each read that it is asked for, with the answer. -/
def recording (source : Source σ) : Source (σ × List ReadNote) where
  label := source.label
  size := source.size
  readAt offset length := fun (s, notes) =>
    ((source.readAt offset length s).1, (source.readAt offset length s).2,
      notes ++ [⟨offset, length, (source.readAt offset length s).1⟩])
  patience := fun (s, _) => source.patience s
  size_readAt := by
    rintro offset length ⟨s, notes⟩ bytes ⟨s', notes'⟩ answer
    simp only [Prod.mk.injEq] at answer
    exact source.size_readAt _ _ s _ s' (Prod.ext answer.1 answer.2.1)
  patience_readAt := by
    rintro offset length ⟨s, notes⟩ ⟨s', notes'⟩ answer
    simp only [Prod.mk.injEq] at answer
    exact source.patience_readAt _ _ s s' (Prod.ext answer.1 answer.2.1)

theorem recording_readAt {offset length : Nat} {s s' : σ} {answer : Except ReadFailure ByteArray}
    (answered : source.readAt offset length s = (answer, s')) (notes : List ReadNote) :
    source.recording.readAt offset length (s, notes) =
      (answer, s', notes ++ [⟨offset, length, answer⟩]) := by
  simp only [recording, answered]

/-- How a buffer of `length` more bytes is filled, behind the bytes already read: the result, and
the reads that led to it with their answers. -/
inductive Fills (source : Source σ) : (offset length : Nat) → ByteArray → σ →
    Except IoError ByteArray → σ → List ReadNote → Prop where
  | full {offset : Nat} {done : ByteArray} {s : σ} : Fills source offset 0 done s (.ok done) s []
  | ended {offset length : Nat} {done bytes : ByteArray} {s s' : σ} (some : length ≠ 0)
      (answer : source.readAt offset length s = (.ok bytes, s')) (nothing : bytes.size = 0) :
    Fills source offset length done s (.error ⟨.endOfFile, none⟩) s' [⟨offset, length, .ok bytes⟩]
  | given {offset length : Nat} {done bytes : ByteArray} {s s' s'' : σ}
      {result : Except IoError ByteArray} {notes : List ReadNote} (some : length ≠ 0)
      (answer : source.readAt offset length s = (.ok bytes, s')) (more : bytes.size ≠ 0)
      (rest : Fills source (offset + bytes.size) (length - bytes.size) (done ++ bytes) s'
        result s'' notes) :
    Fills source offset length done s result s'' (⟨offset, length, .ok bytes⟩ :: notes)
  | interrupted {offset length : Nat} {done : ByteArray} {s s' s'' : σ}
      {result : Except IoError ByteArray} {notes : List ReadNote} (some : length ≠ 0)
      (answer : source.readAt offset length s = (.error .interrupted, s'))
      (rest : Fills source offset length done s' result s'' notes) :
    Fills source offset length done s result s'' (⟨offset, length, .error .interrupted⟩ :: notes)
  | failed {offset length : Nat} {code : FinalCode} {done : ByteArray} {s s' : σ}
      (some : length ≠ 0)
      (answer : source.readAt offset length s = (.error (.os code), s')) :
    Fills source offset length done s (.error ⟨.os code.number, none⟩) s'
      [⟨offset, length, .error (.os code)⟩]

/-- An exact read ends, and is one of these. Writing its reads down makes no difference to it. -/
theorem readExactFrom_fills (offset length : Nat) (done : ByteArray) (s : σ)
    (before : List ReadNote) :
    ∃ result s' notes, source.readExactFrom offset length done s = (result, s') ∧
      source.recording.readExactFrom offset length done (s, before) =
        (result, s', before ++ notes) ∧
      source.Fills offset length done s result s' notes := by
  fun_induction readExactFrom source offset length done s generalizing before with
  | case1 offset done s =>
    refine ⟨_, s, [], rfl, ?_, .full⟩
    rw [readExactFrom_zero, List.append_nil]
  | case2 offset length done s some bytes s' answer nothing =>
    refine ⟨_, s', _, rfl, ?_, .ended some answer nothing⟩
    rw [readExactFrom_step some, recording_readAt answer]
    exact if_pos nothing
  | case3 offset length done s some bytes s' answer more ih =>
    have noted := recording_readAt answer before
    obtain ⟨result, s'', notes, plain, recorded, rest⟩ :=
      ih (before ++ [⟨offset, length, .ok bytes⟩])
    refine ⟨result, s'', _, plain, ?_, .given some answer more rest⟩
    rw [readExactFrom_step some, noted, List.append_cons before _ notes, ← recorded]
    exact if_neg more
  | case4 offset length done s some s' answer _ ih =>
    have noted := recording_readAt answer before
    obtain ⟨result, s'', notes, plain, recorded, rest⟩ :=
      ih (before ++ [⟨offset, length, .error .interrupted⟩])
    refine ⟨result, s'', _, plain, ?_, .interrupted some answer rest⟩
    rw [readExactFrom_step some, noted, List.append_cons before _ notes, ← recorded]
  | case5 offset length done s some failure s' other answer =>
    cases failure with
    | interrupted => exact absurd rfl other
    | os code =>
      refine ⟨_, s', _, rfl, ?_, .failed some answer⟩
      rw [readExactFrom_step some, recording_readAt answer]

namespace Fills

variable {offset length : Nat} {done : ByteArray} {s s' : σ} {result : Except IoError ByteArray}
  {notes : List ReadNote}

/-- Each read is for all the bytes that are still to come. -/
theorem asks_rest (fills : source.Fills offset length done s result s' notes) :
    ∀ note ∈ notes, 0 < note.length ∧ offset ≤ note.offset ∧
      note.offset + note.length = offset + length := by
  induction fills with
  | full => exact fun _ among => absurd among List.not_mem_nil
  | ended some _ _ | failed some _ =>
    rintro note (_ | ⟨_, ⟨⟩⟩)
    exact ⟨Nat.pos_of_ne_zero some, Nat.le_refl _, rfl⟩
  | given some answer more rest ih =>
    have bound := source.size_readAt _ _ _ _ _ answer
    rintro note (_ | ⟨_, among⟩)
    · exact ⟨Nat.pos_of_ne_zero some, Nat.le_refl _, rfl⟩
    · obtain ⟨wanted, first, last⟩ := ih note among
      exact ⟨wanted, by omega, by omega⟩
  | interrupted some answer rest ih =>
    rintro note (_ | ⟨_, among⟩)
    · exact ⟨Nat.pos_of_ne_zero some, Nat.le_refl _, rfl⟩
    · exact ih note among

/-- Each answer was the source's. -/
theorem answered (fills : source.Fills offset length done s result s' notes) :
    ∀ note ∈ notes, ∃ s₁ s₂, source.readAt note.offset note.length s₁ = (note.answer, s₂) := by
  induction fills with
  | full => exact fun _ among => absurd among List.not_mem_nil
  | ended _ answer _ | failed _ answer =>
    rintro note (_ | ⟨_, ⟨⟩⟩)
    exact ⟨_, _, answer⟩
  | given _ answer _ _ ih | interrupted _ answer _ ih =>
    rintro note (_ | ⟨_, among⟩)
    · exact ⟨_, _, answer⟩
    · exact ih note among

/-- There are no more reads than bytes asked for, interruptions apart. -/
theorem length_le (fills : source.Fills offset length done s result s' notes) :
    notes.length ≤ length + notes.countP (·.isInterrupted) := by
  induction fills with
  | full => exact Nat.zero_le _
  | ended some _ _ | failed some _ =>
    rw [List.length_singleton]
    omega
  | given some answer more rest ih =>
    have bound := source.size_readAt _ _ _ _ _ answer
    rw [List.length_cons, List.countP_cons_of_neg (by simp [ReadNote.isInterrupted])]
    omega
  | interrupted some answer rest ih =>
    rw [List.length_cons, List.countP_cons_of_pos rfl]
    omega

/-- A failure ends the reads, and comes out as it is. -/
theorem of_failure (fills : source.Fills offset length done s result s' notes) :
    ∀ note ∈ notes, ∀ code, note.answer = .error (.os code) →
      result = .error ⟨.os code.number, none⟩ := by
  induction fills with
  | full => exact fun _ among => absurd among List.not_mem_nil
  | ended _ _ _ =>
    rintro note (_ | ⟨_, ⟨⟩⟩) code ⟨⟩
  | failed _ _ =>
    rintro note (_ | ⟨_, ⟨⟩⟩) code ⟨⟩
    rfl
  | given _ _ _ _ ih | interrupted _ _ _ ih =>
    rintro note (_ | ⟨_, among⟩) code met
    · cases met
    · exact ih note among code met

/-- Reads behind the first begin at most where the content ends. -/
theorem offset_le (fills : source.Fills offset length done s result s' notes)
    (gives : source.Gives content) :
    ∀ note ∈ notes, note.offset = offset ∨ note.offset ≤ content.size := by
  induction fills with
  | full => exact fun _ among => absurd among List.not_mem_nil
  | ended _ _ _ | failed _ _ =>
    rintro note (_ | ⟨_, ⟨⟩⟩)
    exact .inl rfl
  | given _ answer more _ ih =>
    have inside := gives.inside answer more
    rintro note (_ | ⟨_, among⟩)
    · exact .inl rfl
    · rcases ih note among with here | before
      · exact .inr (by omega)
      · exact .inr before
  | interrupted _ _ _ ih =>
    rintro note (_ | ⟨_, among⟩)
    · exact .inl rfl
    · exact ih note among

/-- Without a failure the buffer is filled with the bytes of the content, if it reaches that far. -/
theorem result_eq (fills : source.Fills offset length done s result s' notes)
    (gives : source.Gives content)
    (sound : ∀ note ∈ notes, ∀ code, note.answer ≠ .error (.os code)) :
    result = if length = 0 ∨ offset + length ≤ content.size then
      .ok (done ++ slice content offset length) else .error ⟨.endOfFile, none⟩ := by
  induction fills with
  | full => rw [if_pos (.inl rfl), slice_zero, ByteArray.append_empty]
  | @ended offset length _ _ _ _ some answer nothing =>
    have behind := (gives.none_iff answer).mp nothing
    rw [if_neg (by omega)]
  | @given offset length done bytes _ _ _ _ _ some answer more rest ih =>
    have bound := source.size_readAt _ _ _ _ _ answer
    have inside := gives.inside answer more
    -- The bytes are the front of those asked for, and the rest is asked for behind them.
    have cut : bytes ++ slice content (offset + bytes.size) (length - bytes.size) =
        slice content offset length :=
      calc bytes ++ slice content (offset + bytes.size) (length - bytes.size)
        _ = slice content offset bytes.size ++
              slice content (offset + bytes.size) (length - bytes.size) :=
          congrArg (· ++ _) (gives.true_bytes answer)
        _ = slice content offset (bytes.size + (length - bytes.size)) :=
          slice_append_slice content offset _ _
        _ = slice content offset length := by rw [Nat.add_sub_of_le bound]
    have reaches : length - bytes.size = 0 ∨ offset + bytes.size + (length - bytes.size) ≤
        content.size ↔ length = 0 ∨ offset + length ≤ content.size := by omega
    rw [ih fun note among => sound note (List.mem_cons_of_mem _ among), ByteArray.append_assoc, cut]
    simp only [reaches]
  | interrupted _ _ _ ih => exact ih fun note among => sound note (List.mem_cons_of_mem _ among)
  | failed _ _ => exact absurd rfl (sound _ List.mem_cons_self _)

end Fills

/-- An exact read of a source that gives a content, at any offset of 64 bits, ends after at most
one read for each byte asked for, interruptions apart, and no offset leaves the 64 bits on the way.
A read that fails with a code ends it with that very code. If none does, the bytes asked for come
out whole, or the content ends before them and nothing but its end is told. -/
theorem readExactAt_exact (gives : source.Gives content) (small : content.size < offsetBound)
    {offset : Nat} (inRange : offset < offsetBound) (length : Nat) (s : σ) :
    ∃ result s' notes,
      source.readExactAt offset length s = (result, s') ∧
      source.recording.readExactAt offset length (s, []) = (result, s', notes) ∧
      notes.length ≤ length + notes.countP (·.isInterrupted) ∧
      (∀ note ∈ notes, 0 < note.length ∧ offset ≤ note.offset ∧
        note.offset + note.length = offset + length ∧ note.offset < offsetBound ∧
        ∀ bytes, note.answer = .ok bytes →
          bytes.size ≤ note.length ∧ note.offset + bytes.size < offsetBound) ∧
      (∀ note ∈ notes, ∀ code, note.answer = .error (.os code) →
        result = .error ⟨.os code.number, none⟩) ∧
      ((∀ note ∈ notes, ∀ code, note.answer ≠ .error (.os code)) →
        result = if length = 0 ∨ offset + length ≤ content.size then
          .ok (slice content offset length) else .error ⟨.endOfFile, none⟩) := by
  obtain ⟨result, s', notes, plain, recorded, fills⟩ :=
    @readExactFrom_fills σ source offset length .empty s []
  refine ⟨result, s', notes, plain, recorded, fills.length_le, ?_, fills.of_failure, ?_⟩
  · intro note among
    obtain ⟨wanted, first, last⟩ := fills.asks_rest note among
    obtain ⟨s₁, s₂, answer⟩ := fills.answered note among
    have low : note.offset < offsetBound := by
      rcases fills.offset_le gives note among with here | before
      · omega
      · omega
    refine ⟨wanted, first, last, low, fun bytes given => ?_⟩
    rw [given] at answer
    refine ⟨source.size_readAt _ _ _ _ _ answer, ?_⟩
    by_cases nothing : bytes.size = 0
    · omega
    · have := gives.inside answer nothing
      omega
  · intro sound
    rw [fills.result_eq gives sound, ByteArray.empty_append]

/-- Two bytes come after an interruption, and then the read behind them fails. -/
theorem readExactAt_exact_failing :
    let content : ByteArray := ⟨#[1, 2, 3, 4]⟩
    let plan : Schedule := { failing := [(3, .inputOutput)], interrupted := [1], cap := some 2 }
    let source := Source.scheduled "a.zip" content plan
    source.Gives content ∧ content.size < offsetBound ∧ 1 < offsetBound ∧
      (source.readExactAt 1 3 plan.interrupted).1 = .error ⟨.os 5, none⟩ := by
  intro content plan source
  have gives : source.Gives content := scheduled_gives _ _ (by rintro cap ⟨⟩; decide)
  have small : content.size < offsetBound := by decide
  obtain ⟨result, s', notes, plain, recorded, -, -, failed, -⟩ :=
    readExactAt_exact gives small (show 1 < offsetBound by decide) 3 plan.interrupted
  have first : source.readAt 1 3 [1] = (.error .interrupted, []) := rfl
  have second : source.readAt 1 3 [] = (.ok ⟨#[2, 3]⟩, []) := rfl
  have third : source.readAt 3 1 [] = (.error (.os .inputOutput), []) := rfl
  have met : ⟨3, 1, .error (.os .inputOutput)⟩ ∈ notes := by
    rw [readExactAt, readExactFrom_step (by decide), recording_readAt first] at recorded
    dsimp only at recorded
    rw [readExactFrom_step (by decide), recording_readAt second] at recorded
    dsimp only at recorded
    rw [if_neg (by decide)] at recorded
    change source.recording.readExactFrom 3 1 _ _ = _ at recorded
    rw [readExactFrom_step (by decide), recording_readAt third] at recorded
    cases recorded
    exact List.mem_append_right _ List.mem_cons_self
  refine ⟨gives, small, by decide, ?_⟩
  rw [plain]
  exact failed _ met _ rfl

end Source
end ZipArchive
