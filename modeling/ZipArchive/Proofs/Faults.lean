import ZipArchive.Proofs.Digesting
import ZipArchive.Proofs.Draining
import ZipArchive.Proofs.Serving

/-!
# Reads on a failing source

A failing source is a sound one of which some offsets are at fault: a read that starts there fails
with a code of the operating system. Each way of reading is run on both sources side by side
(`Meets`): either no failing read is performed and both runs do the same, or the failing read is the
last one and its code is what comes of it.
-/
namespace ZipArchive

open OsError (FinalCode)

variable {σ : Type} {source : Source σ} {faults : Nat → Option FinalCode}

/-- A source of which some offsets are at fault, each with a code. The codes of the failing reads
that have been performed are kept beside the state. A fault is not an interruption. -/
def Source.failing (source : Source σ) (faults : Nat → Option FinalCode) :
    Source (σ × List FinalCode) where
  label := source.label
  size := source.size
  readAt offset length t :=
    match faults offset with
    | some code => (.error (.os code), (t.1, t.2 ++ [code]))
    | none => ((source.readAt offset length t.1).1, ((source.readAt offset length t.1).2, t.2))
  patience t := source.patience t.1
  size_readAt := by
    intro offset length t bytes t' answer
    split at answer
    · simp at answer
    · simp only [Prod.mk.injEq] at answer
      exact source.size_readAt offset length t.1 bytes _ (Prod.ext answer.1 rfl)
  patience_readAt := by
    intro offset length t t' answer
    split at answer
    · simp at answer
    · simp only [Prod.mk.injEq] at answer
      rw [← answer.2]
      exact source.patience_readAt offset length t.1 _ (Prod.ext answer.1 rfl)

@[simp] theorem Source.failing_size : (source.failing faults).size = source.size := rfl

/-- How a read on a failing source compares with the same read on the sound one: it performs no
failing read and does the same, or ends with the one failing read that it performs. -/
def Meets {ρ κ : Type} (hit : FinalCode → ρ → Prop) (codes : List FinalCode) (sound : ρ × κ × σ)
    (tried : ρ × κ × σ × List FinalCode) : Prop :=
  (sound = (tried.1, tried.2.1, tried.2.2.1) ∧ tried.2.2.2 = codes) ∨
    ∃ code, hit code tried.1 ∧ tried.2.2.2 = codes ++ [code]

/-- A read failed with a code, on the file of the given name. -/
def FailedWith {α : Type} (file : Option String) (code : FinalCode) (result : Except IoError α) :
    Prop :=
  result = .error ⟨.os code.number, file⟩

theorem Meets.map {ρ κ ι : Type} {hit : FinalCode → ρ → Prop} {codes : List FinalCode}
    {sound : ρ × κ × σ} {tried : ρ × κ × σ × List FinalCode}
    (meets : Meets hit codes sound tried) (f : κ → ι) :
    Meets hit codes (sound.1, f sound.2.1, sound.2.2) (tried.1, f tried.2.1, tried.2.2) := by
  rcases meets with ⟨rfl, codes⟩ | harmed
  · exact .inl ⟨rfl, codes⟩
  · exact .inr harmed

/-- A read that succeeds on the failing source has performed no failing read. -/
theorem Meets.of_ok {α κ : Type} {file : Option String} {codes : List FinalCode}
    {sound : Except IoError α × κ × σ} {tried : Except IoError α × κ × σ × List FinalCode} {a : α}
    {k : κ}
    {t : σ × List FinalCode} (meets : Meets (FailedWith file) codes sound tried)
    (answer : tried = (.ok a, k, t)) : sound = (.ok a, k, t.1) ∧ t.2 = codes := by
  subst answer
  rcases meets with same | ⟨code, failed, _⟩
  · exact same
  · cases failed

theorem Meets.of_error {α κ : Type} {file : Option String} {codes : List FinalCode}
    {sound : Except IoError α × κ × σ} {tried : Except IoError α × κ × σ × List FinalCode}
    {e : IoError}
    {k : κ} {t : σ × List FinalCode} (meets : Meets (FailedWith file) codes sound tried)
    (answer : tried = (.error e, k, t)) :
    (sound = (.error e, k, t.1) ∧ t.2 = codes) ∨
      ∃ code, e = ⟨.os code.number, file⟩ ∧ t.2 = codes ++ [code] := by
  subst answer
  rcases meets with same | ⟨code, failed, codes⟩
  · exact .inl same
  · cases failed
    exact .inr ⟨code, rfl, codes⟩

theorem Source.readAt_failing {offset length : Nat} {t t' : σ × List FinalCode}
    {result : Except ReadFailure ByteArray}
    (answer : (source.failing faults).readAt offset length t = (result, t')) :
    (source.readAt offset length t.1 = (result, t'.1) ∧ t'.2 = t.2) ∨
      ∃ code, result = .error (.os code) ∧ t'.2 = t.2 ++ [code] := by
  simp only [failing] at answer
  cases fault : faults offset with
  | some code =>
    simp only [fault, Prod.mk.injEq] at answer
    obtain ⟨rfl, rfl⟩ := answer
    exact .inr ⟨code, rfl, rfl⟩
  | none =>
    simp only [fault, Prod.mk.injEq] at answer
    obtain ⟨rfl, rfl⟩ := answer
    exact .inl ⟨rfl, rfl⟩

/-! ## Exact reads -/

theorem Source.readExactFrom_zero (offset : Nat) (done : ByteArray) (s : σ) :
    source.readExactFrom offset 0 done s = (.ok done, s) := by
  rw [readExactFrom, if_pos rfl]

theorem Source.readExactFrom_step {offset length : Nat} (some : length ≠ 0) (done : ByteArray)
    (s : σ) :
    source.readExactFrom offset length done s =
      match source.readAt offset length s with
      | (.ok bytes, s') =>
        if bytes.size = 0 then (.error ⟨.endOfFile, none⟩, s')
        else source.readExactFrom (offset + bytes.size) (length - bytes.size) (done ++ bytes) s'
      | (.error .interrupted, s') => source.readExactFrom offset length done s'
      | (.error failure, s') => (.error failure.toIoError, s') := by
  rw [readExactFrom, if_neg some]
  split
  · rename_i answer
    rw [answer]
  · rename_i answer
    simp only [answer]
  · rename_i failure s' other answer
    rw [answer]
    cases failure with
    | interrupted => exact absurd rfl other
    | os code => rfl

theorem Source.readExactFrom_failing (offset length : Nat) (done : ByteArray)
    (t : σ × List FinalCode) :
    let sound := source.readExactFrom offset length done t.1
    let tried := (source.failing faults).readExactFrom offset length done t
    (sound = (tried.1, tried.2.1) ∧ tried.2.2 = t.2) ∨
      ∃ code, FailedWith none code tried.1 ∧ tried.2.2 = t.2 ++ [code] := by
  dsimp only
  fun_induction Source.readExactFrom (source.failing faults) offset length done t with
  | case1 offset done t => exact .inl ⟨readExactFrom_zero offset done t.1, rfl⟩
  | case2 offset length done t some bytes t' answer none =>
    rcases readAt_failing answer with ⟨same, codes⟩ | ⟨code, failed, _⟩
    · rw [readExactFrom_step some, same]
      exact .inl ⟨by simp only [none, if_true], codes⟩
    · cases failed
  | case3 offset length done t some bytes t' answer more ih =>
    rcases readAt_failing answer with ⟨same, codes⟩ | ⟨code, failed, _⟩
    · rw [readExactFrom_step some, same, ← codes]
      simpa only [more, if_false] using ih
    · cases failed
  | case4 offset length done t some t' answer _ ih =>
    rcases readAt_failing answer with ⟨same, codes⟩ | ⟨code, failed, _⟩
    · rw [readExactFrom_step some, same, ← codes]
      exact ih
    · cases failed
  | case5 offset length done t some failure t' other answer =>
    rcases readAt_failing answer with ⟨same, codes⟩ | ⟨code, failed, codes⟩
    · cases failure with
      | interrupted => exact absurd rfl other
      | os code =>
        rw [readExactFrom_step some, same]
        exact .inl ⟨rfl, codes⟩
    · cases failed
      exact .inr ⟨code, rfl, codes⟩

/-! ## Windows -/

/-- Moving the cursor asks nothing of the source. -/
theorem View.advance_failing (v : View) (offset : Nat) (result : Except IoError ByteArray)
    (t : σ × List FinalCode) :
    v.advance source offset (result, t.1) =
      ((v.advance (source.failing faults) offset (result, t)).1,
        (v.advance (source.failing faults) offset (result, t)).2.1, t.1) ∧
      (v.advance (source.failing faults) offset (result, t)).2.2 = t := by
  cases result with
  | error e => exact ⟨rfl, rfl⟩
  | ok bytes =>
    unfold advance
    dsimp only
    split
    · exact ⟨rfl, rfl⟩
    · exact ⟨rfl, rfl⟩

theorem View.read_failing (v : View) (length : Nat) (t : σ × List FinalCode) :
    Meets (FailedWith (some source.label)) t.2 (v.read source length t.1)
      (v.read (source.failing faults) length t) := by
  have unread : ∀ (result : Except IoError ByteArray) (t' : σ × List FinalCode), t'.2 = t.2 →
      Meets (FailedWith (some source.label)) t.2 (v.advance source v.pos (result, t'.1))
        (v.advance (source.failing faults) v.pos (result, t')) := by
    intro result t' codes
    obtain ⟨same, kept⟩ := @advance_failing σ source faults v v.pos result t'
    refine .inl ⟨?_, ?_⟩
    · rw [kept, same]
    · rw [kept, codes]
  unfold read readAt
  cases subOffset? v.stop v.pos with
  | none => exact unread _ t rfl
  | some room =>
    dsimp only
    by_cases nothing : min length room = 0
    · simp only [nothing, if_true]
      exact unread _ t rfl
    · simp only [nothing, if_false]
      rcases answer : (source.failing faults).readAt v.pos (min length room) t with ⟨result, t'⟩
      rcases Source.readAt_failing answer with ⟨same, codes⟩ | ⟨code, failed, codes⟩
      · rw [same]
        cases result with
        | ok bytes => exact unread _ t' codes
        | error failure => exact unread _ t' codes
      · subst failed
        exact .inr ⟨code, rfl, codes⟩

namespace Buffered

theorem readOnce_failing (b : Buffered) (length : Nat) (t : σ × List FinalCode) :
    Meets (FailedWith (some source.label)) t.2 (b.readOnce source length t.1)
      (b.readOnce (source.failing faults) length t) := by
  have seen := fun n => @View.read_failing σ source faults b.view n t
  unfold readOnce
  by_cases unread : b.used < b.block.size
  · simp only [unread, if_true]
    exact .inl ⟨rfl, rfl⟩
  by_cases direct : b.capacity ≤ length
  · simp only [unread, direct, if_true, if_false]
    rcases answer : b.view.read (source.failing faults) length t with ⟨e | bytes, view, t'⟩
    · rcases (seen length).of_error answer with ⟨same, codes⟩ | ⟨code, rfl, codes⟩
      · rw [same]
        exact .inl ⟨rfl, codes⟩
      · exact .inr ⟨code, rfl, codes⟩
    · obtain ⟨same, codes⟩ := (seen length).of_ok answer
      rw [same]
      exact .inl ⟨rfl, codes⟩
  · simp only [unread, direct, if_false]
    rcases answer : b.view.read (source.failing faults) b.capacity t with ⟨e | block, view, t'⟩
    · rcases (seen b.capacity).of_error answer with ⟨same, codes⟩ | ⟨code, rfl, codes⟩
      · rw [same]
        exact .inl ⟨rfl, codes⟩
      · exact .inr ⟨code, rfl, codes⟩
    · obtain ⟨same, codes⟩ := (seen b.capacity).of_ok answer
      rw [same]
      exact .inl ⟨rfl, codes⟩

theorem takeFrom_zero (b : Buffered) (done : ByteArray) (s : σ) :
    b.takeFrom source 0 done s = (.ok done, b, s) := by
  rw [takeFrom, if_pos rfl]

theorem takeFrom_step (b : Buffered) {length : Nat} (some : length ≠ 0) (done : ByteArray) (s : σ) :
    b.takeFrom source length done s =
      match b.readOnce source length s with
      | (.ok bytes, b', s') =>
        if bytes.size = 0 then (.error ⟨.bufferNotFilled, none⟩, b', s')
        else b'.takeFrom source (length - bytes.size) (done ++ bytes) s'
      | (.error e, b', s') =>
        if e.isInterrupted then b'.takeFrom source length done s' else (.error e, b', s') := by
  rw [takeFrom, if_neg some]
  split
  · rename_i answer
    simp only [answer]
  · rename_i answer
    simp only [answer, dite_eq_ite]

theorem takeFrom_failing (b : Buffered) (length : Nat) (done : ByteArray) (t : σ × List FinalCode) :
    Meets (FailedWith (some source.label)) t.2 (b.takeFrom source length done t.1)
      (b.takeFrom (source.failing faults) length done t) := by
  fun_induction takeFrom (source.failing faults) b length done t with
  | case1 b done t => exact .inl ⟨takeFrom_zero b done t.1, rfl⟩
  | case2 b length done t some bytes b' t' answer none =>
    obtain ⟨same, codes⟩ := (readOnce_failing b length t).of_ok answer
    rw [takeFrom_step b some, same]
    exact .inl ⟨by simp only [none, if_true], codes⟩
  | case3 b length done t some bytes b' t' answer more _ ih =>
    obtain ⟨same, codes⟩ := (readOnce_failing b length t).of_ok answer
    rw [takeFrom_step b some, same, ← codes]
    simpa only [more, if_false] using ih
  | case4 b length done t some e b' t' answer again _ ih =>
    rcases (readOnce_failing b length t).of_error answer with ⟨same, codes⟩ | ⟨code, rfl, _⟩
    · rw [takeFrom_step b some, same, ← codes]
      simpa only [again, if_true] using ih
    · cases again
  | case5 b length done t some e b' t' answer final =>
    rcases (readOnce_failing b length t).of_error answer with ⟨same, codes⟩ | ⟨code, rfl, codes⟩
    · rw [takeFrom_step b some, same]
      exact .inl ⟨by simp only [final, if_false, Bool.false_eq_true], codes⟩
    · exact .inr ⟨code, rfl, codes⟩

theorem skip_zero (b : Buffered) (s : σ) : b.skip source 0 s = (.ok (), b, s) := by
  rw [skip, if_pos rfl]

theorem skip_step (b : Buffered) {length : Nat} (some : length ≠ 0) (s : σ) :
    b.skip source length s =
      match b.readOnce source (min length blockSize) s with
      | (.ok bytes, b', s') =>
        if bytes.size = 0 then (.error ⟨.endOfFile, none⟩, b', s')
        else b'.skip source (length - bytes.size) s'
      | (.error e, b', s') =>
        if e.isInterrupted then b'.skip source length s' else (.error e, b', s') := by
  rw [skip, if_neg some]
  split
  · rename_i answer
    simp only [answer]
  · rename_i answer
    simp only [answer, dite_eq_ite]

theorem skip_failing (b : Buffered) (length : Nat) (t : σ × List FinalCode) :
    Meets (FailedWith (some source.label)) t.2 (b.skip source length t.1)
      (b.skip (source.failing faults) length t) := by
  fun_induction skip (source.failing faults) b length t with
  | case1 b t => exact .inl ⟨skip_zero b t.1, rfl⟩
  | case2 b length t some bytes b' t' answer none =>
    obtain ⟨same, codes⟩ := (readOnce_failing b (min length blockSize) t).of_ok answer
    rw [skip_step b some, same]
    exact .inl ⟨by simp only [none, if_true], codes⟩
  | case3 b length t some bytes b' t' answer more _ ih =>
    obtain ⟨same, codes⟩ := (readOnce_failing b (min length blockSize) t).of_ok answer
    rw [skip_step b some, same, ← codes]
    simpa only [more, if_false] using ih
  | case4 b length t some e b' t' answer again _ ih =>
    rcases (readOnce_failing b (min length blockSize) t).of_error answer with
      ⟨same, codes⟩ | ⟨code, rfl, _⟩
    · rw [skip_step b some, same, ← codes]
      simpa only [again, if_true] using ih
    · cases again
  | case5 b length t some e b' t' answer final =>
    rcases (readOnce_failing b (min length blockSize) t).of_error answer with
      ⟨same, codes⟩ | ⟨code, rfl, codes⟩
    · rw [skip_step b some, same]
      exact .inl ⟨by simp only [final, if_false, Bool.false_eq_true], codes⟩
    · exact .inr ⟨code, rfl, codes⟩

end Buffered

/-- Reading a record failed with a code, in the archive of the given name. -/
def ReadFailedWith {α : Type} (label : String) (code : FinalCode) (result : Except ZipError α) :
    Prop :=
  result = .error (.io ⟨.os code.number, some label⟩)

theorem Layout.readWindow_failing {α : Type} (layout : Layout α) (record : String) (b : Buffered)
    (t : σ × List FinalCode) :
    Meets (ReadFailedWith source.label) t.2 (layout.readWindow source record b t.1)
      (layout.readWindow (source.failing faults) record b t) := by
  unfold readWindow
  induction layout generalizing b t with
  | done value => exact .inl ⟨rfl, rfl⟩
  | refuse error => exact .inl ⟨rfl, rfl⟩
  | bytes length next ih =>
    unfold run Buffered.reader Buffered.take
    dsimp only
    have read := @Buffered.takeFrom_failing σ source faults b length .empty t
    rcases answer : b.takeFrom (source.failing faults) length .empty t with ⟨e | bytes, b', t'⟩
    · rcases read.of_error answer with ⟨same, codes⟩ | ⟨code, rfl, codes⟩
      · rw [same]
        exact .inl ⟨rfl, codes⟩
      · exact .inr ⟨code, rfl, codes⟩
    · obtain ⟨same, codes⟩ := read.of_ok answer
      rw [same, ← codes]
      exact ih bytes.data.toList b' t'
  | skip length next ih =>
    unfold run Buffered.reader
    dsimp only
    have read := @Buffered.skip_failing σ source faults b length t
    rcases answer : b.skip (source.failing faults) length t with ⟨e | _, b', t'⟩
    · rcases read.of_error answer with ⟨same, codes⟩ | ⟨code, rfl, codes⟩
      · rw [same]
        exact .inl ⟨rfl, codes⟩
      · exact .inr ⟨code, rfl, codes⟩
    · obtain ⟨same, codes⟩ := read.of_ok answer
      rw [same, ← codes]
      exact ih b' t'

/-! ## Streams -/

namespace Decoding

variable {δ : Type} {decoder : Decoder δ}

theorem fill_failing (d : Decoding δ) (t : σ × List FinalCode) :
    Meets (FailedWith (some source.label)) t.2 (d.fill source t.1)
      (d.fill (source.failing faults) t) := by
  unfold fill
  by_cases more : d.consumed < d.input.size
  · simp only [more, if_true]
    exact .inl ⟨rfl, rfl⟩
  · simp only [more, if_false]
    have read := @View.read_failing σ source faults d.view blockSize t
    rcases answer : d.view.read (source.failing faults) blockSize t with ⟨e | block, view, t'⟩
    · rcases read.of_error answer with ⟨same, codes⟩ | ⟨code, rfl, codes⟩
      · rw [same]
        exact .inl ⟨rfl, codes⟩
      · exact .inr ⟨code, rfl, codes⟩
    · obtain ⟨same, codes⟩ := read.of_ok answer
      rw [same]
      exact .inl ⟨rfl, codes⟩

theorem read_failing (d : Decoding δ) (length : Nat) (t : σ × List FinalCode) :
    Meets (FailedWith (some source.label)) t.2 (d.read decoder source length t.1)
      (d.read decoder (source.failing faults) length t) := by
  induction d, t using read_induction decoder (source.failing faults) length with
  | step d t ih =>
    by_cases nothing : length = 0 ∨ d.isDone
    · rw [read_nothing nothing, read_nothing nothing]
      exact .inl ⟨rfl, rfl⟩
    rw [read_eq nothing, read_eq nothing]
    have fetched := @fill_failing σ source faults δ d t
    rcases answer : d.fill (source.failing faults) t with ⟨e | ended, filled, t'⟩
    · rcases fetched.of_error answer with ⟨same, codes⟩ | ⟨code, rfl, codes⟩
      · rw [same]
        exact .inl ⟨rfl, codes⟩
      · exact .inr ⟨code, rfl, codes⟩
    · obtain ⟨same, codes⟩ := fetched.of_ok answer
      rw [same]
      dsimp only
      cases digested : filled.digest decoder length ended with
      | inl answered => exact .inl ⟨rfl, codes⟩
      | inr d' =>
        rw [← codes]
        exact ih ended filled t' d' answer digested

end Decoding

variable [Decoders]

namespace MemberStream

theorem read_failing (stream : MemberStream) (length : Nat) (t : σ × List FinalCode) :
    Meets (FailedWith (some source.label)) t.2 (stream.read source length t.1)
      (stream.read (source.failing faults) length t) := by
  cases stream with
  | stored view => exact (View.read_failing view length t).map MemberStream.stored
  | deflate decoding => exact (decoding.read_failing length t).map MemberStream.deflate
  | bzip2 decoding => exact (decoding.read_failing length t).map MemberStream.bzip2

/-- Collecting stops at a fault, with the bytes read before it. -/
theorem collect_failing (ask : Nat → Nat) (there : ByteArray) (stream : MemberStream)
    (t : σ × List FinalCode) :
    Meets (fun code result => FailedWith (some source.label) code result.1) t.2
      (stream.collect source ask there t.1)
      (stream.collect (source.failing faults) ask there t) := by
  fun_induction collect (source.failing faults) ask there stream t with
  | case1 there stream t nothing => exact .inl ⟨collect_nothing nothing stream t.1, rfl⟩
  | case2 there stream t wanted bytes stream' t' answer none =>
    obtain ⟨same, codes⟩ := (stream.read_failing (ask there.size) t).of_ok answer
    rw [collect_step wanted, same]
    exact .inl ⟨by simp only [none, if_true], codes⟩
  | case3 there stream t wanted bytes stream' t' answer some ih =>
    obtain ⟨same, codes⟩ := (stream.read_failing (ask there.size) t).of_ok answer
    rw [collect_step wanted, same, ← codes]
    simpa only [some, if_false] using ih
  | case4 there stream t wanted e stream' t' answer again ih =>
    rcases (stream.read_failing (ask there.size) t).of_error answer with
      ⟨same, codes⟩ | ⟨code, rfl, _⟩
    · rw [collect_step wanted, same, ← codes]
      simpa only [again, if_true] using ih
    · cases again
  | case5 there stream t wanted e stream' t' answer final =>
    rcases (stream.read_failing (ask there.size) t).of_error answer with
      ⟨same, codes⟩ | ⟨code, rfl, codes⟩
    · rw [collect_step wanted, same]
      exact .inl ⟨by simp only [final, if_false, Bool.false_eq_true], codes⟩
    · exact .inr ⟨code, rfl, codes⟩

end MemberStream

end ZipArchive
