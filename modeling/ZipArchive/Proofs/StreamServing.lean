import ZipArchive.Archive
import ZipArchive.Proofs.Digesting
import ZipArchive.Proofs.Serving

/-!
# Streams on a source that serves a content

On such a source a stream is never cut short by the source itself: what is wrong with a member is
wrong with its bytes (`MemberStream.collect_error`), and a stored member comes to the bytes of its
window (`MemberStream.collect_stored`).
-/
namespace ZipArchive

variable {σ : Type} {source : Source σ} {content : ByteArray}

theorem View.read_ok_serves (serves : source.Serves content) {v v' : View}
    (inside : v.WellFormed content.size) {length : Nat} {s s' : σ} {bytes : ByteArray}
    (answer : v.read source length s = (.ok bytes, v', s')) :
    bytes = slice content v.pos bytes.size ∧ v' = { v with pos := v.pos + bytes.size } ∧
      v.pos + bytes.size ≤ v.stop ∧ (0 < min length (v.stop - v.pos) → 0 < bytes.size) := by
  have pos_le := inside.pos_le
  have stop_le := inside.stop_le
  rcases View.read_serves serves.holds pos_le stop_le length s with
    ⟨e, s₁, failed, _⟩ | ⟨n, s₁, given, bound, some⟩
  · simp [answer] at failed
  · simp only [answer, Prod.mk.injEq, Except.ok.injEq] at given
    obtain ⟨rfl, rfl, rfl⟩ := given
    rw [size_slice (show v.pos + n ≤ content.size by omega)]
    exact ⟨rfl, rfl, by omega, some⟩

theorem View.read_error_serves (serves : source.Serves content) {v v' : View}
    (inside : v.WellFormed content.size) {length : Nat} {s s' : σ} {e : IoError}
    (answer : v.read source length s = (.error e, v', s')) : e.isInterrupted = true ∧ v' = v := by
  rcases View.read_serves serves.holds inside.pos_le inside.stop_le length s with
    ⟨e₁, s₁, failed, again⟩ | ⟨n, s₁, given, _⟩
  · simp only [answer, Prod.mk.injEq, Except.error.injEq] at failed
    obtain ⟨rfl, rfl, rfl⟩ := failed
    exact ⟨again, rfl⟩
  · simp [answer] at given

theorem View.read_wellFormed (serves : source.Serves content) {v : View}
    (inside : v.WellFormed content.size) (length : Nat) (s : σ) :
    (v.read source length s).2.1.WellFormed content.size := by
  rcases answer : v.read source length s with ⟨e | bytes, v', s'⟩
  · obtain ⟨_, rfl⟩ := View.read_error_serves serves inside answer
    exact inside
  · obtain ⟨_, rfl, bound, _⟩ := View.read_ok_serves serves inside answer
    have start_le := inside.start_le
    exact ⟨by dsimp only; omega, bound, inside.stop_le⟩

/-! ## Decodings -/

namespace Decoding

variable {δ : Type} {decoder : Decoder δ}

/-- What is answered from the input does not move the view, and fails only for what the input is. -/
theorem digest_answered {d d' : Decoding δ} {length : Nat} {ended : Bool}
    {result : Except IoError ByteArray}
    (answered : d.digest decoder length ended = .inl (result, d')) :
    d'.view = d.view ∧
      ∀ e, result = .error e → ∃ error, e = ⟨.undecodable error, none⟩ := by
  unfold digest at answered
  split at answered
  · cases answered
    exact ⟨rfl, fun e failed => by cases failed; exact ⟨_, rfl⟩⟩
  · by_cases delivered : d.delivered < d.output.size
    · rw [if_pos delivered] at answered
      cases answered
      exact ⟨rfl, fun e failed => by cases failed⟩
    · rw [if_neg delivered] at answered
      have kept := (produce_frame decoder d length).1
      cases halted : (d.produce decoder length).halt with
      | failed error =>
        simp only [halted] at answered
        cases answered
        exact ⟨kept, fun e failed => by cases failed; exact ⟨_, rfl⟩⟩
      | starved =>
        simp only [halted] at answered
        split at answered
        · cases answered
          exact ⟨kept, fun e failed => by cases failed⟩
        · split at answered
          · cases answered
            exact ⟨kept, fun e failed => by cases failed; exact ⟨_, rfl⟩⟩
          · cases answered
      | _ =>
        simp only [halted] at answered
        cases answered
        exact ⟨kept, fun e failed => by cases failed⟩

theorem fill_serves (serves : source.Serves content) (d : Decoding δ)
    (inside : d.view.WellFormed content.size) (s : σ) :
    (d.fill source s).2.1.view.WellFormed content.size ∧
      ∀ e, (d.fill source s).1 = .error e → e.isInterrupted = true := by
  unfold fill
  by_cases more : d.consumed < d.input.size
  · simp only [more, if_true]
    exact ⟨inside, fun e failed => by cases failed⟩
  · simp only [more, if_false]
    have kept := View.read_wellFormed serves inside blockSize s
    rcases answer : d.view.read source blockSize s with ⟨e | block, view, s'⟩
    · rw [answer] at kept
      refine ⟨kept, ?_⟩
      intro e' failed
      cases failed
      exact (View.read_error_serves serves inside answer).1
    · rw [answer] at kept
      exact ⟨kept, fun e failed => by cases failed⟩

/-- A read of a decoding stays in its window, and fails for an interruption or for what its bytes
are. -/
theorem read_serves (serves : source.Serves content) (d : Decoding δ) (length : Nat) (s : σ)
    (inside : d.view.WellFormed content.size) :
    (d.read decoder source length s).2.1.view.WellFormed content.size ∧
      ∀ e, (d.read decoder source length s).1 = .error e →
        e.isInterrupted = true ∨ e.file = none := by
  induction d, s using read_induction decoder source length with
  | step d s ih =>
    by_cases nothing : length = 0 ∨ d.isDone
    · rw [read_nothing nothing]
      exact ⟨inside, fun e failed => by cases failed⟩
    rw [read_eq nothing]
    obtain ⟨kept, interrupted⟩ := fill_serves serves d inside s
    rcases answer : d.fill source s with ⟨e | ended, filled, s'⟩
    · rw [answer] at kept interrupted
      refine ⟨kept, ?_⟩
      intro e' failed
      cases failed
      exact .inl (interrupted e rfl)
    · rw [answer] at kept
      dsimp only
      cases digested : filled.digest decoder length ended with
      | inl answered =>
        obtain ⟨view, undecodable⟩ := digest_answered digested
        refine ⟨view ▸ kept, fun e failed => .inr ?_⟩
        obtain ⟨error, rfl⟩ := undecodable e failed
        rfl
      | inr d' =>
        have view := (digest_more digested).2.1
        exact ih ended filled s' d' answer digested (view ▸ kept)

end Decoding

/-! ## Member streams -/

namespace MemberStream

variable [Decoders]

/-- The view that a stream reads from. -/
def view : MemberStream → View
  | .stored view => view
  | .deflate decoding => decoding.view
  | .bzip2 decoding => decoding.view

theorem read_serves (serves : source.Serves content) (stream : MemberStream) (length : Nat) (s : σ)
    (inside : stream.view.WellFormed content.size) :
    (stream.read source length s).2.1.view.WellFormed content.size ∧
      ∀ e, (stream.read source length s).1 = .error e →
        e.isInterrupted = true ∨ e.file = none := by
  cases stream with
  | stored view =>
    refine ⟨View.read_wellFormed serves inside length s, ?_⟩
    intro e failed
    exact .inl (View.read_error_serves serves inside
      (show view.read source length s = (.error e, _, _) from Prod.ext failed rfl)).1
  | deflate decoding => exact decoding.read_serves serves length s inside
  | bzip2 decoding => exact decoding.read_serves serves length s inside

/-- What keeps a member from being collected is not the source's. -/
theorem collect_error (serves : source.Serves content) (ask : Nat → Nat) (there : ByteArray)
    (stream : MemberStream) (s : σ) (inside : stream.view.WellFormed content.size) (e : IoError)
    (failed : (stream.collect source ask there s).1.1 = .error e) : e.file = none := by
  fun_induction collect source ask there stream s with
  | case1 => cases failed
  | case2 => cases failed
  | case3 there stream s wanted bytes stream' s' answer some ih =>
    have kept := (read_serves serves stream (ask there.size) s inside).1
    rw [answer] at kept
    exact ih kept failed
  | case4 there stream s wanted e' stream' s' answer again ih =>
    have kept := (read_serves serves stream (ask there.size) s inside).1
    rw [answer] at kept
    exact ih kept failed
  | case5 there stream s wanted e' stream' s' answer final =>
    have cause := (read_serves serves stream (ask there.size) s inside).2
    rw [answer] at cause
    cases failed
    exact (cause e rfl).resolve_left final

theorem read_stored {v : View} {length : Nat} {s s' : σ} {result : Except IoError ByteArray}
    {stream : MemberStream}
    (answer : (MemberStream.stored v).read source length s = (result, stream, s')) :
    ∃ v', stream = .stored v' ∧ v.read source length s = (result, v', s') := by
  rcases given : v.read source length s with ⟨result', v', s₁⟩
  simp only [read, given, Prod.mk.injEq] at answer
  obtain ⟨rfl, rfl, rfl⟩ := answer
  exact ⟨v', rfl, rfl⟩

/-- A stored member comes to the bytes of its window. -/
theorem collect_stored (serves : source.Serves content) {ask : Nat → Nat}
    (asks : ∀ there, 0 < ask there) (there : ByteArray) (v : View) (s : σ)
    (inside : v.WellFormed content.size) :
    ((MemberStream.stored v).collect source ask there s).1 =
      (.ok (), there ++ slice content v.pos (v.stop - v.pos)) := by
  generalize stored : MemberStream.stored v = stream
  fun_induction collect source ask there stream s generalizing v with
  | case1 there stream s nothing => exact absurd nothing (Nat.ne_of_gt (asks _))
  | case2 there stream s wanted bytes stream' s' answer none =>
    subst stored
    obtain ⟨v', rfl, given⟩ := read_stored answer
    obtain ⟨_, _, bound, some⟩ := View.read_ok_serves serves inside given
    have ended : v.stop - v.pos = 0 := by
      have := asks there.size
      omega
    rw [ended, slice_zero, ByteArray.append_empty]
  | case3 there stream s wanted bytes stream' s' answer some ih =>
    subst stored
    obtain ⟨v', rfl, given⟩ := read_stored answer
    have kept := View.read_wellFormed serves inside (ask there.size) s
    rw [given] at kept
    obtain ⟨here, moved, bound, _⟩ := View.read_ok_serves serves inside given
    have parts := slice_append_slice content v.pos bytes.size (v.stop - (v.pos + bytes.size))
    have lengths : bytes.size + (v.stop - (v.pos + bytes.size)) = v.stop - v.pos := by omega
    rw [← here, lengths] at parts
    rw [ih v' kept rfl, moved, ByteArray.append_assoc]
    dsimp only
    rw [parts]
  | case4 there stream s wanted e stream' s' answer again ih =>
    subst stored
    obtain ⟨v', rfl, given⟩ := read_stored answer
    obtain ⟨_, rfl⟩ := View.read_error_serves serves inside given
    exact ih v' inside rfl
  | case5 there stream s wanted e stream' s' answer final =>
    subst stored
    obtain ⟨v', rfl, given⟩ := read_stored answer
    exact absurd (View.read_error_serves serves inside given).1 final

end MemberStream

end ZipArchive
