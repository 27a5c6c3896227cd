import ZipArchive.Proofs.Parsing
import ZipArchive.Proofs.Span
import ZipArchive.Source.Content

/-!
# Sources that serve a content

A source serves a content when each read within it gives true bytes, however few at a time, or is
interrupted. What is read from such a source depends on the content alone: an exact read gives the
bytes asked for (`readExactFrom_serves`), and a record read through a block is the record parsed from
the bytes of its window (`readWindow_serves`). Windows only need offsets to be numbers of 64 bits
(`Source.Holds`).
-/
namespace ZipArchive

variable {σ : Type} {source : Source σ} {content : ByteArray}

/-- Reads within the content give its bytes, at least one where there is one to give, or are
interrupted. -/
structure Source.Serves (source : Source σ) (content : ByteArray) : Prop where
  size_eq : source.size = content.size
  size_lt : content.size < fileOffsetLimit
  readAt : ∀ offset length s, offset + length ≤ content.size →
    (source.readAt offset length s).1 = .error .interrupted ∨
      ∃ n ≤ length, (0 < length → 0 < n) ∧
        (source.readAt offset length s).1 = .ok (slice content offset n)

/-- The reads are those of a source that serves the content, which may be as large as an offset can
tell. -/
structure Source.Holds (source : Source σ) (content : ByteArray) : Prop where
  size_eq : source.size = content.size
  size_lt : content.size < offsetBound
  readAt : ∀ offset length s, offset + length ≤ content.size →
    (source.readAt offset length s).1 = .error .interrupted ∨
      ∃ n ≤ length, (0 < length → 0 < n) ∧
        (source.readAt offset length s).1 = .ok (slice content offset n)

theorem Source.Serves.holds (serves : source.Serves content) : source.Holds content where
  size_eq := serves.size_eq
  size_lt := Nat.lt_trans serves.size_lt (by decide)
  readAt := serves.readAt

theorem Source.ofContent_serves (label : String) {content : ByteArray}
    (small : content.size < fileOffsetLimit) : (Source.ofContent label content).Serves content where
  size_eq := rfl
  size_lt := small
  readAt _ length _ _ := .inr ⟨length, Nat.le_refl _, id, rfl⟩

/-- A capped and interrupted source serves its content, as long as no read fails and some byte
comes with each read. -/
theorem Source.scheduled_serves (label : String) {content : ByteArray} {plan : Schedule}
    (small : content.size < fileOffsetLimit) (sound : plan.failing = [])
    (true_size : plan.size = none) (some : ∀ cap, plan.cap = some cap → 0 < cap) :
    (Source.scheduled label content plan).Serves content where
  size_eq := by simp [Source.scheduled, true_size]
  size_lt := small
  readAt := by
    intro offset length waiting inside
    have capped := plan.limit_le length
    have given : 0 < length → 0 < plan.limit length := by
      unfold Schedule.limit
      split
      · have := some _ ‹_›
        omega
      · exact id
    simp only [Source.scheduled, Schedule.readAt, sound, List.lookup_nil]
    by_cases waits : offset ∈ waiting
    · exact .inl (by rw [if_pos waits])
    · have low : ¬ (plan.isFile = true ∧ fileOffsetLimit ≤ offset + plan.limit length) := by omega
      exact .inr ⟨plan.limit length, capped, given, by rw [if_neg waits, if_neg low]⟩

/-! ## Exact reads -/

theorem Source.readExactFrom_serves (serves : source.Serves content) {offset length : Nat}
    (inside : offset + length ≤ content.size) (done : ByteArray) (s : σ) :
    (source.readExactFrom offset length done s).1 = .ok (done ++ slice content offset length) := by
  fun_induction Source.readExactFrom source offset length done s with
  | case1 offset done s => simp [slice]
  | case2 offset length done s some bytes s' answer none =>
    rcases serves.readAt offset length s inside with failed | ⟨n, bound, more, given⟩
    · simp [answer] at failed
    · simp only [answer, Except.ok.injEq] at given
      rw [given, size_slice (by omega)] at none
      omega
  | case3 offset length done s some bytes s' answer _ ih =>
    rcases serves.readAt offset length s inside with failed | ⟨n, bound, more, given⟩
    · simp [answer] at failed
    · simp only [answer, Except.ok.injEq] at given
      have size : bytes.size = n := by rw [given, size_slice (by omega)]
      rw [ih (by omega), given, ByteArray.append_assoc, size_slice (by omega), slice_append_slice]
      congr 3
      omega
  | case4 offset length done s some s' answer _ ih => exact ih inside
  | case5 offset length done s some failure s' other answer =>
    rcases serves.readAt offset length s inside with failed | ⟨n, bound, more, given⟩
    · simp only [answer, Except.error.injEq] at failed
      exact absurd failed other
    · simp [answer] at given

theorem Source.readExactAt_serves (serves : source.Serves content) {offset length : Nat}
    (inside : offset + length ≤ content.size) (s : σ) :
    (source.readExactAt offset length s).1 = .ok (slice content offset length) := by
  rw [Source.readExactAt, readExactFrom_serves serves inside, ByteArray.empty_append]

/-! ## Windows -/

theorem View.advance_inside (v : View) (offset : Nat) (bytes : ByteArray) (s : σ)
    (inside : offset + bytes.size < offsetBound) :
    v.advance source offset (.ok bytes, s) = (.ok bytes, { v with pos := offset + bytes.size }, s) := by
  simp [advance, addOffset?, inside]

/-- One read of a view gives the bytes at the cursor, or is interrupted and leaves the view alone. -/
theorem View.read_serves (holds : source.Holds content) {v : View} (pos_le : v.pos ≤ v.stop)
    (stop_le : v.stop ≤ content.size) (length : Nat) (s : σ) :
    (∃ e s', v.read source length s = (.error e, v, s') ∧ e.isInterrupted = true) ∨
      ∃ n s', v.read source length s = (.ok (slice content v.pos n), { v with pos := v.pos + n }, s') ∧
        n ≤ min length (v.stop - v.pos) ∧ (0 < min length (v.stop - v.pos) → 0 < n) := by
  have small := holds.size_lt
  have given : ∀ n ≤ v.stop - v.pos, ∀ s' : σ,
      v.advance source v.pos (.ok (slice content v.pos n), s') =
        (.ok (slice content v.pos n), { v with pos := v.pos + n }, s') := by
    intro n bound s'
    have size : (slice content v.pos n).size = n := size_slice (by omega)
    rw [advance_inside _ _ _ _ (by omega), size]
  unfold read readAt subOffset?
  simp only [pos_le, if_true]
  by_cases nothing : min length (v.stop - v.pos) = 0
  · right
    refine ⟨0, s, ?_, by omega, by omega⟩
    simpa [nothing] using given 0 (by omega) s
  · rcases answer : source.readAt v.pos (min length (v.stop - v.pos)) s with ⟨result, s'⟩
    rcases holds.readAt v.pos (min length (v.stop - v.pos)) s (by omega) with
      failed | ⟨n, bound, more, found⟩
    · simp only [answer] at failed
      subst failed
      exact .inl ⟨ReadFailure.interrupted.toIoError.attributed source.label, s',
        by simp [nothing, advance], rfl⟩
    · simp only [answer] at found
      subst found
      exact .inr ⟨n, s', by simpa [nothing] using given n (by omega) s', bound, more⟩

/-- A block over a view stands at `cursor` of the content, in a window that ends at `stop`: what is
unread of the block are the bytes in front of the view's cursor. -/
structure Buffered.Reads (b : Buffered) (content : ByteArray) (cursor stop : Nat) : Prop where
  stop_eq : b.view.stop = stop
  stop_le : stop ≤ content.size
  pos_le : b.view.pos ≤ stop
  used_le : b.used ≤ b.block.size
  cursor_eq : cursor + (b.block.size - b.used) = b.view.pos
  unread : b.block.extract b.used b.block.size = content.extract cursor b.view.pos

namespace Buffered

variable {b : Buffered} {cursor stop : Nat}

theorem Reads.cursor_le (reads : b.Reads content cursor stop) : cursor ≤ stop := by
  have := reads.cursor_eq
  have := reads.pos_le
  omega

/-- A window that has not been read from stands at its start. -/
theorem reads_new (content : ByteArray) (start stop capacity : Nat) :
    (Buffered.mk (.new content.size start stop) capacity .empty 0).Reads content
      (min start (min stop content.size)) (min stop content.size) where
  stop_eq := rfl
  stop_le := Nat.min_le_right _ _
  pos_le := Nat.min_le_right _ _
  used_le := Nat.le_refl _
  cursor_eq := by simp only [View.new, ByteArray.size_empty]; omega
  unread := by simp [View.new]

theorem reads_new_inside {start stop : Nat} (ordered : start ≤ stop) (inside : stop ≤ content.size)
    (capacity : Nat) :
    (Buffered.mk (.new content.size start stop) capacity .empty 0).Reads content start stop := by
  have reads := reads_new content start stop capacity
  rwa [Nat.min_eq_left inside, Nat.min_eq_left ordered] at reads

/-- Bytes handed out of the block are those at the cursor. -/
theorem Reads.handOut (reads : b.Reads content cursor stop) (length : Nat) :
    let n := min length (b.block.size - b.used)
    slice b.block b.used length = slice content cursor n ∧
      { b with used := b.used + n }.Reads content (cursor + n) stop := by
  obtain ⟨stop_eq, stop_le, pos_le, used_le, cursor_eq, unread⟩ := reads
  intro n
  have part : ∀ i j, b.used + j ≤ b.block.size →
      b.block.extract (b.used + i) (b.used + j) = content.extract (cursor + i) (cursor + j) := by
    intro i j inside
    have here := congrArg (·.extract i j) unread
    simp only [ByteArray.extract_extract] at here
    rwa [Nat.min_eq_left inside, Nat.min_eq_left (by omega)] at here
  refine ⟨?_, stop_eq, stop_le, pos_le, by dsimp only; omega, by dsimp only; omega, ?_⟩
  · have cut : slice b.block b.used length = b.block.extract (b.used + 0) (b.used + n) := by
      apply ByteArray.ext
      simp only [slice, ByteArray.data_extract, Nat.add_zero]
      exact Array.extract_eq_extract_right.mpr (by rw [ByteArray.size_data]; omega)
    rw [cut, part 0 n (by omega)]
    rfl
  · have left := part n (b.block.size - b.used) (by omega)
    rwa [Nat.add_sub_of_le used_le, cursor_eq] at left

theorem Reads.pos_eq (reads : b.Reads content cursor stop) (usedUp : ¬ b.used < b.block.size) :
    b.view.pos = cursor := by
  have := reads.cursor_eq
  omega

/-- A used up block is passed by: the bytes come from the view itself. -/
theorem Reads.passBy (reads : b.Reads content cursor stop) {n : Nat} (inside : cursor + n ≤ stop) :
    { b with view := { b.view with pos := cursor + n }, block := .empty, used := 0 }.Reads content
      (cursor + n) stop where
  stop_eq := reads.stop_eq
  stop_le := reads.stop_le
  pos_le := inside
  used_le := Nat.le_refl _
  cursor_eq := by simp
  unread := by simp

/-- A used up block is filled with bytes of the view. -/
theorem Reads.refill (reads : b.Reads content cursor stop) {n : Nat} (inside : cursor + n ≤ stop) :
    { b with view := { b.view with pos := cursor + n }, block := slice content cursor n,
             used := 0 }.Reads content cursor stop where
  stop_eq := reads.stop_eq
  stop_le := reads.stop_le
  pos_le := inside
  used_le := Nat.zero_le _
  cursor_eq := by
    have := reads.stop_le
    simp only [size_slice (show cursor + n ≤ content.size by omega), Nat.sub_zero]
  unread := ByteArray.extract_zero_size

/-- One read through a block gives bytes at the cursor, at least one before the end of the window, or
is interrupted and stands where it stood. -/
theorem readOnce_serves (holds : source.Holds content) (reads : b.Reads content cursor stop)
    (length : Nat) (s : σ) :
    (∃ e s', b.readOnce source length s = (.error e, b, s') ∧ e.isInterrupted = true) ∨
    ∃ n b' s', b.readOnce source length s = (.ok (slice content cursor n), b', s') ∧
      n ≤ length ∧ cursor + n ≤ stop ∧ (0 < length → cursor < stop → 0 < n) ∧
      b'.Reads content (cursor + n) stop := by
  have stop_eq := reads.stop_eq
  have stop_le := reads.stop_le
  have pos_le := reads.pos_le
  have cursor_eq := reads.cursor_eq
  unfold readOnce
  by_cases unread : b.used < b.block.size
  · obtain ⟨cut, onward⟩ := reads.handOut length
    have size : (slice content cursor (min length (b.block.size - b.used))).size = _ :=
      size_slice (by omega)
    refine .inr ⟨_, _, s, ?_, by omega, by omega, by omega, onward⟩
    simp only [unread, if_true, cut, size]
  · have here := reads.pos_eq unread
    have seen := View.read_serves holds (v := b.view) (by omega) (by omega)
    simp only [here] at seen
    -- The view is read either for the bytes themselves or for a new block.
    by_cases direct : b.capacity ≤ length
    · rcases seen length s with ⟨e, s', failed, again⟩ | ⟨n, s', given, bound, more⟩
      · exact .inl ⟨e, s', by simp only [unread, direct, if_true, if_false, failed], again⟩
      · refine .inr ⟨n, _, s', ?_, by omega, by omega, by omega,
          reads.passBy (n := n) (by omega)⟩
        simp only [unread, direct, if_true, if_false, given]
    · rcases seen b.capacity s with ⟨e, s', failed, again⟩ | ⟨n, s', given, bound, more⟩
      · exact .inl ⟨e, s', by simp only [unread, direct, if_false, failed], again⟩
      · have size : (slice content cursor n).size = n := size_slice (by omega)
        obtain ⟨cut, onward⟩ := (reads.refill (n := n) (by omega)).handOut length
        simp only [size, Nat.sub_zero, Nat.zero_add] at cut onward
        have size' : (slice content cursor (min length n)).size = min length n :=
          size_slice (by omega)
        refine .inr ⟨_, _, s', ?_, by omega, by omega, by omega, onward⟩
        simp only [unread, direct, if_false, given, cut, size']

theorem readOnce_ok (holds : source.Holds content) (reads : b.Reads content cursor stop)
    {length : Nat} {s s' : σ} {bytes : ByteArray} {b' : Buffered}
    (answer : b.readOnce source length s = (.ok bytes, b', s')) :
    bytes = slice content cursor bytes.size ∧ bytes.size ≤ length ∧ cursor + bytes.size ≤ stop ∧
      (0 < length → cursor < stop → 0 < bytes.size) ∧
      b'.Reads content (cursor + bytes.size) stop := by
  rcases readOnce_serves holds reads length s with
    ⟨e, s₁, failed, _⟩ | ⟨n, b₁, s₁, given, bound, inside, more, onward⟩
  · simp [answer] at failed
  · simp only [answer, Prod.mk.injEq, Except.ok.injEq] at given
    obtain ⟨rfl, rfl, rfl⟩ := given
    have := reads.stop_le
    rw [size_slice (show cursor + n ≤ content.size by omega)]
    exact ⟨rfl, bound, inside, more, onward⟩

theorem readOnce_error (holds : source.Holds content) (reads : b.Reads content cursor stop)
    {length : Nat} {s s' : σ} {e : IoError} {b' : Buffered}
    (answer : b.readOnce source length s = (.error e, b', s')) :
    e.isInterrupted = true ∧ b' = b := by
  rcases readOnce_serves holds reads length s with
    ⟨e₁, s₁, failed, again⟩ | ⟨n, b₁, s₁, given, _⟩
  · simp only [answer, Prod.mk.injEq, Except.error.injEq] at failed
    obtain ⟨rfl, rfl, rfl⟩ := failed
    exact ⟨again, rfl⟩
  · simp [answer] at given

/-- An exact read gives the bytes at the cursor if the window holds them, and else fails. -/
theorem takeFrom_serves (holds : source.Holds content) (reads : b.Reads content cursor stop)
    (length : Nat) (done : ByteArray) (s : σ) :
    if cursor + length ≤ stop then
      ∃ b' s', b.takeFrom source length done s =
        (.ok (done ++ slice content cursor length), b', s') ∧
          b'.Reads content (cursor + length) stop
    else ∃ b' s', b.takeFrom source length done s = (.error ⟨.bufferNotFilled, none⟩, b', s') := by
  fun_induction takeFrom source b length done s generalizing cursor with
  | case1 b done s =>
    rw [if_pos (by simpa using reads.cursor_le)]
    exact ⟨b, s, by simp, reads⟩
  | case2 b length done s some bytes b' s' answer none =>
    obtain ⟨_, _, _, more, _⟩ := readOnce_ok holds reads answer
    rw [if_neg (by omega)]
    exact ⟨b', s', rfl⟩
  | case3 b length done s some bytes b' s' answer _ _ ih =>
    obtain ⟨given, bound, inside, _, onward⟩ := readOnce_ok holds reads answer
    have whole := slice_append_slice content cursor bytes.size (length - bytes.size)
    rw [← given, Nat.add_sub_of_le bound] at whole
    have rest := ih onward
    rwa [ByteArray.append_assoc, whole, Nat.add_assoc, Nat.add_sub_of_le bound] at rest
  | case4 b length done s some e b' s' answer again _ ih =>
    obtain ⟨_, rfl⟩ := readOnce_error holds reads answer
    exact ih reads
  | case5 b length done s some e b' s' answer again =>
    exact absurd (readOnce_error holds reads answer).1 again

/-- A skip passes over the bytes at the cursor if the window holds them, and else fails. -/
theorem skip_serves (holds : source.Holds content) (reads : b.Reads content cursor stop)
    (length : Nat) (s : σ) :
    if cursor + length ≤ stop then
      ∃ b' s', b.skip source length s = (.ok (), b', s') ∧ b'.Reads content (cursor + length) stop
    else ∃ b' s', b.skip source length s = (.error ⟨.endOfFile, none⟩, b', s') := by
  fun_induction skip source b length s generalizing cursor with
  | case1 b s =>
    rw [if_pos (by simpa using reads.cursor_le)]
    exact ⟨b, s, rfl, reads⟩
  | case2 b length s some bytes b' s' answer none =>
    obtain ⟨_, _, _, more, _⟩ := readOnce_ok holds reads answer
    have : 0 < blockSize := by decide
    rw [if_neg (by omega)]
    exact ⟨b', s', rfl⟩
  | case3 b length s some bytes b' s' answer _ _ ih =>
    obtain ⟨_, bound, inside, _, onward⟩ := readOnce_ok holds reads answer
    have rest := ih onward
    rwa [Nat.add_assoc, Nat.add_sub_of_le (by omega)] at rest
  | case4 b length s some e b' s' answer again _ ih =>
    obtain ⟨_, rfl⟩ := readOnce_error holds reads answer
    exact ih reads
  | case5 b length s some e b' s' answer again =>
    exact absurd (readOnce_error holds reads answer).1 again

end Buffered

/-- Reading a record from a window is parsing it from the bytes of the window. -/
theorem Layout.readWindow_serves {α : Type} (holds : source.Holds content) (layout : Layout α)
    (record : String) {b : Buffered} {cursor stop : Nat} (reads : b.Reads content cursor stop)
    (s : σ) :
    match layout.parse source.label record (span content cursor stop) with
    | (.ok value, rest) => ∃ b' s' cursor', layout.readWindow source record b s = (.ok value, b', s') ∧
        b'.Reads content cursor' stop ∧ rest = span content cursor' stop
    | (.error e, _) => ∃ b' s', layout.readWindow source record b s = (.error e, b', s') := by
  induction layout generalizing b cursor s with
  | done value => exact ⟨b, s, cursor, rfl, reads, rfl⟩
  | refuse error => exact ⟨b, s, rfl⟩
  | bytes length next ih =>
    have taken := Buffered.takeFrom_serves holds reads length .empty s
    have room : (span content cursor stop).length = stop - cursor := length_span_of_le reads.stop_le
    have := reads.cursor_le
    by_cases inside : cursor + length ≤ stop
    · rw [if_pos inside] at taken
      obtain ⟨b', s', taken, onward⟩ := taken
      have given : Bytes.take length (span content cursor stop) =
          (.ok (span content cursor (cursor + length)), span content (cursor + length) stop) := by
        rw [Bytes.take, if_pos (by omega), take_span, drop_span, Nat.min_eq_left inside]
      have rest := ih (span content cursor (cursor + length)) onward s'
      simp only [Layout.parse, Layout.run, Bytes.reader, given]
      simp only [Layout.readWindow, Layout.run, Buffered.reader, Buffered.take, taken,
        ByteArray.empty_append, toList_slice] at rest ⊢
      exact rest
    · rw [if_neg inside] at taken
      obtain ⟨b', s', taken⟩ := taken
      rw [Layout.parse_bytes_short next (by omega)]
      exact ⟨b', s', by
        simp [Layout.readWindow, Layout.run, Buffered.reader, Buffered.take, taken,
          ZipError.ofRead, IoError.isShortRead]⟩
  | skip length next ih =>
    have passed := Buffered.skip_serves holds reads length s
    have room : (span content cursor stop).length = stop - cursor := length_span_of_le reads.stop_le
    have := reads.cursor_le
    by_cases inside : cursor + length ≤ stop
    · rw [if_pos inside] at passed
      obtain ⟨b', s', passed, onward⟩ := passed
      have given : Bytes.skip length (span content cursor stop) =
          (.ok (), span content (cursor + length) stop) := by
        rw [Bytes.skip, if_pos (by omega), drop_span]
      have rest := ih onward s'
      simp only [Layout.parse, Layout.run, Bytes.reader, given]
      simp only [Layout.readWindow, Layout.run, Buffered.reader, passed] at rest ⊢
      exact rest
    · rw [if_neg inside] at passed
      obtain ⟨b', s', passed⟩ := passed
      rw [Layout.parse_skip_short next (by omega)]
      exact ⟨b', s', by
        simp [Layout.readWindow, Layout.run, Buffered.reader, passed, ZipError.ofRead,
          IoError.isShortRead]⟩

end ZipArchive
