import ZipArchive.Proofs.DecodingContents

/-!
# What streams come to

A stream gives, piece by piece, the content that the bytes of its window stand for (`Stage.decode`).
On a source that serves a content, reading a stream on from where it stands hands out the next part
of that content, and reading it to the end hands out all that is left or fails as decoding the
window as a whole fails (`MemberStream.collect_comes`).
-/
namespace ZipArchive

variable {σ : Type} {source : Source σ} {content : ByteArray} [Decoders]

/-- The content that the bytes of a member stand for. -/
def Stage.decode : Stage → ByteArray → Except DecodeError ByteArray
  | .identity, encoded => .ok encoded
  | .inflate, encoded => Decoders.inflate.decode encoded
  | .bunzip, encoded => Decoders.bunzip.decode encoded

namespace MemberStream

variable {stream stream' : MemberStream} {plain : Except DecodeError ByteArray}
  {handed length : Nat}

/-- A stream whose bytes come to `plain` has handed out `handed` bytes of it. -/
inductive Stands (content : ByteArray) (plain : Except DecodeError ByteArray) :
    MemberStream → Nat → Prop where
  | stored (view : View) (inside : view.WellFormed content.size)
      (comes : plain = Stage.identity.decode (slice content view.start view.length)) :
      Stands content plain (.stored view) view.position
  | deflate (decoding : Decoding Decoders.Inflating) (whole : ByteArray)
      (stands : decoding.Stands Decoders.inflate content whole)
      (comes : plain = Stage.inflate.decode whole) :
      Stands content plain (.deflate decoding) decoding.delivered
  | bzip2 (decoding : Decoding Decoders.Bunzipping) (whole : ByteArray)
      (stands : decoding.Stands Decoders.bunzip content whole)
      (comes : plain = Stage.bunzip.decode whole) :
      Stands content plain (.bzip2 decoding) decoding.delivered

/-- A new stream has handed out nothing of what its window stands for. -/
theorem new_stands (stage : Stage) (content : ByteArray) (start stop : Nat) :
    Stands content (stage.decode (slice content (View.new content.size start stop).start
        (View.new content.size start stop).length))
      (.new stage (.new content.size start stop)) 0 := by
  have inside := View.new_wellFormed content.size start stop
  cases stage with
  | identity =>
    have stands := @Stands.stored _ content _ _ inside rfl
    rwa [show (View.new content.size start stop).position = 0 from Nat.sub_self _] at stands
  | inflate => exact .deflate _ _ (Decoding.new_stands Decoders.inflate inside) rfl
  | bunzip => exact .bzip2 _ _ (Decoding.new_stands Decoders.bunzip inside) rfl

/-- What one read of a stream that stands somewhere comes to. -/
def Comes (content : ByteArray) (plain : Except DecodeError ByteArray) (length handed : Nat)
    (result : Except IoError ByteArray) (stream' : MemberStream) : Prop :=
  match result with
  | .ok bytes =>
    Stands content plain stream' (handed + bytes.size) ∧ bytes.size ≤ length ∧
      (∀ all, plain = .ok all → bytes = slice all handed bytes.size) ∧
      (bytes.size = 0 → ∃ all, plain = .ok all ∧ all.size ≤ handed)
  | .error e =>
    (e.isInterrupted = true ∧ Stands content plain stream' handed) ∨
      ∃ error, e = ⟨.undecodable error, none⟩ ∧ plain = .error error

/-- Reading a decoding, seen from outside. -/
theorem comes_of_read {δ : Type} {decoder : Decoder δ} (stable : decoder.Stable)
    (serves : source.Serves content) (wanted : 0 < length) {whole : ByteArray} (d : Decoding δ)
    (s : σ) (stands : d.Stands decoder content whole) (wrap : Decoding δ → MemberStream)
    (wraps : ∀ d', d'.Stands decoder content whole →
      Stands content (decoder.decode whole) (wrap d') d'.delivered) :
    Comes content (decoder.decode whole) length d.delivered (d.read decoder source length s).1
      (wrap (d.read decoder source length s).2.1) := by
  have read := d.read_stands stable serves wanted s stands
  rcases answer : d.read decoder source length s with ⟨e | bytes, d', s'⟩
  · rw [answer] at read
    rcases read with ⟨again, onward, delivered⟩ | ⟨error, failed⟩
    · exact .inl ⟨again, delivered ▸ wraps d' onward⟩
    · exact .inr ⟨error, failed⟩
  · rw [answer] at read
    obtain ⟨onward, handsOut⟩ := read
    refine ⟨handsOut.delivered ▸ wraps d' onward, handsOut.size_le, ?_, ?_⟩
    · intro all comes
      obtain ⟨-, output⟩ := Decoder.decode_eq_ok.mp comes
      rw [← output]
      exact handsOut.next
    · intro nothing
      obtain ⟨finished, ended⟩ := handsOut.ended nothing
      exact ⟨_, Decoder.decode_eq_ok.mpr ⟨finished, rfl⟩, ended⟩

theorem Stands.read (serves : source.Serves content) (wanted : 0 < length)
    (stands : Stands content plain stream handed) (s : σ) :
    Comes content plain length handed (stream.read source length s).1
      (stream.read source length s).2.1 := by
  cases stands with
  | deflate decoding whole stands comes =>
    subst comes
    exact comes_of_read Decoders.inflate_stable serves wanted decoding s stands .deflate
      fun d' onward => .deflate d' whole onward rfl
  | bzip2 decoding whole stands comes =>
    subst comes
    exact comes_of_read Decoders.bunzip_stable serves wanted decoding s stands .bzip2
      fun d' onward => .bzip2 d' whole onward rfl
  | stored view inside comes =>
    have start_le := inside.start_le
    have pos_le := inside.pos_le
    have stop_le := inside.stop_le
    have kept := View.read_wellFormed serves inside length s
    rcases answer : view.read source length s with ⟨e | bytes, view', s'⟩
    · obtain ⟨again, rfl⟩ := View.read_error_serves serves inside answer
      simp only [MemberStream.read, answer]
      exact .inl ⟨again, .stored view' inside comes⟩
    · rw [answer] at kept
      have asked := (View.read_ok source answer).1
      obtain ⟨given, rfl, bound, some⟩ := View.read_ok_serves serves inside answer
      have moved : view.position + bytes.size =
          View.position { view with pos := view.pos + bytes.size } := by
        simp only [View.position]
        omega
      simp only [MemberStream.read, answer]
      refine ⟨moved ▸ .stored _ kept comes, by omega, ?_, ?_⟩
      · intro all whole
        cases comes.symm.trans whole
        rw [slice_slice (by simp only [View.position, View.length]; omega), View.position,
          Nat.add_sub_of_le start_le]
        exact given
      · intro nothing
        refine ⟨_, comes, ?_⟩
        rw [size_slice (by simp only [View.length]; omega), View.position, View.length]
        omega

/-- Reading on hands out the next bytes of what the stream comes to, until no more are asked for or
it has come to its end. -/
theorem collect_comes (serves : source.Serves content) (ask : Nat → Nat) (there : ByteArray)
    (stream : MemberStream) (s : σ) (handed : Nat) (stands : Stands content plain stream handed) :
    match stream.collect source ask there s with
    | ((.ok (), bytes), stream', _) =>
      ∃ count, bytes.size = there.size + count ∧ Stands content plain stream' (handed + count) ∧
        (∀ all, plain = .ok all → bytes = there ++ slice all handed count) ∧
        (ask bytes.size = 0 ∨ ∃ all, plain = .ok all ∧ all.size ≤ handed + count)
    | ((.error e, _), _, _) =>
      ∃ error, e = ⟨.undecodable error, none⟩ ∧ plain = .error error := by
  fun_induction collect source ask there stream s generalizing handed with
  | case1 there stream s nothing =>
    exact ⟨0, rfl, stands, fun all _ => by rw [slice_zero, ByteArray.append_empty], .inl nothing⟩
  | case2 there stream s wanted bytes stream' s' answer none =>
    have here := stands.read serves (Nat.pos_of_ne_zero wanted) s
    rw [answer] at here
    obtain ⟨onward, -, -, ended⟩ := here
    rw [none] at onward
    exact ⟨0, rfl, onward, fun all _ => by rw [slice_zero, ByteArray.append_empty],
      .inr (ended none)⟩
  | case3 there stream s wanted bytes stream' s' answer some ih =>
    have here := stands.read serves (Nat.pos_of_ne_zero wanted) s
    rw [answer] at here
    obtain ⟨onward, -, next, -⟩ := here
    have rest := ih _ onward
    rcases collected : stream'.collect source ask (there ++ bytes) s' with ⟨⟨e | _, all⟩, last, s₁⟩
    · rw [collected] at rest
      exact rest
    · rw [collected] at rest
      obtain ⟨count, size, stands', slices, ended⟩ := rest
      rw [ByteArray.size_append] at size
      refine ⟨bytes.size + count, by omega, by rwa [Nat.add_assoc] at stands', ?_, ?_⟩
      · intro plainly comes
        have first := next plainly comes
        have second := slices plainly comes
        rw [second, ← slice_append_slice, ← first, ByteArray.append_assoc]
      · rwa [Nat.add_assoc] at ended
  | case4 there stream s wanted e stream' s' answer again ih =>
    have here := stands.read serves (Nat.pos_of_ne_zero wanted) s
    rw [answer] at here
    rcases here with ⟨_, onward⟩ | ⟨error, rfl, _⟩
    · exact ih _ onward
    · cases again
  | case5 there stream s wanted e stream' s' answer final =>
    have here := stands.read serves (Nat.pos_of_ne_zero wanted) s
    rw [answer] at here
    exact here.resolve_left fun interrupted => final interrupted.1

/-- No more is collected than is asked for. -/
theorem collect_size_le (serves : source.Serves content) {ask : Nat → Nat} {bound : Nat}
    (within : ∀ n ≤ bound, n + ask n ≤ bound) (there : ByteArray) (stream : MemberStream) (s : σ)
    (handed : Nat) (stands : Stands content plain stream handed) (start : there.size ≤ bound) :
    (stream.collect source ask there s).1.2.size ≤ bound := by
  fun_induction collect source ask there stream s generalizing handed with
  | case3 there stream s wanted bytes stream' s' answer some ih =>
    have here := stands.read serves (Nat.pos_of_ne_zero wanted) s
    rw [answer] at here
    obtain ⟨onward, size_le, -, -⟩ := here
    have more := within there.size start
    exact ih _ onward (by rw [ByteArray.size_append]; omega)
  | case4 there stream s wanted e stream' s' answer again ih =>
    have here := stands.read serves (Nat.pos_of_ne_zero wanted) s
    rw [answer] at here
    rcases here with ⟨_, onward⟩ | ⟨error, rfl, _⟩
    · exact ih _ onward start
    · cases again
  | _ => exact start

/-- What is collected from a stream that can be decoded is the next part of its content: all that is
asked for, or all that is left. -/
theorem collect_part (serves : source.Serves content) (ask : Nat → Nat) (s : σ) {all : ByteArray}
    (stands : Stands content (.ok all) stream handed) :
    ∃ count, (stream.collect source ask .empty s).1 = (.ok (), slice all handed count) ∧
      (slice all handed count).size = count ∧
      Stands content (.ok all) (stream.collect source ask .empty s).2.1 (handed + count) ∧
      (ask count = 0 ∨ all.size ≤ handed + count) := by
  have collected := collect_comes serves ask .empty stream s handed stands
  rcases answer : stream.collect source ask .empty s with ⟨⟨e | _, bytes⟩, last, s'⟩
  · rw [answer] at collected
    obtain ⟨error, -, decoded⟩ := collected
    cases decoded
  · rw [answer] at collected
    obtain ⟨count, size, onward, slices, ended⟩ := collected
    have part : bytes = slice all handed count := by rw [slices all rfl, ByteArray.empty_append]
    rw [ByteArray.size_empty, Nat.zero_add] at size
    rw [size] at ended
    subst part
    refine ⟨count, rfl, size, onward, ended.imp_right ?_⟩
    rintro ⟨_, decoded, reached⟩
    cases decoded
    exact reached

/-- Read from its start to its end, a stream comes to what its window decodes to. -/
theorem collect_decoded (serves : source.Serves content) {ask : Nat → Nat}
    (asks : ∀ there, 0 < ask there) (s : σ) {all : ByteArray}
    (stands : Stands content (.ok all) stream 0) :
    (stream.collect source ask .empty s).1 = (.ok (), all) := by
  obtain ⟨count, collected, size, -, ended⟩ := collect_part serves ask s stands
  have reached := ended.resolve_left (Nat.ne_of_gt (asks count))
  have covers : slice all 0 count = all := by
    rw [← slice_min, Nat.min_eq_right (by omega), slice, Nat.zero_add, Nat.sub_zero,
      ByteArray.extract_zero_size]
  rw [collected, covers]

/-- Read to its end, a stream fails if its window cannot be decoded. -/
theorem collect_undecodable (serves : source.Serves content) {ask : Nat → Nat}
    (asks : ∀ there, 0 < ask there) (s : σ) {error : DecodeError}
    (stands : Stands content (.error error) stream handed) :
    (stream.collect source ask .empty s).1.1 = .error ⟨.undecodable error, none⟩ := by
  have collected := collect_comes serves ask .empty stream s handed stands
  rcases answer : stream.collect source ask .empty s with ⟨⟨e | _, bytes⟩, last, s'⟩
  · rw [answer] at collected
    obtain ⟨_, rfl, decoded⟩ := collected
    cases decoded
    rfl
  · rw [answer] at collected
    obtain ⟨count, -, -, -, ended⟩ := collected
    obtain ⟨all, decoded, -⟩ := ended.resolve_left (Nat.ne_of_gt (asks _))
    cases decoded

end MemberStream
end ZipArchive
