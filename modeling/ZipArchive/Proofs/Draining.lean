import ZipArchive.Archive

/-!
# Drained streams

A stream that is drained into a sink is read chunk by chunk, and every chunk is written and counted
as it comes. What the sink holds in the end and what was counted are told by the bytes alone that
are collected from the stream until there are more than fit (`MemberStream.drain_eq`): the count of
a content that has been written as a whole is its size, as far as 64 bits tell it.
-/
namespace ZipArchive

variable {σ : Type} {source : Source σ}

namespace Extraction

/-- What a read of a whole content comes to in a sink that takes no more than `limit` bytes. -/
def ofRead (name : String) (limit : Option Nat) (result : Except IoError Unit)
    (bytes : ByteArray) : Extraction :=
  if limit.any (· < bytes.size) then
    ⟨slice bytes 0 (limit.getD 0), .error (.io ⟨.sinkFull, none⟩)⟩
  else
    match result with
    | .ok () => ⟨bytes, .ok bytes.size.toUInt64⟩
    | .error e => ⟨bytes, .error (failureOf name e)⟩

end Extraction

/-- How many bytes to ask for when `there` have been read and a sink takes no more than `limit`. -/
def Archive.askWithin (limit : Option Nat) (there : Nat) : Nat :=
  if limit.any (· < there) then 0 else chunkSize

theorem Archive.askWithin_full {limit : Option Nat} {there : Nat}
    (full : limit.any (· < there) = true) : askWithin limit there = 0 := if_pos full

theorem Archive.askWithin_room {limit : Option Nat} {there : Nat}
    (room : limit.any (· < there) = false) : askWithin limit there = chunkSize := by
  rw [askWithin, room]
  rfl

theorem size_append_toUInt64 (there bytes : ByteArray) :
    there.size.toUInt64 + bytes.size.toUInt64 = (there ++ bytes).size.toUInt64 := by
  rw [ByteArray.size_append]
  exact (UInt64.ofNat_add ..).symm

variable [Decoders]

namespace MemberStream

open Archive (askWithin askWithin_full askWithin_room)

theorem collect_nothing {ask : Nat → Nat} {there : ByteArray} (nothing : ask there.size = 0)
    (stream : MemberStream) (s : σ) :
    stream.collect source ask there s = ((.ok (), there), stream, s) := by
  rw [collect, if_pos nothing]

theorem collect_step {ask : Nat → Nat} {there : ByteArray} (wanted : ask there.size ≠ 0)
    (stream : MemberStream) (s : σ) :
    stream.collect source ask there s =
      match stream.read source (ask there.size) s with
      | (.ok bytes, stream', s') =>
        if bytes.size = 0 then ((.ok (), there), stream', s')
        else stream'.collect source ask (there ++ bytes) s'
      | (.error e, stream', s') =>
        if e.isInterrupted then stream'.collect source ask there s'
        else ((.error e, there), stream', s') := by
  rw [collect, if_neg wanted]
  split
  · rename_i answer
    simp only [answer, dite_eq_ite]
  · rename_i answer
    simp only [answer, dite_eq_ite]

/-- Draining takes one read, and goes on unless the content ends, the read fails or the sink is
full. -/
theorem drain_step (name : String) (sink : Sink) (total : UInt64) (stream : MemberStream) (s : σ) :
    stream.drain source name sink total s =
      match stream.read source chunkSize s with
      | (.ok bytes, stream', s') =>
        if bytes.size = 0 then (⟨sink.bytes, .ok total⟩, s')
        else
          match sink.writeAll bytes with
          | (.ok (), sink') => stream'.drain source name sink' (total + bytes.size.toUInt64) s'
          | (.error e, sink') => (⟨sink'.bytes, .error (.io e)⟩, s')
      | (.error e, stream', s') =>
        if e.isInterrupted then stream'.drain source name sink total s'
        else (⟨sink.bytes, .error (Extraction.failureOf name e)⟩, s') := by
  rw [drain]
  split
  · rename_i bytes _ _ answer
    cases written : sink.writeAll bytes with
    | mk result sink' => cases result <;> simp only [answer, written, dite_eq_ite]
  · rename_i answer
    simp only [answer, dite_eq_ite]

/-- Draining is collecting until the sink is full. The induction is on the chunks collected: as long
as they fit, the sink holds what is there and the count is its size. -/
theorem drain_eq (name : String) (limit : Option Nat) (there : ByteArray)
    (room : limit.any (· < there.size) = false) (stream : MemberStream) (s : σ) :
    stream.drain source name ⟨limit, there⟩ there.size.toUInt64 s =
      (.ofRead name limit (stream.collect source (askWithin limit) there s).1.1
        (stream.collect source (askWithin limit) there s).1.2,
      (stream.collect source (askWithin limit) there s).2.2) := by
  fun_induction collect source (askWithin limit) there stream s with
  | case1 there stream s nothing =>
    rw [askWithin_room room] at nothing
    cases nothing
  | case2 there stream s wanted bytes stream' s' answer none =>
    rw [askWithin_room room] at answer
    rw [drain_step, answer]
    simp only [none, if_true, Extraction.ofRead, room, Bool.false_eq_true, if_false]
  | case3 there stream s wanted bytes stream' s' answer some ih =>
    rw [askWithin_room room] at answer
    rw [drain_step, answer]
    simp only [if_neg some, Sink.writeAll]
    by_cases full : limit.any (· < (there ++ bytes).size) = true
    · -- The sink is full: the write fails, and no more is asked for either.
      rw [collect_nothing (askWithin_full full)]
      simp only [full, if_true, Extraction.ofRead]
    · rw [Bool.not_eq_true] at full
      simp only [full, Bool.false_eq_true, if_false, size_append_toUInt64]
      exact ih full
  | case4 there stream s wanted e stream' s' answer again ih =>
    rw [askWithin_room room] at answer
    rw [drain_step, answer]
    simp only [again, if_true]
    exact ih room
  | case5 there stream s wanted e stream' s' answer final =>
    rw [askWithin_room room] at answer
    rw [drain_step, answer]
    simp only [final, Extraction.ofRead, room, Bool.false_eq_true, if_false]

end MemberStream

namespace Archive

/-- Collects a plugged member for a sink that takes no more than `limit` bytes, as an action. -/
def collectWithin (source : Source σ) (limit : Option Nat) (plugged : Plugged) :
    Action σ (Except IoError Unit × ByteArray) := fun r =>
  let (answer, _, state) := plugged.stream.collect source (askWithin limit) .empty r.state
  (.ok answer, { r with state := state })

theorem run_collectWithin {limit : Option Nat} (plugged : Plugged) (r : Run σ)
    {answer : Except IoError Unit × ByteArray} {stream : MemberStream} {s : σ}
    (collected : plugged.stream.collect source (askWithin limit) .empty r.state =
      (answer, stream, s)) :
    (collectWithin source limit plugged).run r = (.ok answer, ⟨s, r.log⟩) := by
  change collectWithin source limit plugged r = _
  unfold collectWithin
  rw [collected]

/-- Extracting is plugging and then collecting what the sink takes. -/
theorem extraction_eq (source : Source σ) (a : Archive) (index : Nat) (limit : Option Nat) :
    a.extraction source index limit = a.plug source index >>= fun plugged =>
      collectWithin source limit plugged >>= fun answer =>
        pure (.ofRead plugged.name limit answer.1 answer.2) := by
  unfold extraction
  refine congrArg _ (funext fun plugged => funext fun r => ?_)
  have drained := @MemberStream.drain_eq σ source _ plugged.name limit .empty
    (by cases limit <;> rfl) plugged.stream r.state
  rw [show ByteArray.empty.size.toUInt64 = 0 from rfl] at drained
  rw [drained]
  rfl

end Archive
end ZipArchive
