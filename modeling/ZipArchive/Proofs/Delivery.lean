import ZipArchive.Proofs.LocalRanges
import ZipArchive.Proofs.OffsetRanges

/-!
# Delivering contents

A member is extracted by plugging it and reading its stream to the end, chunk by chunk, into a sink.
Where plugging fails, extracting fails just so. Else the bytes in the range of the member and the
decoder that its local header names decide alone: what they decode to is what is in the sink in the
end and what reading the plugged stream gives (`Archive.Delivers`), or else extracting and reading
both fail (`Archive.FailsToDecode`).
-/
namespace ZipArchive

variable {σ : Type} {source : Source σ} {content all : ByteArray} {limit : Option Nat}

/-! ## Sinks -/

namespace Extraction

/-- A part of a content that fills the sink comes to what the whole content comes to, and so does a
part that is the whole. -/
theorem ofRead_part {count : Nat} (name : String) (size : (slice all 0 count).size = count)
    (enough : Archive.askWithin limit count = 0 ∨ all.size ≤ count) :
    ofRead name limit (.ok ()) (slice all 0 count) = ofRead name limit (.ok ()) all := by
  have inside : count ≤ all.size := by
    simp only [slice, ByteArray.size_extract] at size
    omega
  rcases enough with filled | reached
  · have full : limit.any (· < count) = true := by
      unfold Archive.askWithin at filled
      split at filled
      · assumption
      · cases filled
    cases limit with
    | none => cases full
    | some k =>
      have k_lt : k < count := of_decide_eq_true full
      have beyond : k < all.size := Nat.lt_of_lt_of_le k_lt inside
      have part : slice (slice all 0 count) 0 k = slice all 0 k := by
        rw [slice_slice (by omega)]
      simp only [ofRead, Option.any_some, size, k_lt, beyond, decide_true, if_true, Option.getD_some,
        part]
  · have covers : slice all 0 count = all := by
      rw [Nat.le_antisymm inside reached, slice, Nat.zero_add, ByteArray.extract_zero_size]
    rw [covers]

theorem ofRead_whole (name : String) (k : Nat) (all : ByteArray) :
    ofRead name (some k) (.ok ()) all =
      if all.size ≤ k then ⟨all, .ok all.size.toUInt64⟩
      else ⟨slice all 0 k, .error (.io ⟨.sinkFull, none⟩)⟩ := by
  by_cases fits : all.size ≤ k
  · simp [ofRead, fits, Nat.not_lt.mpr fits]
  · simp [ofRead, fits, Nat.lt_of_not_le fits]

/-- What an extraction is handed over as. -/
def result (found : Extraction) : Except ZipError Extracted :=
  match found.outcome with
  | .ok count => .ok ⟨found.bytes, count⟩
  | .error error => .error error

end Extraction

/-! ## Sources that give nothing -/

/-- A source that answers every read with nothing. -/
def Source.IsDry (source : Source σ) : Prop :=
  ∀ offset length s, ∃ s', source.readAt offset length s = (.ok .empty, s')

/-- Nothing comes of it, or an error that is not worth trying again. -/
def Nothing : Except IoError ByteArray → Prop
  | .ok bytes => bytes = .empty
  | .error e => e.isInterrupted = false

theorem View.read_dry (dry : source.IsDry) (v : View) (length : Nat) (s : σ) :
    Nothing (v.read source length s).1 := by
  have advanced : ∀ s', Nothing (v.advance source v.pos (.ok .empty, s')).1 := by
    intro s'
    simp only [advance]
    cases addOffset? v.pos ByteArray.empty.size <;> exact rfl
  unfold read readAt
  split
  · exact rfl
  · rename_i room _
    split
    · exact advanced s
    · obtain ⟨s', answer⟩ := dry v.pos (min length room) s
      rw [answer]
      exact advanced s'

theorem Buffered.readOnce_dry (dry : source.IsDry) {b : Buffered} (fresh : b.block = .empty)
    (length : Nat) (s : σ) : Nothing (b.readOnce source length s).1 := by
  have used_up : ¬ b.used < b.block.size := by
    rw [fresh]
    exact Nat.not_lt_zero _
  unfold readOnce
  rw [if_neg used_up]
  split
  · have read := b.view.read_dry dry length s
    split <;> simp_all
  · have read := b.view.read_dry dry b.capacity s
    split
    · rename_i block view s' answer
      rw [answer] at read
      have none : block = .empty := read
      rw [none]
      exact ByteArray.ext (by simp [slice])
    · simp_all

theorem Buffered.take_dry (dry : source.IsDry) {b : Buffered} (fresh : b.block = .empty)
    {length : Nat} (some : length ≠ 0) (s : σ) :
    ∃ e, (b.take source length s).1 = .error e := by
  have read := readOnce_dry dry fresh length s
  rw [take, takeFrom_step b some]
  split
  · rename_i bytes b' s' answer
    rw [answer] at read
    have none : bytes = .empty := read
    rw [none]
    exact ⟨_, rfl⟩
  · rename_i e b' s' answer
    rw [answer] at read
    have final : e.isInterrupted = false := read
    rw [final]
    exact ⟨_, rfl⟩

theorem Layout.readWindow_dry {α : Type} (dry : source.IsDry) {b : Buffered}
    (fresh : b.block = .empty) {length : Nat} (some : length ≠ 0)
    (next : List UInt8 → Layout α) (record : String) (s : σ) :
    ∃ e rest, (Layout.bytes length next).readWindow source record b s = (.error e, rest) := by
  obtain ⟨e, failed⟩ := Buffered.take_dry dry fresh some s
  rcases taken : b.take source length s with ⟨result, rest⟩
  rw [taken] at failed
  obtain rfl : result = .error e := failed
  have refused : (Buffered.reader source).take length (b, s) = (.error e, rest) := by
    simp only [Buffered.reader, taken]
  exact ⟨.ofRead source.label record e, rest, by simp only [readWindow, run, refused]⟩

namespace Archive

section
variable [Decoders] (a : Archive) (index : Nat) {plugged : Plugged} {r r' : Run σ}

theorem extraction_of_plug_error (limit : Option Nat) {error : ZipError}
    (failed : (a.plug source index).run r = (.error error, r')) :
    (a.extraction source index limit).run r = (.error error, r') := by
  rw [extraction_eq]
  exact Action.run_bind_error failed

/-- Nothing of an archive can be extracted from a source that has run dry. -/
theorem extraction_dry (dry : source.IsDry) (limit : Option Nat)
    (r : Run σ) : ∃ e, ((a.extraction source index limit).run r).1 = .error e := by
  suffices plug : ∃ e r', (a.plug source index).run r = (.error e, r') by
    obtain ⟨e, r', plug⟩ := plug
    exact ⟨e, by rw [a.extraction_of_plug_error index limit plug]⟩
  unfold plug member
  cases found : a.members[index]? with
  | none => exact ⟨_, _, Action.run_bind_error (Action.run_raise ..)⟩
  | some m =>
    rw [Action.run_bind_ok (show (pure m : Action σ Member).run r = (.ok m, r) from rfl)]
    have header : ∃ e s', (LocalHeader.layout.readWindow source LocalHeader.recordName
        (m.headerWindow source) r.state) = (.error e, s') :=
      Layout.readWindow_dry dry rfl (by decide : 4 ≠ 0) _ _ _
    obtain ⟨e, s', read⟩ := header
    unfold Member.plug Member.dataRange
    have record := Action.run_readRecord source LocalHeader.recordName LocalHeader.layout
      (m.headerWindow source) r
    rw [read] at record
    exact ⟨_, _, Action.run_bind_error (Action.run_bind_error record)⟩

/-- Once a member is plugged, extracting it is reading its stream to the end. -/
theorem extraction_of_plug (ready : (a.plug source index).run r = (.ok plugged, r')) :
    ((a.extraction source index limit).run r).1 =
      .ok (.ofRead plugged.name limit
        (plugged.stream.collect source (askWithin limit) .empty r'.state).1.1
        (plugged.stream.collect source (askWithin limit) .empty r'.state).1.2) := by
  rw [extraction_eq, Action.run_bind_ok ready]
  rfl

theorem extract_of_extraction_error {error : ZipError}
    (failed : (a.extraction source index limit).run r = (.error error, r')) :
    (a.extract source index limit).run r = (.error error, r') := by
  unfold extract
  exact Action.run_bind_error failed

theorem extract_of_extraction {found : Extraction}
    (done : ((a.extraction source index limit).run r).1 = .ok found) :
    ((a.extract source index limit).run r).1 = found.result := by
  unfold extract Extraction.result
  rw [Action.run_bind_ok (Prod.ext done rfl)]
  cases found.outcome with
  | ok count => rfl
  | error error => rw [Action.run_raise]

/-- What was extracted was all there. -/
theorem extraction_of_extract {count : UInt64}
    (extracted : ((a.extract source index limit).run r).1 = .ok ⟨all, count⟩) :
    ((a.extraction source index limit).run r).1 = .ok ⟨all, .ok count⟩ := by
  rcases done : (a.extraction source index limit).run r with ⟨error | ⟨bytes, outcome⟩, r'⟩
  · rw [a.extract_of_extraction_error index done] at extracted
    cases extracted
  · rw [a.extract_of_extraction index (congrArg Prod.fst done)] at extracted
    unfold Extraction.result at extracted
    cases outcome with
    | ok count =>
      cases extracted
      rfl
    | error error => cases extracted

/-! ## Contents that can be decoded -/

/-- What is done with a plugged member whose bytes decode to `all`. -/
structure Delivers (source : Source σ) (plugged : Plugged) (r : Run σ) (all : ByteArray) :
    Prop where
  /-- A sink that grows takes all of the content and nothing else, and all of it is counted. -/
  whole : ((a.extraction source index none).run r).1 = .ok ⟨all, .ok all.size.toUInt64⟩
  extracted : ((a.extract source index none).run r).1 = .ok ⟨all, all.size.toUInt64⟩
  /-- A sink that is too small takes as many bytes as it can. -/
  limited : ∀ k, ((a.extraction source index (some k)).run r).1 =
    .ok (if all.size ≤ k then ⟨all, .ok all.size.toUInt64⟩
      else ⟨slice all 0 k, .error (.io ⟨.sinkFull, none⟩)⟩)
  extractedLimited : ∀ k, ((a.extract source index (some k)).run r).1 =
    if all.size ≤ k then .ok ⟨all, all.size.toUInt64⟩ else .error (.io ⟨.sinkFull, none⟩)
  /-- The count is the number of the bytes, unless there are more than it can tell. -/
  counted : all.size < offsetBound → all.size.toUInt64.toNat = all.size
  /-- However many bytes are asked for at a time, the stream gives the content too. -/
  read : ∀ ask : Nat → Nat, (∀ there, 0 < ask there) → ∀ s,
    (plugged.stream.collect source ask .empty s).1 = (.ok (), all)

theorem extraction_of_stands (limit : Option Nat) (serves : source.Serves content)
    (ready : (a.plug source index).run r = (.ok plugged, r'))
    (stands : plugged.stream.Stands content (.ok all) 0) :
    ((a.extraction source index limit).run r).1 =
      .ok (.ofRead plugged.name limit (.ok ()) all) := by
  obtain ⟨count, collected, size, -, enough⟩ :=
    MemberStream.collect_part serves (askWithin limit) r'.state stands
  rw [Nat.zero_add] at enough
  rw [a.extraction_of_plug index ready, collected, Extraction.ofRead_part plugged.name size enough]

theorem delivers_of_stands (serves : source.Serves content)
    (ready : (a.plug source index).run r = (.ok plugged, r'))
    (stands : plugged.stream.Stands content (.ok all) 0) :
    a.Delivers index source plugged r all := by
  have whole := a.extraction_of_stands index none serves ready stands
  have limited := fun k => (a.extraction_of_stands index (some k) serves ready stands).trans
    (congrArg Except.ok (Extraction.ofRead_whole plugged.name k all))
  refine ⟨whole, a.extract_of_extraction index whole, limited, fun k => ?_,
    UInt64.toNat_ofNat_of_lt', fun ask asks s =>
    MemberStream.collect_decoded serves asks s stands⟩
  rw [a.extract_of_extraction index (limited k)]
  by_cases fits : all.size ≤ k
  · simp only [if_pos fits, Extraction.result]
  · simp only [if_neg fits, Extraction.result]

/-! ## Contents that cannot be decoded -/

/-- A member's content that cannot be decoded. -/
def undecodable (name : String) (error : DecodeError) : ZipError :=
  .corrupt (.undecodable name ⟨.undecodable error, none⟩)

/-- What is done with a plugged member whose bytes cannot be decoded. -/
structure FailsToDecode (source : Source σ) (plugged : Plugged) (r : Run σ) (error : DecodeError) :
    Prop where
  whole : ∃ bytes, ((a.extraction source index none).run r).1 =
    .ok ⟨bytes, .error (undecodable plugged.name error)⟩
  extracted : ((a.extract source index none).run r).1 = .error (undecodable plugged.name error)
  /-- A sink that is too small may be full before the error is met. -/
  extractedLimited : ∀ k,
    ((a.extract source index (some k)).run r).1 = .error (undecodable plugged.name error) ∨
      ((a.extract source index (some k)).run r).1 = .error (.io ⟨.sinkFull, none⟩)
  read : ∀ ask : Nat → Nat, (∀ there, 0 < ask there) → ∀ s,
    (plugged.stream.collect source ask .empty s).1.1 = .error ⟨.undecodable error, none⟩

/-- Nothing is delivered without a failure of a content that cannot be decoded. -/
theorem extraction_of_undecodable (limit : Option Nat) (serves : source.Serves content)
    (ready : (a.plug source index).run r = (.ok plugged, r')) {error : DecodeError}
    (stands : plugged.stream.Stands content (.error error) 0) :
    ∃ bytes, ((a.extraction source index limit).run r).1 =
        .ok ⟨bytes, .error (undecodable plugged.name error)⟩ ∨
      limit.isSome ∧ ((a.extraction source index limit).run r).1 =
        .ok ⟨bytes, .error (.io ⟨.sinkFull, none⟩)⟩ := by
  have collected := MemberStream.collect_comes serves (askWithin limit) .empty plugged.stream
    r'.state 0 stands
  rw [a.extraction_of_plug index ready]
  rcases answer : plugged.stream.collect source (askWithin limit) .empty r'.state with
    ⟨⟨result, bytes⟩, last, s⟩
  rw [answer] at collected
  -- A sink that is full hides what came of reading, whichever it was.
  by_cases filled : limit.any (· < bytes.size) = true
  · refine ⟨slice bytes 0 (limit.getD 0), .inr ⟨?_, ?_⟩⟩
    · cases limit with
      | none => cases filled
      | some k => rfl
    · simp only [Extraction.ofRead, if_pos filled]
  · refine ⟨bytes, .inl ?_⟩
    cases result with
    | ok _ =>
      -- Reading ends without an error when no more is asked for, which takes a full sink, or when all
      -- of a content that can be decoded is there.
      obtain ⟨count, -, -, -, ended⟩ := collected
      rcases ended with nothing | ⟨all, decoded, -⟩
      · simp [askWithin, filled, chunkSize] at nothing
      · cases decoded
    | error e =>
      obtain ⟨_, rfl, decoded⟩ := collected
      cases decoded
      simp only [Extraction.ofRead, if_neg filled]
      rfl

theorem failsToDecode_of_stands (serves : source.Serves content)
    (ready : (a.plug source index).run r = (.ok plugged, r')) {error : DecodeError}
    (stands : plugged.stream.Stands content (.error error) 0) :
    a.FailsToDecode index source plugged r error := by
  obtain ⟨bytes, whole | ⟨limited, -⟩⟩ :=
    a.extraction_of_undecodable index none serves ready stands
  · refine ⟨⟨bytes, whole⟩, a.extract_of_extraction index whole, fun k => ?_, fun ask asks s =>
      MemberStream.collect_undecodable serves asks s stands⟩
    obtain ⟨bytes, met | ⟨-, full⟩⟩ :=
      a.extraction_of_undecodable index (some k) serves ready stands
    · exact .inl (a.extract_of_extraction index met)
    · exact .inr (a.extract_of_extraction index full)
  · cases limited

/-! ## Plugged members -/

/-- Extracting a member fails where plugging it fails, with nothing in the sink. Else it delivers
what the bytes in the member's range decode to, by the decoder that the local header names, or fails
as they cannot be decoded; nothing else of what is known of the member matters. A stored member is
delivered as it is. Reading the plugged stream to its end gives what is extracted, and fails just
where extracting tells that the content is corrupt. -/
theorem extraction_delivers (serves : source.Serves content) (a : Archive) (index : Nat)
    (r : Run σ) :
    (∀ error r', (a.plug source index).run r = (.error error, r') → ∀ limit,
      (a.extraction source index limit).run r = (.error error, r') ∧
        (a.extract source index limit).run r = (.error error, r')) ∧
    ∀ plugged r', (a.plug source index).run r = (.ok plugged, r') →
      ∃ m range stage, a.members[index]? = some m ∧ plugged.path = m.path ∧
        ((a.dataRange source index).run r).1 = .ok range ∧
        range.start ≤ range.stop ∧ range.stop ≤ content.size ∧
        range.header.method.stage? = some stage ∧
        let encoded := slice content range.start (range.stop - range.start)
        encoded.size = range.stop - range.start ∧
        (stage = .identity → stage.decode encoded = .ok encoded ∧
          ∃ count : UInt64, ((a.extract source index none).run r).1 = .ok ⟨encoded, count⟩ ∧
            count.toNat = range.stop - range.start) ∧
        (∀ all, stage.decode encoded = .ok all → a.Delivers index source plugged r all) ∧
        (∀ error, stage.decode encoded = .error error →
          a.FailsToDecode index source plugged r error) ∧
        ∀ ask : Nat → Nat, (∀ there, 0 < ask there) → ∀ s,
          let answer := (plugged.stream.collect source ask .empty s).1
          (∀ all, answer = (.ok (), all) ↔
            ((a.extract source index none).run r).1 = .ok ⟨all, all.size.toUInt64⟩) ∧
          ((∃ e, answer.1 = .error e) ↔
            ∃ defect, ((a.extract source index none).run r).1 = .error (.corrupt defect)) := by
  constructor
  · intro error r' failed limit
    have nothing := a.extraction_of_plug_error index limit failed
    exact ⟨nothing, a.extract_of_extraction_error index nothing⟩
  · intro plugged r' ready
    have result := (a.plug_yields index serves).result_eq r
    rw [ready] at result
    obtain ⟨m, range, stage, member, found, method, rfl⟩ := a.plugged_parts index result.symm
    have ranged : ((a.dataRange source index).run r).1 = .ok range := by
      rw [(a.dataRange_yields index serves).result_eq r, Archive.ranged, memberAt, member]
      dsimp only
      rw [bind_ok, found]
    obtain ⟨ordered, inside⟩ := Member.ranged_inside found
    have stands := new_stands found stage
    refine ⟨m, range, stage, member, rfl, ranged, ordered, inside, method,
      size_slice (by omega), ?_, ?_, ?_, ?_⟩
    · rintro rfl
      have size := @size_slice content range.start (range.stop - range.start) (by omega)
      have delivers := a.delivers_of_stands index serves ready stands
      have small : range.stop - range.start < offsetBound :=
        Nat.lt_of_le_of_lt (by omega) (Nat.lt_trans serves.size_lt (by decide))
      exact ⟨rfl, _, delivers.extracted, (delivers.counted (size.symm ▸ small)).trans size⟩
    · intro all decoded
      rw [decoded] at stands
      exact a.delivers_of_stands index serves ready stands
    · intro error failed
      rw [failed] at stands
      exact a.failsToDecode_of_stands index serves ready stands
    · intro ask asks s answer
      cases decoded : stage.decode (slice content range.start (range.stop - range.start)) with
      | ok all =>
        rw [decoded] at stands
        have delivers := a.delivers_of_stands index serves ready stands
        have read : answer = (.ok (), all) := delivers.read ask asks s
        rw [read, delivers.extracted]
        simp
      | error error =>
        rw [decoded] at stands
        have fails := a.failsToDecode_of_stands index serves ready stands
        have read : answer.1 = .error _ := fails.read ask asks s
        rw [fails.extracted, read]
        refine ⟨fun all => ⟨fun whole => ?_, fun whole => ?_⟩, fun _ => ⟨_, rfl⟩, fun _ => ⟨_, rfl⟩⟩
        · rw [whole] at read
          cases read
        · cases whole

end

/-- The three bytes of a stored file are delivered, to a sink for two bytes all but the last, and the
file next to it is not there. -/
theorem storedFile_delivered :
    let source := Source.ofContent "a.zip" Member.storedFile.toByteArray
    let a : Archive := ⟨#[Member.storedFileTold]⟩
    ((a.extraction source 0 none).run ⟨(), #[]⟩).1 = .ok ⟨⟨#[1, 2, 3]⟩, .ok 3⟩ ∧
      ((a.extraction source 0 (some 2)).run ⟨(), #[]⟩).1 =
        .ok ⟨⟨#[1, 2]⟩, .error (.io ⟨.sinkFull, none⟩)⟩ ∧
      ((a.extract source 1 none).run ⟨(), #[]⟩).1 = .error (.invalidIndex 1 1) := by
  intro source a
  have serves := Source.ofContent_serves "a.zip"
    (show Member.storedFile.toByteArray.size < fileOffsetLimit by
      rw [List.size_toByteArray]
      decide)
  have found : Member.storedFileTold.ranged source Member.storedFile.toByteArray =
      .ok Member.storedFileRange := by decide +kernel
  have plugged : ((a.plug source 0).run ⟨(), #[]⟩).1 = .ok ⟨[97], 3, .new .identity
      (.new Member.storedFile.toByteArray.size 31 34)⟩ := by
    rw [(a.plug_yields 0 serves).result_eq, Archive.plugged, memberAt,
      show a.members[0]? = some Member.storedFileTold from rfl]
    dsimp only
    rw [bind_ok, found, bind_ok]
    rfl
  have bytes : slice Member.storedFile.toByteArray Member.storedFileRange.start
      (Member.storedFileRange.stop - Member.storedFileRange.start) = ⟨#[1, 2, 3]⟩ := by
    decide +kernel
  obtain ⟨fails, stands⟩ := extraction_delivers serves a 0 ⟨(), #[]⟩
  obtain ⟨m, range, stage, -, -, ranged, -, -, method, -, same, delivers, -⟩ :=
    stands _ _ (Prod.ext plugged rfl)
  rw [(a.dataRange_yields 0 serves).result_eq, Archive.ranged, memberAt,
    show a.members[0]? = some Member.storedFileTold from rfl] at ranged
  dsimp only at ranged
  rw [bind_ok, found] at ranged
  cases ranged
  cases method
  have delivered := delivers _ (same rfl).1
  rw [bytes] at delivered
  have missing := (extraction_delivers serves a 1 ⟨(), #[]⟩).1 (.invalidIndex 1 1) _ rfl none
  exact ⟨delivered.whole, delivered.limited 2, congrArg Prod.fst missing.2⟩

end Archive
end ZipArchive
