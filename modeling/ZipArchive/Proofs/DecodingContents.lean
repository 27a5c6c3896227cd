import ZipArchive.Proofs.DecoderRuns
import ZipArchive.Proofs.Digesting
import ZipArchive.Proofs.StreamServing

/-!
# What a decoding comes to

A decoding in the middle of its work has seen a part of the encoded bytes and made a part of the
decoded ones. However the source serves its bytes, a read hands out the next part of what the
encoded bytes as a whole decode to, or fails as decoding them as a whole fails
(`Decoding.read_stands`).
-/
namespace ZipArchive.Decoding

variable {δ σ : Type} {decoder : Decoder δ} {source : Source σ} {content whole rest : ByteArray}
  {d d' : Decoding δ} {length : Nat}

/-- The decoding is at work on `whole`, of which it has not fetched `rest`: it has come to the end
that decoding all of it comes to, or going on from where it is leads there. -/
structure Decodes (decoder : Decoder δ) (whole rest : ByteArray) (d : Decoding δ) : Prop where
  split : whole = d.input ++ rest
  delivered_le : d.delivered ≤ d.output.size
  ahead :
    match d.halt with
    | .blocked | .starved =>
      decoder.LeadsTo whole d.state d.pos d.output (decoder.outcome whole)
    | halt => (decoder.outcome whole).halt = halt ∧ (decoder.outcome whole).output = d.output

theorem new_decodes (decoder : Decoder δ) (view : View) (whole : ByteArray) :
    (Decoding.new decoder view).Decodes decoder whole whole where
  split := ByteArray.empty_append.symm
  delivered_le := Nat.le_refl _
  ahead := decoder.outcome_leadsTo whole

/-- What has been made is a beginning of what there is to be made. -/
theorem Decodes.output_grows (decodes : d.Decodes decoder whole rest) :
    ∃ more, (decoder.outcome whole).output = d.output ++ more := by
  have ahead := decodes.ahead
  cases halted : d.halt with
  | blocked | starved =>
    rw [halted] at ahead
    exact ahead.output_grows
  | finished | failed =>
    rw [halted] at ahead
    exact ⟨.empty, by rw [ByteArray.append_empty, ahead.2]⟩

/-! ## Handing out -/

/-- The bytes that a read hands out are the next ones of those there are to be made, when `handed`
of them had been handed out before. No bytes mean that all have been handed out. -/
structure HandsOut (decoder : Decoder δ) (whole : ByteArray) (length handed : Nat)
    (bytes : ByteArray) (d' : Decoding δ) : Prop where
  next : bytes = slice (decoder.outcome whole).output handed bytes.size
  delivered : d'.delivered = handed + bytes.size
  size_le : bytes.size ≤ length
  ended : bytes.size = 0 → (decoder.outcome whole).halt = .finished ∧
    (decoder.outcome whole).output.size ≤ handed

theorem Decodes.deliver (decodes : d.Decodes decoder whole rest) (length : Nat) :
    (d.deliver length).2.Decodes decoder whole rest where
  split := decodes.split
  delivered_le := by
    have delivered := decodes.delivered_le
    simp only [Decoding.deliver, slice, ByteArray.size_extract]
    omega
  ahead := decodes.ahead

theorem Decodes.deliver_handsOut (decodes : d.Decodes decoder whole rest)
    (ended : d.output.size ≤ d.delivered ∨ length = 0 → (decoder.outcome whole).halt = .finished ∧
      (decoder.outcome whole).output.size ≤ d.delivered) :
    HandsOut decoder whole length d.delivered (d.deliver length).1 (d.deliver length).2 := by
  have delivered := decodes.delivered_le
  have size : (slice d.output d.delivered length).size =
      min length (d.output.size - d.delivered) := by
    rw [← slice_min, size_slice (by omega)]
  refine ⟨?_, rfl, size_slice_le _ _ _, ?_⟩
  · obtain ⟨more, grown⟩ := decodes.output_grows
    rw [Decoding.deliver, size, grown, slice_append_left _ (by omega), slice_min]
  · intro nothing
    rw [Decoding.deliver, size] at nothing
    exact ended (by omega)

/-! ## Making more -/

/-- The run that makes more output. -/
def producing (decoder : Decoder δ) (length : Nat) (d : Decoding δ) : Halted δ :=
  decoder.run d.input (some (d.room decoder length)) d.state d.pos d.output d.inside

theorem produce_eq (decoder : Decoder δ) (length : Nat) (d : Decoding δ) :
    (d.produce decoder length).halt = (d.producing decoder length).halt ∧
      (d.produce decoder length).state = (d.producing decoder length).state ∧
      (d.produce decoder length).pos = (d.producing decoder length).pos ∧
      (d.produce decoder length).output = (d.producing decoder length).output :=
  ⟨rfl, rfl, rfl, rfl⟩

/-- A decoding that has come to no end leads to what the input as a whole comes to. -/
theorem Decodes.leadsTo (decodes : d.Decodes decoder whole rest)
    (going : d.halt = .blocked ∨ d.halt = .starved) :
    decoder.LeadsTo whole d.state d.pos d.output (decoder.outcome whole) := by
  have ahead := decodes.ahead
  rcases going with blocked | starved
  · rwa [blocked] at ahead
  · rwa [starved] at ahead

theorem Decodes.produce (stable : decoder.Stable) (decodes : d.Decodes decoder whole rest)
    (going : d.halt = .blocked ∨ d.halt = .starved) :
    (d.produce decoder length).Decodes decoder whole rest := by
  have leads := decodes.leadsTo going
  rw [decodes.split] at leads
  have onward := @Decoder.run_leads δ decoder d.input d.output d.state d.pos _ stable rest
    (some (d.room decoder length)) d.inside leads
  obtain ⟨halt, state, pos, output⟩ := produce_eq decoder length d
  refine ⟨decodes.split, ?_, ?_⟩
  · obtain ⟨more, grown⟩ : ∃ more, (d.producing decoder length).output = d.output ++ more :=
      Decoder.run_output_grows
    rw [output, grown, ByteArray.size_append]
    exact Nat.le_trans decodes.delivered_le (Nat.le_add_right _ _)
  · change match (d.producing decoder length).halt with
      | .blocked | .starved => decoder.LeadsTo (d.input ++ rest) (d.producing decoder length).state
        (d.producing decoder length).pos (d.producing decoder length).output _
      | _ => _ = d.producing decoder length at onward
    rw [halt, state, pos, output]
    cases halted : (d.producing decoder length).halt with
    | blocked | starved =>
      rw [halted] at onward
      rw [decodes.split]
      exact onward
    | finished | failed =>
      rw [halted] at onward
      rw [decodes.split, onward]
      exact ⟨halted, rfl⟩

/-- There is room for the bytes that are asked for. -/
theorem length_le_room (stable : decoder.Stable) (d : Decoding δ) (length : Nat) :
    length ≤ d.room decoder length := by
  have positive := stable.stride_pos
  have parts := Nat.div_add_mod' (d.output.size + length + decoder.stride - 1) decoder.stride
  have small := Nat.mod_lt (d.output.size + length + decoder.stride - 1) positive
  unfold room
  omega

/-- Output that was made until there was no more room for it can be handed out. -/
theorem delivered_lt_of_blocked (stable : decoder.Stable) (wanted : 0 < length)
    (decodes : d.Decodes decoder whole rest)
    (blocked : (d.produce decoder length).halt = .blocked) :
    (d.produce decoder length).delivered < (d.produce decoder length).output.size := by
  have filled := Decoder.run_blocked blocked
  have room := length_le_room stable d length
  have delivered := decodes.delivered_le
  change d.delivered < (d.producing decoder length).output.size
  unfold producing
  omega

/-- A decoding that has made all it could hands out the next bytes, unless it needs more input or
has failed as the input as a whole does. -/
theorem Decodes.deliver_made (stable : decoder.Stable) (wanted : 0 < length)
    (decodes : d.Decodes decoder whole rest) (going : d.halt = .blocked ∨ d.halt = .starved)
    (here : (d.produce decoder length).halt = .blocked ∨
      (d.produce decoder length).halt = .finished ∨
      (d.produce decoder length).delivered < (d.produce decoder length).output.size) :
    ((d.produce decoder length).deliver length).2.Decodes decoder whole rest ∧
      HandsOut decoder whole length d.delivered ((d.produce decoder length).deliver length).1
        ((d.produce decoder length).deliver length).2 := by
  have made := @Decodes.produce δ decoder whole rest d length stable decodes going
  refine ⟨made.deliver length, ?_⟩
  -- Making output does not hand it out.
  change HandsOut decoder whole length (d.produce decoder length).delivered _ _
  apply made.deliver_handsOut
  intro nothing
  rcases here with blocked | finished | some
  · have some := delivered_lt_of_blocked stable wanted decodes blocked
    omega
  · have ahead := made.ahead
    rw [finished] at ahead
    refine ⟨ahead.1, ?_⟩
    rw [ahead.2]
    omega
  · omega

/-- A decoding that has failed, fails as the input as a whole does. -/
theorem Decodes.decode_of_failed (decodes : d.Decodes decoder whole rest) {error : DecodeError}
    (failed : d.halt = .failed error) : decoder.decode whole = .error error := by
  have ahead := decodes.ahead
  rw [failed] at ahead
  rw [Decoder.decode_eq, ahead.1]

/-- A decoding that needs more input when there is no more, fails as the input as a whole does. -/
theorem Decodes.decode_of_starved (decodes : d.Decodes decoder whole .empty)
    (going : d.halt = .blocked ∨ d.halt = .starved)
    (starved : (d.produce decoder length).halt = .starved) :
    decoder.decode whole = .error decoder.incomplete := by
  have leads := decodes.leadsTo going
  have whole_eq := decodes.split
  rw [ByteArray.append_empty] at whole_eq
  subst whole_eq
  have ended : (decoder.outcome d.input).halt = .starved := Decoder.run_starved leads starved
  rw [Decoder.decode_eq, ended]

/-- What there is to do for a decoding that has not failed. -/
theorem digest_unfailed (unfailed : ∀ error, d.halt ≠ .failed error) (ended : Bool) :
    d.digest decoder length ended =
      if d.delivered < d.output.size then .inl (.ok (d.deliver length).1, (d.deliver length).2)
      else
        match (d.produce decoder length).halt with
        | .failed error => .inl (.error ⟨.undecodable error, none⟩, d.produce decoder length)
        | .starved =>
          if (d.produce decoder length).delivered < (d.produce decoder length).output.size then
            .inl (.ok ((d.produce decoder length).deliver length).1,
              ((d.produce decoder length).deliver length).2)
          else if ended then
            .inl (.error ⟨.undecodable decoder.incomplete, none⟩, d.produce decoder length)
          else .inr (d.produce decoder length)
        | _ => .inl (.ok ((d.produce decoder length).deliver length).1,
            ((d.produce decoder length).deliver length).2) := by
  unfold digest
  cases halted : d.halt with
  | failed error => exact absurd halted (unfailed error)
  | _ => rfl

/-- What a decoding whose input has just been filled gives is the next part of what there is to be
made, or the failure that the input as a whole comes to. -/
theorem Decodes.digest (stable : decoder.Stable) (wanted : 0 < length)
    (decodes : d.Decodes decoder whole rest) (undone : d.isDone = false) {ended : Bool}
    (last : ended = true → rest = .empty) :
    match d.digest decoder length ended with
    | .inl (.ok bytes, d') =>
      d'.Decodes decoder whole rest ∧ HandsOut decoder whole length d.delivered bytes d'
    | .inl (.error e, _) =>
      ∃ error, e = ⟨.undecodable error, none⟩ ∧ decoder.decode whole = .error error
    | .inr d' => d'.Decodes decoder whole rest ∧ d'.delivered = d.delivered := by
  have ahead := decodes.ahead
  have delivered : ∀ {m : Decoding δ}, m.Decodes decoder whole rest →
      m.delivered < m.output.size →
      (m.deliver length).2.Decodes decoder whole rest ∧
        HandsOut decoder whole length m.delivered (m.deliver length).1 (m.deliver length).2 :=
    fun decodes some => ⟨decodes.deliver length, decodes.deliver_handsOut (by omega)⟩
  -- Only what has stopped for want of room or of input can go on.
  have going_on : d.halt = .blocked ∨ d.halt = .starved →
    match d.digest decoder length ended with
    | .inl (.ok bytes, d') =>
      d'.Decodes decoder whole rest ∧ HandsOut decoder whole length d.delivered bytes d'
    | .inl (.error e, _) =>
      ∃ error, e = ⟨.undecodable error, none⟩ ∧ decoder.decode whole = .error error
    | .inr d' => d'.Decodes decoder whole rest ∧ d'.delivered = d.delivered := by
    intro going
    have unfailed : ∀ error, d.halt ≠ .failed error := by
      intro error failed
      rcases going with halted | halted <;> rw [halted] at failed <;> cases failed
    rw [digest_unfailed unfailed]
    by_cases some : d.delivered < d.output.size
    · rw [if_pos some]
      exact delivered decodes some
    rw [if_neg some]
    have made := @Decodes.produce δ decoder whole rest d length stable decodes going
    cases halted : (d.produce decoder length).halt with
    | failed error => exact ⟨error, rfl, made.decode_of_failed halted⟩
    | blocked => exact decodes.deliver_made stable wanted going (.inl halted)
    | finished => exact decodes.deliver_made stable wanted going (.inr (.inl halted))
    | starved =>
      by_cases some : (d.produce decoder length).delivered < (d.produce decoder length).output.size
      · simp only [some, if_true]
        exact decodes.deliver_made stable wanted going (.inr (.inr some))
      · cases ended with
        | false =>
          simp only [some, if_false, Bool.false_eq_true]
          exact ⟨made, rfl⟩
        | true =>
          simp only [some, if_false, if_true]
          have all := last rfl
          subst all
          exact ⟨decoder.incomplete, rfl, decodes.decode_of_starved going halted⟩
  cases halted : d.halt with
  | failed error =>
    rw [halted] at ahead
    unfold Decoding.digest
    rw [halted]
    exact ⟨error, rfl, by rw [Decoder.decode_eq, ahead.1]⟩
  | finished =>
    have some : d.delivered < d.output.size := by
      simpa [isDone, halted] using undone
    unfold Decoding.digest
    simp only [halted, some, if_true]
    exact delivered decodes some
  | blocked => exact going_on (.inl halted)
  | starved => exact going_on (.inr halted)

/-! ## Reading -/

/-- The decoding is at work on `whole`, and what it has not fetched of it is what its view has not
given. -/
structure Stands (decoder : Decoder δ) (content whole : ByteArray) (d : Decoding δ) : Prop where
  inside : d.view.WellFormed content.size
  decodes : d.Decodes decoder whole (slice content d.view.pos (d.view.stop - d.view.pos))

theorem new_stands (decoder : Decoder δ) {view : View} (inside : view.WellFormed content.size) :
    (Decoding.new decoder view).Stands decoder content
      (slice content view.pos (view.stop - view.pos)) where
  inside := inside
  decodes := new_decodes decoder view _

/-- A block that is fetched is the next part of the encoded bytes. -/
theorem Stands.fill (serves : source.Serves content) (stands : d.Stands decoder content whole)
    (s : σ) :
    match d.fill source s with
    | (.ok ended, d', _) =>
      d'.Stands decoder content whole ∧ d'.delivered = d.delivered ∧ d'.isDone = d.isDone ∧
        (ended = true → slice content d'.view.pos (d'.view.stop - d'.view.pos) = .empty)
    | (.error e, d', _) =>
      e.isInterrupted = true ∧ d'.Stands decoder content whole ∧ d'.delivered = d.delivered := by
  unfold Decoding.fill
  by_cases more : d.consumed < d.input.size
  · simp only [more, if_true]
    exact ⟨stands, trivial, trivial, fun ended => by cases ended⟩
  simp only [more, if_false]
  have kept := View.read_wellFormed serves stands.inside blockSize s
  rcases answer : d.view.read source blockSize s with ⟨e | block, view, s'⟩
  · obtain ⟨again, rfl⟩ := View.read_error_serves serves stands.inside answer
    exact ⟨again, stands, rfl⟩
  · rw [answer] at kept
    obtain ⟨given, rfl, bound, some⟩ := View.read_ok_serves serves stands.inside answer
    have parts := slice_append_slice content d.view.pos block.size
      (d.view.stop - (d.view.pos + block.size))
    have lengths : block.size + (d.view.stop - (d.view.pos + block.size)) =
        d.view.stop - d.view.pos := by omega
    rw [← given, lengths] at parts
    refine ⟨⟨kept, ?_, stands.decodes.delivered_le, stands.decodes.ahead⟩, rfl, rfl, ?_⟩
    · change whole = d.input ++ block ++ _
      rw [ByteArray.append_assoc, parts]
      exact stands.decodes.split
    · intro ended
      have positive : 0 < blockSize := by decide
      have none : block.size = 0 := by simpa [ByteArray.isEmpty] using ended
      have used_up : d.view.stop - (d.view.pos + block.size) = 0 := by omega
      change slice content _ (d.view.stop - (d.view.pos + block.size)) = .empty
      rw [used_up, slice_zero]

/-- However the source answers, a read hands out the next part of what the encoded bytes decode to,
is interrupted, or fails as decoding them fails. -/
theorem read_stands (stable : decoder.Stable) (serves : source.Serves content)
    (wanted : 0 < length) (d : Decoding δ) (s : σ) (stands : d.Stands decoder content whole) :
    match d.read decoder source length s with
    | (.ok bytes, d', _) =>
      d'.Stands decoder content whole ∧ HandsOut decoder whole length d.delivered bytes d'
    | (.error e, d', _) =>
      (e.isInterrupted = true ∧ d'.Stands decoder content whole ∧ d'.delivered = d.delivered) ∨
        ∃ error, e = ⟨.undecodable error, none⟩ ∧ decoder.decode whole = .error error := by
  induction d, s using read_induction decoder source length with
  | step d s ih =>
    by_cases done : d.isDone
    · rw [read_nothing (.inr done)]
      have finished : d.halt = .finished ∧ d.output.size ≤ d.delivered := by
        simpa [isDone] using done
      have ahead := stands.decodes.ahead
      rw [finished.1] at ahead
      refine ⟨stands, (slice_zero _ _).symm, rfl, Nat.zero_le _, fun _ => ⟨ahead.1, ?_⟩⟩
      rw [ahead.2]
      exact finished.2
    rw [read_eq (by simpa [done] using Nat.ne_of_gt wanted)]
    have filled := stands.fill serves s
    rcases answer : d.fill source s with ⟨e | ended, d₁, s₁⟩
    · rw [answer] at filled
      exact .inl filled
    rw [answer] at filled
    obtain ⟨stands₁, delivered, same, last⟩ := filled
    have digested := stands₁.decodes.digest stable wanted (by simpa [same] using done) last
    dsimp only
    rcases next : d₁.digest decoder length ended with ⟨e | bytes, d'⟩ | d'
    · rw [next] at digested
      exact .inr digested
    · rw [next, delivered] at digested
      have view := (digest_answered next).1
      exact ⟨⟨view ▸ stands₁.inside, view ▸ digested.1⟩, digested.2⟩
    · rw [next] at digested
      have view := (digest_more next).2.1
      have onward := ih ended d₁ s₁ d' answer next ⟨view ▸ stands₁.inside, view ▸ digested.1⟩
      rw [digested.2, delivered] at onward
      exact onward

end ZipArchive.Decoding
