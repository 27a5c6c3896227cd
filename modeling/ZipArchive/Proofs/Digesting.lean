import ZipArchive.Stream

/-!
# Reading a decoding, fill by fill

A read of a decoding fetches input and then either answers or needs more (`Decoding.digest`), which
depends on the input alone. `Decoding.read_eq` and `Decoding.read_induction` see a read as a row of
such steps.
-/
namespace ZipArchive.Decoding

variable {δ σ : Type} {decoder : Decoder δ} {source : Source σ} {length : Nat}

/-- What is done with a decoding whose input has just been filled: a result is given, or more input
is fetched. -/
def digest (decoder : Decoder δ) (length : Nat) (ended : Bool) (d : Decoding δ) :
    Except IoError ByteArray × Decoding δ ⊕ Decoding δ :=
  match d.halt with
  | .failed error => .inl (.error ⟨.undecodable error, none⟩, d)
  | _ =>
    if d.delivered < d.output.size then .inl (.ok (d.deliver length).1, (d.deliver length).2)
    else
      let made := d.produce decoder length
      match made.halt with
      | .failed error => .inl (.error ⟨.undecodable error, none⟩, made)
      | .starved =>
        if made.delivered < made.output.size then
          .inl (.ok (made.deliver length).1, (made.deliver length).2)
        else if ended then .inl (.error ⟨.undecodable decoder.incomplete, none⟩, made)
        else .inr made
      | _ => .inl (.ok (made.deliver length).1, (made.deliver length).2)

theorem read_nothing {d : Decoding δ} (nothing : length = 0 ∨ d.isDone) (s : σ) :
    d.read decoder source length s = (.ok .empty, d, s) := by
  rw [read, if_pos nothing]

theorem read_eq {d : Decoding δ} (wanted : ¬ (length = 0 ∨ d.isDone)) (s : σ) :
    d.read decoder source length s =
      match d.fill source s with
      | (.error e, filled, s') => (.error e, filled, s')
      | (.ok ended, filled, s') =>
        match filled.digest decoder length ended with
        | .inl (result, d') => (result, d', s')
        | .inr d' => d'.read decoder source length s' := by
  rw [read, if_neg wanted]
  split
  · rename_i answer
    rw [answer]
  · rename_i ended filled s' answer
    rw [answer]
    unfold digest
    split
    · rename_i error halted
      simp only [halted]
    · by_cases more : filled.delivered < filled.output.size
      · simp only [more, if_true]
      · simp only [more, if_false]
        cases (filled.produce decoder length).halt with
        | failed error => rfl
        | starved =>
          dsimp only
          split
          · rfl
          · split <;> rfl
        | blocked => rfl
        | finished => rfl

/-- More input is only fetched when there is some and all that was fetched has been used up. -/
theorem digest_more {d d' : Decoding δ} {ended : Bool}
    (more : d.digest decoder length ended = .inr d') :
    ended = false ∧ d'.view = d.view ∧ d'.input = d.input ∧ d'.consumed = d.input.size := by
  unfold digest at more
  split at more
  · cases more
  · by_cases delivered : d.delivered < d.output.size
    · rw [if_pos delivered] at more
      cases more
    · rw [if_neg delivered] at more
      cases halted : (d.produce decoder length).halt with
      | starved =>
        simp only [halted] at more
        split at more
        · cases more
        · split at more
          · cases more
          · rename_i unended
            cases more
            obtain ⟨view, input, _⟩ := produce_frame decoder d length
            exact ⟨Bool.eq_false_iff.mpr unended, view, input, consumed_produce decoder halted⟩
      | _ =>
        simp only [halted] at more
        cases more

/-- Something holds of a read if, where the read needs more input, it holds of reading on. -/
theorem read_induction (decoder : Decoder δ) (source : Source σ) (length : Nat)
    {motive : Decoding δ → σ → Prop}
    (step : ∀ d s, (∀ ended filled s' d', d.fill source s = (.ok ended, filled, s') →
      filled.digest decoder length ended = .inr d' → motive d' s') → motive d s)
    (d : Decoding δ) (s : σ) : motive d s :=
  step d s fun _ _ s' d' _ _ => read_induction decoder source length step d' s'
termination_by (d.view.remaining, d.input.size - d.consumed)
decreasing_by
  rename_i answer more
  obtain ⟨unended, view, input, used⟩ := digest_more more
  rw [view, input, used]
  rcases fill_ok source answer with ⟨rfl, rfl, _, unused⟩ | ⟨less, _⟩ | ⟨_, ended, _⟩
  · exact .right _ (by omega)
  · exact .left _ _ less
  · rw [unended] at ended
    cases ended

end ZipArchive.Decoding
