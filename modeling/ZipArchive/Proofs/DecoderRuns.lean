import ZipArchive.Decode.Decoder

/-!
# Decoders and the pieces of their input

A run of a decoder that stops for want of input or of room can be gone on with later. When each step
does the same with longer input (`Decoder.Stable`), going on comes to what a single run of the whole
input comes to (`run_leads`), so that it does not matter in what pieces input arrives or output is
taken.
-/
namespace ZipArchive

namespace Decoder

variable {δ : Type} {decoder : Decoder δ}

/-- Running on from a state without a bound on the output ends like this. -/
def LeadsTo (decoder : Decoder δ) (input : ByteArray) (state : δ) (pos : Nat) (output : ByteArray)
    (halted : Halted δ) : Prop :=
  ∃ inside, decoder.run input none state pos output inside = halted

/-- A run starts within its input. -/
theorem start_inside (input : ByteArray) : 0 ≤ bitLength input := Nat.zero_le _

/-- How a single run of the whole input ends. -/
def outcome (decoder : Decoder δ) (input : ByteArray) : Halted δ :=
  decoder.run input none decoder.start 0 .empty (start_inside input)

theorem outcome_leadsTo (decoder : Decoder δ) (input : ByteArray) :
    decoder.LeadsTo input decoder.start 0 .empty (decoder.outcome input) := ⟨_, rfl⟩

theorem decode_eq (decoder : Decoder δ) (input : ByteArray) :
    decoder.decode input =
      match (decoder.outcome input).halt with
      | .finished => .ok (decoder.outcome input).output
      | .failed error => .error error
      | _ => .error decoder.incomplete := rfl

theorem decode_eq_ok {input output : ByteArray} :
    decoder.decode input = .ok output ↔
      (decoder.outcome input).halt = .finished ∧ (decoder.outcome input).output = output := by
  rw [decode_eq]
  cases (decoder.outcome input).halt with
  | finished => simp
  | _ => simp

/-! ## Runs -/

section
variable {input output : ByteArray} {state : δ} {pos : Nat} {result : Halted δ}

/-- How a run goes on by one step. -/
theorem LeadsTo.step (leads : decoder.LeadsTo input state pos output result) :
    match decoder.step state output input pos with
    | .advance state' next => decoder.LeadsTo input state' next output result
    | .emit byte state' next => decoder.LeadsTo input state' next (output.push byte) result
    | .starved state' => result = ⟨.starved, state', pos, output⟩
    | .finished state' => result = ⟨.finished, state', pos, output⟩
    | .failed error => result = ⟨.failed error, decoder.start, pos, output⟩ := by
  obtain ⟨inside, rfl⟩ := leads
  fun_cases Decoder.run decoder input none state pos output inside with
  | case1 full => cases full.1
  | case2 _ state' next step =>
    rw [step]
    exact ⟨_, rfl⟩
  | case3 _ byte state' next step =>
    rw [step]
    exact ⟨_, rfl⟩
  | case4 _ state' step => rw [step]
  | case5 _ state' step => rw [step]
  | case6 _ error step => rw [step]

/-- A run of the first part of the input is the beginning of a run of the whole: it has come to the
same end, or the whole run goes on from where it has stopped. -/
theorem run_leads (stable : decoder.Stable) {suffix : ByteArray} {room : Option Nat}
    {inside : pos ≤ bitLength input}
    (leads : decoder.LeadsTo (input ++ suffix) state pos output result) :
    let halted := decoder.run input room state pos output inside
    match halted.halt with
    | .blocked | .starved =>
      decoder.LeadsTo (input ++ suffix) halted.state halted.pos halted.output result
    | _ => result = halted := by
  have whole := fun state pos output => stable.step_append state output input pos suffix
  fun_induction Decoder.run decoder input room state pos output inside with
  | case1 => exact leads
  | case2 room state pos output inside _ state' next step forward ih =>
    have same := whole state pos output inside (by simp [step])
    have onward := leads.step
    rw [same, step] at onward
    exact ih onward
  | case3 room state pos output inside _ byte state' next step forward ih =>
    have same := whole state pos output inside (by simp [step])
    have onward := leads.step
    rw [same, step] at onward
    exact ih onward
  | case4 room state pos output inside _ state' step =>
    rw [decoder.starved_same _ _ _ _ _ step]
    exact leads
  | case5 room state pos output inside _ state' step =>
    have same := whole state pos output inside (by simp [step])
    have ended := leads.step
    rwa [same, step] at ended
  | case6 room state pos output inside _ error step =>
    have same := whole state pos output inside (by simp [step])
    have ended := leads.step
    rwa [same, step] at ended

/-- A run that has used up the whole input leads nowhere else. -/
theorem run_starved {room : Option Nat} {inside : pos ≤ bitLength input}
    (leads : decoder.LeadsTo input state pos output result)
    (starved : (decoder.run input room state pos output inside).halt = .starved) :
    result.halt = .starved := by
  fun_induction Decoder.run decoder input room state pos output inside with
  | case1 => cases starved
  | case2 room state pos output inside _ state' next step forward ih =>
    have onward := leads.step
    rw [step] at onward
    exact ih onward starved
  | case3 room state pos output inside _ byte state' next step forward ih =>
    have onward := leads.step
    rw [step] at onward
    exact ih onward starved
  | case4 room state pos output inside _ state' step =>
    have ended := leads.step
    rw [step] at ended
    rw [ended]
  | case5 => cases starved
  | case6 => cases starved

/-- A run only adds to the output. -/
theorem run_output_grows {room : Option Nat} {inside : pos ≤ bitLength input} :
    ∃ more, (decoder.run input room state pos output inside).output = output ++ more := by
  fun_induction Decoder.run decoder input room state pos output inside with
  | case2 room state pos output inside _ state' next step forward ih => exact ih
  | case3 room state pos output inside _ byte state' next step forward ih =>
    obtain ⟨more, grown⟩ := ih
    have pushed : output.push byte = output ++ ByteArray.push .empty byte := by
      ext1
      simp
    exact ⟨ByteArray.push .empty byte ++ more, by rw [grown, pushed, ByteArray.append_assoc]⟩
  | _ => exact ⟨.empty, ByteArray.append_empty.symm⟩

theorem LeadsTo.output_grows (leads : decoder.LeadsTo input state pos output result) :
    ∃ more, result.output = output ++ more := by
  obtain ⟨inside, rfl⟩ := leads
  exact run_output_grows

/-- A run that stops for want of room has filled the room. -/
theorem run_blocked {room : Nat} {inside : pos ≤ bitLength input}
    (blocked : (decoder.run input (some room) state pos output inside).halt = .blocked) :
    output.size + room ≤ (decoder.run input (some room) state pos output inside).output.size := by
  generalize bound : some room = bounded at blocked ⊢
  fun_induction Decoder.run decoder input bounded state pos output inside generalizing room with
  | case1 bounded state pos output inside full =>
    rw [full.1] at bound
    cases bound
    exact Nat.le_refl _
  | case2 bounded state pos output inside _ state' next step forward ih => exact ih bound blocked
  | case3 bounded state pos output inside _ byte state' next step forward ih =>
    subst bound
    have rest := @ih (room - 1) rfl blocked
    rw [ByteArray.size_push] at rest
    omega
  | _ => cases blocked

end

end Decoder

end ZipArchive
