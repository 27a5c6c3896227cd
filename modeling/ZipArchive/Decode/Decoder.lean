import ZipArchive.Decode.Bits
import ZipArchive.IoError

/-!
# Decoders

A decoder turns input bits into output bytes in small steps. A step sees the input so far, the
position in it and the output so far, and either moves on, or emits one byte, or wants more input,
or ends. What a decoder does with its input as a whole (`Decoder.decode`) does not depend on the
pieces that the input arrives in, nor on how much output is taken at a time (`Decoder.run`).
-/
namespace ZipArchive

/-- What one step of a decoder does. -/
inductive DecodeStep (δ : Type) where
  /-- Goes on at a later position. -/
  | advance (state : δ) (pos : Nat)
  | emit (byte : UInt8) (state : δ) (pos : Nat)
  /-- Needs more input, and hands the state back. -/
  | starved (state : δ)
  /-- Has come to the end, and hands the state back. -/
  | finished (state : δ)
  | failed (error : DecodeError)

/-- A decoder with states of type `δ`. -/
structure Decoder (δ : Type) where
  start : δ
  /-- The failure of input that ends too early. -/
  incomplete : DecodeError
  /-- Whether the next step emits a byte, unless it needs more input. -/
  emits : δ → Bool
  step : δ → (output input : ByteArray) → (pos : Nat) → DecodeStep δ
  /-- Output is made in pieces that end at multiples of this number. -/
  stride : Nat
  /-- How many bytes can still be emitted without moving on. -/
  owed : δ → Nat
  advance_forward : ∀ state output input pos state' next, pos ≤ bitLength input →
    step state output input pos = .advance state' next → pos < next ∧ next ≤ bitLength input
  emit_forward : ∀ state output input pos byte state' next, pos ≤ bitLength input →
    step state output input pos = .emit byte state' next →
    (pos < next ∨ pos = next ∧ owed state' < owed state) ∧ next ≤ bitLength input
  starved_same : ∀ state output input pos state',
    step state output input pos = .starved state' → state' = state
  finished_same : ∀ state output input pos state',
    step state output input pos = .finished state' → state' = state

/-- What a step does with some input, it does with any longer one, unless it needs more. -/
structure Decoder.Stable {δ : Type} (decoder : Decoder δ) : Prop where
  step_append : ∀ state output input pos suffix, pos ≤ bitLength input →
    (∀ state', decoder.step state output input pos ≠ .starved state') →
    decoder.step state output (input ++ suffix) pos = decoder.step state output input pos
  stride_pos : 0 < decoder.stride

/-- Why a run of a decoder stopped. -/
inductive Halt where
  /-- A byte is to be emitted and there is no room for it. -/
  | blocked
  | starved
  | finished
  | failed (error : DecodeError)
  deriving DecidableEq, Repr

/-- Where a run of a decoder stopped. -/
structure Halted (δ : Type) where
  halt : Halt
  state : δ
  pos : Nat
  output : ByteArray

namespace Decoder

variable {δ : Type} (decoder : Decoder δ)

/-- Takes steps until something is in the way: no room, no input, an end or a failure. Output is put
behind the output so far, up to `room` bytes of it; without a bound there is always room. -/
def run (input : ByteArray) (room : Option Nat) (state : δ) (pos : Nat) (output : ByteArray)
    (inside : pos ≤ bitLength input) : Halted δ :=
  if room = some 0 ∧ decoder.emits state then ⟨.blocked, state, pos, output⟩
  else
    match h : decoder.step state output input pos with
    | .advance state' next =>
      have forward := decoder.advance_forward _ _ _ _ _ _ inside h
      run input room state' next output forward.2
    | .emit byte state' next =>
      have forward := decoder.emit_forward _ _ _ _ _ _ _ inside h
      run input (room.map (· - 1)) state' next (output.push byte) forward.2
    | .starved state' => ⟨.starved, state', pos, output⟩
    | .finished state' => ⟨.finished, state', pos, output⟩
    | .failed error => ⟨.failed error, decoder.start, pos, output⟩
termination_by (bitLength input - pos, decoder.owed state)
decreasing_by
  · exact .left _ _ (by omega)
  · rcases forward.1 with later | ⟨here, fewer⟩
    · exact .left _ _ (by omega)
    · subst here
      exact .right _ fewer

theorem run_pos_le {input : ByteArray} {room : Option Nat} {state : δ} {pos : Nat}
    {output : ByteArray} {inside : pos ≤ bitLength input} :
    (decoder.run input room state pos output inside).pos ≤ bitLength input := by
  fun_induction Decoder.run decoder input room state pos output inside
  case case1 | case4 | case5 | case6 => assumption
  case case2 ih | case3 ih => exact ih

/-- A run that does not fail either gets on or leaves everything as it was. -/
theorem run_progress {input : ByteArray} {room : Option Nat} {state : δ} {pos : Nat}
    {output : ByteArray} {inside : pos ≤ bitLength input}
    (sound : ∀ error, (decoder.run input room state pos output inside).halt ≠ .failed error) :
    let halted := decoder.run input room state pos output inside
    (pos < halted.pos ∨ pos = halted.pos ∧ decoder.owed halted.state < decoder.owed state) ∨
      (halted.pos = pos ∧ halted.state = state ∧ halted.output = output) := by
  fun_induction Decoder.run decoder input room state pos output inside with
  | case1 => exact .inr ⟨rfl, rfl, rfl⟩
  | case2 room state pos output inside _ state' next step forward ih =>
    have := ih sound
    omega
  | case3 room state pos output inside _ byte state' next step forward ih =>
    rcases ih sound with later | ⟨here, same, _⟩
    · omega
    · simp only [here, same]
      omega
  | case4 room state pos output inside _ state' step =>
    exact .inr ⟨rfl, decoder.starved_same _ _ _ _ _ step, rfl⟩
  | case5 room state pos output inside _ state' step =>
    exact .inr ⟨rfl, decoder.finished_same _ _ _ _ _ step, rfl⟩
  | case6 => exact absurd rfl (sound _)

/-- The output of the input as a whole. Bytes behind the end of the encoded data are ignored. -/
def decode (input : ByteArray) : Except DecodeError ByteArray :=
  let halted := decoder.run input none decoder.start 0 .empty (Nat.zero_le _)
  match halted.halt with
  | .finished => .ok halted.output
  | .failed error => .error error
  | _ => .error decoder.incomplete

end Decoder
end ZipArchive
