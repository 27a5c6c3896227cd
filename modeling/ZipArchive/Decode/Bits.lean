/-!
# Reading bits

Compressed data is read bit by bit from input that may still grow. A reader either finds a value and
moves on, or wants more input, or refuses what it sees. Two laws are part of the type. A reader only
moves forward, within the input. And what it finds or refuses, it finds or refuses in every longer
input as well, so that it does not matter in what pieces the input arrives.
-/
namespace ZipArchive

/-- The number of bits of some input. -/
def bitLength (input : ByteArray) : Nat := 8 * input.size

inductive BitResult (α : Type) where
  | found (value : α) (pos : Nat)
  | more
  | refused
  deriving DecidableEq, Repr

/-- Reads a value of type `α` from some input, at a position told in bits. -/
structure BitReader (α : Type) where
  read : ByteArray → Nat → BitResult α
  forward : ∀ input pos value next, pos ≤ bitLength input → read input pos = .found value next →
    pos ≤ next ∧ next ≤ bitLength input
  found_append : ∀ input pos value next suffix, pos ≤ bitLength input →
    read input pos = .found value next → read (input ++ suffix) pos = .found value next
  refused_append : ∀ input pos suffix, pos ≤ bitLength input →
    read input pos = .refused → read (input ++ suffix) pos = .refused

theorem bitLength_append (input suffix : ByteArray) :
    bitLength (input ++ suffix) = bitLength input + bitLength suffix := by
  simp only [bitLength, ByteArray.size_append]
  omega

namespace BitReader

variable {α β : Type}

/-- What a reader decides, it decides in every longer input. -/
theorem read_append (r : BitReader α) {input : ByteArray} {pos : Nat}
    (suffix : ByteArray) (inside : pos ≤ bitLength input) (decided : r.read input pos ≠ .more) :
    r.read (input ++ suffix) pos = r.read input pos := by
  cases read : r.read input pos with
  | found value next => exact r.found_append _ _ _ _ suffix inside read
  | more => exact absurd read decided
  | refused => exact r.refused_append _ _ suffix inside read

@[inline] def pure (value : α) : BitReader α where
  read _ pos := .found value pos
  forward := by
    intro input pos value next inside h
    simp only [BitResult.found.injEq] at h
    omega
  found_append := by
    intro input pos value next suffix inside h
    exact h
  refused_append := by simp

@[inline] def refuse : BitReader α where
  read _ _ := .refused
  forward := by simp
  found_append := by simp
  refused_append := by simp

@[inline] def bind (r : BitReader α) (f : α → BitReader β) : BitReader β where
  read input pos :=
    match r.read input pos with
    | .found value next => (f value).read input next
    | .more => .more
    | .refused => .refused
  forward := by
    intro input pos value next inside h
    split at h
    · rename_i first middle step
      have here := r.forward _ _ _ _ inside step
      have there := (f first).forward _ _ _ _ here.2 h
      omega
    · simp at h
    · simp at h
  found_append := by
    intro input pos value next suffix inside h
    split at h
    · rename_i first middle step
      have here := r.forward _ _ _ _ inside step
      rw [r.found_append _ _ _ _ suffix inside step]
      exact (f first).found_append _ _ _ _ suffix here.2 h
    · simp at h
    · simp at h
  refused_append := by
    intro input pos suffix inside h
    split at h
    · rename_i first middle step
      have here := r.forward _ _ _ _ inside step
      rw [r.found_append _ _ _ _ suffix inside step]
      exact (f first).refused_append _ _ suffix here.2 h
    · simp at h
    · rename_i step
      rw [r.refused_append _ _ suffix inside step]

instance : Monad BitReader where
  pure := pure
  bind := bind

/-- Every value that the reader finds costs it at least one bit. -/
def Moves (r : BitReader α) : Prop :=
  ∀ input pos value next, pos ≤ bitLength input → r.read input pos = .found value next → pos < next

theorem Moves.bind {r : BitReader α} {f : α → BitReader β} (moves : r.Moves) :
    (r >>= f).Moves := by
  intro input pos value next inside h
  change (r.bind f).read input pos = _ at h
  unfold BitReader.bind at h
  dsimp only at h
  split at h
  · rename_i first middle step
    have here := moves _ _ _ _ inside step
    have range := r.forward _ _ _ _ inside step
    have there := (f first).forward _ _ _ _ range.2 h
    omega
  · simp at h
  · simp at h

/-- Refuses unless the condition holds. -/
@[inline] def require (condition : Bool) : BitReader Unit :=
  if condition then pure () else refuse

/-- Moves on to the next byte boundary. -/
def align : BitReader Unit where
  read input pos :=
    if (pos + 7) / 8 ≤ input.size then .found () ((pos + 7) / 8 * 8) else .more
  forward := by
    intro input pos value next inside h
    split at h
    · simp only [BitResult.found.injEq, true_and] at h
      simp only [bitLength]
      omega
    · simp at h
  found_append := by
    intro input pos value next suffix inside h
    split at h
    · rename_i fits
      rw [if_pos (by rw [ByteArray.size_append]; omega)]
      exact h
    · simp at h
  refused_append := by
    intro input pos suffix inside h
    split at h <;> simp at h

/-- Runs a step again and again until it gives a value. A step that goes on without having moved
forward is refused. -/
def loopAt (step : β → BitReader (β ⊕ α)) (input : ByteArray) (state : β) (pos : Nat) :
    BitResult α :=
  match (step state).read input pos with
  | .found (.inr value) next => .found value next
  | .found (.inl state') next =>
    if pos < next ∧ next ≤ bitLength input then loopAt step input state' next else .refused
  | .more => .more
  | .refused => .refused
termination_by bitLength input - pos

theorem loopAt_forward {step : β → BitReader (β ⊕ α)} {input : ByteArray} {state : β}
    {pos next : Nat} {value : α} (inside : pos ≤ bitLength input)
    (h : loopAt step input state pos = .found value next) :
    pos ≤ next ∧ next ≤ bitLength input := by
  fun_induction loopAt step input state pos with
  | case1 state pos value' next' found =>
    simp only [BitResult.found.injEq] at h
    have := (step state).forward _ _ _ _ inside found
    omega
  | case2 state pos state' next' found moved ih =>
    have := ih moved.2 h
    omega
  | case3 | case4 | case5 => simp at h

theorem loopAt_append {step : β → BitReader (β ⊕ α)} {input : ByteArray} {state : β} {pos : Nat}
    (suffix : ByteArray) (inside : pos ≤ bitLength input)
    (h : loopAt step input state pos ≠ .more) :
    loopAt step (input ++ suffix) state pos = loopAt step input state pos := by
  fun_induction loopAt step input state pos with
  | case1 state pos value next found =>
    rw [loopAt, (step state).found_append _ _ _ _ suffix inside found]
  | case2 state pos state' next found moved ih =>
    have further : pos < next ∧ next ≤ bitLength (input ++ suffix) := by
      rw [bitLength_append]
      omega
    rw [loopAt, (step state).found_append _ _ _ _ suffix inside found]
    simp only [further, and_self, if_true]
    exact ih moved.2 h
  | case3 state pos state' next found still =>
    have range := (step state).forward _ _ _ _ inside found
    rw [loopAt, (step state).found_append _ _ _ _ suffix inside found]
    simp only [show ¬ (pos < next ∧ next ≤ bitLength (input ++ suffix)) by omega, if_false]
  | case4 => exact absurd rfl h
  | case5 state pos refused =>
    rw [loopAt, (step state).refused_append _ _ suffix inside refused]

/-- Runs a step again and again until it gives a value. -/
def loop (step : β → BitReader (β ⊕ α)) (state : β) : BitReader α where
  read input pos := loopAt step input state pos
  forward := by
    intro input pos value next inside h
    exact loopAt_forward inside h
  found_append := by
    intro input pos value next suffix inside h
    rw [loopAt_append suffix inside (by rw [h]; simp)]
    exact h
  refused_append := by
    intro input pos suffix inside h
    rw [loopAt_append suffix inside (by rw [h]; simp)]
    exact h

end BitReader

/-- The order of the bits of a byte. -/
inductive BitOrder where
  | lowFirst | highFirst
  deriving DecidableEq, Repr

/-- The bit at a position, zero behind the end. -/
@[inline] def bitAt (order : BitOrder) (input : ByteArray) (pos : Nat) : Nat :=
  if h : pos / 8 < input.size then
    match order with
    | .lowFirst => (input[pos / 8].toNat >>> (pos % 8)) % 2
    | .highFirst => (input[pos / 8].toNat >>> (7 - pos % 8)) % 2
  else 0

theorem bitAt_append (order : BitOrder) {input : ByteArray} {pos : Nat} (suffix : ByteArray)
    (inside : pos < bitLength input) :
    bitAt order (input ++ suffix) pos = bitAt order input pos := by
  have here : pos / 8 < input.size := by simp only [bitLength] at inside; omega
  have there : pos / 8 < (input ++ suffix).size := by rw [ByteArray.size_append]; omega
  have same : (input ++ suffix)[pos / 8] = input[pos / 8] := ByteArray.getElem_append_left here
  cases order <;> simp only [bitAt, here, there, dif_pos, same]

/-- The number made of `count` bits from a position on, the first of them lowest or highest. -/
def numberAt (order : BitOrder) (input : ByteArray) : (count : Nat) → Nat → (above : Nat) → Nat
  | 0, _, above => above
  | count + 1, pos, above =>
    match order with
    | .lowFirst => bitAt order input pos + 2 * numberAt order input count (pos + 1) above
    | .highFirst => numberAt order input count (pos + 1) (2 * above + bitAt order input pos)

theorem numberAt_append (order : BitOrder) {input : ByteArray} {count pos : Nat} (above : Nat)
    (suffix : ByteArray) (inside : pos + count ≤ bitLength input) :
    numberAt order (input ++ suffix) count pos above = numberAt order input count pos above := by
  induction count generalizing pos above with
  | zero => rfl
  | succ count ih =>
    cases order <;>
      simp only [numberAt, bitAt_append _ suffix (show pos < bitLength input by omega),
        ih _ (show pos + 1 + count ≤ bitLength input by omega)]

namespace BitReader

/-- The next `count` bits as a number. -/
def bits (order : BitOrder) (count : Nat) : BitReader Nat where
  read input pos :=
    if pos + count ≤ bitLength input then .found (numberAt order input count pos 0) (pos + count)
    else .more
  forward := by
    intro input pos value next inside h
    split at h
    · simp only [BitResult.found.injEq] at h
      omega
    · simp at h
  found_append := by
    intro input pos value next suffix inside h
    split at h
    · rename_i fits
      rw [if_pos (by rw [bitLength_append]; omega), numberAt_append _ _ suffix fits]
      exact h
    · simp at h
  refused_append := by
    intro input pos suffix inside h
    split at h <;> simp at h

theorem bits_moves {order : BitOrder} {count : Nat} (some : 0 < count) :
    (bits order count).Moves := by
  intro input pos value next inside h
  simp only [bits] at h
  split at h
  · simp only [BitResult.found.injEq] at h
    omega
  · simp at h

end BitReader
end ZipArchive
