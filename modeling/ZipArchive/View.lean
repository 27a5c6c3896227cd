import ZipArchive.Source

/-!
# Bounded views

A view is a window `[start, stop)` of a source with a cursor of its own. Reads never leave the
window, and positions are told relative to its start. `View.new` clamps the window to the source, so
that `start ≤ pos ≤ stop ≤ size` holds from the start (`View.new_wellFormed`).
-/
namespace ZipArchive

/-- The number of offsets that fit in 64 bits. -/
def offsetBound : Nat := 0x10000000000000000

/-- The sum of two offsets, unless it leaves the 64-bit range. -/
def addOffset? (a b : Nat) : Option Nat := if a + b < offsetBound then some (a + b) else none

/-- The difference of two offsets, unless it is negative. -/
def subOffset? (a b : Nat) : Option Nat := if b ≤ a then some (a - b) else none

/-- A window of a source, with a cursor. -/
structure View where
  start : Nat
  stop : Nat
  /-- The absolute offset of the cursor. -/
  pos : Nat
  deriving DecidableEq, Repr

/-- What a seek is relative to, and by how much. -/
inductive SeekTarget where
  | start (offset : Nat)
  | current (offset : Int)
  | stop (offset : Int)
  deriving DecidableEq, Repr

namespace View

/-- The window `[start, stop)` of a source of the given size, clamped to it. -/
def new (size start stop : Nat) : View :=
  ⟨min start (min stop size), min stop size, min start (min stop size)⟩

/-- What holds of every view over a source of the given size. -/
structure WellFormed (v : View) (size : Nat) : Prop where
  start_le : v.start ≤ v.pos
  pos_le : v.pos ≤ v.stop
  stop_le : v.stop ≤ size

theorem new_wellFormed (size start stop : Nat) : (new size start stop).WellFormed size :=
  ⟨Nat.le_refl _, Nat.min_le_right _ _, Nat.min_le_right _ _⟩

def length (v : View) : Nat := v.stop - v.start

def isEmpty (v : View) : Bool := v.start = v.stop

/-- The cursor, relative to the start of the window. -/
def position (v : View) : Nat := v.pos - v.start

def remaining (v : View) : Nat := v.stop - v.pos

variable {σ : Type} (source : Source σ)

/-- One read of at most `length` bytes at the absolute offset, cut to the window. Nothing is
asked of the source when nothing can come. -/
def readAt (v : View) (offset length : Nat) (s : σ) : Except IoError ByteArray × σ :=
  match subOffset? v.stop offset with
  | none => (.error ⟨.offsetOverflow, some source.label⟩, s)
  | some room =>
    if min length room = 0 then (.ok .empty, s)
    else
      match source.readAt offset (min length room) s with
      | (.ok bytes, s') => (.ok bytes, s')
      | (.error failure, s') => (.error (failure.toIoError.attributed source.label), s')

/-- Moves the cursor behind the bytes that were read at the absolute offset. A failed read
leaves it where it was. -/
def advance (v : View) (offset : Nat) :
    Except IoError ByteArray × σ → Except IoError ByteArray × View × σ
  | (.error e, s) => (.error e, v, s)
  | (.ok bytes, s) =>
    match addOffset? offset bytes.size with
    | none => (.error ⟨.offsetOverflow, some source.label⟩, v, s)
    | some pos => (.ok bytes, { v with pos := pos }, s)

/-- One read of at most `length` bytes at the cursor. -/
def read (v : View) (length : Nat) (s : σ) : Except IoError ByteArray × View × σ :=
  v.advance source v.pos (v.readAt source v.pos length s)

/-- One read of at most `length` bytes at a position relative to the start of the window. A position
behind the window is its end. -/
def readFrom (v : View) (length position : Nat) (s : σ) : Except IoError ByteArray × View × σ :=
  let offset := min (min (v.start + position) (offsetBound - 1)) v.stop
  v.advance source offset (v.readAt source offset length s)

theorem readAt_size {v : View} {offset length : Nat} {s s' : σ} {bytes : ByteArray}
    (h : v.readAt source offset length s = (.ok bytes, s')) :
    bytes.size ≤ min length (v.stop - offset) := by
  unfold readAt subOffset? at h
  by_cases inside : offset ≤ v.stop
  · simp only [inside, if_true] at h
    split at h
    · simp only [Prod.mk.injEq, Except.ok.injEq] at h
      simp [← h.1]
    · split at h
      · rename_i answer
        simp only [Prod.mk.injEq, Except.ok.injEq] at h
        exact source.size_readAt _ _ _ _ _ (h.1 ▸ answer)
      · simp at h
  · simp [inside] at h

theorem readAt_patience {v : View} {offset length : Nat} {s s' : σ} {e : IoError}
    (h : v.readAt source offset length s = (.error e, s')) (again : e.isInterrupted = true) :
    source.patience s' < source.patience s := by
  unfold readAt at h
  split at h
  · simp only [Prod.mk.injEq, Except.error.injEq] at h
    simp [← h.1, IoError.isInterrupted] at again
  · split at h
    · simp at h
    · split at h
      · simp at h
      · rename_i failure _ answer
        simp only [Prod.mk.injEq, Except.error.injEq] at h
        cases failure with
        | interrupted => exact source.patience_readAt _ _ _ _ (h.2 ▸ answer)
        | os code =>
          simp [← h.1, IoError.isInterrupted, IoError.attributed, ReadFailure.toIoError] at again

/-- A successful read gives no more than was asked for, lies in the window, and moves the cursor by
its length. -/
theorem read_ok {v v' : View} {length : Nat} {s s' : σ} {bytes : ByteArray}
    (h : v.read source length s = (.ok bytes, v', s')) :
    bytes.size ≤ min length (v.stop - v.pos) ∧ v' = { v with pos := v.pos + bytes.size } := by
  unfold read at h
  rcases answer : v.readAt source v.pos length s with ⟨result, s₁⟩
  rw [answer] at h
  cases result with
  | error e => simp [advance] at h
  | ok found =>
    have bound := readAt_size source answer
    unfold advance addOffset? at h
    by_cases fits : v.pos + found.size < offsetBound
    · simp only [fits, if_true, Prod.mk.injEq, Except.ok.injEq] at h
      obtain ⟨rfl, rfl, rfl⟩ := h
      exact ⟨bound, rfl⟩
    · simp [fits] at h

/-- A failed read leaves the view as it was. -/
theorem read_error {v v' : View} {length : Nat} {s s' : σ} {e : IoError}
    (h : v.read source length s = (.error e, v', s')) :
    v' = v ∧ (e.isInterrupted = true → source.patience s' < source.patience s) := by
  unfold read at h
  rcases answer : v.readAt source v.pos length s with ⟨result, s₁⟩
  rw [answer] at h
  cases result with
  | error found =>
    simp only [advance, Prod.mk.injEq, Except.error.injEq] at h
    obtain ⟨rfl, rfl, rfl⟩ := h
    exact ⟨rfl, readAt_patience source answer⟩
  | ok found =>
    simp only [advance] at h
    split at h
    · simp only [Prod.mk.injEq, Except.error.injEq] at h
      obtain ⟨rfl, rfl, rfl⟩ := h
      exact ⟨rfl, by simp [IoError.isInterrupted]⟩
    · simp at h

/-- The absolute offset that a seek asks for, before it is clamped to the window. -/
def wanted (v : View) : SeekTarget → Int
  | .start offset => v.start + offset
  | .current offset => v.pos + offset
  | .stop offset => v.stop + offset

/-- Moves the cursor to the target, or to the nearest end of the window. -/
def seek (v : View) (target : SeekTarget) : View :=
  { v with pos := (max (v.start : Int) (min (v.wanted target) v.stop)).toNat }

end View
end ZipArchive
