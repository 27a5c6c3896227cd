import ZipArchive.View

/-!
# Buffered reading

Records are read through a block that is refilled from a view. A request that is as large as the
block goes straight to the view once the block is used up, so a block of size 0 means no buffering
at all. Short reads and interruptions of the source do not show: a request is met in full, or fails.
-/
namespace ZipArchive

/-- The size of the block that headers and compressed data are read through. -/
def blockSize : Nat := 8192

/-- A view read through a block of the given capacity. -/
structure Buffered where
  view : View
  capacity : Nat
  block : ByteArray := .empty
  /-- How much of the block has been handed out. -/
  used : Nat := 0

namespace Buffered

variable {σ : Type} (source : Source σ)

/-- At most `length` bytes, from the block or by one read of the view. No bytes mean that the window
or the source has ended. -/
def readOnce (b : Buffered) (length : Nat) (s : σ) : Except IoError ByteArray × Buffered × σ :=
  if b.used < b.block.size then
    let bytes := slice b.block b.used length
    (.ok bytes, { b with used := b.used + bytes.size }, s)
  else if b.capacity ≤ length then
    match b.view.read source length s with
    | (.ok bytes, view, s') => (.ok bytes, { b with view := view, block := .empty, used := 0 }, s')
    | (.error e, view, s') => (.error e, { b with view := view }, s')
  else
    match b.view.read source b.capacity s with
    | (.ok block, view, s') =>
      let bytes := slice block 0 length
      (.ok bytes, { b with view := view, block := block, used := bytes.size }, s')
    | (.error e, view, s') => (.error e, { b with view := view }, s')

theorem readOnce_size {b b' : Buffered} {length : Nat} {s s' : σ} {bytes : ByteArray}
    (h : b.readOnce source length s = (.ok bytes, b', s')) : bytes.size ≤ length := by
  unfold readOnce at h
  split at h
  · simp only [Prod.mk.injEq, Except.ok.injEq] at h
    exact h.1 ▸ size_slice_le _ _ _
  · split at h
    · split at h
      · rename_i answer
        simp only [Prod.mk.injEq, Except.ok.injEq] at h
        have := (View.read_ok source (h.1 ▸ answer)).1
        omega
      · simp at h
    · split at h
      · simp only [Prod.mk.injEq, Except.ok.injEq] at h
        exact h.1 ▸ size_slice_le _ _ _
      · simp at h

theorem readOnce_patience {b b' : Buffered} {length : Nat} {s s' : σ} {e : IoError}
    (h : b.readOnce source length s = (.error e, b', s')) (again : e.isInterrupted = true) :
    source.patience s' < source.patience s := by
  unfold readOnce at h
  split at h
  · simp at h
  · split at h
    · split at h
      · simp at h
      · rename_i answer
        simp only [Prod.mk.injEq, Except.error.injEq] at h
        obtain ⟨rfl, rfl, rfl⟩ := h
        exact (View.read_error source answer).2 again
    · split at h
      · simp at h
      · rename_i answer
        simp only [Prod.mk.injEq, Except.error.injEq] at h
        obtain ⟨rfl, rfl, rfl⟩ := h
        exact (View.read_error source answer).2 again

/-- Exactly `length` bytes, put behind those already read. -/
def takeFrom (b : Buffered) (length : Nat) (done : ByteArray) (s : σ) :
    Except IoError ByteArray × Buffered × σ :=
  if length = 0 then (.ok done, b, s)
  else
    match h : b.readOnce source length s with
    | (.ok bytes, b', s') =>
      if bytes.size = 0 then (.error ⟨.bufferNotFilled, none⟩, b', s')
      else
        have := readOnce_size source h
        b'.takeFrom (length - bytes.size) (done ++ bytes) s'
    | (.error e, b', s') =>
      if again : e.isInterrupted then
        have := readOnce_patience source h again
        b'.takeFrom length done s'
      else (.error e, b', s')
termination_by (length, source.patience s)
decreasing_by
  · exact .left _ _ (by omega)
  · exact .right _ this

/-- Exactly `length` bytes. -/
def take (b : Buffered) (length : Nat) (s : σ) : Except IoError ByteArray × Buffered × σ :=
  b.takeFrom source length .empty s

/-- Passes over exactly `length` bytes, a block at a time. -/
def skip (b : Buffered) (length : Nat) (s : σ) : Except IoError Unit × Buffered × σ :=
  if length = 0 then (.ok (), b, s)
  else
    match h : b.readOnce source (min length blockSize) s with
    | (.ok bytes, b', s') =>
      if bytes.size = 0 then (.error ⟨.endOfFile, none⟩, b', s')
      else
        have := readOnce_size source h
        b'.skip (length - bytes.size) s'
    | (.error e, b', s') =>
      if again : e.isInterrupted then
        have := readOnce_patience source h again
        b'.skip length s'
      else (.error e, b', s')
termination_by (length, source.patience s)
decreasing_by
  · exact .left _ _ (by omega)
  · exact .right _ this

end Buffered
end ZipArchive
