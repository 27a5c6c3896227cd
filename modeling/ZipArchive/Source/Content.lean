import ZipArchive.Source

/-!
# Sources over given bytes

`Source.ofContent` serves every read in full. `Source.scheduled` serves the same bytes on a
schedule: reads at some offsets fail, the first read at some others is interrupted, and every
answer can be capped.
-/
namespace ZipArchive

/-- The greatest offset that the operating system takes. -/
def fileOffsetLimit : Nat := 0x8000000000000000

/-- A source that serves `content` in full. -/
def Source.ofContent (label : String) (content : ByteArray) : Source Unit where
  label := label
  size := content.size
  readAt offset length s := (.ok (slice content offset length), s)
  patience _ := 0
  size_readAt := by
    rintro offset length s bytes s' h
    simp only [Prod.mk.injEq, Except.ok.injEq] at h
    exact h.1 ▸ size_slice_le content offset length
  patience_readAt := by simp

/-- How a source departs from serving its bytes in full. -/
structure Schedule where
  /-- Offsets at which every read fails, with the code it fails with. -/
  failing : List (Nat × OsError.FinalCode) := []
  /-- Offsets at which the first read is interrupted. -/
  interrupted : List Nat := []
  /-- The most bytes that one read gives. -/
  cap : Option Nat := none
  /-- The size that is reported instead of the true one. -/
  size : Option Nat := none
  /-- Whether the bytes are a file's, whose offsets end at `fileOffsetLimit`. -/
  isFile : Bool := false
  deriving DecidableEq, Repr

namespace Schedule

def limit (plan : Schedule) (length : Nat) : Nat :=
  match plan.cap with
  | some cap => min length cap
  | none => length

theorem limit_le (plan : Schedule) (length : Nat) : plan.limit length ≤ length := by
  unfold limit
  split
  · exact Nat.min_le_left _ _
  · exact Nat.le_refl _

/-- Serves one read; the state holds the offsets that are still to be interrupted. -/
def readAt (plan : Schedule) (content : ByteArray) (offset length : Nat) (waiting : List Nat) :
    Except ReadFailure ByteArray × List Nat :=
  match plan.failing.lookup offset with
  | some code => (.error (.os code), waiting)
  | none =>
    if offset ∈ waiting then (.error .interrupted, waiting.filter (· ≠ offset))
    else if plan.isFile ∧ fileOffsetLimit ≤ offset + plan.limit length then
      (.error (.os ⟨OsError.invalidArgument, by decide⟩), waiting)
    else (.ok (slice content offset (plan.limit length)), waiting)

end Schedule

/-- A source that serves `content` on a schedule. -/
def Source.scheduled (label : String) (content : ByteArray) (plan : Schedule) :
    Source (List Nat) where
  label := label
  size := plan.size.getD content.size
  readAt := plan.readAt content
  patience := List.length
  size_readAt := by
    intro offset length waiting bytes waiting' h
    unfold Schedule.readAt at h
    split at h
    · simp at h
    · split at h
      · simp at h
      · split at h
        · simp at h
        · simp only [Prod.mk.injEq, Except.ok.injEq] at h
          exact h.1 ▸ Nat.le_trans (size_slice_le _ _ _) (plan.limit_le length)
  patience_readAt := by
    intro offset length waiting waiting' h
    unfold Schedule.readAt at h
    split at h
    · simp at h
    · split at h
      · rename_i waits
        simp only [Prod.mk.injEq, true_and] at h
        rw [← h]
        exact List.length_filter_lt_length_iff_exists.mpr ⟨offset, waits, by simp⟩
      · split at h <;> simp at h

end ZipArchive
