import ZipArchive.IoError

/-!
# Random-access sources

A source answers reads that name an absolute offset. Its answers may depend on a state, so that a
source can be flaky: short, interrupted or failing. Two laws hold of every source. A read gives no
more bytes than were asked for, and `patience` falls with each interruption, so that a caller who
tries again is answered at last.

A source that interrupts the same read for ever is not among them. Who reads from it and tries again
never comes to an end, and there is no outcome to speak of. Up to any moment only finitely many
interruptions have been met, and some source with patience has given the same answers until then.
-/
namespace ZipArchive

/-- The bytes from `offset` on, at most `length` of them. -/
def slice (content : ByteArray) (offset length : Nat) : ByteArray :=
  content.extract offset (offset + length)

theorem size_slice_le (content : ByteArray) (offset length : Nat) :
    (slice content offset length).size ≤ length := by
  simp only [slice, ByteArray.size_extract]
  omega

/-- Why a source gave no bytes. Any failure but an interruption is passed on as it is and nothing is
asked of it but whether it is one, so that a code of the operating system stands for those of other
kinds as well. -/
inductive ReadFailure where
  | interrupted
  | os (code : OsError.FinalCode)
  deriving DecidableEq, Repr

def ReadFailure.toIoError : ReadFailure → IoError
  | .interrupted => ⟨.interrupted, none⟩
  | .os code => ⟨.os code.number, none⟩

/-- A random-access source of bytes whose reads run in a state of type `σ`. -/
structure Source (σ : Type) where
  /-- The name that errors are attributed to. -/
  label : String
  size : Nat
  /-- At most `length` bytes from `offset` on. -/
  readAt : (offset length : Nat) → σ → Except ReadFailure ByteArray × σ
  /-- How many times in a row the source can still be interrupted. -/
  patience : σ → Nat
  size_readAt : ∀ offset length s bytes s',
    readAt offset length s = (.ok bytes, s') → bytes.size ≤ length
  patience_readAt : ∀ offset length s s',
    readAt offset length s = (.error .interrupted, s') → patience s' < patience s

namespace Source

variable {σ : Type}

/-- Exactly `length` bytes from `offset` on, put behind those already read. Interrupted reads are
tried again, and a source that ends first fails with `endOfFile`. -/
def readExactFrom (source : Source σ) (offset length : Nat) (done : ByteArray) (s : σ) :
    Except IoError ByteArray × σ :=
  if length = 0 then (.ok done, s)
  else
    match h : source.readAt offset length s with
    | (.ok bytes, s') =>
      if bytes.size = 0 then (.error ⟨.endOfFile, none⟩, s')
      else source.readExactFrom (offset + bytes.size) (length - bytes.size) (done ++ bytes) s'
    | (.error .interrupted, s') =>
      have := source.patience_readAt _ _ _ _ h
      source.readExactFrom offset length done s'
    | (.error failure, s') => (.error failure.toIoError, s')
termination_by (length, source.patience s)
decreasing_by
  · exact .left _ _ (by omega)
  · exact .right _ this

/-- Exactly `length` bytes from `offset` on. -/
def readExactAt (source : Source σ) (offset length : Nat) (s : σ) : Except IoError ByteArray × σ :=
  source.readExactFrom offset length .empty s

end Source
end ZipArchive
