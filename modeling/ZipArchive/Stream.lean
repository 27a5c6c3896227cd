import ZipArchive.Decode.Decoders
import ZipArchive.Decode.Decoding
import ZipArchive.Method

/-!
# Member streams

A stream gives the content of one member, decoded as it is read. A stored member's stream is a view
and can seek; the others cannot. Streams share nothing but the source they read from.
-/
namespace ZipArchive

/-- How many bytes are asked for at a time when a stream is read to its end. -/
def chunkSize : Nat := 65536

variable [Decoders]

inductive MemberStream where
  | stored (view : View)
  | deflate (decoding : Decoding Decoders.Inflating)
  | bzip2 (decoding : Decoding Decoders.Bunzipping)

namespace MemberStream

/-- The content that a view's bytes stand for. -/
def new (stage : Stage) (view : View) : MemberStream :=
  match stage with
  | .identity => .stored view
  | .inflate => .deflate (.new Decoders.inflate view)
  | .bunzip => .bzip2 (.new Decoders.bunzip view)

def stage : MemberStream → Stage
  | .stored _ => .identity
  | .deflate _ => .inflate
  | .bzip2 _ => .bunzip

def isSeekable (stream : MemberStream) : Bool := stream.stage = .identity

variable {σ : Type} (source : Source σ)

/-- One read of at most `length` bytes. No bytes mean that the content has been read to its end. -/
def read (stream : MemberStream) (length : Nat) (s : σ) :
    Except IoError ByteArray × MemberStream × σ :=
  match stream with
  | .stored view =>
    let (result, view, s) := view.read source length s
    (result, .stored view, s)
  | .deflate decoding =>
    let (result, decoding, s) := decoding.read Decoders.inflate source length s
    (result, .deflate decoding, s)
  | .bzip2 decoding =>
    let (result, decoding, s) := decoding.read Decoders.bunzip source length s
    (result, .bzip2 decoding, s)

/-- Moves the cursor of a stored member's stream. -/
def seek (stream : MemberStream) (target : SeekTarget) : Except IoError MemberStream :=
  match stream with
  | .stored view => .ok (.stored (view.seek target))
  | _ => .error ⟨.notSeekable, none⟩

/-- The cursor of a stored member's stream; other streams do not tell theirs. -/
def position : MemberStream → Nat
  | .stored view => view.position
  | _ => 0

/-- What is left to do before the content has been read to its end. -/
def work : MemberStream → Nat × Nat × Nat × Nat
  | .stored view => (view.remaining, 0, 0, 0)
  | .deflate decoding => decoding.work Decoders.inflate
  | .bzip2 decoding => decoding.work Decoders.bunzip

theorem read_progress (stream : MemberStream) (length : Nat) (s : σ) :
    let (result, stream', s') := stream.read source length s
    (∀ bytes, result = .ok bytes → 0 < bytes.size → Decoding.Less stream'.work stream.work) ∧
      (∀ e, result = .error e → e.isInterrupted = true →
        Decoding.Less stream'.work stream.work ∨
          (stream'.work = stream.work ∧ source.patience s' < source.patience s)) := by
  cases stream with
  | stored view =>
    simp only [read, work]
    refine ⟨fun bytes found some => ?_, fun e found again => ?_⟩
    · obtain ⟨bound, moved⟩ := View.read_ok source
        (show view.read source length s = (.ok bytes, _, _) from Prod.ext found rfl)
      rw [moved]
      simp only [Decoding.Less, View.remaining]
      omega
    · obtain ⟨same, patience⟩ := View.read_error source
        (show view.read source length s = (.error e, _, _) from Prod.ext found rfl)
      exact .inr ⟨by rw [same], patience again⟩
  | deflate decoding => exact decoding.read_progress Decoders.inflate source length s
  | bzip2 decoding => exact decoding.read_progress Decoders.bunzip source length s

/-- Reads on, behind the bytes already there, tells how many bytes to ask for by `ask` from the
number that are there, and ends when no more are asked for or the content has come to its end.
Interrupted reads are tried again. -/
def collect (ask : Nat → Nat) (there : ByteArray) (stream : MemberStream) (s : σ) :
    (Except IoError Unit × ByteArray) × MemberStream × σ :=
  if ask there.size = 0 then ((.ok (), there), stream, s)
  else
    match _result : stream.read source (ask there.size) s with
    | (.ok bytes, stream', s') =>
      if _some : bytes.size = 0 then ((.ok (), there), stream', s')
      else collect ask (there ++ bytes) stream' s'
    | (.error e, stream', s') =>
      if _again : e.isInterrupted then collect ask there stream' s'
      else ((.error e, there), stream', s')
termination_by (stream.work, source.patience s)
decreasing_by
  all_goals
    have progress := stream.read_progress source (ask there.size) s
    rw [_result] at progress
  · exact .left _ _ (progress.1 bytes rfl (by omega)).rel
  · rcases progress.2 e rfl _again with less | ⟨same, patience⟩
    · exact .left _ _ less.rel
    · exact same ▸ .right _ patience

end MemberStream
end ZipArchive
