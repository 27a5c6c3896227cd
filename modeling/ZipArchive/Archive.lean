import ZipArchive.Content
import ZipArchive.Trailer

/-!
# Archives

An archive is opened by finding its end record and reading its whole directory. After that its
members can be found, plugged and extracted. A failure concerns the call that met it and nothing
else.
-/
namespace ZipArchive

/-- An open archive. -/
structure Archive where
  /-- The members, in the order of the directory. -/
  members : Array Member
  deriving DecidableEq, Repr

/-- Where content is written to. A sink takes no more than `limit` bytes. -/
structure Sink where
  limit : Option Nat
  /-- The bytes that it has taken. -/
  bytes : ByteArray

/-- Writes some bytes. If they do not fit, the sink still takes the first of them. -/
def Sink.writeAll (sink : Sink) (bytes : ByteArray) : Except IoError Unit × Sink :=
  let ⟨limit, there⟩ := sink
  let all := there ++ bytes
  if limit.any (· < all.size) then (.error ⟨.sinkFull, none⟩, ⟨limit, slice all 0 (limit.getD 0)⟩)
  else (.ok (), ⟨limit, all⟩)

/-- What came of reading a member's content into a sink: the bytes that the sink has taken, and
their number as it was counted, or why they are not all. -/
structure Extraction where
  bytes : ByteArray
  outcome : Except ZipError UInt64

/-- Why not all of the content is there. -/
def Extraction.failure (found : Extraction) : Option ZipError :=
  match found.outcome with
  | .ok _ => none
  | .error error => some error

/-- What a failed read of a member's content means: a failure that names a file is the source's own,
any other tells that the content cannot be decoded. -/
def Extraction.failureOf (name : String) (e : IoError) : ZipError :=
  match e.file with
  | some _ => .io e
  | none => .corrupt (.undecodable name e)

/-- Reads a stream to its end, writes what it gives into a sink, chunk by chunk, and counts the
bytes. Interrupted reads are tried again. -/
def MemberStream.drain [Decoders] {σ : Type} (source : Source σ) (name : String) (sink : Sink)
    (total : UInt64) (stream : MemberStream) (s : σ) : Extraction × σ :=
  match _result : stream.read source chunkSize s with
  | (.ok bytes, stream', s') =>
    if _some : bytes.size = 0 then (⟨sink.bytes, .ok total⟩, s')
    else
      match sink.writeAll bytes with
      | (.ok (), sink') => drain source name sink' (total + bytes.size.toUInt64) stream' s'
      | (.error e, sink') => (⟨sink'.bytes, .error (.io e)⟩, s')
  | (.error e, stream', s') =>
    if _again : e.isInterrupted then drain source name sink total stream' s'
    else (⟨sink.bytes, .error (Extraction.failureOf name e)⟩, s')
termination_by (stream.work, source.patience s)
decreasing_by
  all_goals
    have progress := stream.read_progress source chunkSize s
    rw [_result] at progress
  · exact .left _ _ (progress.1 bytes rfl (by omega)).rel
  · rcases progress.2 e rfl _again with less | ⟨same, patience⟩
    · exact .left _ _ less.rel
    · exact same ▸ .right _ patience

/-- A member's content in a sink, with the number of its bytes as it was counted. -/
structure Extracted where
  bytes : ByteArray
  count : UInt64

namespace Archive

variable [Decoders] {σ : Type} (source : Source σ)

/-- Opens the archive in a source. -/
def load (options : Options) : Action σ Archive := do
  let trailer ← Trailer.locate source options.tailWindow
  return ⟨← Directory.read source options trailer.directory⟩

/-- An end record is found in the source. -/
def isArchive (s : σ) : Bool :=
  match (Trailer.locate source ({} : Options).tailWindow).run ⟨s, #[]⟩ with
  | (.ok _, _) => true
  | (.error _, _) => false

/-- The index of the first member with the given path. -/
def find (a : Archive) (path : List UInt8) : Action σ Nat :=
  match a.members.findIdx? (·.path = path) with
  | some index => return index
  | none => Action.raise source (.notFound (Text.lossy path))

def member (a : Archive) (index : Nat) : Action σ Member :=
  match a.members[index]? with
  | some member => return member
  | none => Action.raise source (.invalidIndex index a.members.size)

def dataRange (a : Archive) (index : Nat) : Action σ DataRange := do
  (← a.member source index).dataRange source

def plug (a : Archive) (index : Nat) : Action σ Plugged := do
  (← a.member source index).plug source

/-- Reads the content of a member into a sink, which takes no more than `limit` bytes. Fails only
where plugging fails. -/
def extraction (a : Archive) (index : Nat) (limit : Option Nat) : Action σ Extraction := do
  let plugged ← a.plug source index
  fun r =>
    let (found, state) := plugged.stream.drain source plugged.name ⟨limit, .empty⟩ 0 r.state
    (.ok found, { r with state := state })

/-- The content of a member, in a sink that takes no more than `limit` bytes. -/
def extract (a : Archive) (index : Nat) (limit : Option Nat) : Action σ Extracted := do
  let found ← a.extraction source index limit
  match found.outcome with
  | .ok count => return ⟨found.bytes, count⟩
  | .error error => Action.raise source error

end Archive
end ZipArchive
