import ZipArchive.Buffered
import ZipArchive.Error
import ZipArchive.LittleEndian

/-!
# Record layouts

A layout says how a record is laid out: which bytes are read one after the other, which are passed
over, and which contents are refused. It does not say where the bytes come from. The same layout is
run on bytes in memory (`Layout.parse`) and on a window of a source (`Layout.readWindow`).
-/
namespace ZipArchive

inductive Layout (α : Type) where
  | done (value : α)
  | refuse (error : ZipError)
  | bytes (length : Nat) (next : List UInt8 → Layout α)
  | skip (length : Nat) (next : Layout α)

namespace Layout

variable {α β ι : Type}

def bind : Layout α → (α → Layout β) → Layout β
  | .done value, f => f value
  | .refuse error, _ => .refuse error
  | .bytes length next, f => .bytes length fun b => (next b).bind f
  | .skip length next, f => .skip length (next.bind f)

instance : Monad Layout where
  pure := .done
  bind := .bind

def take (length : Nat) : Layout (List UInt8) := .bytes length .done

def pass (length : Nat) : Layout Unit := .skip length (.done ())

def uint16 : Layout UInt16 := .bytes 2 fun b => .done (LittleEndian.toUInt16 b)

def uint32 : Layout UInt32 := .bytes 4 fun b => .done (LittleEndian.toUInt32 b)

def uint64 : Layout UInt64 := .bytes 8 fun b => .done (LittleEndian.toUInt64 b)

/-- The four bytes that a record of this name starts with. -/
def signature (record : String) (expected : UInt32) : Layout Unit := do
  let found ← uint32
  if found = expected then .done () else .refuse (.badSignature record expected found)

/-- The `width` bytes that start at `offset`. -/
def field (bytes : List UInt8) (offset width : Nat) : List UInt8 := (bytes.drop offset).take width

/-- A way of getting at bytes in order. -/
structure Reader (ι : Type) where
  take : Nat → ι → Except IoError (List UInt8) × ι
  skip : Nat → ι → Except IoError Unit × ι

/-- Reads the record of the given name from the archive of the given label. -/
def run (reader : Reader ι) (label record : String) : Layout α → ι → Except ZipError α × ι
  | .done value, input => (.ok value, input)
  | .refuse error, input => (.error error, input)
  | .bytes length next, input =>
    match reader.take length input with
    | (.ok b, input') => (next b).run reader label record input'
    | (.error e, input') => (.error (.ofRead label record e), input')
  | .skip length next, input =>
    match reader.skip length input with
    | (.ok (), input') => next.run reader label record input'
    | (.error e, input') => (.error (.ofRead label record e), input')

end Layout

/-! ## Bytes in memory -/

namespace Bytes

/-- The first `length` bytes and the rest; a failed read uses everything up. -/
def take (length : Nat) (bytes : List UInt8) : Except IoError (List UInt8) × List UInt8 :=
  if length ≤ bytes.length then (.ok (bytes.take length), bytes.drop length)
  else (.error ⟨.bufferNotFilled, none⟩, [])

/-- What is behind the first `length` bytes; a failed skip uses everything up. -/
def skip (length : Nat) (bytes : List UInt8) : Except IoError Unit × List UInt8 :=
  if length ≤ bytes.length then (.ok (), bytes.drop length)
  else (.error ⟨.endOfFile, none⟩, [])

def reader : Layout.Reader (List UInt8) := ⟨take, skip⟩

end Bytes

/-- Reads a record from the front of some bytes and gives what is left behind it. -/
def Layout.parse {α : Type} (layout : Layout α) (label record : String) (bytes : List UInt8) :
    Except ZipError α × List UInt8 :=
  layout.run Bytes.reader label record bytes

/-! ## Windows of a source -/

namespace Buffered

variable {σ : Type}

/-- Reads through a block of a source in its state. -/
def reader (source : Source σ) : Layout.Reader (Buffered × σ) where
  take length := fun (b, s) =>
    match b.take source length s with
    | (.ok bytes, b', s') => (.ok bytes.data.toList, b', s')
    | (.error e, b', s') => (.error e, b', s')
  skip length := fun (b, s) => b.skip source length s

end Buffered

/-- Reads a record from a window of a source, at the cursor. -/
def Layout.readWindow {α σ : Type} (layout : Layout α) (source : Source σ) (record : String)
    (b : Buffered) (s : σ) : Except ZipError α × Buffered × σ :=
  layout.run (Buffered.reader source) source.label record (b, s)

end ZipArchive
