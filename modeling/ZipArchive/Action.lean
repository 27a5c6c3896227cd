import ZipArchive.Event
import ZipArchive.Layout

/-!
# Actions on a source

Opening an archive and finding its members reads from a source, writes to the log, and may fail. An
error that is raised is logged first if it is one that the log reports (`Action.raise`).
-/
namespace ZipArchive

/-- What a run carries along: the state of its source and the log. -/
structure Run (σ : Type) where
  state : σ
  log : Array Event := #[]

abbrev Action (σ α : Type) : Type := ExceptT ZipError (StateM (Run σ)) α

namespace Action

variable {σ α : Type}

def log (event : Event) : Action σ Unit := modify fun r => { r with log := r.log.push event }

/-- Logs an error, if it is one that is logged, and fails with it. -/
def raise (source : Source σ) (error : ZipError) : Action σ α := do
  match error.report? source.label with
  | some report => log (.raised report)
  | none => pure ()
  throw error

/-- Runs a read on the source's state. A failed read stays a value. -/
def onSource {ε : Type} (read : σ → Except ε α × σ) : Action σ (Except ε α) := fun r =>
  let (result, state) := read r.state
  (.ok result, { r with state := state })

def ofExcept (source : Source σ) : Except ZipError α → Action σ α
  | .ok value => pure value
  | .error error => raise source error

/-- The outcome of offset arithmetic. Leaving the 64-bit range fails. -/
def inRange (source : Source σ) : Option Nat → Action σ Nat
  | some offset => pure offset
  | none => raise source (.io ⟨.offsetOverflow, some source.label⟩)

/-- Reads exactly `length` bytes at `offset`, as part of the record of the given name. -/
def readExactAt (source : Source σ) (record : String) (offset length : Nat) :
    Action σ ByteArray := do
  match ← onSource (source.readExactAt offset length) with
  | .ok bytes => pure bytes
  | .error e => raise source (.ofRead source.label record e)

/-- Reads a record at the cursor of a buffered window, and gives the window behind it. -/
def readRecord (source : Source σ) (record : String) (layout : Layout α) (window : Buffered) :
    Action σ (α × Buffered) := do
  let (result, window') ← fun r =>
    let (result, window', state) := layout.readWindow source record window r.state
    (.ok (result, window'), { r with state := state })
  return (← ofExcept source result, window')

end Action
end ZipArchive
