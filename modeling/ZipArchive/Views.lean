import ZipArchive.View

/-!
# Several views over one source

Views over the same source are kept under names and are read in any order. Each has its own window
and cursor, and an operation on one leaves the others alone.
-/
namespace ZipArchive

/-- How many bytes are asked for at a time when a view is read to its end. -/
def pieceSize : Nat := 4096

namespace View

variable {σ : Type} (source : Source σ)

/-- Reads on to the end of the window, behind the bytes already read. Interrupted reads are tried
again. -/
def readToEnd (v : View) (there : ByteArray) (s : σ) : Except IoError ByteArray × View × σ :=
  match _result : v.read source pieceSize s with
  | (.ok bytes, v', s') =>
    if _some : bytes.size = 0 then (.ok there, v', s') else readToEnd v' (there ++ bytes) s'
  | (.error e, v', s') =>
    if _again : e.isInterrupted then readToEnd v' there s' else (.error e, v', s')
termination_by (v.remaining, source.patience s)
decreasing_by
  · obtain ⟨bound, rfl⟩ := read_ok source _result
    exact .left _ _ (by simp only [remaining]; omega)
  · obtain ⟨rfl, patience⟩ := read_error source _result
    exact .right _ (patience _again)

end View

/-- What a view is asked for. -/
inductive ViewRequest where
  /-- Make a view of a window of the source. -/
  | new (start stop : Nat)
  /-- Make a view that is equal to another one. -/
  | clone (other : String)
  | read (length : Nat)
  | readFrom (length position : Nat)
  | readToEnd
  | seek (target : SeekTarget)
  /-- Only tell the state of the view. -/
  | tell
  deriving DecidableEq, Repr

inductive ViewAnswer where
  | bytes (bytes : ByteArray)
  | position (position : Nat)
  | failed (error : IoError)
  | done

/-- Views under their names. -/
abbrev Views : Type := List (String × View)

namespace Views

def get? (views : Views) (name : String) : Option View := views.lookup name

/-- Keeps a view under a name, in place of an older one. -/
def insert (views : Views) (name : String) (view : View) : Views :=
  (name, view) :: views.filter (·.1 ≠ name)

variable {σ : Type} (source : Source σ)

def ofRead : Except IoError ByteArray × View × σ → ViewAnswer × View × σ
  | (.ok bytes, view, s) => (.bytes bytes, view, s)
  | (.error e, view, s) => (.failed e, view, s)

/-- What a request makes of the view it is about, if that view exists or is made by it. -/
def apply (views : Views) (name : String) (request : ViewRequest) (s : σ) :
    Option (ViewAnswer × View × σ) :=
  match request with
  | .new start stop => some (.done, .new source.size start stop, s)
  | .clone other => (views.get? other).map fun view => (.done, view, s)
  | .read length => (views.get? name).map fun view => ofRead (view.read source length s)
  | .readFrom length position =>
    (views.get? name).map fun view => ofRead (view.readFrom source length position s)
  | .readToEnd => (views.get? name).map fun view => ofRead (view.readToEnd source .empty s)
  | .seek target =>
    (views.get? name).map fun view => (.position (view.seek target).position, view.seek target, s)
  | .tell => (views.get? name).map fun view => (.done, view, s)

/-- Answers a request about the view of a name, and tells the view as it is then. -/
def answer (views : Views) (name : String) (request : ViewRequest) (s : σ) :
    Option (ViewAnswer × View) × Views × σ :=
  match views.apply source name request s with
  | none => (none, views, s)
  | some (answer, view, s) => (some (answer, view), views.insert name view, s)

end Views
end ZipArchive
