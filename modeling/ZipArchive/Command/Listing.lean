import ZipArchive.Directory

/-!
# Listings

The short listing has the names alone. The long one has a row for each member, and the totals of all
members that are not directories.
-/
namespace ZipArchive.Command

/-- How much smaller the compressed size is, in full percents. -/
def saved (compressed uncompressed : Nat) : Nat :=
  if uncompressed ≤ compressed then 0 else (uncompressed - compressed) * 100 / uncompressed

def ratio (compressed uncompressed : Nat) : String :=
  Text.padLeft ' ' 4 (toString (saved compressed uncompressed)) ++ "%"

def columns (cells : List String) : String := String.intercalate "  " cells

def heading : String :=
  columns [Text.padLeft ' ' 10 "Length", Text.padRight 9 "Method", Text.padLeft ' ' 10 "Size",
    Text.padLeft ' ' 5 "Cmpr", Text.padLeft ' ' 10 "Date", Text.padLeft ' ' 5 "Time", "Name"]

def rule : String := String.ofList (List.replicate 80 '-')

def dateText (info : MemberInfo) : String :=
  let (year, month, day) := info.calendar
  s!"{Text.zeroPadded 4 year}-{Text.zeroPadded 2 month}-{Text.zeroPadded 2 day}"

def timeText (info : MemberInfo) : String :=
  let (hour, minute, _) := info.clock
  s!"{Text.zeroPadded 2 hour}:{Text.zeroPadded 2 minute}"

/-- The row of a member in the long listing. -/
def row (m : Member) : String :=
  let compressed := m.info.compressedSize.toNat
  let uncompressed := m.info.uncompressedSize.toNat
  columns [Text.padLeft ' ' 10 (toString uncompressed), Text.padRight 9 m.info.method.name,
    Text.padLeft ' ' 10 (toString compressed), ratio compressed uncompressed, dateText m.info,
    timeText m.info, m.name]

/-- A sum of sizes in 64 bits. One that does not fit starts again at zero. -/
def total {α : Type} (measure : α → UInt64) (all : List α) : UInt64 :=
  all.foldl (fun sum one => sum + measure one) 0

/-- The last row of the long listing. -/
def totals (members : List Member) : String :=
  let files := members.filter (!·.isDirectory)
  let compressed := (total (·.info.compressedSize) files).toNat
  let uncompressed := (total (·.info.uncompressedSize) files).toNat
  columns [Text.padLeft ' ' 10 (toString uncompressed), Text.padRight 9 "",
    Text.padLeft ' ' 10 (toString compressed), ratio compressed uncompressed,
    Text.padLeft ' ' 18 "", s!"{files.length} files"]

/-- The lines of a listing. -/
def listing (verbose : Bool) (members : List Member) : List String :=
  if verbose then [heading, rule] ++ members.map row ++ [rule, totals members]
  else members.map Member.name

end ZipArchive.Command
