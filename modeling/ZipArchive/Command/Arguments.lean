/-!
# Command line arguments

Options and names come in any order. Short options can be joined in one argument, and a value can be
attached to its option. What is wrong with a command line is told by the first argument that is
wrong; the values of an option are checked once the next option or name is met.
-/
namespace ZipArchive.Command

/-- What a command line asks for. -/
structure Arguments where
  /-- The archive. -/
  file : String
  /-- Which members to extract; all of them when empty. -/
  files : List String := []
  list : Bool := false
  verbose : Bool := false
  /-- Write contents to the standard output, one after the other. -/
  pipe : Bool := false
  /-- The directory to extract into. -/
  directory : Option String := none
  /-- Which members not to extract. -/
  exclude : List String := []
  neverOverwrite : Bool := false
  overwrite : Bool := false
  /-- Extract members by the last parts of their names. -/
  junkPaths : Bool := false
  /-- How often it was asked to be quiet. -/
  quiet : Nat := 0
  sanitize : Bool := false
  limit : Option Nat := none
  tailWindow : Nat := 1024
  deriving DecidableEq, Repr

namespace Arguments

def isQuiet (a : Arguments) : Bool := 0 < a.quiet || a.pipe

def isVeryQuiet (a : Arguments) : Bool := 1 < a.quiet

end Arguments

/-- Why a command line is not carried out. -/
inductive UsageError where
  | missingFile
  | unknownOption
  | missingValue
  | badValue
  /-- An option that can be given once was given again. -/
  | repeatedOption
  /-- A value was attached to an option that takes none. -/
  | unexpectedValue
  | help
  | version
  deriving DecidableEq, Repr

/-- An option that takes no value. -/
inductive Switch where
  | list | verbose | pipe | neverOverwrite | overwrite | junkPaths | quiet | sanitize | help
  | version
  deriving DecidableEq, Repr

/-- An option that takes a value. Only `exclude` takes several. -/
inductive Setting where
  | directory | exclude | limit | tailWindow
  deriving DecidableEq, Repr

inductive CommandOption where
  | switch (switch : Switch)
  | setting (setting : Setting)
  deriving DecidableEq, Repr

namespace CommandOption

def ofShort? : Char → Option CommandOption
  | 'l' => some (.switch .list)
  | 'v' => some (.switch .verbose)
  | 'p' => some (.switch .pipe)
  | 'n' => some (.switch .neverOverwrite)
  | 'o' => some (.switch .overwrite)
  | 'j' => some (.switch .junkPaths)
  | 'q' => some (.switch .quiet)
  | 'h' => some (.switch .help)
  | 'V' => some (.switch .version)
  | 'd' => some (.setting .directory)
  | 'x' => some (.setting .exclude)
  | _ => none

def ofLong? : String → Option CommandOption
  | "sanitize" => some (.switch .sanitize)
  | "limit" => some (.setting .limit)
  | "tail-window" => some (.setting .tailWindow)
  | "help" => some (.switch .help)
  | "version" => some (.switch .version)
  | _ => none

end CommandOption

/-- The greatest count of a switch. -/
def countLimit : Nat := 255

/-- The number of values of a number on the command line. -/
def numberBound : Nat := 0x10000000000000000

/-- The number that decimal digits stand for. -/
def digitsToNat (digits : List Char) : Nat :=
  digits.foldl (fun n c => 10 * n + (c.toNat - '0'.toNat)) 0

/-- A number below `numberBound`, in decimal digits behind at most one plus sign. -/
def parseNumber (text : String) : Option Nat :=
  let digits :=
    match text.toList with
    | '+' :: rest => rest
    | characters => characters
  if digits.isEmpty || !digits.all (fun c => '0' ≤ c && c ≤ '9') then none
  else if digitsToNat digits < numberBound then some (digitsToNat digits)
  else none

/-- How far a command line has been read. -/
structure Reading where
  /-- What the options read so far ask for. -/
  arguments : Arguments
  /-- The names read so far. -/
  names : List String := []
  /-- The options that were given and must not be given again. -/
  given : List CommandOption := []
  /-- An option whose values have not been checked yet, with these values. -/
  pending : Option (Setting × List String) := none
  /-- Everything that follows is a name. -/
  onlyNames : Bool := false
  deriving DecidableEq, Repr

namespace Reading

/-- Notes that an option was given that can be given once. -/
def once (r : Reading) (option : CommandOption) : Except UsageError Reading :=
  if option ∈ r.given then .error .repeatedOption
  else .ok { r with given := option :: r.given }

/-- Checks a number and puts it to use. -/
def withNumber (r : Reading) (value : String) (use : Nat → Arguments → Arguments) :
    Except UsageError Reading :=
  match parseNumber value with
  | some n => .ok { r with arguments := use n r.arguments }
  | none => .error .badValue

/-- Takes the values of an option. -/
def set (r : Reading) (setting : Setting) (values : List String) : Except UsageError Reading := do
  match setting, values with
  | _, [] => .error .missingValue
  | .exclude, values =>
    return { r with arguments.exclude := r.arguments.exclude ++ values }
  | .directory, value :: _ =>
    let r ← r.once (.setting .directory)
    return { r with arguments.directory := some value }
  | .limit, value :: _ =>
    (← r.once (.setting .limit)).withNumber value fun n a => { a with limit := some n }
  | .tailWindow, value :: _ =>
    (← r.once (.setting .tailWindow)).withNumber value fun n a => { a with tailWindow := n }

/-- Checks the values that are still to be checked. -/
def settle (r : Reading) : Except UsageError Reading :=
  match r.pending with
  | none => .ok r
  | some (setting, values) => { r with pending := none }.set setting values

/-- What a switch that was given asks for. -/
def flipped (a : Arguments) : Switch → Arguments
  | .list => { a with list := true }
  | .verbose => { a with verbose := true }
  | .pipe => { a with pipe := true }
  | .neverOverwrite => { a with neverOverwrite := true }
  | .overwrite => { a with overwrite := true }
  | .junkPaths => { a with junkPaths := true }
  | .quiet => { a with quiet := min countLimit (a.quiet + 1) }
  | .sanitize => { a with sanitize := true }
  | .help | .version => a

def flip (r : Reading) (switch : Switch) : Except UsageError Reading := do
  let r ← r.settle
  match switch with
  | .help => .error .help
  | .version => .error .version
  | .quiet => return { r with arguments := flipped r.arguments .quiet }
  | switch =>
    let r ← r.once (.switch switch)
    return { r with arguments := flipped r.arguments switch }

/-- Takes an option with the value attached to it, or waits for its values. -/
def begin (r : Reading) (setting : Setting) (attached : Option String) :
    Except UsageError Reading := do
  let r ← r.settle
  match attached with
  | some value => r.set setting [value]
  | none => return { r with pending := some (setting, []) }

/-- Reads an argument that starts with two dashes, from behind them. -/
def readLong (r : Reading) (text : List Char) : Except UsageError Reading :=
  let name := text.takeWhile (· ≠ '=')
  let attached :=
    match text.dropWhile (· ≠ '=') with
    | [] => none
    | _ :: value => some (String.ofList value)
  match CommandOption.ofLong? (String.ofList name), attached with
  | none, _ => .error .unknownOption
  | some (.switch _), some _ => .error .unexpectedValue
  | some (.switch switch), none => r.flip switch
  | some (.setting setting), attached => r.begin setting attached

/-- Reads joined short options. An option that takes a value takes what is left as its value. -/
def readShort (r : Reading) : (text : List Char) → Except UsageError Reading
  | [] => .ok r
  | c :: rest =>
    match CommandOption.ofShort? c with
    | none => .error .unknownOption
    | some (.switch switch) => do (← r.flip switch).readShort rest
    | some (.setting setting) =>
      match rest with
      | [] => r.begin setting none
      | '=' :: value => r.begin setting (some (String.ofList value))
      | value => r.begin setting (some (String.ofList value))

/-- The values of the pending option are still coming in. -/
def wantsValue (r : Reading) : Bool :=
  match r.pending with
  | some (.exclude, _) => true
  | some (_, values) => values.isEmpty
  | none => false

/-- Takes a value of the pending option. -/
def takeValue (r : Reading) (value : String) : Reading :=
  { r with pending := r.pending.map fun (setting, values) => (setting, values ++ [value]) }

def takeName (r : Reading) (name : String) : Except UsageError Reading := do
  let r ← r.settle
  return { r with names := r.names ++ [name] }

/-- Reads one argument. -/
def read (r : Reading) (argument : String) : Except UsageError Reading :=
  if r.onlyNames then r.takeName argument
  else
    match argument.toList with
    | ['-', '-'] => .ok { r with onlyNames := true }
    | '-' :: '-' :: rest => r.readLong rest
    | '-' :: c :: rest => r.readShort (c :: rest)
    | _ => if r.wantsValue then .ok (r.takeValue argument) else r.takeName argument

/-- What the command line asks for, once it has been read to its end. -/
def finish (r : Reading) : Except UsageError Arguments := do
  let r ← r.settle
  match r.names with
  | [] => .error .missingFile
  | file :: files => return { r.arguments with file, files }

end Reading

/-- What a command line asks for. -/
def Arguments.parse (arguments : List String) : Except UsageError Arguments := do
  let start : Reading := { arguments := { file := "" } }
  (← arguments.foldlM Reading.read start).finish

end ZipArchive.Command
