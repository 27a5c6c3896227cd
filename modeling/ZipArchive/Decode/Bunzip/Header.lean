import ZipArchive.Decode.Bunzip.Block

/-!
# Bzip2 headers

The headers of a stream and of its blocks. A block's header lists which bytes occur in the block,
which code is used when, and the lengths of the words of every code.
-/
namespace ZipArchive.Bunzip

def number (count : Nat) : BitReader Nat := .bits .highFirst count

/-- Takes the given bytes and no others. -/
def marker : List Nat → BitReader Unit
  | [] => return ()
  | byte :: rest => do
    .require ((← number 8) = byte)
    marker rest

theorem marker_moves (byte : Nat) (rest : List Nat) : (marker (byte :: rest)).Moves := by
  rw [marker]
  exact .bind (BitReader.bits_moves (by decide))

/-- The header of a stream, which tells how large its blocks are, in units of 100000 bytes. -/
def streamHeader : BitReader Nat := do
  marker [0x42, 0x5a, 0x68]
  let digit ← number 8
  .require (0x31 ≤ digit && digit ≤ 0x39)
  return digit - 0x30

/-- The bytes of one range of 16 that a map of 16 bits tells. -/
def membersOf (range map : Nat) : List UInt8 :=
  ((List.range 16).filter fun i => map.testBit (15 - i)).map fun i => UInt8.ofNat (16 * range + i)

/-- The bytes of some ranges; each range that `ranges` tells has a map of its own, and the others
are empty. -/
def members (ranges : Nat) : List Nat → BitReader (List UInt8)
  | [] => return []
  | range :: rest => do
    let map ← if ranges.testBit (15 - range) then number 16 else pure 0
    return membersOf range map ++ (← members ranges rest)

/-- The bytes that occur in a block. -/
def usedBytes : BitReader (List UInt8) := do members (← number 16) (List.range 16)

/-- A number below `bound`, as so many ones and a zero. -/
def unary (bound : Nat) : BitReader Nat :=
  .loop (fun count => do
    if (← number 1) = 0 then return .inr count
    else
      .require (count + 1 < bound)
      return .inl (count + 1)) 0

/-- A row of `count` numbers below `bound`. -/
def unaryRow (bound count : Nat) : BitReader (List Nat) :=
  .loop (fun (left, soFar) =>
    match left with
    | 0 => return .inr soFar.reverse
    | left + 1 => do return .inl (left, (← unary bound) :: soFar)) (count, ([] : List Nat))

/-- The lengths of the words of a code, each told by how it differs from the one before. -/
def wordLengths (symbols : Nat) : BitReader (List Nat) := do
  let first ← number 5
  .loop (fun (left, length, soFar) =>
    match left with
    | 0 => return .inr soFar.reverse
    | after + 1 => do
      .require (1 ≤ length && length ≤ 20)
      if (← number 1) = 0 then return .inl (after, length, length :: soFar)
      else if (← number 1) = 0 then return .inl (left, length + 1, soFar)
      else return .inl (left, length - 1, soFar)) (symbols, first, ([] : List Nat))

/-- The codes of a block. A row of bits that no word starts with is refused at its 21st bit. -/
def codeRow (symbols : Nat) : (count : Nat) → BitReader (List CanonicalCode)
  | 0 => return []
  | count + 1 => do
    let code := CanonicalCode.ofLengths 21 (← wordLengths symbols)
    return code :: (← codeRow symbols count)

/-- The greatest number of turns that a block can use. -/
def turnLimit : Nat := 18002

/-- The codes in the order of their turns. Each turn names its code by how recently it was used. -/
def turns (codes : List CanonicalCode) (indices : List Nat) : List CanonicalCode :=
  (indices.foldl (fun (row, taken) index =>
    match moveToFront row index with
    | some (code, row) => (row, code :: taken)
    | none => (row, taken)) (codes, ([] : List CanonicalCode))).2.reverse

/-- The number of bytes that the size of a block is told in. -/
def sizeUnit : Nat := 100000

/-- The header of a block behind its marker. -/
def blockHeader (level : Nat) : BitReader Block := do
  let checksum ← number 32
  let randomised ← number 1
  let origin ← number 24
  .require (origin ≤ 10 + sizeUnit * level)
  let bytes ← usedBytes
  .require (!bytes.isEmpty)
  let codeCount ← number 3
  .require (2 ≤ codeCount && codeCount ≤ 6)
  let turnCount ← number 15
  .require (1 ≤ turnCount)
  let indices ← unaryRow codeCount turnCount
  let codes ← codeRow (bytes.length + 2) codeCount
  return {
    checksum := UInt32.ofNat checksum
    randomised := randomised = 1
    origin
    limit := sizeUnit * level
    endSymbol := bytes.length + 1
    codes := turns codes (indices.take turnLimit)
    turn := turnLength
    recent := bytes
    run := 0
    weight := 1
    bytes := .empty }

end ZipArchive.Bunzip
