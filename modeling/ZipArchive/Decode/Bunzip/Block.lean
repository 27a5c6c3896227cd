import ZipArchive.Decode.Bunzip.Flips
import ZipArchive.Decode.CanonicalCode
import ZipArchive.Decode.Checksum

/-!
# Bzip2 blocks

A block holds the bytes of its text, sorted by what follows them. They come as symbols of several
codes, which take turns every fifty symbols. Two symbols are digits that make up the length of a run
of the latest byte, the last one ends the block, and all others name a byte by how recently it was
used. The text in turn has runs of its own: four equal bytes are followed by the number of further
ones.
-/
namespace ZipArchive.Bunzip

/-- How many symbols in a row are of one code. -/
def turnLength : Nat := 50

/-- The weight that a digit of a run's length cannot have any more. -/
def weightLimit : Nat := 0x200000

/-- A block whose symbols are being read. -/
structure Block where
  /-- The checksum of the text. -/
  checksum : UInt32
  randomised : Bool
  /-- Where the text starts, as a place in the sorted bytes. -/
  origin : Nat
  /-- The most bytes that the block may hold. -/
  limit : Nat
  /-- The symbol that ends the block. -/
  endSymbol : Nat
  /-- The code of the next symbol, and those whose turn comes later. -/
  codes : List CanonicalCode
  /-- How many symbols are left in this turn. -/
  turn : Nat
  /-- The bytes that occur in the block, the latest one first. -/
  recent : List UInt8
  /-- The length of the run that is being read. -/
  run : Nat
  /-- The weight of the next digit of that length. -/
  weight : Nat
  /-- The sorted bytes so far. -/
  bytes : ByteArray

/-- Puts a byte behind some bytes a number of times. -/
def pushRun (byte : UInt8) : (count : Nat) → ByteArray → ByteArray
  | 0, bytes => bytes
  | count + 1, bytes => pushRun byte count (bytes.push byte)

/-- The item at an index of a row, and the row with the item moved to its front. -/
def moveToFront {α : Type} (row : List α) (index : Nat) : Option (α × List α) :=
  row[index]?.map fun item => (item, item :: row.eraseIdx index)

namespace Block

/-- Writes the run that was read out in full, unless it is too long for the block. -/
def endRun (b : Block) : Option Block :=
  if b.run = 0 then some b
  else if b.bytes.size + b.run ≤ b.limit then
    some { b with
      bytes := pushRun (b.recent.headD 0) b.run b.bytes
      run := 0
      weight := 1 }
  else none

/-- Counts one symbol of the code whose turn it is. -/
def endTurn (b : Block) : Block :=
  if b.turn ≤ 1 then { b with codes := b.codes.tail, turn := turnLength }
  else { b with turn := b.turn - 1 }

/-- Takes one more digit of the length of a run. -/
def digit (b : Block) (value : Nat) : Option Block :=
  if b.weight < weightLimit then
    some { b with run := b.run + value * b.weight, weight := 2 * b.weight }
  else none

/-- Takes the byte at an index of the recent ones. -/
def literal (b : Block) (index : Nat) : Option Block :=
  if b.bytes.size < b.limit then
    match moveToFront b.recent index with
    | some (byte, recent) => some { b with recent := recent, bytes := b.bytes.push byte }
    | none => none
  else none

/-- Takes a symbol other than the one that ends the block. -/
def put (b : Block) (symbol : Nat) : Option Block :=
  match symbol with
  | 0 => b.digit 1
  | 1 => b.digit 2
  | index + 1 => b.endRun.bind fun b => b.literal index

end Block

/-! ## From sorted bytes to text -/

/-- How often each byte occurs. -/
def tally (bytes : ByteArray) : Array Nat :=
  bytes.foldl (fun counts b => counts.modify b.toNat (· + 1)) (.replicate 256 0)

/-- The sums of the numbers before each one. -/
def sumsBefore (counts : Array Nat) : Array Nat :=
  (counts.foldl (fun (sums, total) count => (sums.push total, total + count)) (#[], 0)).1

/-- Enters what is left of the places of some bytes into the order that sorts them; `next` tells for
each byte where its next place is entered. -/
def linkFrom (bytes : ByteArray) : (left : Nat) → (next links : Array Nat) → Array Nat
  | 0, _, links => links
  | left + 1, next, links =>
    let place := bytes.size - (left + 1)
    let byte := (bytes.get! place).toNat
    let entry := next.getD byte 0
    linkFrom bytes left (next.setIfInBounds byte (entry + 1)) (links.setIfInBounds entry place)

/-- The places of some bytes in the order that sorts them. It leads from each byte of the text to
the one behind it. -/
def links (bytes : ByteArray) : Array Nat :=
  linkFrom bytes bytes.size (sumsBefore (tally bytes)) (.replicate bytes.size 0)

/-- The bytes met when the links are followed from a place. -/
def follow (bytes : ByteArray) (links : Array Nat) :
    (count place : Nat) → (met : ByteArray) → ByteArray
  | 0, _, met => met
  | count + 1, place, met =>
    follow bytes links count (links.getD place 0) (met.push (bytes.get! place))

/-- Writes out what is left of a text, where `run` equal bytes have just been written; the last byte
of `text` is behind its end. Tells whether the text was whole: one that ends where a count is due
takes the byte behind its end as the count, and is not. -/
def expandFrom (text : ByteArray) :
    (left : Nat) → (latest : UInt8) → (run : Nat) → ByteArray → ByteArray × Bool
  | 0, latest, run, written =>
    if run = 4 then (pushRun latest (text.get! (text.size - 1)).toNat written, false)
    else (written, true)
  | left + 1, latest, run, written =>
    let byte := text.get! (text.size - 1 - (left + 1))
    if run = 4 then expandFrom text left latest 0 (pushRun latest byte.toNat written)
    else
      expandFrom text left byte (if 0 < run ∧ byte = latest then run + 1 else 1) (written.push byte)

namespace Block

/-- The text of a block, and whether it is whole and matches its checksum. -/
def text (b : Block) : ByteArray × Bool :=
  let order := links b.bytes
  let raw := follow b.bytes order (b.bytes.size + 1) (order.getD b.origin 0) .empty
  let text := if b.randomised then unflip raw else raw
  let (written, whole) := expandFrom text b.bytes.size 0 0 .empty
  (written, whole && Checksum.crc32 .highFirst written = b.checksum)

end Block
end ZipArchive.Bunzip
