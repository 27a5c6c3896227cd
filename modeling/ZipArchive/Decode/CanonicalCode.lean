import ZipArchive.Decode.Bits

/-!
# Canonical codes

A canonical code is given by the lengths of its code words alone: shorter words come first, and
words of one length are numbered in the order of their symbols. It is read one bit at a time, by
comparing the bits so far with the words of that length.
-/
namespace ZipArchive

structure CanonicalCode where
  /-- How many words there are of length 1, 2, and so on. -/
  counts : List Nat
  /-- The symbols, in the order of their words. -/
  symbols : Array Nat
  deriving DecidableEq, Repr

namespace CanonicalCode

/-- The symbols whose word has the given length, in order. -/
def ofLength (lengths : List Nat) (length : Nat) : List Nat :=
  lengths.zipIdx.filterMap fun (l, symbol) => if l = length then some symbol else none

/-- The code whose words have the given lengths, up to `maxLength`. A symbol with length 0 has no
word. -/
def ofLengths (maxLength : Nat) (lengths : List Nat) : CanonicalCode where
  counts := (List.range' 1 maxLength).map lengths.count
  symbols := ((List.range' 1 maxLength).flatMap (ofLength lengths)).toArray

/-- How many words of the greatest length are still free: negative when there are too many words,
zero when every row of bits starts with a word. -/
def unused (code : CanonicalCode) : Int :=
  code.counts.foldl (fun (free : Int) (count : Nat) => 2 * free - count) 1

/-- Every row of bits starts with exactly one word. -/
def isComplete (code : CanonicalCode) : Bool := code.unused = 0

/-- Looks for a word among those of the lengths that are left. `bits` are the bits so far, `first`
is the first word of the length before, each doubled, and `index` counts the shorter words. -/
def readAt (symbols : Array Nat) (order : BitOrder) (input : ByteArray) :
    (counts : List Nat) → (pos bits first index : Nat) → BitResult Nat
  | [], _, _, _, _ => .refused
  | count :: longer, pos, bits, first, index =>
    if pos < bitLength input then
      let bits := bits + bitAt order input pos
      if bits < first + count then
        match symbols[index + (bits - first)]? with
        | some symbol => .found symbol (pos + 1)
        | none => .refused
      else readAt symbols order input longer (pos + 1) (2 * bits) (2 * (first + count))
        (index + count)
    else .more

theorem readAt_forward {symbols : Array Nat} {order : BitOrder} {input : ByteArray}
    {counts : List Nat} {pos bits first index symbol next : Nat}
    (h : readAt symbols order input counts pos bits first index = .found symbol next) :
    pos < next ∧ next ≤ bitLength input := by
  induction counts generalizing pos bits first index with
  | nil => simp [readAt] at h
  | cons count longer ih =>
    unfold readAt at h
    by_cases inside : pos < bitLength input
    · simp only [inside, if_true] at h
      split at h
      · split at h
        · simp only [BitResult.found.injEq] at h
          omega
        · simp at h
      · have := ih h
        omega
    · simp [inside] at h

theorem readAt_append {symbols : Array Nat} {order : BitOrder} {input : ByteArray}
    {counts : List Nat} {pos bits first index : Nat} (suffix : ByteArray)
    (h : readAt symbols order input counts pos bits first index ≠ .more) :
    readAt symbols order (input ++ suffix) counts pos bits first index =
      readAt symbols order input counts pos bits first index := by
  induction counts generalizing pos bits first index with
  | nil => rfl
  | cons count longer ih =>
    unfold readAt at h ⊢
    by_cases inside : pos < bitLength input
    · have further : pos < bitLength (input ++ suffix) := by rw [bitLength_append]; omega
      simp only [inside, further, if_true, bitAt_append order suffix inside] at h ⊢
      split
      · rfl
      · rename_i longerWord
        rw [if_neg longerWord] at h
        exact ih h
    · simp [inside] at h

/-- Reads one word and gives its symbol. Bits that no word starts with are refused. -/
def reader (code : CanonicalCode) (order : BitOrder) : BitReader Nat where
  read input pos := readAt code.symbols order input code.counts pos 0 0 0
  forward := by
    intro input pos value next inside h
    have := readAt_forward h
    omega
  found_append := by
    intro input pos value next suffix inside h
    rw [readAt_append suffix (by rw [h]; simp)]
    exact h
  refused_append := by
    intro input pos suffix inside h
    rw [readAt_append suffix (by rw [h]; simp)]
    exact h

theorem reader_moves (code : CanonicalCode) (order : BitOrder) : (code.reader order).Moves := by
  intro input pos value next inside h
  exact (readAt_forward h).1

end CanonicalCode
end ZipArchive
