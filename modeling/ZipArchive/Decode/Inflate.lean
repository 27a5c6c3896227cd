import ZipArchive.Decode.CanonicalCode
import ZipArchive.Decode.Decoder

/-!
# Deflate data

Deflate data is a row of blocks: bytes stored as they are, or symbols of two codes that stand for
bytes and for repetitions of earlier output. A repetition may reach back before the start of the
output, where there are zeros.
-/
namespace ZipArchive.Inflate

/-- How far back a repetition can reach. -/
def windowSize : Nat := 32768

/-- The two codes of a block. -/
structure Codes where
  /-- Bytes, the end of the block, and lengths of repetitions. -/
  literals : CanonicalCode
  distances : CanonicalCode
  deriving DecidableEq, Repr

inductive State where
  /-- A block header comes next. -/
  | header
  /-- A stored byte comes next, and `after` more behind it. -/
  | stored (after : Nat) (final : Bool)
  /-- A symbol comes next. -/
  | symbols (codes : Codes) (final : Bool)
  /-- A byte is to be written. -/
  | literal (byte : UInt8) (codes : Codes) (final : Bool)
  /-- A byte is to be repeated from `distance` back, and `after` more behind it. -/
  | copy (after distance : Nat) (codes : Codes) (final : Bool)
  | finished
  deriving DecidableEq, Repr

def number (count : Nat) : BitReader Nat := .bits .lowFirst count

/-- The code with the given word lengths. It has room for one word of length 1 at least, so that a
code without words takes a bit to refuse. -/
def codeOf (lengths : List Nat) : CanonicalCode := .ofLengths (lengths.foldl max 1) lengths

/-- A code can be read if every row of bits starts with one of its words. A code of a single word,
or of none, may leave words unused. -/
def isUsable (code : CanonicalCode) : Bool :=
  code.isComplete || (0 < code.unused && code.symbols.size ≤ 1 && code.counts.length = 1)

/-- The codes of a block that does not bring its own. -/
def fixedCodes : Codes where
  literals := codeOf (List.replicate 144 8 ++ List.replicate 112 9 ++ List.replicate 24 7 ++
    List.replicate 8 8)
  distances := codeOf (List.replicate 32 5)

/-- The least length that a length symbol stands for, and the number of bits added to it. -/
def lengthRanges : Array (Nat × Nat) :=
  #[(3, 0), (4, 0), (5, 0), (6, 0), (7, 0), (8, 0), (9, 0), (10, 0), (11, 1), (13, 1), (15, 1),
    (17, 1), (19, 2), (23, 2), (27, 2), (31, 2), (35, 3), (43, 3), (51, 3), (59, 3), (67, 4),
    (83, 4), (99, 4), (115, 4), (131, 5), (163, 5), (195, 5), (227, 5), (258, 0)]

/-- The least distance that a distance symbol stands for, and the number of bits added to it. -/
def distanceRanges : Array (Nat × Nat) :=
  #[(1, 0), (2, 0), (3, 0), (4, 0), (5, 1), (7, 1), (9, 2), (13, 2), (17, 3), (25, 3), (33, 4),
    (49, 4), (65, 5), (97, 5), (129, 6), (193, 6), (257, 7), (385, 7), (513, 8), (769, 8),
    (1025, 9), (1537, 9), (2049, 10), (3073, 10), (4097, 11), (6145, 11), (8193, 12), (12289, 12),
    (16385, 13), (24577, 13)]

/-- A number from one of the ranges of a table. -/
def fromRange (ranges : Array (Nat × Nat)) (symbol : Nat) : BitReader Nat :=
  match ranges[symbol]? with
  | some (least, extra) => do return least + (← number extra)
  | none => .refuse

/-- The symbols whose word lengths a block header lists first, in the order it lists them. -/
def lengthSymbolOrder : List Nat :=
  [16, 17, 18, 0, 8, 7, 9, 6, 10, 5, 11, 4, 12, 3, 13, 2, 14, 1, 15]

def numbers (width : Nat) : (count : Nat) → BitReader (List Nat)
  | 0 => return []
  | count + 1 => do
    let first ← number width
    return first :: (← numbers width count)

/-- What a length symbol adds to the lengths so far, last one first: a length of its own, or a
repetition of the last one or of zero. -/
def lengthRun (soFar : List Nat) (symbol : Nat) : BitReader (List Nat) :=
  match symbol with
  | 16 =>
    match soFar with
    | [] => .refuse
    | last :: _ => do return List.replicate (3 + (← number 2)) last
  | 17 => do return List.replicate (3 + (← number 3)) 0
  | 18 => do return List.replicate (11 + (← number 7)) 0
  | length => return [length]

/-- Reads `count` word lengths in all, into those so far, last one first. A repetition must not run
over the count. -/
def wordLengths (code : CanonicalCode) (count : Nat) (soFar : List Nat) : BitReader (List Nat) :=
  if count ≤ soFar.length then return soFar.reverse
  else do
    let symbol ← code.reader .lowFirst
    let run ← lengthRun soFar symbol
    if _fits : 0 < run.length ∧ soFar.length + run.length ≤ count then
      wordLengths code count (run ++ soFar)
    else .refuse
termination_by count - soFar.length
decreasing_by simp only [List.length_append]; omega

/-- The codes that a block brings along. -/
def blockCodes : BitReader Codes := do
  let literalCount := 257 + (← number 5)
  let distanceCount := 1 + (← number 5)
  let listed := 4 + (← number 4)
  .require (literalCount ≤ 286 && distanceCount ≤ 30)
  let listedLengths ← numbers 3 listed
  let lengthOf (symbol : Nat) : Nat := ((lengthSymbolOrder.zip listedLengths).lookup symbol).getD 0
  let lengthCode := codeOf ((List.range 19).map lengthOf)
  .require lengthCode.isComplete
  let lengths ← wordLengths lengthCode (literalCount + distanceCount) []
  .require (lengths.getD 256 0 ≠ 0)
  let codes : Codes := ⟨codeOf (lengths.take literalCount), codeOf (lengths.drop literalCount)⟩
  .require (isUsable codes.literals && isUsable codes.distances)
  return codes

/-- What comes behind a block. -/
def afterBlock (final : Bool) : State := if final then .finished else .header

/-- Reads the header of a block. -/
def blockStart : BitReader State := do
  let head ← number 3
  let final := head % 2 = 1
  match head / 2 with
  | 0 => do
    .align
    let length ← number 16
    let complement ← number 16
    .require (length + complement = 0xffff)
    match length with
    | 0 => return afterBlock final
    | after + 1 => return .stored after final
  | 1 => return .symbols fixedCodes final
  | 2 => do return .symbols (← blockCodes) final
  | _ => .refuse

/-- Reads one symbol, and the distance that follows a length. -/
def symbolState (codes : Codes) (final : Bool) : BitReader State := do
  let symbol ← codes.literals.reader .lowFirst
  if symbol < 256 then return .literal symbol.toUInt8 codes final
  else if symbol = 256 then return afterBlock final
  else
    let length ← fromRange lengthRanges (symbol - 257)
    let distance ← fromRange distanceRanges (← codes.distances.reader .lowFirst)
    return .copy (length - 1) distance codes final

/-- The byte `distance` back from the end of the output. -/
def byteBack (output : ByteArray) (distance : Nat) : UInt8 :=
  if h : 0 < distance ∧ distance ≤ output.size then output[output.size - distance] else 0

/-- Goes on to the state that was read. -/
def advanceBy (state : State) : BitResult State → DecodeStep State
  | .found next pos => .advance next pos
  | .more => .starved state
  | .refused => .failed .corruptDeflate

def step (state : State) (output input : ByteArray) (pos : Nat) : DecodeStep State :=
  match state with
  | .header => advanceBy .header (blockStart.read input pos)
  | .stored after final =>
    match (number 8).read input pos with
    | .found byte next =>
      match after with
      | 0 => .emit byte.toUInt8 (afterBlock final) next
      | after + 1 => .emit byte.toUInt8 (.stored after final) next
    | .more => .starved (.stored after final)
    | .refused => .failed .corruptDeflate
  | .symbols codes final =>
    advanceBy (.symbols codes final) ((symbolState codes final).read input pos)
  | .literal byte codes final => .emit byte (.symbols codes final) pos
  | .copy after distance codes final =>
    match after with
    | 0 => .emit (byteBack output distance) (.symbols codes final) pos
    | after + 1 => .emit (byteBack output distance) (.copy after distance codes final) pos
  | .finished => .finished .finished

def emits : State → Bool
  | .stored .. | .literal .. | .copy .. => true
  | _ => false

def owed : State → Nat
  | .literal .. => 1
  | .copy after .. => after + 1
  | _ => 0

theorem blockStart_moves : blockStart.Moves := .bind (BitReader.bits_moves (by decide))

theorem symbolState_moves (codes : Codes) (final : Bool) : (symbolState codes final).Moves :=
  .bind (codes.literals.reader_moves .lowFirst)

theorem number_forward {count : Nat} {input : ByteArray} {pos value next : Nat}
    (h : (number count).read input pos = .found value next) :
    next = pos + count ∧ next ≤ bitLength input := by
  unfold number BitReader.bits at h
  dsimp only at h
  split at h
  · simp only [BitResult.found.injEq] at h
    omega
  · simp at h

theorem step_advance_forward {state : State} {output input : ByteArray} {pos : Nat} {state' : State}
    {next : Nat} (inside : pos ≤ bitLength input)
    (h : step state output input pos = .advance state' next) :
    pos < next ∧ next ≤ bitLength input := by
  unfold step at h
  split at h
  · unfold advanceBy at h
    split at h <;> simp only [DecodeStep.advance.injEq, reduceCtorEq] at h
    rename_i found
    obtain ⟨rfl, rfl⟩ := h
    exact ⟨blockStart_moves _ _ _ _ inside found, (blockStart.forward _ _ _ _ inside found).2⟩
  · split at h <;> (try split at h) <;> simp at h
  · unfold advanceBy at h
    split at h <;> simp only [DecodeStep.advance.injEq, reduceCtorEq] at h
    rename_i found
    obtain ⟨rfl, rfl⟩ := h
    exact ⟨symbolState_moves _ _ _ _ _ _ inside found,
      ((symbolState _ _).forward _ _ _ _ inside found).2⟩
  · simp at h
  · split at h <;> simp at h
  · simp at h

theorem step_emit_forward {state : State} {output input : ByteArray} {pos : Nat} {byte : UInt8}
    {state' : State} {next : Nat} (inside : pos ≤ bitLength input)
    (h : step state output input pos = .emit byte state' next) :
    (pos < next ∨ pos = next ∧ owed state' < owed state) ∧ next ≤ bitLength input := by
  unfold step at h
  split at h
  · unfold advanceBy at h
    split at h <;> simp at h
  · split at h
    · rename_i found
      have := number_forward found
      split at h <;> simp only [DecodeStep.emit.injEq] at h <;> omega
    · simp at h
    · simp at h
  · unfold advanceBy at h
    split at h <;> simp at h
  · simp only [DecodeStep.emit.injEq] at h
    obtain ⟨_, rfl, rfl⟩ := h
    exact ⟨Or.inr ⟨rfl, by simp [owed]⟩, inside⟩
  · split at h <;> simp only [DecodeStep.emit.injEq] at h <;> obtain ⟨_, rfl, rfl⟩ := h
    · exact ⟨Or.inr ⟨rfl, by simp [owed]⟩, inside⟩
    · exact ⟨Or.inr ⟨rfl, by simp [owed]⟩, inside⟩
  · simp at h

theorem step_starved_same {state : State} {output input : ByteArray} {pos : Nat} {state' : State}
    (h : step state output input pos = .starved state') : state' = state := by
  unfold step advanceBy at h
  split at h <;> (try split at h) <;> (try split at h) <;> simp_all

theorem step_finished_same {state : State} {output input : ByteArray} {pos : Nat} {state' : State}
    (h : step state output input pos = .finished state') : state' = state := by
  unfold step advanceBy at h
  split at h <;> (try split at h) <;> (try split at h) <;> simp_all

/-- The decoder of deflate data. -/
def decoder : Decoder State where
  start := .header
  incomplete := .incompleteDeflate
  emits := emits
  step := step
  stride := windowSize
  owed := owed
  advance_forward _ _ _ _ _ _ inside h := step_advance_forward inside h
  emit_forward _ _ _ _ _ _ _ inside h := step_emit_forward inside h
  starved_same _ _ _ _ _ h := step_starved_same h
  finished_same _ _ _ _ _ h := step_finished_same h

theorem decoder_stable : decoder.Stable where
  step_append := by
    intro state output input pos suffix inside decided
    change ∀ state', step state output input pos ≠ _ at decided
    change step state output (input ++ suffix) pos = step state output input pos
    unfold step at decided ⊢
    cases state with
    | header =>
      dsimp only at decided ⊢
      rw [BitReader.read_append _ suffix inside]
      intro more
      rw [more] at decided
      exact decided _ rfl
    | stored after final =>
      dsimp only at decided ⊢
      rw [BitReader.read_append _ suffix inside]
      intro more
      rw [more] at decided
      exact decided _ rfl
    | symbols codes final =>
      dsimp only at decided ⊢
      rw [BitReader.read_append _ suffix inside]
      intro more
      rw [more] at decided
      exact decided _ rfl
    | literal => rfl
    | copy => rfl
    | finished => rfl
  stride_pos := by decide

end ZipArchive.Inflate
