import ZipArchive.Decode.Bunzip.Header
import ZipArchive.Decode.Decoder

/-!
# Bzip2 data

Bzip2 data is a header and a row of blocks. Each block has a checksum, and so has the stream as a
whole. A block's text is known when its last symbol has been read, and is written out from there.
-/
namespace ZipArchive.Bunzip

inductive State where
  /-- The header of the stream comes next. -/
  | start
  /-- A block or the end of the stream comes next, if the block before was sound. -/
  | between (level : Nat) (checksum : UInt32) (sound : Bool)
  /-- A symbol of a block comes next. -/
  | symbols (level : Nat) (checksum : UInt32) (block : Block)
  /-- The text of a block is to be written, from an index on. -/
  | text (level : Nat) (checksum : UInt32) (sound : Bool) (bytes : ByteArray) (index : Nat)
  | finished

/-- The checksum of a stream with one more block. -/
def combine (stream block : UInt32) : UInt32 := (stream <<< 1 ||| stream >>> 31) ^^^ block

/-- A block's header, or the end of the stream with its checksum. -/
def blockStart (level : Nat) (checksum : UInt32) : BitReader State := do
  match ← number 8 with
  | 0x31 => do
    marker [0x41, 0x59, 0x26, 0x53, 0x59]
    return .symbols level checksum (← blockHeader level)
  | 0x17 => do
    marker [0x72, 0x45, 0x38, 0x50, 0x90]
    .require ((← number 32) = checksum.toNat)
    return .finished
  | _ => .refuse

def streamStart : BitReader State := do return .between (← streamHeader) 0 true

/-- Goes on to the state that was read. -/
def advanceBy (state : State) (error : DecodeError) : BitResult State → DecodeStep State
  | .found next pos => .advance next pos
  | .more => .starved state
  | .refused => .failed error

/-- Goes on to the text of a block. -/
def textState (level : Nat) (checksum : UInt32) (block : Block) : State :=
  let (bytes, sound) := block.text
  let checksum := combine checksum block.checksum
  if bytes.size = 0 then .between level checksum sound else .text level checksum sound bytes 0

/-- The state behind a symbol, unless the symbol has no place in the block. -/
def afterSymbol (level : Nat) (checksum : UInt32) (block : Block) (symbol : Nat) : Option State :=
  if symbol = block.endSymbol then
    match block.endRun with
    | some block =>
      if block.origin < block.bytes.size then some (textState level checksum block) else none
    | none => none
  else
    match block.endTurn.put symbol with
    | some block => some (.symbols level checksum block)
    | none => none

/-- Reads a symbol by the code whose turn it is. -/
def symbolReader (block : Block) : BitReader Nat :=
  match block.codes with
  | [] => .refuse
  | code :: _ => code.reader .highFirst

def step (state : State) (input : ByteArray) (pos : Nat) : DecodeStep State :=
  match state with
  | .start => advanceBy .start .noBzip2Header (streamStart.read input pos)
  | .between level checksum sound =>
    if sound then
      advanceBy (.between level checksum sound) .invalidBzip2
        ((blockStart level checksum).read input pos)
    else .failed .invalidBzip2
  | .symbols level checksum block =>
    match (symbolReader block).read input pos with
    | .found symbol next =>
      match afterSymbol level checksum block symbol with
      | some state => .advance state next
      | none => .failed .invalidBzip2
    | .more => .starved (.symbols level checksum block)
    | .refused => .failed .invalidBzip2
  | .text level checksum sound bytes index =>
    if h : index < bytes.size then
      if index + 1 < bytes.size then
        .emit bytes[index] (.text level checksum sound bytes (index + 1)) pos
      else .emit bytes[index] (.between level checksum sound) pos
    else .failed .invalidBzip2
  | .finished => .finished .finished

def emits : State → Bool
  | .text .. => true
  | _ => false

def owed : State → Nat
  | .text _ _ _ bytes index => bytes.size - index
  | _ => 0

theorem streamStart_moves : streamStart.Moves :=
  .bind (.bind (marker_moves 0x42 _))

theorem blockStart_moves (level : Nat) (checksum : UInt32) : (blockStart level checksum).Moves :=
  .bind (BitReader.bits_moves (by decide))

theorem symbolReader_moves (block : Block) : (symbolReader block).Moves := by
  unfold symbolReader
  split
  · intro input pos value next inside h
    simp [BitReader.refuse] at h
  · exact CanonicalCode.reader_moves _ _

theorem step_advance_forward {state : State} {input : ByteArray} {pos : Nat} {state' : State}
    {next : Nat} (inside : pos ≤ bitLength input)
    (h : step state input pos = .advance state' next) :
    pos < next ∧ next ≤ bitLength input := by
  unfold step at h
  split at h
  · unfold advanceBy at h
    split at h <;> simp only [DecodeStep.advance.injEq, reduceCtorEq] at h
    rename_i found
    obtain ⟨rfl, rfl⟩ := h
    exact ⟨streamStart_moves _ _ _ _ inside found, (streamStart.forward _ _ _ _ inside found).2⟩
  · split at h
    · unfold advanceBy at h
      split at h <;> simp only [DecodeStep.advance.injEq, reduceCtorEq] at h
      rename_i found
      obtain ⟨rfl, rfl⟩ := h
      exact ⟨blockStart_moves _ _ _ _ _ _ inside found,
        ((blockStart _ _).forward _ _ _ _ inside found).2⟩
    · simp at h
  · split at h
    · rename_i found
      split at h
      · simp only [DecodeStep.advance.injEq] at h
        obtain ⟨_, rfl⟩ := h
        exact ⟨symbolReader_moves _ _ _ _ _ inside found,
          ((symbolReader _).forward _ _ _ _ inside found).2⟩
      · simp at h
    · simp at h
    · simp at h
  · split at h
    · split at h <;> simp at h
    · simp at h
  · simp at h

theorem step_emit_forward {state : State} {input : ByteArray} {pos : Nat} {byte : UInt8}
    {state' : State} {next : Nat} (inside : pos ≤ bitLength input)
    (h : step state input pos = .emit byte state' next) :
    (pos < next ∨ pos = next ∧ owed state' < owed state) ∧ next ≤ bitLength input := by
  unfold step at h
  split at h
  · unfold advanceBy at h
    split at h <;> simp at h
  · split at h
    · unfold advanceBy at h
      split at h <;> simp at h
    · simp at h
  · split at h
    · split at h <;> simp at h
    · simp at h
    · simp at h
  · split at h
    · split at h <;> simp only [DecodeStep.emit.injEq] at h <;> obtain ⟨_, rfl, rfl⟩ := h <;>
        exact ⟨Or.inr ⟨rfl, by simp only [owed]; omega⟩, inside⟩
    · simp at h
  · simp at h

theorem step_starved_same {state : State} {input : ByteArray} {pos : Nat} {state' : State}
    (h : step state input pos = .starved state') : state' = state := by
  unfold step advanceBy at h
  split at h <;> (try split at h) <;> (try split at h) <;> simp_all

theorem step_finished_same {state : State} {input : ByteArray} {pos : Nat} {state' : State}
    (h : step state input pos = .finished state') : state' = state := by
  unfold step advanceBy at h
  split at h <;> (try split at h) <;> (try split at h) <;> simp_all

/-- The decoder of bzip2 data. -/
def decoder : Decoder State where
  start := .start
  incomplete := .incompleteBzip2
  emits := emits
  step state _ input pos := step state input pos
  stride := 1
  owed := owed
  advance_forward _ _ _ _ _ _ inside h := step_advance_forward inside h
  emit_forward _ _ _ _ _ _ _ inside h := step_emit_forward inside h
  starved_same _ _ _ _ _ h := step_starved_same h
  finished_same _ _ _ _ _ h := step_finished_same h

theorem decoder_stable : decoder.Stable where
  step_append := by
    intro state output input pos suffix inside decided
    change ∀ state', step state input pos ≠ _ at decided
    change step state (input ++ suffix) pos = step state input pos
    unfold step at decided ⊢
    cases state with
    | start =>
      dsimp only at decided ⊢
      rw [BitReader.read_append _ suffix inside]
      intro more
      rw [more] at decided
      exact decided _ rfl
    | between level checksum sound =>
      cases sound with
      | false => rfl
      | true =>
        simp only [if_true] at decided ⊢
        rw [BitReader.read_append _ suffix inside]
        intro more
        rw [more] at decided
        exact decided _ rfl
    | symbols level checksum block =>
      dsimp only at decided ⊢
      rw [BitReader.read_append _ suffix inside]
      intro more
      rw [more] at decided
      exact decided _ rfl
    | text => rfl
    | finished => rfl
  stride_pos := by decide

end ZipArchive.Bunzip
