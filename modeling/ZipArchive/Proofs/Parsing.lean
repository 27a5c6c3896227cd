import ZipArchive.Layout

/-!
# Parsing with layouts

How a layout built from others reads bytes in memory. A layout is run part by part (`parse_bind`), and
each part either takes its own encoding off the front of the bytes or finds them too short.
-/
namespace ZipArchive.Layout

variable {α β ι : Type} {label record : String}

theorem run_bind (reader : Reader ι) (x : Layout α) (f : α → Layout β) (input : ι) :
    (x >>= f).run reader label record input =
      match x.run reader label record input with
      | (.ok value, rest) => (f value).run reader label record rest
      | (.error e, rest) => (.error e, rest) := by
  change (x.bind f).run reader label record input = _
  induction x generalizing input with
  | done value => rfl
  | refuse error => rfl
  | bytes length next ih =>
    rcases taken : reader.take length input with ⟨b | e, input'⟩
    · simp only [bind, run, taken]
    · simp only [bind, run, taken, ih]
  | skip length next ih =>
    rcases passed : reader.skip length input with ⟨_ | _, input'⟩
    · simp only [bind, run, passed]
    · simp only [bind, run, passed, ih]

theorem parse_bind (x : Layout α) (f : α → Layout β) (bytes : List UInt8) :
    (x >>= f).parse label record bytes =
      match x.parse label record bytes with
      | (.ok value, rest) => (f value).parse label record rest
      | (.error e, rest) => (.error e, rest) := by
  unfold parse
  rw [run_bind]
  cases x.run Bytes.reader label record bytes with
  | mk result rest => cases result <;> rfl

@[simp] theorem parse_done (value : α) (bytes : List UInt8) :
    (Layout.done value).parse label record bytes = (.ok value, bytes) := rfl

@[simp] theorem parse_refuse (error : ZipError) (bytes : List UInt8) :
    (Layout.refuse error : Layout α).parse label record bytes = (.error error, bytes) := rfl

/-- Bytes that end too early cut the record short, whatever would be made of them. -/
theorem parse_bytes_short {length : Nat} (next : List UInt8 → Layout α) {bytes : List UInt8}
    (short : bytes.length < length) :
    (Layout.bytes length next).parse label record bytes =
      (.error (.corrupt (.truncated record)), []) := by
  have refused : Bytes.take length bytes = (.error ⟨.bufferNotFilled, none⟩, []) :=
    if_neg (by omega)
  simp [parse, run, Bytes.reader, refused, ZipError.ofRead, IoError.isShortRead]

theorem parse_skip_short {length : Nat} (next : Layout α) {bytes : List UInt8}
    (short : bytes.length < length) :
    (Layout.skip length next).parse label record bytes =
      (.error (.corrupt (.truncated record)), []) := by
  have refused : Bytes.skip length bytes = (.error ⟨.endOfFile, none⟩, []) := if_neg (by omega)
  simp [parse, run, Bytes.reader, refused, ZipError.ofRead, IoError.isShortRead]

theorem parse_bytes_long {length : Nat} (next : List UInt8 → Layout α) {bytes : List UInt8}
    (long : length ≤ bytes.length) :
    (Layout.bytes length next).parse label record bytes =
      (next (bytes.take length)).parse label record (bytes.drop length) := by
  have given : Bytes.take length bytes = (.ok (bytes.take length), bytes.drop length) := if_pos long
  simp only [parse, run, Bytes.reader, given]

theorem parse_skip_long {length : Nat} (next : Layout α) {bytes : List UInt8}
    (long : length ≤ bytes.length) :
    (Layout.skip length next).parse label record bytes =
      next.parse label record (bytes.drop length) := by
  have given : Bytes.skip length bytes = (.ok (), bytes.drop length) := if_pos long
  simp only [parse, run, Bytes.reader, given]

theorem parse_bytes_append (next : List UInt8 → Layout α) (taken rest : List UInt8) :
    (Layout.bytes taken.length next).parse label record (taken ++ rest) =
      (next taken).parse label record rest := by
  rw [parse_bytes_long next (by rw [List.length_append]; omega), List.take_left, List.drop_left]

theorem parse_take_append {length : Nat} {taken : List UInt8} (size : taken.length = length)
    (rest : List UInt8) :
    (take length).parse label record (taken ++ rest) = (.ok taken, rest) := by
  subst size
  exact parse_bytes_append Layout.done taken rest

theorem parse_pass_append {length : Nat} {passed : List UInt8} (size : passed.length = length)
    (rest : List UInt8) :
    (pass length).parse label record (passed ++ rest) = (.ok (), rest) := by
  subst size
  rw [pass, parse_skip_long _ (by rw [List.length_append]; omega), List.drop_left, parse_done]

@[simp] theorem parse_uint16_append (n : UInt16) (rest : List UInt8) :
    uint16.parse label record (LittleEndian.ofUInt16 n ++ rest) = (.ok n, rest) := by
  have whole : (LittleEndian.ofUInt16 n).length = 2 := LittleEndian.length_ofNat _ _
  rw [uint16, ← whole, parse_bytes_append, parse_done, LittleEndian.toUInt16_ofUInt16]

@[simp] theorem parse_uint32_append (n : UInt32) (rest : List UInt8) :
    uint32.parse label record (LittleEndian.ofUInt32 n ++ rest) = (.ok n, rest) := by
  have whole : (LittleEndian.ofUInt32 n).length = 4 := LittleEndian.length_ofNat _ _
  rw [uint32, ← whole, parse_bytes_append, parse_done, LittleEndian.toUInt32_ofUInt32]

@[simp] theorem parse_uint64_append (n : UInt64) (rest : List UInt8) :
    uint64.parse label record (LittleEndian.ofUInt64 n ++ rest) = (.ok n, rest) := by
  have whole : (LittleEndian.ofUInt64 n).length = 8 := LittleEndian.length_ofNat _ _
  rw [uint64, ← whole, parse_bytes_append, parse_done, LittleEndian.toUInt64_ofUInt64]

/-- Four bytes are taken for a signature, and only the expected ones are let through. -/
theorem parse_signature (name : String) (expected found : UInt32) (rest : List UInt8) :
    (signature name expected).parse label record (LittleEndian.ofUInt32 found ++ rest) =
      (if found = expected then .ok () else .error (.badSignature name expected found), rest) := by
  rw [signature, parse_bind, parse_uint32_append]
  by_cases same : found = expected <;> simp [same]

@[simp] theorem parse_signature_append (name : String) (expected : UInt32) (rest : List UInt8) :
    (signature name expected).parse label record (LittleEndian.ofUInt32 expected ++ rest) =
      (.ok (), rest) := by
  rw [parse_signature, if_pos rfl]

/-- A record with another signature is refused before anything else is read. -/
theorem parse_other_signature {name : String} {expected found : UInt32} (other : found ≠ expected)
    (f : Unit → Layout α) (rest : List UInt8) :
    (signature name expected >>= f).parse label record (LittleEndian.ofUInt32 found ++ rest) =
      (.error (.badSignature name expected found), rest) := by
  rw [parse_bind, parse_signature, if_neg other]

/-- What reading a record comes to, whatever is left over. -/
def outcome (x : Layout α) (label record : String) (bytes : List UInt8) : Except ZipError α :=
  (x.parse label record bytes).1

theorem outcome_eq_iff {x : Layout α} {bytes : List UInt8} {result : Except ZipError α} :
    x.outcome label record bytes = result ↔
      ∃ rest, x.parse label record bytes = (result, rest) := by
  unfold outcome
  constructor
  · rintro rfl
    exact ⟨_, rfl⟩
  · rintro ⟨rest, parsed⟩
    rw [parsed]

/-! ## Records that could be read -/

theorem parse_bind_ok {x : Layout α} {f : α → Layout β} {bytes rest : List UInt8} {value : β}
    (read : (x >>= f).parse label record bytes = (.ok value, rest)) :
    ∃ a middle, x.parse label record bytes = (.ok a, middle) ∧
      (f a).parse label record middle = (.ok value, rest) := by
  rw [parse_bind] at read
  rcases first : x.parse label record bytes with ⟨e | a, middle⟩
  · rw [first] at read
    cases read
  · rw [first] at read
    exact ⟨a, middle, rfl, read⟩

theorem parse_take_ok {length : Nat} {bytes taken rest : List UInt8}
    (read : (take length).parse label record bytes = (.ok taken, rest)) :
    length ≤ bytes.length ∧ taken = bytes.take length ∧ rest = bytes.drop length := by
  by_cases long : length ≤ bytes.length
  · rw [take, parse_bytes_long _ long] at read
    cases read
    exact ⟨long, rfl, rfl⟩
  · rw [take, parse_bytes_short _ (Nat.lt_of_not_le long)] at read
    cases read

theorem parse_pass_ok {length : Nat} {bytes rest : List UInt8}
    (read : (pass length).parse label record bytes = (.ok (), rest)) :
    length ≤ bytes.length ∧ rest = bytes.drop length := by
  by_cases long : length ≤ bytes.length
  · rw [pass, parse_skip_long _ long] at read
    cases read
    exact ⟨long, rfl⟩
  · rw [pass, parse_skip_short _ (Nat.lt_of_not_le long)] at read
    cases read

theorem parse_signature_ok {name : String} {expected : UInt32} {bytes rest : List UInt8}
    (read : (signature name expected).parse label record bytes = (.ok (), rest)) :
    4 ≤ bytes.length ∧ rest = bytes.drop 4 := by
  by_cases inside : 4 ≤ bytes.length
  · have length : (bytes.take 4).length = 4 := List.length_take_of_le inside
    have whole := List.take_append_drop 4 bytes
    rw [← whole, ← LittleEndian.ofUInt32_toUInt32 length, parse_signature] at read
    simp only [Prod.mk.injEq] at read
    exact ⟨inside, read.2.symm⟩
  · have short : (uint32.parse label record bytes : Except ZipError UInt32 × _) = _ :=
      parse_bytes_short (fun b => .done (LittleEndian.toUInt32 b)) (Nat.lt_of_not_le inside)
    rw [signature, parse_bind, short] at read
    cases read

/-- Reading a record takes bytes from the front, and whatever stands behind them makes no
difference. -/
theorem parse_ok_taken {x : Layout α} {bytes rest : List UInt8} {value : α}
    (read : x.parse label record bytes = (.ok value, rest)) :
    ∃ taken, bytes = taken ++ rest ∧
      ∀ behind, x.parse label record (taken ++ behind) = (.ok value, behind) := by
  induction x generalizing bytes with
  | done stored =>
    cases read
    exact ⟨[], rfl, fun _ => rfl⟩
  | refuse error => cases read
  | bytes length next ih =>
    by_cases long : length ≤ bytes.length
    · rw [parse_bytes_long next long] at read
      obtain ⟨taken, parts, onward⟩ := ih _ read
      have size : (bytes.take length).length = length := List.length_take_of_le long
      refine ⟨bytes.take length ++ taken, ?_, fun behind => ?_⟩
      · rw [List.append_assoc, ← parts, List.take_append_drop]
      · rw [List.append_assoc, parse_bytes_long next (by rw [List.length_append]; omega),
          List.take_left' size, List.drop_left' size]
        exact onward behind
    · rw [parse_bytes_short next (Nat.lt_of_not_le long)] at read
      cases read
  | skip length next ih =>
    by_cases long : length ≤ bytes.length
    · rw [parse_skip_long next long] at read
      obtain ⟨taken, parts, onward⟩ := ih read
      have size : (bytes.take length).length = length := List.length_take_of_le long
      refine ⟨bytes.take length ++ taken, ?_, fun behind => ?_⟩
      · rw [List.append_assoc, ← parts, List.take_append_drop]
      · rw [List.append_assoc, parse_skip_long next (by rw [List.length_append]; omega),
          List.drop_left' size]
        exact onward behind
    · rw [parse_skip_short next (Nat.lt_of_not_le long)] at read
      cases read

end ZipArchive.Layout
