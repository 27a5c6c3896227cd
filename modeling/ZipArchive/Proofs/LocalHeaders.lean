import ZipArchive.Proofs.CentralHeaders
import ZipArchive.Proofs.LocalRanges

/-!
# Local headers, exactly

What reading a local header comes to is told by the bytes alone: by the signature, by the two
lengths among the fixed fields, and by the two size slots (`LocalHeader.parse_cases`). A slot that
is all ones and has no number in the extra area is refused, unless bit 3 of the flags tells that the
sizes follow the data: then it stands. Every header that its slots can tell is read back from its
encoding (`LocalHeader.parse_encode`).
-/
namespace ZipArchive

open LittleEndian Layout

namespace Layout

variable {α : Type} {label record : String} {bytes : List UInt8} {length : Nat}

theorem parse_take_long (f : List UInt8 → Layout α) (long : length ≤ bytes.length) :
    (take length >>= f).parse label record bytes =
      (f (bytes.take length)).parse label record (bytes.drop length) := by
  have taken : (take length).parse label record bytes =
      (.ok (bytes.take length), bytes.drop length) := parse_bytes_long .done long
  rw [parse_bind, taken]

theorem parse_take_short (f : List UInt8 → Layout α) (short : bytes.length < length) :
    (take length >>= f).outcome label record bytes = .error (.corrupt (.truncated record)) :=
  outcome_bind_error (parse_bytes_short .done short)

theorem parse_pass_long (f : Unit → Layout α) (long : length ≤ bytes.length) :
    (pass length >>= f).parse label record bytes =
      (f ()).parse label record (bytes.drop length) := by
  have passed : (pass length).parse label record bytes = (.ok (), bytes.drop length) :=
    parse_skip_long (.done ()) long
  rw [parse_bind, passed]

theorem parse_pass_short (f : Unit → Layout α) (short : bytes.length < length) :
    (pass length >>= f).outcome label record bytes = .error (.corrupt (.truncated record)) :=
  outcome_bind_error (parse_skip_short (.done ()) short)

/-- Behind the expected signature reading goes on. -/
theorem parse_signed {name : String} {expected : UInt32} (f : Unit → Layout α)
    (signed : bytes.take 4 = ofUInt32 expected) :
    (signature name expected >>= f).parse label record bytes =
      (f ()).parse label record (bytes.drop 4) := by
  have parts := List.take_append_drop 4 bytes
  rw [signed] at parts
  have read : (signature name expected).parse label record bytes = (.ok (), bytes.drop 4) := by
    rw [← parts, parse_signature_append, List.drop_left' (length_ofUInt32 _)]
  rw [parse_bind, read]

end Layout

namespace LocalHeader

variable {label record : String} {b : List UInt8}

/-! ## What the bytes tell -/

/-- The fixed fields, where a header stands in front of the bytes. -/
def fixedIn (b : List UInt8) : Fixed := .ofBytes (field b 4 26)

/-- The length of the name. -/
def nameLengthIn (b : List UInt8) : Nat := (fixedIn b).nameLength.toNat

/-- The length of the extra area. -/
def extraLengthIn (b : List UInt8) : Nat := (fixedIn b).extraLength.toNat

def extraIn (b : List UInt8) : List UInt8 := field b (minLength + nameLengthIn b) (extraLengthIn b)

/-- Where the header ends. -/
def stop (b : List UInt8) : Nat := minLength + nameLengthIn b + extraLengthIn b

/-- Bit 3 of the flags: the sizes follow the data. -/
def SizesFollow (b : List UInt8) : Prop := (fixedIn b).flags.toNat.testBit 3 = true

instance : Decidable (SizesFollow b) := inferInstanceAs (Decidable (_ = true))

/-- The extra area supplies a number for a field. -/
def Supplied (b : List UInt8) (wideField : WideField) (n : Nat) : Prop :=
  Extra.Supplies (extraIn b) (fixedIn b).wanted wideField n

/-- The bytes start with another signature. -/
def Foreign (b : List UInt8) : Prop := 4 ≤ b.length ∧ b.take 4 ≠ [0x50, 0x4b, 3, 4]

/-- The bytes end before the header does. -/
def Cut (b : List UInt8) : Prop := b.length < minLength ∨ b.length < stop b

instance : Decidable (Cut b) := inferInstanceAs (Decidable (_ ∨ _))

/-- A slot is all ones, the extra area supplies no number for it, and no sizes follow the data. -/
def Lacks (b : List UInt8) : Prop :=
  ∃ wideField, (fixedIn b).wanted.wants wideField = true ∧ (∀ n, ¬ Supplied b wideField n) ∧
    ¬ SizesFollow b

/-- The size is the one that a slot tells, or where sizes follow the data and none is supplied, what
stands in the slot. -/
def IsSize (e : Extent) (number : UInt32) (supplied : Nat → Prop) (follow : Prop) : Prop :=
  e.IsRead number supplied ∨
    follow ∧ number = Extent.deferred ∧ (∀ n, ¬ supplied n) ∧ e = .classic Extent.deferred

/-- What the bytes tell, field by field. -/
structure Tells (b : List UInt8) (h : LocalHeader) : Prop where
  compressedSize : IsSize h.compressedSize (fixedIn b).compressedSize
    (Supplied b .compressedSize) (SizesFollow b)
  uncompressedSize : IsSize h.uncompressedSize (fixedIn b).uncompressedSize
    (Supplied b .uncompressedSize) (SizesFollow b)
  others : h = { h with
    flags := (fixedIn b).flags
    method := .ofTag (fixedIn b).method
    nameLength := (fixedIn b).nameLength
    extraLength := (fixedIn b).extraLength }

/-- An empty extra area supplies nothing. -/
theorem not_supplied (empty : extraIn b = []) (wideField : WideField) (n : Nat) :
    ¬ Supplied b wideField n := by
  rintro ⟨-, content, reaches, -⟩
  rw [empty] at reaches
  have found := Extra.wideContent_eq_some_iff.mpr reaches
  simp [Extra.wideContent] at found

/-- A header is as long as its bytes. -/
theorem Tells.length_eq {h : LocalHeader} (told : Tells b h) : h.length = stop b := by
  have others := told.others
  unfold length stop nameLengthIn extraLengthIn
  rw [others]

/-! ## Slots -/

/-- The size that a slot comes to: one that it tells, or its own all ones. -/
theorem resolveSize_cases (f : Fixed) (wideField : WideField) (number : UInt32)
    (wide : Option UInt64) {supplied : Nat → Prop}
    (found : ∀ n, supplied n ↔ wide.map UInt64.toNat = some n) :
    (∃ e, resolveSize f wideField number wide = .done e ∧
      IsSize e number supplied (f.flags.toNat.testBit 3 = true)) ∨
    (number = Extent.deferred ∧ (∀ n, ¬ supplied n) ∧ ¬ f.flags.toNat.testBit 3 = true ∧
      resolveSize f wideField number wide =
        .refuse (.corrupt (.missingLocalWideValue wideField))) := by
  cases resolved : Extent.resolve number wide with
  | some e =>
    have told := Extent.isRead_of_resolve resolved fun n => (found n).mpr
    exact .inl ⟨e, resolveSize_some resolved, .inl told⟩
  | none =>
    rw [resolveSize, resolved]
    obtain ⟨all_ones, rfl⟩ := Extent.resolve_eq_none.mp resolved
    have missing : ∀ n, ¬ supplied n := fun n there => by cases (found n).mp there
    by_cases follow : f.flags &&& descriptorFlag ≠ 0
    · have set := (descriptorFlag_set_iff f.flags).mp follow
      refine .inl ⟨.classic number, if_pos follow, .inr ⟨set, all_ones, missing, ?_⟩⟩
      rw [all_ones]
    · have clear := mt (descriptorFlag_set_iff f.flags).mpr follow
      exact .inr ⟨all_ones, missing, clear, if_neg follow⟩

/-- A slot that is all ones and has no number is the size itself. -/
theorem IsSize.stands {e : Extent} {number : UInt32} {supplied : Nat → Prop} {follow : Prop}
    (size : IsSize e number supplied follow) (none : ∀ n, ¬ supplied n)
    (all_ones : number = Extent.deferred) : follow ∧ e = .classic Extent.deferred := by
  rcases size with told | ⟨follows, -, -, stands⟩
  · cases e with
    | classic n => exact absurd all_ones told.1
    | extended n => exact absurd told.2 (none _)
  · exact ⟨follows, stands⟩

/-! ## Reading -/

theorem signature_eq : ofUInt32 signature = [0x50, 0x4b, 3, 4] := by decide

/-- What reading a header comes to. -/
inductive Reading (label record : String) (b : List UInt8) : Prop where
  | foreign (other : Foreign b) (found : UInt32)
      (failed : layout.outcome label record b = .error (.badSignature recordName signature found))
  | cut (near : ¬ Foreign b) (short : Cut b)
      (failed : layout.outcome label record b = .error (.corrupt (.truncated record)))
  | lacking (near : ¬ Foreign b) (long : ¬ Cut b) (lacks : Lacks b) (wideField : WideField)
      (failed : layout.outcome label record b =
        .error (.corrupt (.missingLocalWideValue wideField)))
  | tells (near : ¬ Foreign b) (long : ¬ Cut b) (holds : ¬ Lacks b) (h : LocalHeader)
      (told : Tells b h) (read : layout.parse label record b = (.ok h, b.drop (stop b)))

/-- All that a layout reads up to the slots, in bytes that hold the whole header. -/
theorem parse_whole (near : ¬ Foreign b) (long : ¬ Cut b) :
    layout.parse label record b =
      (resolve (fixedIn b) (extraIn b)).parse label record (b.drop (stop b)) := by
  obtain ⟨fixed, whole⟩ := not_or.mp long
  unfold minLength at fixed
  unfold stop minLength nameLengthIn extraLengthIn at whole
  have signed : b.take 4 = ofUInt32 signature := by
    rw [signature_eq]
    by_contra other
    exact near ⟨by omega, other⟩
  unfold layout
  rw [parse_signed _ signed, parse_take_long _ (by rw [List.length_drop]; omega), List.drop_drop]
  change (pass (fixedIn b).nameLength.toNat >>= fun _ => take (fixedIn b).extraLength.toNat >>=
    resolve (fixedIn b)).parse label record (b.drop 30) = _
  rw [parse_pass_long _ (by rw [List.length_drop]; omega), List.drop_drop,
    parse_take_long _ (by rw [List.length_drop]; omega), List.drop_drop]
  rfl

theorem outcome_cut (near : ¬ Foreign b) (short : Cut b) :
    layout.outcome label record b = .error (.corrupt (.truncated record)) := by
  by_cases few : b.length < 4
  · exact signature_short few
  have signed : b.take 4 = ofUInt32 signature := by
    rw [signature_eq]
    by_contra other
    exact near ⟨by omega, other⟩
  unfold Cut stop minLength nameLengthIn extraLengthIn at short
  unfold layout outcome
  rw [parse_signed _ signed]
  by_cases fixed : b.length < 30
  · exact parse_take_short _ (by rw [List.length_drop]; omega)
  rw [parse_take_long _ (by rw [List.length_drop]; omega), List.drop_drop]
  change ((pass (fixedIn b).nameLength.toNat >>= fun _ => take (fixedIn b).extraLength.toNat >>=
    resolve (fixedIn b)).parse label record (b.drop 30)).1 = _
  by_cases name : b.length < 30 + (fixedIn b).nameLength.toNat
  · exact parse_pass_short _ (by rw [List.length_drop]; omega)
  rw [parse_pass_long _ (by rw [List.length_drop]; omega), List.drop_drop]
  exact parse_take_short _ (by rw [List.length_drop]; omega)

/-- Where the header is whole, the slots decide, and no more bytes are taken. -/
theorem resolve_cases (near : ¬ Foreign b) (long : ¬ Cut b)
    (whole : layout.parse label record b =
      (resolve (fixedIn b) (extraIn b)).parse label record (b.drop (stop b))) :
    Reading label record b := by
  have found : ∀ wideField n, Supplied b wideField n ↔
      (Extra.find (fixedIn b).wanted (extraIn b)).value? wideField = some n :=
    fun _ _ => Extra.value?_find.symm
  dsimp only [resolve] at whole
  rcases resolveSize_cases (fixedIn b) .compressedSize (fixedIn b).compressedSize _
    (found .compressedSize) with ⟨compressed, resolved, isCompressed⟩ | ⟨ones, none, clear, refused⟩
  · rw [resolved] at whole
    rcases resolveSize_cases (fixedIn b) .uncompressedSize (fixedIn b).uncompressedSize _
      (found .uncompressedSize) with
      ⟨uncompressed, resolved', isUncompressed⟩ | ⟨ones, none, clear, refused⟩
    · rw [resolved'] at whole
      refine .tells near long ?_ _ ⟨isCompressed, isUncompressed, rfl⟩ whole
      rintro ⟨wideField, wanted, none, clear⟩
      apply clear
      cases wideField with
      | compressedSize => exact (isCompressed.stands none (of_decide_eq_true wanted)).1
      | uncompressedSize => exact (isUncompressed.stands none (of_decide_eq_true wanted)).1
      | headerOffset => cases wanted
      | disk => cases wanted
    · rw [refused] at whole
      refine .lacking near long ⟨.uncompressedSize, ?_, none, clear⟩ .uncompressedSize ?_
      · exact decide_eq_true ones
      · exact outcome_eq_iff.mpr ⟨_, whole⟩
  · rw [refused] at whole
    refine .lacking near long ⟨.compressedSize, ?_, none, clear⟩ .compressedSize ?_
    · exact decide_eq_true ones
    · exact outcome_eq_iff.mpr ⟨_, whole⟩

theorem parse_cases (label record : String) (b : List UInt8) : Reading label record b := by
  by_cases foreign : Foreign b
  · obtain ⟨four, other⟩ := foreign
    have whole : (b.take 4).length = 4 := List.length_take_of_le four
    have differs : toUInt32 (b.take 4) ≠ signature := by
      intro same
      rw [← signature_eq, ← same, ofUInt32_toUInt32 whole] at other
      exact other rfl
    have parts : ofUInt32 (toUInt32 (b.take 4)) ++ b.drop 4 = b := by
      rw [ofUInt32_toUInt32 whole, List.take_append_drop]
    refine .foreign ⟨four, other⟩ (toUInt32 (b.take 4)) (outcome_eq_iff.mpr ⟨b.drop 4, ?_⟩)
    have refused : layout.parse label record (ofUInt32 (toUInt32 (b.take 4)) ++ b.drop 4) = _ :=
      parse_other_signature differs _ _
    rw [parts] at refused
    exact refused
  · by_cases short : Cut b
    · exact .cut foreign short (outcome_cut foreign short)
    · exact resolve_cases foreign short (parse_whole foreign short)

/-! ## Writing -/

section Writing

variable {h : LocalHeader} {extra : List UInt8}

/-- The numbers that the slots of a header defer to. -/
def wideNumbers (h : LocalHeader) : Extra.Found where
  uncompressedSize := h.uncompressedSize.wide?
  compressedSize := h.compressedSize.wide?

/-- The fixed fields that a header is written with. -/
def fixedFor (h : LocalHeader) : Fixed where
  flags := h.flags
  method := h.method.tag
  compressedSize := h.compressedSize.slot
  uncompressedSize := h.uncompressedSize.slot
  nameLength := h.nameLength
  extraLength := h.extraLength

/-- A header as bytes, with what reading passes over: the version, the time, date and checksum, and
the name. -/
def encode (h : LocalHeader) (version moment name extra : List UInt8) : List UInt8 :=
  written h.fixedFor version moment name extra

/-- The fields of a header can tell it. -/
structure Storable (h : LocalHeader) : Prop where
  method : ∃ tag, h.method = .ofTag tag
  compressedSize : h.compressedSize.Tellable
  uncompressedSize : h.uncompressedSize.Tellable

/-- The slots that defer are those whose numbers are wide. -/
theorem Storable.wanted_eq (storable : h.Storable) : h.fixedFor.wanted = h.wideNumbers.wanted := by
  simp only [Fixed.wanted, fixedFor, wideNumbers, Extra.Found.wanted,
    Extent.slot_eq_deferred_iff storable.compressedSize,
    Extent.slot_eq_deferred_iff storable.uncompressedSize, Bool.decide_eq_true, Option.isSome_none]

theorem resolve_encode (storable : h.Storable) (carries : Extra.Carries extra h.wideNumbers) :
    resolve h.fixedFor extra = .done h := by
  have compressed := Extent.resolve_slot storable.compressedSize
  have uncompressed := Extent.resolve_slot storable.uncompressedSize
  obtain ⟨tag, method⟩ := storable.method
  have told : CompressionMethod.ofTag h.method.tag = h.method := by
    rw [method, CompressionMethod.tag_ofTag]
  dsimp only [resolve]
  rw [storable.wanted_eq, Extra.find_carries carries]
  change (resolveSize h.fixedFor .compressedSize h.compressedSize.slot h.compressedSize.wide? >>=
    fun compressedSize => resolveSize h.fixedFor .uncompressedSize h.uncompressedSize.slot
      h.uncompressedSize.wide? >>= fun uncompressedSize => .done { h with
        method := .ofTag h.method.tag, compressedSize, uncompressedSize }) = _
  rw [resolveSize_some compressed, resolveSize_some uncompressed, told]
  rfl

/-- A header is read back from its encoding, and what is behind it is left. -/
theorem parse_encode {version moment name : List UInt8} (storable : h.Storable)
    (carries : Extra.Carries extra h.wideNumbers) (two : version.length = 2)
    (eight : moment.length = 8) (nameLength : name.length = h.nameLength.toNat)
    (extraLength : extra.length = h.extraLength.toNat) (rest : List UInt8) :
    layout.parse label record (h.encode version moment name extra ++ rest) = (.ok h, rest) := by
  rw [encode, parse_written two eight nameLength extraLength, resolve_encode storable carries,
    parse_done]

end Writing

/-- Which bytes are refused for their signature, which as corrupt, and what is read from all others,
taking just the bytes that the header is long; and every header is read back that is written with
its wide numbers behind any unrelated records. -/
theorem layout_exact (label : String) :
    (∀ b, let read := layout.parse label recordName b
      ((∃ name expected found, read.1 = .error (.badSignature name expected found)) ↔ Foreign b) ∧
      (¬ Foreign b → ((∃ damage, read.1 = .error (.corrupt damage)) ↔ Cut b ∨ Lacks b)) ∧
      (¬ Foreign b → ¬ (Cut b ∨ Lacks b) →
        ∃ h, read = (.ok h, b.drop h.length) ∧ h.length = stop b ∧ stop b ≤ b.length ∧
          Tells b h)) ∧
    ∀ (h : LocalHeader) version moment name extra, h.Storable → Extra.Carries extra h.wideNumbers →
      version.length = 2 → moment.length = 8 → name.length = h.nameLength.toNat →
      extra.length = h.extraLength.toNat → ∀ rest,
        layout.parse label recordName (h.encode version moment name extra ++ rest) =
          (.ok h, rest) := by
  constructor
  · intro b read
    cases parse_cases label recordName b with
    | foreign other found failed =>
      have refused : read.1 = _ := failed
      rw [refused]
      exact ⟨⟨fun _ => other, fun _ => ⟨_, _, _, rfl⟩⟩, fun near => absurd other near,
        fun near => absurd other near⟩
    | cut near short failed =>
      have refused : read.1 = _ := failed
      rw [refused]
      exact ⟨⟨nofun, fun other => absurd other near⟩,
        fun _ => ⟨fun _ => .inl short, fun _ => ⟨_, rfl⟩⟩, fun _ whole => absurd (.inl short) whole⟩
    | lacking near _ lacks wideField failed =>
      have refused : read.1 = _ := failed
      rw [refused]
      exact ⟨⟨nofun, fun other => absurd other near⟩,
        fun _ => ⟨fun _ => .inr lacks, fun _ => ⟨_, rfl⟩⟩, fun _ whole => absurd (.inr lacks) whole⟩
    | tells near long holds h told parsed =>
      have accepted : read = _ := parsed
      rw [accepted]
      refine ⟨⟨nofun, fun other => absurd other near⟩,
        fun _ => ⟨nofun, fun wrong => absurd wrong (not_or.mpr ⟨long, holds⟩)⟩,
        fun _ _ => ⟨h, ?_, told.length_eq, ?_, told⟩⟩
      · rw [told.length_eq]
      · exact Nat.le_of_not_lt (not_or.mp long).2
  · intro h version moment name extra storable carries two eight nameLength extraLength
    exact parse_encode storable carries two eight nameLength extraLength

/-- A header whose compressed size is wide while its uncompressed size is not. -/
def halfWide : LocalHeader where
  flags := 0
  method := .deflate
  compressedSize := .extended 0x100000000
  uncompressedSize := .classic 5
  nameLength := 1
  extraLength := 20

/-- The same header without its extra area, and with other flags. -/
def halfWideBare (flags : UInt16) : List UInt8 :=
  encode { halfWide with flags, extraLength := 0 } [45, 0] (List.replicate 8 0) [97] []

/-- It is read back. Without its extra area it is corrupt, and with bit 3 of the flags set as well,
the slot stands. -/
theorem halfWide_exact :
    let area := (Extra.Record.mk 0x5455 [1, 2, 3, 4] (by decide)).bytes ++
      (halfWide.wideNumbers.record.bytes ++ [])
    layout.parse "a.zip" recordName
        (halfWide.encode [45, 0] (List.replicate 8 0) [97] area ++ [0x50]) =
          (.ok halfWide, [0x50]) ∧
      (∃ damage, (layout.parse "a.zip" recordName (halfWideBare 0)).1 =
        .error (.corrupt damage)) ∧
      ∃ h, layout.parse "a.zip" recordName (halfWideBare 8) = (.ok h, []) ∧
        h.compressedSize = .classic Extent.deferred := by
  intro area
  obtain ⟨reads, writes⟩ := layout_exact "a.zip"
  have near : ∀ flags, ¬ Foreign (halfWideBare flags) := fun _ foreign => foreign.2 rfl
  refine ⟨?_, ?_, ?_⟩
  · have storable : halfWide.Storable := ⟨⟨8, rfl⟩, by decide, by decide⟩
    have carries : Extra.Carries area halfWide.wideNumbers :=
      .inr ⟨[⟨0x5455, [1, 2, 3, 4], by decide⟩], [], List.forall_mem_singleton.mpr (by decide), rfl⟩
    exact writes _ _ _ _ _ storable carries rfl rfl rfl (by decide) _
  · have lacks : Lacks (halfWideBare 0) :=
      ⟨.compressedSize, by decide, not_supplied (by decide) _, by decide⟩
    exact ((reads _).2.1 (near 0)).mpr (.inr lacks)
  · have whole : ¬ (Cut (halfWideBare 8) ∨ Lacks (halfWideBare 8)) := by
      rintro (short | ⟨_, _, _, clear⟩)
      · exact absurd short (by decide)
      · exact clear (by decide)
    obtain ⟨h, read, length_eq, -, told⟩ := (reads _).2.2 (near 8) whole
    refine ⟨h, ?_, ?_⟩
    · rw [read, length_eq, show (halfWideBare 8).drop (stop (halfWideBare 8)) = [] by decide]
    · exact (told.compressedSize.stands (not_supplied (by decide) _) (by decide)).2

end LocalHeader
end ZipArchive
