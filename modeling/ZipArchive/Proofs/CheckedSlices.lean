import ZipArchive.Source.Content
import ZipArchive.Proofs.TrailerScan

/-!
# Slices within their buffers

The search for the end record and the scan of an extra area look at bytes by index. Here each has a
checked form, which looks at nothing behind the end of its buffer and computes no offset beyond its
range, but fails instead. The checked forms never fail, and come to the same
(`Trailer.candidates?_eq`, `Extra.contentFrom?_eq`).
-/
namespace ZipArchive

/-- The bytes from `offset` on, if there are `length` of them. -/
def slice? (content : ByteArray) (offset length : Nat) : Option ByteArray :=
  if offset + length ≤ content.size then some (slice content offset length) else none

theorem addOffset?_eq_some {a b sum : Nat} :
    addOffset? a b = some sum ↔ a + b = sum ∧ sum < offsetBound := by
  unfold addOffset?
  split
  · rename_i inside
    simp only [Option.some.injEq]
    exact ⟨fun same => ⟨same, same ▸ inside⟩, And.left⟩
  · rename_i outside
    refine ⟨nofun, ?_⟩
    rintro ⟨rfl, inside⟩
    exact absurd inside outside

/-! ## The searched tail -/

namespace Trailer

/-- The four bytes at an index as a number, if they all are in the block. -/
def wordAt? (block : ByteArray) (i : Nat) : Option UInt32 := do
  let b₀ ← block.data[i]?
  let b₁ ← block.data[i + 1]?
  let b₂ ← block.data[i + 2]?
  let b₃ ← block.data[i + 3]?
  return LittleEndian.toUInt32 [b₀, b₁, b₂, b₃]

/-- The checked form of `matchesBelow`. -/
def matchesBelow? (block : ByteArray) : (bound : Nat) → Option (List Nat)
  | 0 => some []
  | i + 1 => do
    let word ← wordAt? block i
    let below ← matchesBelow? block i
    return if word = ClassicEnd.signature then i :: below else below

/-- The checked form of `candidates`, with the record that stands at each index. -/
def candidates? (block : ByteArray) : Option (List (Nat × ByteArray)) := do
  let indices ← matchesBelow? block (block.size + 1 - ClassicEnd.length)
  indices.mapM fun i => return (i, ← slice? block i ClassicEnd.length)

theorem getElem?_byteAt {block : ByteArray} {i : Nat} (inside : i < block.size) :
    block.data[i]? = some (byteAt block i) := by
  rw [byteAt_eq inside]
  exact Array.getElem?_eq_getElem inside

theorem wordAt?_eq {block : ByteArray} {i : Nat} (inside : i + 4 ≤ block.size) :
    wordAt? block i = some (wordAt block i) := by
  unfold wordAt?
  rw [getElem?_byteAt (show i < block.size by omega),
    getElem?_byteAt (show i + 1 < block.size by omega),
    getElem?_byteAt (show i + 2 < block.size by omega),
    getElem?_byteAt (show i + 3 < block.size by omega)]
  rfl

theorem matchesBelow?_eq {block : ByteArray} {bound : Nat}
    (inside : bound ≤ block.size + 1 - ClassicEnd.length) :
    matchesBelow? block bound = some (matchesBelow block bound) := by
  induction bound with
  | zero => rfl
  | succ i ih =>
    have room : i + 4 ≤ block.size := by
      unfold ClassicEnd.length at inside
      omega
    rw [matchesBelow?, wordAt?_eq room, ih (by omega), matchesBelow_succ]
    rfl

/-- Every index that the search looks at has room for a record behind it. -/
theorem candidates?_eq (block : ByteArray) :
    candidates? block =
      some ((candidates block).map fun i => (i, slice block i ClassicEnd.length)) := by
  unfold candidates?
  rw [matchesBelow?_eq (Nat.le_refl _)]
  change (candidates block).mapM _ = _
  have room : ∀ i ∈ candidates block, i + ClassicEnd.length ≤ block.size := by
    intro i found
    have below := ((mem_matchesBelow block _ i).mp found).1
    omega
  generalize candidates block = indices at room
  induction indices with
  | nil => rfl
  | cons i rest ih =>
    obtain ⟨here, behind⟩ := List.forall_mem_cons.mp room
    rw [List.mapM_cons, ih behind, slice?, if_pos here]
    rfl

end Trailer

/-! ## Extra areas -/

namespace Extra

/-- The bytes from one index up to another, if both are in the area and in this order. -/
def part? (area : List UInt8) (start stop : Nat) : Option (List UInt8) :=
  if start ≤ stop ∧ stop ≤ area.length then some ((area.drop start).take (stop - start)) else none

/-- The checked form of `wideContent`: the scan of an area by index, from `pos` on. -/
def contentFrom? (area : List UInt8) (pos : Nat) : Option (Option (List UInt8)) :=
  match _head : addOffset? pos 4 with
  | none => none
  | some body =>
    if _inside : body ≤ area.length then
      match area[pos]?, area[pos + 1]?, area[pos + 2]?, area[pos + 3]? with
      | some tag₀, some tag₁, some length₀, some length₁ =>
        match _behind : addOffset? body (LittleEndian.toNat [length₀, length₁]) with
        | none => none
        | some next =>
          if LittleEndian.toUInt16 [tag₀, tag₁] = wideTag then
            (part? area body (min next area.length)).map some
          else contentFrom? area next
      | _, _, _, _ => none
    else some none
termination_by area.length - pos
decreasing_by
  obtain ⟨rfl, -⟩ := addOffset?_eq_some.mp _head
  obtain ⟨rfl, -⟩ := addOffset?_eq_some.mp _behind
  omega

theorem drop_of_getElem? {area : List UInt8} {pos : Nat} {byte : UInt8}
    (here : area[pos]? = some byte) : area.drop pos = byte :: area.drop (pos + 1) := by
  obtain ⟨inside, rfl⟩ := List.getElem?_eq_some_iff.mp here
  exact List.drop_eq_getElem_cons inside

/-- No record starts where less than its tag and length are left. -/
theorem wideContent_short {area : List UInt8} (short : area.length < 4) :
    wideContent area = none := by
  match area with
  | [] | [_] | [_, _] | [_, _, _] =>
    rw [wideContent]
    intro _ _ _ _ _ same
    cases same
  | _ :: _ :: _ :: _ :: _ =>
    simp only [List.length_cons] at short
    omega

/-- A length that is stored in two bytes. -/
theorem length_lt (length₀ length₁ : UInt8) : LittleEndian.toNat [length₀, length₁] < 65536 :=
  LittleEndian.toNat_lt [length₀, length₁]

/-- The scan from an index is the scan of what is left from there on. An index is at most one record
behind the end. -/
theorem contentFrom?_eq {area : List UInt8} (small : area.length < fileOffsetLimit) {pos : Nat}
    (reached : pos ≤ area.length + 65539) :
    contentFrom? area pos = some (wideContent (area.drop pos)) := by
  have in_range : ∀ n, n ≤ area.length + 131078 → n < offsetBound := by
    unfold fileOffsetLimit at small
    unfold offsetBound
    omega
  fun_induction contentFrom? area pos with
  | case1 pos overflow =>
    rw [addOffset?_eq_some.mpr ⟨rfl, in_range (pos + 4) (by omega)⟩] at overflow
    cases overflow
  | case2 pos body head inside tag₀ tag₁ length₀ length₁ _ _ _ _ overflow =>
    have short := length_lt length₀ length₁
    rw [addOffset?_eq_some.mpr ⟨rfl, in_range _ (by omega)⟩] at overflow
    cases overflow
  | case3 pos body head inside tag₀ tag₁ length₀ length₁ at₃ at₂ at₁ at₀ next behind wide =>
    obtain ⟨rfl, -⟩ := addOffset?_eq_some.mp head
    obtain ⟨rfl, -⟩ := addOffset?_eq_some.mp behind
    rw [drop_of_getElem? at₀, drop_of_getElem? at₁, drop_of_getElem? at₂, drop_of_getElem? at₃,
      wideContent, if_pos wide, part?, if_pos (by omega), Option.map_some,
      List.take_eq_take_iff.mpr]
    rw [List.length_drop]
    omega
  | case4 pos body head inside tag₀ tag₁ length₀ length₁ at₃ at₂ at₁ at₀ next behind other ih =>
    have short := length_lt length₀ length₁
    obtain ⟨rfl, -⟩ := addOffset?_eq_some.mp head
    obtain ⟨rfl, -⟩ := addOffset?_eq_some.mp behind
    rw [ih (by omega), drop_of_getElem? at₀, drop_of_getElem? at₁, drop_of_getElem? at₂,
      drop_of_getElem? at₃, wideContent, if_neg other, List.drop_drop]
  | case5 pos body head inside missing =>
    obtain ⟨rfl, -⟩ := addOffset?_eq_some.mp head
    exact (missing _ _ _ _ (List.getElem?_eq_getElem (by omega))
      (List.getElem?_eq_getElem (by omega)) (List.getElem?_eq_getElem (by omega))
      (List.getElem?_eq_getElem (by omega))).elim
  | case6 pos body head outside =>
    obtain ⟨rfl, -⟩ := addOffset?_eq_some.mp head
    rw [wideContent_short (by rw [List.length_drop]; omega)]

end Extra
end ZipArchive
