/-!
# Names as text

Member names are bytes. For display and matching they are read as UTF-8, and every maximal piece
that starts like a character but is not one becomes a single replacement character.
-/
namespace ZipArchive.Text

/-- Stands for bytes that are no character. -/
def replacement : Char := '\ufffd'

/-- How many bytes follow a lead byte; `none` when the byte leads no character. -/
def followers (lead : UInt8) : Option Nat :=
  if lead < 0x80 then some 0
  else if lead < 0xc2 then none
  else if lead < 0xe0 then some 1
  else if lead < 0xf0 then some 2
  else if lead < 0xf5 then some 3
  else none

/-- The range of the byte right after a lead byte, which rules out overlong forms, surrogates and
numbers above the last character. -/
def secondRange (lead : UInt8) : UInt8 × UInt8 :=
  if lead = 0xe0 then (0xa0, 0xbf)
  else if lead = 0xed then (0x80, 0x9f)
  else if lead = 0xf0 then (0x90, 0xbf)
  else if lead = 0xf4 then (0x80, 0x8f)
  else (0x80, 0xbf)

/-- The bits of the character's number that its lead byte holds. -/
def leadBits (lead : UInt8) : Nat :=
  if lead < 0x80 then lead.toNat
  else if lead < 0xe0 then lead.toNat % 32
  else if lead < 0xf0 then lead.toNat % 16
  else lead.toNat % 8

/-- Takes `count` following bytes, the first of them within `range`, and gives the number they
complete and the bytes behind them. Stops at the first byte that does not fit. -/
def takeFollowers : (count : Nat) → (range : UInt8 × UInt8) → Nat → List UInt8 →
    Option Nat × List UInt8
  | 0, _, number, bytes => (some number, bytes)
  | _ + 1, _, _, [] => (none, [])
  | count + 1, range, number, b :: rest =>
    if range.1 ≤ b ∧ b ≤ range.2 then
      takeFollowers count (0x80, 0xbf) (number * 64 + b.toNat % 64) rest
    else (none, b :: rest)

theorem length_takeFollowers (count : Nat) (range : UInt8 × UInt8) (number : Nat)
    (bytes : List UInt8) : (takeFollowers count range number bytes).2.length ≤ bytes.length := by
  induction count generalizing range number bytes with
  | zero => exact Nat.le_refl _
  | succ count ih =>
    cases bytes with
    | nil => exact Nat.le_refl _
    | cons b rest =>
      rw [takeFollowers]
      split
      · exact Nat.le_succ_of_le (ih _ _ _)
      · exact Nat.le_refl _

/-- The first character of some bytes and what is left behind it. -/
def firstChar (lead : UInt8) (rest : List UInt8) : Char × List UInt8 :=
  match followers lead with
  | none => (replacement, rest)
  | some count =>
    match takeFollowers count (secondRange lead) (leadBits lead) rest with
    | (some number, rest') => (Char.ofNat number, rest')
    | (none, rest') => (replacement, rest')

theorem length_firstChar (lead : UInt8) (rest : List UInt8) :
    (firstChar lead rest).2.length ≤ rest.length := by
  unfold firstChar
  split
  · exact Nat.le_refl _
  · rename_i count _
    have := length_takeFollowers count (secondRange lead) (leadBits lead) rest
    split <;> simp_all

/-- The characters of some bytes. -/
def lossyChars : List UInt8 → List Char
  | [] => []
  | lead :: rest => (firstChar lead rest).1 :: lossyChars (firstChar lead rest).2
termination_by bytes => bytes.length
decreasing_by exact Nat.lt_succ_of_le (length_firstChar lead rest)

/-- The characters of some bytes, behind those already found, which are given in reverse. -/
def lossyFrom (found : List Char) : List UInt8 → List Char
  | [] => found.reverse
  | lead :: rest => lossyFrom ((firstChar lead rest).1 :: found) (firstChar lead rest).2
termination_by bytes => bytes.length
decreasing_by exact Nat.lt_succ_of_le (length_firstChar lead rest)

theorem lossyFrom_eq (found : List Char) (bytes : List UInt8) :
    lossyFrom found bytes = found.reverse ++ lossyChars bytes := by
  fun_induction lossyFrom found bytes with
  | case1 found => simp [lossyChars]
  | case2 found lead rest ih => simp [ih, lossyChars]

/-- The text of some bytes. -/
def lossy (bytes : List UInt8) : String := String.ofList (lossyFrom [] bytes)

end ZipArchive.Text
