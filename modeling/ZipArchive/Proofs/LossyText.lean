import Mathlib
import ZipArchive.Path
import ZipArchive.Proofs.Places
import ZipArchive.Text.Utf8

/-!
# Names that are cut before or after they are read

A byte of seven bits is a character of its own wherever it stands, and no other bytes are read
as that character (`Text.mem_lossyChars_iff`). So a name may be cut at its separators before or
after it is read as text (`Text.splitOnP_lossyChars`), and reading makes no dots that were not there
(`Text.lossyChars_eq_cons`).
-/
namespace ZipArchive.Text

variable {lead b : UInt8} {bytes rest first second : List UInt8}

/-! ## The first character -/

theorem takeFollowers_suffix (count : Nat) (range : UInt8 × UInt8) (number : Nat)
    (bytes : List UInt8) : (takeFollowers count range number bytes).2 <:+ bytes := by
  induction count generalizing range number bytes with
  | zero => exact List.suffix_refl _
  | succ count ih =>
    cases bytes with
    | nil => exact List.suffix_refl _
    | cons b rest =>
      rw [takeFollowers]
      split
      · exact (ih _ _ _).trans (List.suffix_cons b rest)
      · exact List.suffix_refl _

theorem firstChar_suffix (lead : UInt8) (rest : List UInt8) : (firstChar lead rest).2 <:+ rest := by
  unfold firstChar
  split
  · exact List.suffix_refl _
  · rename_i count _
    have followed := takeFollowers_suffix count (secondRange lead) (leadBits lead) rest
    split <;> simp_all

/-- Bytes of seven bits follow no lead byte, so what is in front of one is read as if it were the
end. -/
theorem takeFollowers_append (low : b < 0x80) (count : Nat) {range : UInt8 × UInt8}
    (high : 0x80 ≤ range.1) (number : Nat) (first second : List UInt8) :
    takeFollowers count range number (first ++ b :: second) =
      ((takeFollowers count range number first).1,
        (takeFollowers count range number first).2 ++ b :: second) := by
  induction count generalizing range number first with
  | zero => rfl
  | succ count ih =>
    cases first with
    | nil =>
      have out : ¬ (range.1 ≤ b ∧ b ≤ range.2) := fun inside =>
        absurd (UInt8.le_trans high inside.1) (UInt8.not_le.mpr low)
      rw [List.nil_append, takeFollowers, takeFollowers, if_neg out]
      rfl
    | cons c first =>
      rw [List.cons_append, takeFollowers, takeFollowers]
      split
      · exact ih (by decide) _ _
      · rfl

theorem secondRange_high (lead : UInt8) : 0x80 ≤ (secondRange lead).1 := by
  unfold secondRange
  repeat' split
  all_goals decide

theorem firstChar_append (low : b < 0x80) (lead : UInt8) (first second : List UInt8) :
    firstChar lead (first ++ b :: second) =
      ((firstChar lead first).1, (firstChar lead first).2 ++ b :: second) := by
  unfold firstChar
  cases followers lead with
  | none => rfl
  | some count =>
    dsimp only
    rw [takeFollowers_append low count (secondRange_high lead)]
    rcases takeFollowers count (secondRange lead) (leadBits lead) first with ⟨_ | number, rest⟩ <;>
      rfl

/-- A byte of seven bits is a character of its own. -/
theorem firstChar_low (low : lead < 0x80) (rest : List UInt8) :
    firstChar lead rest = (Char.ofNat lead.toNat, rest) := by
  simp only [firstChar, followers, leadBits, if_pos low, takeFollowers]

/-- Every byte that follows adds six bits. -/
theorem takeFollowers_ge {count : Nat} {range : UInt8 × UInt8} {number n : Nat}
    (followed : (takeFollowers count range number bytes).1 = some n) :
    number ≤ n ∧ (count ≠ 0 → number * 64 ≤ n) := by
  induction count generalizing range number bytes with
  | zero =>
    cases followed
    exact ⟨Nat.le_refl _, fun some => absurd rfl some⟩
  | succ count ih =>
    cases bytes with
    | nil => cases followed
    | cons b rest =>
      rw [takeFollowers] at followed
      split at followed
      · have more := (ih followed).1
        omega
      · cases followed

/-- A lead byte has enough bits itself, or else the byte right behind it does. -/
theorem followers_high {lead : UInt8} (high : 0x80 ≤ lead) {count : Nat}
    (leads : followers lead = some count) :
    count ≠ 0 ∧ (2 ≤ leadBits lead ∨
      2 ≤ count ∧ (1 ≤ leadBits lead ∨ secondRange lead = (0xa0, 0xbf) ∨
        secondRange lead = (0x90, 0xbf))) := by
  have not_low : ¬ lead < 0x80 := UInt8.not_lt.mpr high
  unfold followers at leads
  rw [if_neg not_low] at leads
  unfold leadBits
  rw [if_neg not_low]
  split at leads
  · cases leads
  rename_i not_tail
  split at leads
  · rename_i two
    cases leads
    rw [if_pos two]
    simp only [UInt8.lt_iff_toNat_lt, UInt8.reduceToNat] at not_tail two
    omega
  rename_i not_two
  rw [if_neg not_two]
  split at leads
  · rename_i three
    cases leads
    rw [if_pos three]
    by_cases first : lead = 0xe0
    · exact ⟨by decide, .inr ⟨Nat.le_refl 2, .inr (.inl (if_pos first))⟩⟩
    · simp only [UInt8.lt_iff_toNat_lt, UInt8.reduceToNat, ← UInt8.toNat_inj] at not_two three first
      omega
  rename_i not_three
  rw [if_neg not_three]
  split at leads
  · rename_i four
    cases leads
    by_cases first : lead = 0xf0
    · exact ⟨by decide, .inr ⟨by decide, .inr (.inr (by rw [first]; rfl))⟩⟩
    · simp only [UInt8.lt_iff_toNat_lt, UInt8.reduceToNat, ← UInt8.toNat_inj]
        at not_three four first
      omega
  · cases leads

theorem takeFollowers_high (high : 0x80 ≤ lead) {count n : Nat}
    (leads : followers lead = some count)
    (followed : (takeFollowers count (secondRange lead) (leadBits lead) rest).1 = some n) :
    0x80 ≤ n := by
  obtain ⟨any, many | ⟨two, few⟩⟩ := followers_high high leads
  · have behind := (takeFollowers_ge followed).2 any
    omega
  · obtain ⟨count, rfl⟩ := Nat.exists_eq_add_of_le two
    rw [Nat.add_comm, takeFollowers.eq_def] at followed
    cases rest with
    | nil => cases followed
    | cons b rest =>
      dsimp only at followed
      split at followed
      · rename_i inside
        have behind := (takeFollowers_ge followed).2 (Nat.succ_ne_zero count)
        rcases few with some | range | range
        · omega
        all_goals
          rw [range] at inside
          simp only [UInt8.le_iff_toNat_le, UInt8.reduceToNat] at inside
          omega
      · cases followed

theorem toNat_ofNat_low {b : UInt8} (low : b < 0x80) : (Char.ofNat b.toNat).toNat = b.toNat := by
  simp only [UInt8.lt_iff_toNat_lt, UInt8.reduceToNat] at low
  rw [Char.toNat_ofNat, if_pos (.inl (by omega))]

/-- No other byte is read as a character of seven bits. -/
theorem firstChar_eq_iff (some : b ≠ 0) (low : b < 0x80) :
    (firstChar lead rest).1 = Char.ofNat b.toNat ↔ lead = b := by
  constructor
  · intro same
    have number := toNat_ofNat_low low
    rw [← same] at number
    have positive : b.toNat ≠ 0 := fun none => some (UInt8.toNat_inj.mp none)
    by_cases lead_low : lead < 0x80
    · rw [firstChar_low lead_low, toNat_ofNat_low lead_low] at number
      exact UInt8.toNat_inj.mp number
    simp only [UInt8.lt_iff_toNat_lt, UInt8.reduceToNat] at low
    have high := UInt8.not_lt.mp lead_low
    unfold firstChar at number
    split at number
    · rw [show replacement.toNat = 0xfffd from rfl] at number
      omega
    · rename_i count leads
      split at number
      · rename_i n rest' followed
        have above := takeFollowers_high high leads (congrArg Prod.fst followed)
        rw [Char.toNat_ofNat] at number
        split at number <;> omega
      · rw [show replacement.toNat = 0xfffd from rfl] at number
        omega
  · rintro rfl
    rw [firstChar_low low]

/-! ## All characters -/

theorem lossyChars_append (low : b < 0x80) (first second : List UInt8) :
    lossyChars (first ++ b :: second) =
      lossyChars first ++ Char.ofNat b.toNat :: lossyChars second := by
  fun_induction lossyChars first with
  | case1 => rw [List.nil_append, lossyChars, firstChar_low low, List.nil_append]
  | case2 lead rest ih =>
    rw [List.cons_append, lossyChars, firstChar_append low]
    dsimp only
    rw [ih, List.cons_append]

theorem lossyChars_eq_nil : lossyChars bytes = [] ↔ bytes = [] := by
  cases bytes with
  | nil => simp only [lossyChars]
  | cons lead rest => simp only [lossyChars, reduceCtorEq]

/-- A text starts with a character of seven bits just where the bytes start with it. -/
theorem lossyChars_eq_cons (some : b ≠ 0) (low : b < 0x80) {chars : List Char} :
    lossyChars bytes = Char.ofNat b.toNat :: chars ↔
      ∃ rest, bytes = b :: rest ∧ lossyChars rest = chars := by
  constructor
  · intro starts
    cases bytes with
    | nil =>
      rw [lossyChars] at starts
      cases starts
    | cons lead rest =>
      rw [lossyChars, List.cons.injEq, firstChar_eq_iff some low] at starts
      obtain ⟨rfl, others⟩ := starts
      rw [firstChar_low low] at others
      exact ⟨rest, rfl, others⟩
  · rintro ⟨rest, rfl, rfl⟩
    rw [lossyChars, firstChar_low low]

theorem mem_lossyChars_iff (some : b ≠ 0) (low : b < 0x80) :
    Char.ofNat b.toNat ∈ lossyChars bytes ↔ b ∈ bytes := by
  constructor
  · intro among
    fun_induction lossyChars bytes with
    | case1 => exact absurd among List.not_mem_nil
    | case2 lead rest ih =>
      rcases List.mem_cons.mp among with here | later
      · exact List.mem_cons.mpr (.inl ((firstChar_eq_iff some low).mp here.symm).symm)
      · exact List.mem_cons_of_mem _ ((firstChar_suffix lead rest).subset (ih later))
  · intro among
    obtain ⟨first, second, rfl⟩ := List.append_of_mem among
    rw [lossyChars_append low]
    exact List.mem_append_right _ List.mem_cons_self

/-! ## Segments -/

/-- The separators of a name that was read. -/
def isSeparatorChar (c : Char) : Bool := c = '/' || c = '\\'

theorem isSeparatorChar_ofNat (separator : Path.isSeparator b = true) :
    b < 0x80 ∧ isSeparatorChar (Char.ofNat b.toNat) = true := by
  simp only [Path.isSeparator, Bool.or_eq_true, decide_eq_true_eq] at separator
  rcases separator with rfl | rfl <;> decide

/-- Cutting a name and reading it come to the same in either order. -/
theorem splitOnP_lossyChars (bytes : List UInt8) :
    (lossyChars bytes).splitOnP isSeparatorChar =
      (bytes.splitOnP Path.isSeparator).map lossyChars := by
  -- The induction is on the number of bytes, as a cut leaves fewer on either side.
  generalize size : bytes.length = n
  induction n using Nat.strongRecOn generalizing bytes with
  | ind n ih =>
    by_cases whole : ∀ b ∈ bytes, Path.isSeparator b = false
    · have none : ∀ c ∈ lossyChars bytes, isSeparatorChar c = false := by
        intro c among
        rw [isSeparatorChar, Bool.or_eq_false_iff, decide_eq_false_iff_not, decide_eq_false_iff_not]
        constructor
        · rintro rfl
          exact absurd (whole Path.slash ((mem_lossyChars_iff (by decide) (by decide)).mp among))
            (by decide)
        · rintro rfl
          exact absurd (whole Path.backslash
            ((mem_lossyChars_iff (by decide) (by decide)).mp among)) (by decide)
      rw [List.splitOnP_eq_singleton whole, List.splitOnP_eq_singleton none]
      rfl
    · obtain ⟨b, among, separator⟩ : ∃ b ∈ bytes, Path.isSeparator b = true := by
        simpa using whole
      obtain ⟨low, separator'⟩ := isSeparatorChar_ofNat separator
      obtain ⟨first, second, rfl⟩ := List.append_of_mem among
      rw [List.length_append, List.length_cons] at size
      rw [lossyChars_append low, List.splitOnP_append_cons _ _ separator',
        List.splitOnP_append_cons _ _ separator, List.map_append, ih _ (by omega) first rfl,
        ih _ (by omega) second rfl]

theorem lossy_eq (bytes : List UInt8) : lossy bytes = String.ofList (lossyChars bytes) := by
  rw [lossy, lossyFrom_eq, List.reverse_nil, List.nil_append]

end ZipArchive.Text
