import Mathlib
import ZipArchive.Proofs.FaultsKept
import ZipArchive.Proofs.StreamServing

/-!
# Confined reads

Nothing is known here of what a source answers: a read may give less than was asked for, may fail,
and may be answered differently each time. All the same, a read through a window that lies within
the source asks for nothing outside it, and no offset on the way leaves its range (`Confined`). This
goes through blocks (`Buffered.takeFrom_confined`), records (`Layout.readWindow_confined`) and
streams (`MemberStream.collect_confined`).
-/
namespace ZipArchive

variable {σ : Type} {source : Source σ}

/-- One state leads to another by a read that lies within the source. -/
def Source.Steps (source : Source σ) (s t : σ) : Prop :=
  ∃ offset length, offset + length ≤ source.size ∧ (source.readAt offset length s).2 = t

/-- One state leads to another by reads that all lie within the source. -/
def Source.Reaches (source : Source σ) : σ → σ → Prop := Relation.ReflTransGen source.Steps

theorem Source.Reaches.readAt {s t : σ} (reaches : source.Reaches s t) {offset length : Nat}
    (inside : offset + length ≤ source.size) :
    source.Reaches s (source.readAt offset length t).2 :=
  reaches.tail ⟨offset, length, inside, rfl⟩

/-- What holds of a read from a state, whatever the source answers: only bytes within the source are
asked for, no offset leaves its range, and what is left to read from is as told. -/
structure Confined {ρ κ : Type} (source : Source σ) (s : σ) (good : Except IoError ρ → κ → Prop)
    (x : Except IoError ρ × κ × σ) : Prop where
  within : source.Reaches s x.2.2
  in_range : ∀ e, x.1 = .error e → e.cause ≠ .offsetOverflow
  left : good x.1 x.2.1

namespace Confined

variable {ρ κ ι : Type} {s s' : σ} {good good' : Except IoError ρ → κ → Prop}
  {x : Except IoError ρ × κ × σ}

theorem ok {value : ρ} {k : κ} (reaches : source.Reaches s s') (left : good (.ok value) k) :
    Confined source s good (.ok value, k, s') :=
  ⟨reaches, nofun, left⟩

theorem error {e : IoError} {k : κ} (reaches : source.Reaches s s')
    (in_range : e.cause ≠ .offsetOverflow) (left : good (.error e) k) :
    Confined source s good (.error e, k, s') := by
  refine ⟨reaches, ?_, left⟩
  intro e' failed
  cases failed
  exact in_range

theorem mono (confined : Confined source s good x)
    (weaker : ∀ result left, good result left → good' result left) :
    Confined source s good' x :=
  ⟨confined.within, confined.in_range, weaker _ _ confined.left⟩

/-- A read that goes on where another one has ended. -/
theorem after (confined : Confined source s' good x) (reaches : source.Reaches s s') :
    Confined source s good x :=
  ⟨reaches.trans confined.within, confined.in_range, confined.left⟩

/-- A read of a part is a read of the whole. -/
theorem map {f : κ → ι} {good : Except IoError ρ → ι → Prop}
    (confined : Confined source s (fun result left => good result (f left)) x) :
    Confined source s good (x.1, f x.2.1, x.2.2) :=
  ⟨confined.within, confined.in_range, confined.left⟩

end Confined

theorem Source.readExactFrom_confined {offset length : Nat} (inside : offset + length ≤ source.size)
    (done : ByteArray) (s : σ) :
    Confined source s
      (fun result _ => ∀ bytes, result = .ok bytes → bytes.size = done.size + length)
      ((source.readExactFrom offset length done s).1, (),
        (source.readExactFrom offset length done s).2) := by
  fun_induction Source.readExactFrom source offset length done s with
  | case1 offset done s =>
    refine .ok .refl fun bytes same => ?_
    cases same
    rfl
  | case2 offset length done s _ bytes s' answer none =>
    have read := @Source.Reaches.readAt σ source s s .refl offset length inside
    rw [answer] at read
    exact .error read (by decide) fun _ same => by cases same
  | case3 offset length done s _ bytes s' answer some ih =>
    have read := @Source.Reaches.readAt σ source s s .refl offset length inside
    rw [answer] at read
    have part := source.size_readAt _ _ _ _ _ answer
    refine ((ih (by omega)).after read).mono fun result _ size whole found => ?_
    have := size whole found
    rw [ByteArray.size_append] at this
    omega
  | case4 offset length done s _ s' answer _ ih =>
    have read := @Source.Reaches.readAt σ source s s .refl offset length inside
    rw [answer] at read
    exact (ih inside).after read
  | case5 offset length done s _ failure s' _ answer =>
    have read := @Source.Reaches.readAt σ source s s .refl offset length inside
    rw [answer] at read
    refine .error read ?_ fun _ same => by cases same
    cases failure <;> exact fun same => by cases same

/-- How many bytes came of a read. -/
def given : Except IoError ByteArray → Nat
  | .ok bytes => bytes.size
  | .error _ => 0

/-! ## Views -/

namespace View

/-- In a view that lies within the source, none of the differences is negative. -/
theorem WellFormed.exact {v : View} {size : Nat} (inside : v.WellFormed size) :
    subOffset? v.stop v.start = some v.length ∧ subOffset? v.pos v.start = some v.position ∧
      subOffset? v.stop v.pos = some v.remaining :=
  ⟨if_pos (Nat.le_trans inside.start_le inside.pos_le), if_pos inside.start_le,
    if_pos inside.pos_le⟩

variable {v : View} {offset : Nat}

theorem readAt_confined (last : offset ≤ v.stop) (inside : v.stop ≤ source.size) (length : Nat)
    (s : σ) :
    Confined source s (fun _ _ => True)
      ((v.readAt source offset length s).1, (), (v.readAt source offset length s).2) := by
  unfold readAt subOffset?
  rw [if_pos last]
  dsimp only
  split
  · exact .ok .refl trivial
  · have within : offset + min length (v.stop - offset) ≤ source.size := by omega
    have reaches := @Source.Reaches.readAt σ source s s .refl offset _ within
    rcases answer : source.readAt offset (min length (v.stop - offset)) s with ⟨failure | bytes, s'⟩
    · rw [answer] at reaches
      refine .error reaches ?_ trivial
      cases failure <;> exact nofun
    · rw [answer] at reaches
      exact .ok reaches trivial

/-- A read at an offset of the window leaves a view that lies within the source. -/
theorem advance_confined (small : source.size < offsetBound) (inside : v.WellFormed source.size)
    (first : v.start ≤ offset) (last : offset ≤ v.stop) (length : Nat) (s : σ) :
    Confined source s (fun _ (v' : View) => v'.WellFormed source.size)
      (v.advance source offset (v.readAt source offset length s)) := by
  have stop_le := inside.stop_le
  have read := readAt_confined last stop_le length s
  rcases answer : v.readAt source offset length s with ⟨e | bytes, s'⟩
  · rw [answer] at read
    exact .error read.within (read.in_range e rfl) inside
  · rw [answer] at read
    have size := readAt_size source answer
    have sum : addOffset? offset bytes.size = some (offset + bytes.size) := if_pos (by omega)
    unfold advance
    simp only [sum]
    exact .ok read.within ⟨by dsimp only; omega, by dsimp only; omega, stop_le⟩

theorem read_confined (small : source.size < offsetBound) (inside : v.WellFormed source.size)
    (length : Nat) (s : σ) :
    Confined source s (fun result v' => v'.WellFormed source.size ∧
        v' = { v with pos := v.pos + given result }) (v.read source length s) := by
  have confined := advance_confined small inside inside.start_le inside.pos_le length s
  rcases answer : v.read source length s with ⟨e | bytes, v', s'⟩
  · have same := (read_error source answer).1
    unfold read at answer
    rw [answer] at confined
    exact ⟨confined.within, confined.in_range, confined.left, same⟩
  · have moved := (read_ok source answer).2
    unfold read at answer
    rw [answer] at confined
    exact ⟨confined.within, confined.in_range, confined.left, moved⟩

/-- The position that a read starts from is cut to the window before it is used. -/
theorem readFrom_confined (small : source.size < offsetBound) (inside : v.WellFormed source.size)
    (length position : Nat) (s : σ) :
    Confined source s (fun _ (v' : View) => v'.WellFormed source.size)
      (v.readFrom source length position s) := by
  have start_le := inside.start_le
  have pos_le := inside.pos_le
  have stop_le := inside.stop_le
  exact advance_confined small inside (by omega) (by omega) length s

/-! ### Seeking -/

end View

/-- A number as an offset, if it is one. -/
def offset? (n : Int) : Option Nat := if 0 ≤ n ∧ n < offsetBound then some n.toNat else none

/-- The offset in the target is a number of 64 bits, signed unless it counts from the start. -/
def SeekTarget.Fits : SeekTarget → Prop
  | .start offset => offset < offsetBound
  | .current offset | .stop offset => -fileOffsetLimit ≤ offset ∧ offset < fileOffsetLimit

namespace View

/-- Where a seek goes to: what is asked for, or the nearest end of the window. -/
def clamped (v : View) (target : SeekTarget) : Int :=
  max (v.start : Int) (min (v.wanted target) v.stop)

variable {v : View} {size : Nat} {target : SeekTarget}

/-- What a seek asks for is a number of 128 bits. -/
theorem wanted_fits (small : size < offsetBound) (inside : v.WellFormed size)
    (fits : target.Fits) : -2 ^ 127 ≤ v.wanted target ∧ v.wanted target < 2 ^ 127 := by
  obtain ⟨start_le, pos_le, stop_le⟩ := inside
  unfold offsetBound at small
  cases target <;>
  · simp only [SeekTarget.Fits, offsetBound, fileOffsetLimit] at fits
    unfold wanted
    dsimp only
    omega

/-- Where a seek goes to is an offset of the window, and nothing is lost when it becomes one. -/
theorem seek_exact (small : size < offsetBound) (inside : v.WellFormed size)
    (target : SeekTarget) :
    offset? (v.clamped target) = some (v.seek target).pos ∧ (v.seek target).WellFormed size := by
  obtain ⟨start_le, pos_le, stop_le⟩ := inside
  have lower : (v.start : Int) ≤ v.clamped target := Int.le_max_left _ _
  have upper : v.clamped target ≤ v.stop := by
    unfold clamped
    omega
  have pos : (v.seek target).pos = (v.clamped target).toNat := rfl
  refine ⟨if_pos ⟨by omega, by omega⟩, ?_, ?_, stop_le⟩
  · rw [pos]
    change v.start ≤ _
    omega
  · rw [pos]
    change _ ≤ v.stop
    omega

end View

/-! ## Blocks -/

/-- A block over a view that lies within a source of the given size hands out the byte at `cursor`
next, in a window that ends at `stop`. -/
structure Buffered.Within (b : Buffered) (size cursor stop : Nat) : Prop where
  inside : b.view.WellFormed size
  stop_eq : b.view.stop = stop
  pos_eq : b.view.pos = cursor + (b.block.size - b.used)

namespace Buffered

variable {b : Buffered} {cursor stop : Nat}

theorem Within.cursor_le {size : Nat} (within : b.Within size cursor stop) :
    cursor ≤ stop ∧ stop ≤ size := by
  obtain ⟨⟨_, pos_le, stop_le⟩, rfl, pos_eq⟩ := within
  omega

theorem within_new (size start stop capacity : Nat) :
    (Buffered.mk (.new size start stop) capacity .empty 0).Within size
      (min start (min stop size)) (min stop size) :=
  ⟨View.new_wellFormed size start stop, rfl, rfl⟩

/-- Handing out bytes of the block moves the cursor behind them. -/
theorem Within.handOut {size : Nat} (within : b.Within size cursor stop) (length : Nat) :
    { b with used := b.used + (slice b.block b.used length).size }.Within size
      (cursor + (slice b.block b.used length).size) stop := by
  obtain ⟨inside, stop_eq, pos_eq⟩ := within
  have part : (slice b.block b.used length).size ≤ b.block.size - b.used := by
    simp only [slice, ByteArray.size_extract]
    omega
  exact ⟨inside, stop_eq, by dsimp only; omega⟩

theorem readOnce_confined (small : source.size < offsetBound)
    (within : b.Within source.size cursor stop) (length : Nat) (s : σ) :
    Confined source s (fun result b' => b'.Within source.size (cursor + given result) stop)
      (b.readOnce source length s) := by
  have inside := within.inside
  unfold readOnce
  by_cases unread : b.used < b.block.size
  · rw [if_pos unread]
    exact .ok .refl (within.handOut length)
  have pos_eq : b.view.pos = cursor := by
    have := within.pos_eq
    omega
  rw [if_neg unread]
  by_cases direct : b.capacity ≤ length
  · rw [if_pos direct]
    have read := View.read_confined small inside length s
    rcases answer : b.view.read source length s with ⟨e | bytes, view, s'⟩
    · rw [answer] at read
      have same : view = b.view := read.left.2
      subst same
      exact .error read.within (read.in_range e rfl) ⟨inside, within.stop_eq, within.pos_eq⟩
    · rw [answer] at read
      have moved : view = { b.view with pos := b.view.pos + bytes.size } := read.left.2
      subst moved
      have pos_eq' : b.view.pos + bytes.size = cursor + bytes.size := by rw [pos_eq]
      exact .ok read.within ⟨read.left.1, within.stop_eq, pos_eq'⟩
  · rw [if_neg direct]
    have read := View.read_confined small inside b.capacity s
    rcases answer : b.view.read source b.capacity s with ⟨e | block, view, s'⟩
    · rw [answer] at read
      have same : view = b.view := read.left.2
      subst same
      exact .error read.within (read.in_range e rfl) ⟨inside, within.stop_eq, within.pos_eq⟩
    · rw [answer] at read
      have moved : view = { b.view with pos := b.view.pos + block.size } := read.left.2
      subst moved
      have filled : Within ⟨{ b.view with pos := b.view.pos + block.size }, b.capacity, block, 0⟩
          source.size cursor stop :=
        ⟨read.left.1, within.stop_eq, by dsimp only; omega⟩
      have handed := filled.handOut length
      rw [Nat.zero_add] at handed
      exact .ok read.within handed

/-- What is left once `length` bytes were to be read: they have all been passed, or the read has
failed somewhere in the window. -/
def Passed {ρ : Type} (size cursor length stop : Nat) (result : Except IoError ρ) (b : Buffered) :
    Prop :=
  ∃ cursor', b.Within size cursor' stop ∧ ∀ value, result = .ok value → cursor' = cursor + length

/-- A read that has given some of the bytes goes on behind them. -/
theorem Passed.onward {ρ : Type} {size n length : Nat} {result : Except IoError ρ}
    (passed : Passed size (cursor + n) (length - n) stop result b) (part : n ≤ length) :
    Passed size cursor length stop result b := by
  obtain ⟨cursor', within, ended⟩ := passed
  refine ⟨cursor', within, fun value whole => ?_⟩
  have := ended value whole
  omega

theorem takeFrom_confined (small : source.size < offsetBound)
    (within : b.Within source.size cursor stop) (length : Nat) (done : ByteArray) (s : σ) :
    Confined source s
      (fun result b' => Passed source.size cursor length stop result b' ∧
        ∀ bytes, result = .ok bytes → bytes.size = done.size + length)
      (b.takeFrom source length done s) := by
  fun_induction takeFrom source b length done s generalizing cursor with
  | case1 b done s =>
    refine .ok .refl ⟨⟨cursor, within, fun _ _ => rfl⟩, ?_⟩
    intro bytes same
    cases same
    rfl
  | case2 b length done s _ bytes b' s' answer none =>
    have read := readOnce_confined small within length s
    rw [answer] at read
    exact .error read.within (by decide)
      ⟨⟨_, read.left, fun _ same => by cases same⟩, fun _ same => by cases same⟩
  | case3 b length done s _ bytes b' s' answer some part ih =>
    have read := readOnce_confined small within length s
    rw [answer] at read
    refine ((ih read.left).after read.within).mono fun result left whole => ?_
    obtain ⟨passed, size⟩ := whole
    refine ⟨passed.onward part, fun bytes' whole => ?_⟩
    have := size bytes' whole
    rw [ByteArray.size_append] at this
    omega
  | case4 b length done s _ e b' s' answer again _ ih =>
    have read := readOnce_confined small within length s
    rw [answer] at read
    exact (ih read.left).after read.within
  | case5 b length done s _ e b' s' answer final =>
    have read := readOnce_confined small within length s
    rw [answer] at read
    exact .error read.within (read.in_range e rfl)
      ⟨⟨_, read.left, fun _ same => by cases same⟩, fun _ same => by cases same⟩

theorem skip_confined (small : source.size < offsetBound)
    (within : b.Within source.size cursor stop) (length : Nat) (s : σ) :
    Confined source s (Passed source.size cursor length stop) (b.skip source length s) := by
  fun_induction skip source b length s generalizing cursor with
  | case1 b s => exact .ok .refl ⟨cursor, within, fun _ _ => rfl⟩
  | case2 b length s _ bytes b' s' answer none =>
    have read := readOnce_confined small within (min length blockSize) s
    rw [answer] at read
    exact .error read.within (by decide) ⟨_, read.left, fun _ same => by cases same⟩
  | case3 b length s _ bytes b' s' answer some part ih =>
    have read := readOnce_confined small within (min length blockSize) s
    rw [answer] at read
    have part' : bytes.size ≤ length := by omega
    exact ((ih read.left).after read.within).mono fun _ _ passed => passed.onward part'
  | case4 b length s _ e b' s' answer again _ ih =>
    have read := readOnce_confined small within (min length blockSize) s
    rw [answer] at read
    exact (ih read.left).after read.within
  | case5 b length s _ e b' s' answer final =>
    have read := readOnce_confined small within (min length blockSize) s
    rw [answer] at read
    exact .error read.within (read.in_range e rfl) ⟨_, read.left, fun _ same => by cases same⟩

end Buffered

/-! ## Records -/

/-- The failure is not that an offset left its range. That one is always a failure of the source,
which it names. -/
def ZipError.InRange (error : ZipError) : Prop := ∀ file, error ≠ .io ⟨.offsetOverflow, file⟩

theorem ZipError.inRange_of_structural {error : ZipError} (structural : error.isStructural = true) :
    error.InRange := by
  rintro file rfl
  cases structural

theorem ZipError.ofRead_inRange (label record : String) {e : IoError}
    (in_range : e.cause ≠ .offsetOverflow) : (ZipError.ofRead label record e).InRange := by
  unfold ofRead
  intro file overflow
  split at overflow
  · cases overflow
  · simp only [IoError.attributed, io.injEq, IoError.mk.injEq] at overflow
    exact in_range overflow.1

/-- What is left of a window when a record was to be read from it. A record that has been read was
as long as the bytes that it is parsed from. -/
def Layout.Read {α : Type} (layout : Layout α) (label record : String) (size cursor stop : Nat)
    (result : Except ZipError α) (b : Buffered) : Prop :=
  ∃ cursor', b.Within size cursor' stop ∧ ∀ value, result = .ok value →
    ∃ taken : List UInt8, cursor' = cursor + taken.length ∧
      layout.parse label record taken = (.ok value, [])

theorem Layout.readWindow_confined {α : Type} {layout : Layout α} {b : Buffered}
    {cursor stop : Nat} (small : source.size < offsetBound) (structural : layout.Structural)
    (record : String) (within : b.Within source.size cursor stop) (s : σ) :
    let x := layout.readWindow source record b s
    source.Reaches s x.2.2 ∧ (∀ e, x.1 = .error e → e.InRange) ∧
      layout.Read source.label record source.size cursor stop x.1 x.2.1 := by
  unfold readWindow
  induction layout generalizing b cursor s with
  | done value =>
    refine ⟨.refl, (fun _ failed => by cases failed), cursor, within, ?_⟩
    intro value' same
    cases same
    exact ⟨[], rfl, rfl⟩
  | refuse error =>
    refine ⟨.refl, ?_, cursor, within, fun _ same => by cases same⟩
    intro e failed
    cases failed
    exact ZipError.inRange_of_structural structural
  | bytes length next ih =>
    unfold run Buffered.reader Buffered.take
    dsimp only
    have read := Buffered.takeFrom_confined small within length .empty s
    rcases answer : b.takeFrom source length .empty s with ⟨e | bytes, b', s'⟩
    · rw [answer] at read
      obtain ⟨reaches, in_range, ⟨cursor', within', -⟩, -⟩ := read
      refine ⟨reaches, ?_, cursor', within', fun _ same => by cases same⟩
      intro e' failed
      cases failed
      exact ZipError.ofRead_inRange source.label record (in_range e rfl)
    · rw [answer] at read
      obtain ⟨reaches, -, ⟨cursor', within', whole⟩, size⟩ := read
      obtain rfl := whole bytes rfl
      have length_eq : bytes.data.toList.length = length := by
        have := size bytes rfl
        rwa [ByteArray.size_empty, Nat.zero_add] at this
      obtain ⟨reaches', in_range', last, left, parsed⟩ :=
        ih bytes.data.toList (structural bytes.data.toList) within' s'
      refine ⟨reaches.trans reaches', in_range', last, left, fun value found => ?_⟩
      obtain ⟨taken, rfl, onward⟩ := parsed value found
      refine ⟨bytes.data.toList ++ taken, by rw [List.length_append, length_eq]; omega, ?_⟩
      have append := @parse_bytes_append α source.label record next bytes.data.toList taken
      rw [length_eq] at append
      exact append.trans onward
  | skip length next ih =>
    unfold run Buffered.reader
    dsimp only
    have read := Buffered.skip_confined small within length s
    rcases answer : b.skip source length s with ⟨e | _, b', s'⟩
    · rw [answer] at read
      obtain ⟨reaches, in_range, cursor', within', -⟩ := read
      refine ⟨reaches, ?_, cursor', within', fun _ same => by cases same⟩
      intro e' failed
      cases failed
      exact ZipError.ofRead_inRange source.label record (in_range e rfl)
    · rw [answer] at read
      obtain ⟨reaches, -, cursor', within', whole⟩ := read
      obtain rfl := whole () rfl
      obtain ⟨reaches', in_range', last, left, parsed⟩ := ih structural within' s'
      refine ⟨reaches.trans reaches', in_range', last, left, fun value found => ?_⟩
      obtain ⟨taken, rfl, onward⟩ := parsed value found
      -- any bytes will do for those that were passed over
      have length_eq : (List.replicate length (0 : UInt8)).length = length :=
        List.length_replicate
      refine ⟨List.replicate length 0 ++ taken, by rw [List.length_append, length_eq]; omega, ?_⟩
      rw [parse_skip_long next (by rw [List.length_append]; omega), List.drop_left' length_eq]
      exact onward

/-! ## Streams -/

namespace Decoding

variable {δ : Type} {decoder : Decoder δ}

theorem fill_confined (small : source.size < offsetBound) {d : Decoding δ}
    (inside : d.view.WellFormed source.size) (s : σ) :
    Confined source s (fun _ (d' : Decoding δ) => d'.view.WellFormed source.size)
      (d.fill source s) := by
  unfold fill
  by_cases more : d.consumed < d.input.size
  · rw [if_pos more]
    exact .ok .refl inside
  · rw [if_neg more]
    have read := View.read_confined small inside blockSize s
    rcases answer : d.view.read source blockSize s with ⟨e | block, view, s'⟩
    · rw [answer] at read
      exact .error read.within (read.in_range e rfl) read.left.1
    · rw [answer] at read
      exact .ok read.within read.left.1

theorem read_confined (small : source.size < offsetBound) {d : Decoding δ}
    (inside : d.view.WellFormed source.size) (length : Nat) (s : σ) :
    Confined source s (fun _ (d' : Decoding δ) => d'.view.WellFormed source.size)
      (d.read decoder source length s) := by
  induction d, s using read_induction decoder source length with
  | step d s ih =>
    by_cases nothing : length = 0 ∨ d.isDone
    · rw [read_nothing nothing]
      exact .ok .refl inside
    rw [read_eq nothing]
    have fetched := fill_confined small inside s
    rcases answer : d.fill source s with ⟨e | ended, filled, s'⟩
    · rw [answer] at fetched
      exact .error fetched.within (fetched.in_range e rfl) fetched.left
    · rw [answer] at fetched
      dsimp only
      cases digested : filled.digest decoder length ended with
      | inl answered =>
        obtain ⟨view, undecodable⟩ := digest_answered digested
        refine ⟨fetched.within, fun e failed => ?_, view ▸ fetched.left⟩
        obtain ⟨error, rfl⟩ := undecodable e failed
        exact nofun
      | inr d' =>
        have view := (digest_more digested).2.1
        exact (ih ended filled s' d' answer digested (view ▸ fetched.left)).after fetched.within

end Decoding

namespace MemberStream

variable [Decoders] {stream : MemberStream}

theorem read_confined (small : source.size < offsetBound)
    (inside : stream.view.WellFormed source.size) (length : Nat) (s : σ) :
    Confined source s (fun _ (stream' : MemberStream) => stream'.view.WellFormed source.size)
      (stream.read source length s) := by
  cases stream with
  | stored view =>
    have read := (View.read_confined small inside length s).mono fun _ _ left => left.1
    exact read.map
  | deflate decoding => exact (Decoding.read_confined small inside length s).map
  | bzip2 decoding => exact (Decoding.read_confined small inside length s).map

/-- Reading a stream to its end, or as far as a sink takes bytes. -/
theorem collect_confined (small : source.size < offsetBound)
    (inside : stream.view.WellFormed source.size) (ask : Nat → Nat) (there : ByteArray) (s : σ) :
    Confined source s (fun _ (stream' : MemberStream) => stream'.view.WellFormed source.size)
      ((stream.collect source ask there s).1.1, (stream.collect source ask there s).2) := by
  fun_induction collect source ask there stream s with
  | case1 there stream s nothing => exact .ok .refl inside
  | case2 there stream s wanted bytes stream' s' answer none =>
    have read := read_confined small inside (ask there.size) s
    rw [answer] at read
    exact .ok read.within read.left
  | case3 there stream s wanted bytes stream' s' answer some ih =>
    have read := read_confined small inside (ask there.size) s
    rw [answer] at read
    exact (ih read.left).after read.within
  | case4 there stream s wanted e stream' s' answer again ih =>
    have read := read_confined small inside (ask there.size) s
    rw [answer] at read
    exact (ih read.left).after read.within
  | case5 there stream s wanted e stream' s' answer final =>
    have read := read_confined small inside (ask there.size) s
    rw [answer] at read
    exact .error read.within (read.in_range e rfl) read.left

end MemberStream
end ZipArchive
