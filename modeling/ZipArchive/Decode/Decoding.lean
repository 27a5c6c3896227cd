import ZipArchive.Buffered
import ZipArchive.Decode.Decoder

/-!
# Decoding from a view

Encoded bytes are fetched from a view block by block and decoded as output is asked for. Each read
makes progress or ends (`Decoding.read_progress`), so that reading on until the end always ends.
-/
namespace ZipArchive

/-- A decoder at work on the bytes of a view. -/
structure Decoding (δ : Type) where
  view : View
  /-- The encoded bytes fetched so far. -/
  input : ByteArray
  /-- How many of them the decoder has used up. -/
  consumed : Nat
  /-- The position of the decoder in the input, in bits. -/
  pos : Nat
  inside : pos ≤ bitLength input
  state : δ
  output : ByteArray
  /-- How much of the output has been handed out. -/
  delivered : Nat
  /-- What is in the way of more output. -/
  halt : Halt

namespace Decoding

variable {δ σ : Type} (decoder : Decoder δ) (source : Source σ)

def new (view : View) : Decoding δ where
  view := view
  input := .empty
  consumed := 0
  pos := 0
  inside := Nat.zero_le _
  state := decoder.start
  output := .empty
  delivered := 0
  halt := .starved

/-- Hands out at most `length` bytes of the output that has been made. -/
def deliver (d : Decoding δ) (length : Nat) : ByteArray × Decoding δ :=
  let bytes := slice d.output d.delivered length
  (bytes, { d with delivered := d.delivered + bytes.size })

/-- Fetches the next block once the decoder has used up all input. Tells whether there is no more
input. -/
def fill (d : Decoding δ) (s : σ) : Except IoError Bool × Decoding δ × σ :=
  if d.consumed < d.input.size then (.ok false, d, s)
  else
    match d.view.read source blockSize s with
    | (.error e, view, s') => (.error e, { d with view := view }, s')
    | (.ok block, view, s') =>
      let ⟨_, input, consumed, pos, inside, state, output, delivered, halt⟩ := d
      (.ok block.isEmpty, {
        view, consumed, pos, state, output, delivered, halt
        input := input ++ block
        inside := by rw [bitLength_append]; omega }, s')

/-- How many bytes may be made when `length` of them are asked for. -/
def room (d : Decoding δ) (length : Nat) : Nat :=
  (d.output.size + length + decoder.stride - 1) / decoder.stride * decoder.stride - d.output.size

/-- Decodes on, up to the end of the piece of output that the bytes asked for are in. -/
def produce (d : Decoding δ) (length : Nat) : Decoding δ :=
  let space := d.room decoder length
  let ⟨view, input, consumed, pos, inside, state, output, delivered, _⟩ := d
  match h : decoder.run input (some space) state pos output inside with
  | ⟨halt, state', pos', output'⟩ => {
    view, input, delivered, halt
    consumed := if halt = .starved then input.size else max consumed ((pos' + 7) / 8)
    pos := pos'
    inside := by
      have reached :
          (decoder.run input (some space) state pos output inside).pos ≤ bitLength input :=
        decoder.run_pos_le
      rw [h] at reached
      exact reached
    state := state'
    output := output' }

/-- All output has been made and handed out. -/
def isDone (d : Decoding δ) : Bool := d.halt = .finished && d.output.size ≤ d.delivered

theorem fill_ok {d d' : Decoding δ} {s s' : σ} {ended : Bool}
    (h : d.fill source s = (.ok ended, d', s')) :
    (d' = d ∧ s' = s ∧ ended = false ∧ d.consumed < d.input.size) ∨
      (d'.view.remaining < d.view.remaining ∧ ended = false) ∨
      (d'.view.remaining = d.view.remaining ∧ ended = true ∧ d'.input = d.input ∧
        d'.pos = d.pos ∧ d'.state = d.state ∧ d'.output = d.output ∧
        d'.delivered = d.delivered) := by
  unfold fill at h
  split at h
  · rename_i more
    simp only [Prod.mk.injEq, Except.ok.injEq] at h
    obtain ⟨rfl, rfl, rfl⟩ := h
    exact .inl ⟨rfl, rfl, rfl, more⟩
  · split at h
    · simp at h
    · rename_i block view s₁ answer
      obtain ⟨bound, moved⟩ := View.read_ok source answer
      simp only [Prod.mk.injEq, Except.ok.injEq] at h
      obtain ⟨rfl, rfl, rfl⟩ := h
      right
      by_cases empty : block.size = 0
      · right
        have none : block = .empty := ByteArray.size_eq_zero_iff.mp empty
        subst none
        simp [moved, View.remaining, ByteArray.isEmpty]
      · left
        simp only [moved, View.remaining, ByteArray.isEmpty]
        exact ⟨by omega, by simpa using empty⟩

theorem produce_frame (d : Decoding δ) (length : Nat) :
    (d.produce decoder length).view = d.view ∧ (d.produce decoder length).input = d.input ∧
      (d.produce decoder length).delivered = d.delivered := ⟨rfl, rfl, rfl⟩

theorem consumed_produce {d : Decoding δ} {length : Nat}
    (starved : (d.produce decoder length).halt = .starved) :
    (d.produce decoder length).consumed = d.input.size := by
  unfold produce at starved ⊢
  simp only at starved ⊢
  rw [if_pos starved]

theorem produce_progress {d : Decoding δ} {length : Nat}
    (sound : ∀ error, (d.produce decoder length).halt ≠ .failed error) :
    let d' := d.produce decoder length
    (d.pos < d'.pos ∨ d.pos = d'.pos ∧ decoder.owed d'.state < decoder.owed d.state) ∨
      (d'.pos = d.pos ∧ d'.state = d.state ∧ d'.output = d.output) :=
  decoder.run_progress sound

/-- At most `length` decoded bytes. No bytes mean that the data has been read to its end. -/
def read (d : Decoding δ) (length : Nat) (s : σ) : Except IoError ByteArray × Decoding δ × σ :=
  if length = 0 ∨ d.isDone then (.ok .empty, d, s)
  else
    match _filled : d.fill source s with
    | (.error e, d₁, s₁) => (.error e, d₁, s₁)
    | (.ok ended, d₁, s₁) =>
      match d₁.halt with
      | .failed error => (.error ⟨.undecodable error, none⟩, d₁, s₁)
      | _ =>
        if d₁.delivered < d₁.output.size then
          let (bytes, d₂) := d₁.deliver length
          (.ok bytes, d₂, s₁)
        else
          match _made : d₁.produce decoder length with
          | d₂ =>
            match _halted : d₂.halt with
            | .failed error => (.error ⟨.undecodable error, none⟩, d₂, s₁)
            | .starved =>
              if d₂.delivered < d₂.output.size then
                let (bytes, d₃) := d₂.deliver length
                (.ok bytes, d₃, s₁)
              else if _more : ended then
                (.error ⟨.undecodable decoder.incomplete, none⟩, d₂, s₁)
              else read d₂ length s₁
            | _ =>
              let (bytes, d₃) := d₂.deliver length
              (.ok bytes, d₃, s₁)
termination_by (d.view.remaining, d.input.size - d.consumed)
decreasing_by
  subst _made
  have used := consumed_produce decoder _halted
  obtain ⟨view, input, _⟩ := produce_frame decoder d₁ length
  rw [view, input, used]
  rcases fill_ok source _filled with ⟨rfl, rfl, _, more⟩ | ⟨less, _⟩ | ⟨_, rfl, _⟩
  · exact .right _ (by omega)
  · exact .left _ _ less
  · simp at _more

/-! ## Progress -/

/-- What is left to do before the data has been read to its end, in descending order of weight:
bytes to fetch, bits to decode, bytes to make, bytes to hand out. -/
def work (d : Decoding δ) : Nat × Nat × Nat × Nat :=
  (d.view.remaining, bitLength d.input - d.pos, decoder.owed d.state, d.output.size - d.delivered)

/-- One amount of work is less than another. -/
def Less (a b : Nat × Nat × Nat × Nat) : Prop :=
  a.1 < b.1 ∨ a.1 = b.1 ∧ (a.2.1 < b.2.1 ∨ a.2.1 = b.2.1 ∧
    (a.2.2.1 < b.2.2.1 ∨ a.2.2.1 = b.2.2.1 ∧ a.2.2.2 < b.2.2.2))

theorem Less.trans {a b c : Nat × Nat × Nat × Nat} (first : Less a b) (second : Less b c) :
    Less a c := by
  unfold Less at *
  omega

/-- The order is the lexicographic one, which is well-founded. -/
theorem Less.rel {a b : Nat × Nat × Nat × Nat} (less : Less a b) : WellFoundedRelation.rel a b := by
  obtain ⟨a₁, a₂, a₃, a₄⟩ := a
  obtain ⟨b₁, b₂, b₃, b₄⟩ := b
  simp only [Less] at less
  rcases less with h | ⟨rfl, h | ⟨rfl, h | ⟨rfl, h⟩⟩⟩
  · exact .left _ _ h
  · exact .right _ (.left _ _ h)
  · exact .right _ (.right _ (.left _ _ h))
  · exact .right _ (.right _ (.right _ h))

theorem deliver_less {d : Decoding δ} {length : Nat} (some : 0 < (d.deliver length).1.size) :
    Less ((d.deliver length).2.work decoder) (d.work decoder) := by
  simp only [deliver, slice, ByteArray.size_extract] at some
  simp only [deliver, work, Less, slice, ByteArray.size_extract, true_and]
  omega

theorem produce_less {d : Decoding δ} {length : Nat}
    (sound : ∀ error, (d.produce decoder length).halt ≠ .failed error) :
    Less ((d.produce decoder length).work decoder) (d.work decoder) ∨
      ((d.produce decoder length).work decoder = d.work decoder ∧
        (d.produce decoder length).output = d.output) := by
  have moved := produce_progress decoder sound
  have inside := (d.produce decoder length).inside
  obtain ⟨view, input, delivered⟩ := produce_frame decoder d length
  simp only [work, Less, view, input, delivered, true_and] at moved inside ⊢
  rcases moved with later | ⟨pos, state, output⟩
  · have := d.inside
    left
    omega
  · right
    simp only [pos, state, output, and_self]

theorem fill_less {d d' : Decoding δ} {s s' : σ} {ended : Bool}
    (h : d.fill source s = (.ok ended, d', s')) :
    Less (d'.work decoder) (d.work decoder) ∨
      (d'.work decoder = d.work decoder ∧ (ended = true ∨ s' = s)) := by
  rcases fill_ok source h with
    ⟨rfl, rfl, _⟩ | ⟨less, _⟩ | ⟨rest, ended, input, pos, state, output, delivered⟩
  · exact .inr ⟨rfl, .inr rfl⟩
  · exact .inl (.inl less)
  · exact .inr ⟨by simp only [work, rest, input, pos, state, output, delivered], .inl ended⟩

theorem fill_error {d d' : Decoding δ} {s s' : σ} {e : IoError}
    (h : d.fill source s = (.error e, d', s')) :
    d'.work decoder = d.work decoder ∧
      (e.isInterrupted = true → source.patience s' < source.patience s) := by
  unfold fill at h
  split at h
  · simp at h
  · split at h
    · rename_i answer
      obtain ⟨same, again⟩ := View.read_error source answer
      simp only [Prod.mk.injEq, Except.error.injEq] at h
      obtain ⟨rfl, rfl, rfl⟩ := h
      exact ⟨by simp only [work, same], again⟩
    · simp at h

theorem fill_le {d d' : Decoding δ} {s s' : σ} {ended : Bool}
    (h : d.fill source s = (.ok ended, d', s')) {a : Nat × Nat × Nat × Nat}
    (less : Less a (d'.work decoder)) : Less a (d.work decoder) := by
  rcases fill_less decoder source h with less' | ⟨same, _⟩
  · exact less.trans less'
  · exact same ▸ less

theorem produce_deliver_less {d : Decoding δ} {length : Nat}
    (sound : ∀ error, (d.produce decoder length).halt ≠ .failed error)
    (some : 0 < ((d.produce decoder length).deliver length).1.size) :
    Less (((d.produce decoder length).deliver length).2.work decoder) (d.work decoder) := by
  have delivered := deliver_less decoder some
  rcases produce_less decoder sound with less | ⟨same, output⟩
  · exact delivered.trans less
  · exact same ▸ delivered

/-- A read that gives bytes leaves less to do, and so does one that was interrupted, or else it has
used up patience. -/
theorem read_progress (d : Decoding δ) (length : Nat) (s : σ) :
    let (result, d', s') := d.read decoder source length s
    (∀ bytes, result = .ok bytes → 0 < bytes.size → Less (d'.work decoder) (d.work decoder)) ∧
      (∀ e, result = .error e → e.isInterrupted = true →
        Less (d'.work decoder) (d.work decoder) ∨
          (d'.work decoder = d.work decoder ∧ source.patience s' < source.patience s)) := by
  fun_induction read decoder source d length s with
  | case1 => simp
  | case2 d s _ e d₁ s₁ filled =>
    have := fill_error decoder source filled
    simp_all
  | case3 | case5 | case7 => simp [IoError.isInterrupted]
  | case4 d s _ ended d₁ s₁ filled pending bytes d₂ delivered _ =>
    simp only [Except.ok.injEq, reduceCtorEq, false_implies, implies_true, and_true]
    rintro _ rfl some
    have less : Less ((d₁.deliver length).2.work decoder) (d₁.work decoder) :=
      deliver_less decoder (by rw [delivered]; exact some)
    rw [delivered] at less
    exact fill_le decoder source filled less
  | case6 d s _ ended d₁ s₁ filled _ bytes d₃ _ halted _ delivered =>
    simp only [Except.ok.injEq, reduceCtorEq, false_implies, implies_true, and_true]
    rintro _ rfl some
    have less : Less (((d₁.produce decoder length).deliver length).2.work decoder)
        (d₁.work decoder) :=
      produce_deliver_less decoder (by simp [halted]) (by rw [delivered]; exact some)
    rw [delivered] at less
    exact fill_le decoder source filled less
  | case8 d s _ ended d₁ s₁ filled _ more _ halted _ ih =>
    have made := @produce_less _ decoder d₁ length (by simp [halted])
    have start := fill_less decoder source filled
    split at ih
    rename_i result d' s' _
    have weak : Less ((d₁.produce decoder length).work decoder) (d.work decoder) ∨
        (d₁.produce decoder length).work decoder = d.work decoder ∧ s₁ = s := by
      rcases start with less | ⟨same, rest⟩
      · rcases made with less' | ⟨same', _⟩
        · exact .inl (less'.trans less)
        · exact .inl (same' ▸ less)
      · have here : s₁ = s := rest.resolve_left (by simpa using more)
        rcases made with less' | ⟨same', _⟩
        · exact .inl (same ▸ less')
        · exact .inr ⟨same'.trans same, here⟩
    refine ⟨fun bytes found some => ?_, fun e found again => ?_⟩
    · have less := ih.1 bytes found some
      rcases weak with less' | ⟨same, _⟩
      · exact less.trans less'
      · exact same ▸ less
    · rcases ih.2 e found again with less | ⟨same, patience⟩
      · rcases weak with less' | ⟨same', _⟩
        · exact .inl (less.trans less')
        · exact .inl (same' ▸ less)
      · rcases weak with less' | ⟨same', rfl⟩
        · exact .inl (same ▸ less')
        · exact .inr ⟨same.trans same', patience⟩
  | case9 d s _ ended d₁ s₁ filled _ bytes d₃ _ delivered sound _ =>
    simp only [Except.ok.injEq, reduceCtorEq, false_implies, implies_true, and_true]
    rintro _ rfl some
    have less : Less (((d₁.produce decoder length).deliver length).2.work decoder)
        (d₁.work decoder) :=
      produce_deliver_less decoder sound (by rw [delivered]; exact some)
    rw [delivered] at less
    exact fill_le decoder source filled less

end Decoding
end ZipArchive
