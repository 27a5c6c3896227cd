import ZipArchive.Proofs.ViewRuns

/-!
# Reads at a position

A view is read at a position, or moved there and read on. Both begin at the same offset, though one
adds within the range of offsets and cuts the sum to the window, and the other adds without a bound
and clamps (`seek_start`). So they ask the source for the same bytes and come to the same
(`positional_reads`); only a read that fails tells them apart, by where it leaves the cursor.
-/
namespace ZipArchive

variable {σ : Type} {source : Source σ}

namespace View

variable {v : View}

/-- A seek to a position and a read there go to the same offset, the end of the window if the
position is behind it. -/
theorem seek_start {size : Nat} (small : size < offsetBound) (inside : v.WellFormed size)
    (position : Nat) :
    v.seek (.start position) = { v with pos := v.start + min position v.length } ∧
      min (min (v.start + position) (offsetBound - 1)) v.stop =
        v.start + min position v.length := by
  obtain ⟨start_le, pos_le, stop_le⟩ := inside
  have target : v.targetInside (.start position) = min position v.length := by
    simp only [targetInside, View.target]
    omega
  constructor
  · rw [(v.seek_eq ⟨start_le, pos_le, stop_le⟩ _).1, target]
  · unfold length
    omega

/-- Where the cursor was makes no difference to a read at an offset, unless it fails: then the
cursor is left there. -/
theorem advance_moved (v : View) (pos offset : Nat) (read : Except IoError ByteArray × σ) :
    ∃ result s' v₁ v₂, v.advance source offset read = (result, v₁, s') ∧
      { v with pos := pos }.advance source offset read = (result, v₂, s') ∧
      (∀ bytes, result = .ok bytes → v₁ = v₂) ∧
      ∀ e, result = .error e → v₁ = v ∧ v₂ = { v with pos := pos } := by
  rcases read with ⟨e | bytes, s⟩
  · refine ⟨.error e, s, v, _, rfl, rfl, fun _ given => ?_, fun _ _ => ⟨rfl, rfl⟩⟩
    cases given
  · cases moved : addOffset? offset bytes.size with
    | none =>
      refine ⟨.error ⟨.offsetOverflow, some source.label⟩, s, v, { v with pos := pos }, ?_, ?_,
        fun _ given => ?_, fun _ _ => ⟨rfl, rfl⟩⟩
      · simp only [advance, moved]
      · simp only [advance, moved]
      · cases given
    | some behind =>
      refine ⟨.ok bytes, s, { v with pos := behind }, { v with pos := behind }, ?_, ?_,
        fun _ _ => rfl, fun _ failed => ?_⟩
      · simp only [advance, moved]
      · simp only [advance, moved]
      · cases failed

/-- What is read at a position is what is read there after a seek, and only a failed read leaves
the cursor elsewhere. -/
theorem readFrom_seek (small : source.size < offsetBound) (inside : v.WellFormed source.size)
    (length position : Nat) {τ : Type} (other : Source τ) (s : τ) :
    ∃ result s' v₁ v₂, v.readFrom other length position s = (result, v₁, s') ∧
      (v.seek (.start position)).read other length s = (result, v₂, s') ∧
      (∀ bytes, result = .ok bytes → v₁ = v₂) ∧
      ∀ e, result = .error e → v₁ = v ∧ v₂ = v.seek (.start position) := by
  obtain ⟨moved, offset⟩ := seek_start small inside position
  unfold readFrom
  rw [moved, offset]
  exact v.advance_moved _ _ (v.readAt other (v.start + min position v.length) length s)

/-- The one read that the source is asked for, if any byte can come. -/
theorem ReadsAt.asked_eq {offset length : Nat} {s s' : σ} {result : Except IoError ByteArray}
    {v' : View} {asked : List (Nat × Nat)}
    (reads : v.ReadsAt source offset length s result v' s' asked) :
    asked = if min length (v.stop - offset) = 0 then []
      else [(offset, min length (v.stop - offset))] := by
  cases reads with
  | nothing none => rw [if_pos none]
  | given some answer bound => rw [if_neg (Nat.ne_of_gt some)]
  | failed some answer => rw [if_neg (Nat.ne_of_gt some)]

end View

namespace Views

/-- Whatever has been done with the views of a source before, reading one of them at a position and
moving it there to read on begin at the same offset, ask the source for the same bytes and come to
the same. If bytes are given, the view is then the same too. If the read fails, reading at a
position leaves the cursor where it was, and the seek has moved it. -/
theorem positional_reads (small : source.size < offsetBound)
    (earlier : List (String × ViewRequest)) (start : σ) {name : String} {v : View}
    (reached : (after source earlier [] start).1.get? name = some v) (length position : Nat)
    (s : σ) :
    let offset := v.start + min position v.length
    let room := min length (v.stop - offset)
    let sought := v.seek (.start position)
    min (min (v.start + position) (offsetBound - 1)) v.stop = offset ∧ sought.pos = offset ∧
    ∃ result s' asked v₁ v₂,
      v.readFrom source length position s = (result, v₁, s') ∧
      sought.read source length s = (result, v₂, s') ∧
      v.readFrom source.noting length position (s, []) = (result, v₁, s', asked) ∧
      sought.read source.noting length (s, []) = (result, v₂, s', asked) ∧
      asked = (if room = 0 then [] else [(offset, room)]) ∧
      (∀ bytes, result = .ok bytes → v₁ = v₂) ∧
      ∀ e, result = .error e → v₁ = v ∧ v₂ = { v with pos := offset } ∧
        v₂.position = min position v.length := by
  intro offset room sought
  have inside : v.WellFormed source.size :=
    (keeps_after small earlier ⟨fun _ => rfl, fun _ _ found => by cases found⟩ start).inside
      name v reached
  obtain ⟨moved, offset_eq⟩ := View.seek_start small inside position
  obtain ⟨result, s', v₁, v₂, direct, onward, same, apart⟩ :=
    View.readFrom_seek small inside length position source s
  obtain ⟨result', ⟨s'', asked⟩, w₁, w₂, noted, noted', same', apart'⟩ :=
    View.readFrom_seek small inside length position source.noting (s, [])
  obtain ⟨_, _, _, _, plain, written, reads⟩ :=
    View.readFrom_readsAt small inside length position s []
  cases direct.symm.trans plain
  cases noted.symm.trans written
  -- Writing the reads down makes no difference to where the seek and the read leave the view.
  have left : w₂ = v₂ := by
    cases result with
    | ok bytes => rw [← same' bytes rfl, ← same bytes rfl]
    | error e => rw [(apart' e rfl).2, (apart e rfl).2]
  have at_offset : min (v.start + position) v.stop = offset := by
    have := inside.stop_le
    omega
  rw [at_offset] at reads
  refine ⟨offset_eq, congrArg View.pos moved, result, s', _, v₁, v₂, direct, onward, noted,
    left ▸ noted', reads.asked_eq, same, fun e failed => ?_⟩
  obtain ⟨stayed, sought_eq⟩ := apart e failed
  refine ⟨stayed, sought_eq.trans moved, ?_⟩
  rw [sought_eq, moved]
  exact Nat.add_sub_cancel_left _ _

/-- A failing read tells both ways apart: reading at a position leaves the view where it stood, and
the seek has moved it back. -/
theorem failing_positional_reads :
    let source := Source.scripted "a.zip" 26
    let view : View := ⟨3, 8, 5⟩
    source.size < offsetBound ∧
      (after source [("a", .new 3 8), ("a", .read 4)] [] [.ok ⟨#[1, 2]⟩]).1.get? "a" = some view ∧
      (view.readFrom source 4 1 [.error (.os .inputOutput)]).2.1 = view ∧
      ((view.seek (.start 1)).read source 4 [.error (.os .inputOutput)]).2.1 = ⟨3, 8, 4⟩ := by
  intro source view
  have small : source.size < offsetBound := by decide
  have reached : (after source [("a", .new 3 8), ("a", .read 4)] [] [.ok ⟨#[1, 2]⟩]).1.get? "a" =
      some view := by decide +kernel
  obtain ⟨-, -, result, s', _, v₁, v₂, direct, sought, -, -, -, -, apart⟩ :=
    positional_reads small _ _ reached 4 1 [.error (.os .inputOutput)]
  have failed : result = .error ⟨.os 5, some "a.zip"⟩ := (congrArg Prod.fst direct).symm
  obtain ⟨stayed, moved, -⟩ := apart _ failed
  refine ⟨small, reached, ?_, ?_⟩
  · rw [direct]
    exact stayed
  · rw [sought]
    exact moved

end Views
end ZipArchive
