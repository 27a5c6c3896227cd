import ZipArchive.Proofs.Entries
import ZipArchive.Proofs.Serving
import ZipArchive.Views

/-!
# Runs of requests to views

Views are made, copied, read and moved in any order, over a source that may answer less than was
asked for, or fail, whenever it likes. What one request comes to is told by `Views.Comes`, with the
reads that it has the source asked for (`Source.noting` writes these down). From it follows what
holds after any run of requests: each view stands within its window, which is still the one it was
made with (`Views.windows`), and a request has changed no view but the one it was about.
-/
namespace ZipArchive

variable {σ : Type} {source : Source σ}

/-! ## Writing reads down -/

/-- The same source, which writes down offset and length of each read that it is asked for. -/
def Source.noting (source : Source σ) : Source (σ × List (Nat × Nat)) where
  label := source.label
  size := source.size
  readAt offset length := fun (s, asked) =>
    ((source.readAt offset length s).1,
      (source.readAt offset length s).2, asked ++ [(offset, length)])
  patience := fun (s, _) => source.patience s
  size_readAt := by
    rintro offset length ⟨s, asked⟩ bytes ⟨s', asked'⟩ answer
    simp only [Prod.mk.injEq] at answer
    exact source.size_readAt _ _ s _ s' (Prod.ext answer.1 answer.2.1)
  patience_readAt := by
    rintro offset length ⟨s, asked⟩ ⟨s', asked'⟩ answer
    simp only [Prod.mk.injEq] at answer
    exact source.patience_readAt _ _ s s' (Prod.ext answer.1 answer.2.1)

theorem Source.noting_readAt {offset length : Nat} {s s' : σ} {result : Except ReadFailure ByteArray}
    (answer : source.readAt offset length s = (result, s')) (asked : List (Nat × Nat)) :
    source.noting.readAt offset length (s, asked) = (result, s', asked ++ [(offset, length)]) := by
  simp only [noting, answer]

namespace View

/-! ## One read -/

/-- What one read at an offset of the window comes to, and what the source is asked for. A view
gives what the source gave, and stands behind it then; if the source fails it stands where it
stood. -/
inductive ReadsAt (source : Source σ) (v : View) (offset length : Nat) (s : σ) :
    Except IoError ByteArray → View → σ → List (Nat × Nat) → Prop where
  | nothing (none : min length (v.stop - offset) = 0) :
    ReadsAt source v offset length s (.ok .empty) { v with pos := offset } s []
  | given {bytes : ByteArray} {s' : σ} (some : 0 < min length (v.stop - offset))
      (answer : source.readAt offset (min length (v.stop - offset)) s = (.ok bytes, s'))
      (bound : bytes.size ≤ min length (v.stop - offset)) :
    ReadsAt source v offset length s (.ok bytes) { v with pos := offset + bytes.size } s'
      [(offset, min length (v.stop - offset))]
  | failed {failure : ReadFailure} {s' : σ} (some : 0 < min length (v.stop - offset))
      (answer : source.readAt offset (min length (v.stop - offset)) s = (.error failure, s')) :
    ReadsAt source v offset length s (.error (failure.toIoError.attributed source.label)) v s'
      [(offset, min length (v.stop - offset))]

variable {v : View} {offset : Nat}

/-- A read of a view is one of these, and writing reads down makes no difference to it. -/
theorem advance_readsAt (small : source.size < offsetBound) (last : offset ≤ v.stop)
    (inside : v.stop ≤ source.size) (length : Nat) (s : σ) (asked : List (Nat × Nat)) :
    ∃ result v' s' more,
      v.advance source offset (v.readAt source offset length s) = (result, v', s') ∧
      v.advance source.noting offset (v.readAt source.noting offset length (s, asked)) =
        (result, v', s', asked ++ more) ∧
      v.ReadsAt source offset length s result v' s' more := by
  unfold readAt subOffset?
  simp only [last, if_true]
  by_cases none : min length (v.stop - offset) = 0
  · have fits : offset + ByteArray.empty.size < offsetBound := by
      rw [ByteArray.size_empty]
      omega
    refine ⟨_, _, s, [], ?_, ?_, .nothing none⟩
    · rw [if_pos none]
      exact v.advance_inside offset .empty s fits
    · rw [if_pos none, List.append_nil]
      exact v.advance_inside offset .empty (s, asked) fits
  · have some := Nat.pos_of_ne_zero none
    rcases answer : source.readAt offset (min length (v.stop - offset)) s with ⟨failure | bytes, s'⟩
    · refine ⟨_, _, s', _, ?_, ?_, .failed some answer⟩
      · rw [if_neg none]
        rfl
      · rw [if_neg none, Source.noting_readAt answer]
        rfl
    · have bound := source.size_readAt _ _ _ _ _ answer
      refine ⟨_, _, s', _, ?_, ?_, .given some answer bound⟩
      · rw [if_neg none]
        exact v.advance_inside offset bytes s' (by omega)
      · rw [if_neg none, Source.noting_readAt answer]
        exact v.advance_inside offset bytes (s', _) (by omega)

/-- What a request leaves of a view: its cursor is in its window, which is the one it was, and each
read that the source was asked for was one of some bytes of the window. -/
structure Kept (size : Nat) (v v' : View) (asked : List (Nat × Nat)) : Prop where
  inside : v'.WellFormed size
  start_eq : v'.start = v.start
  stop_eq : v'.stop = v.stop
  asks : ∀ ask ∈ asked, 0 < ask.2 ∧ v.start ≤ ask.1 ∧ ask.1 + ask.2 ≤ v.stop

namespace Kept

variable {size : Nat} {v' v'' : View} {asked more : List (Nat × Nat)}

theorem refl (inside : v.WellFormed size) : Kept size v v [] where
  inside := inside
  start_eq := rfl
  stop_eq := rfl
  asks _ among := absurd among List.not_mem_nil

theorem trans (first : Kept size v v' asked) (second : Kept size v' v'' more) :
    Kept size v v'' (asked ++ more) where
  inside := second.inside
  start_eq := second.start_eq.trans first.start_eq
  stop_eq := second.stop_eq.trans first.stop_eq
  asks ask among := by
    rcases List.mem_append.mp among with here | there
    · exact first.asks ask here
    · have asks := second.asks ask there
      rwa [first.start_eq, first.stop_eq] at asks

/-- What the source was asked for lies in the window of the view as it is then. -/
theorem asks_here (kept : Kept size v v' asked) :
    ∀ ask ∈ asked, 0 < ask.2 ∧ v'.start ≤ ask.1 ∧ ask.1 + ask.2 ≤ v'.stop := by
  rw [kept.start_eq, kept.stop_eq]
  exact kept.asks

end Kept

theorem ReadsAt.kept {length : Nat} {s s' : σ} {result : Except IoError ByteArray} {v' : View}
    {asked : List (Nat × Nat)} (reads : v.ReadsAt source offset length s result v' s' asked)
    (inside : v.WellFormed source.size) (first : v.start ≤ offset) (last : offset ≤ v.stop) :
    Kept source.size v v' asked := by
  have stop_le := inside.stop_le
  have within : 0 < min length (v.stop - offset) →
      ∀ ask ∈ [(offset, min length (v.stop - offset))],
        0 < ask.2 ∧ v.start ≤ ask.1 ∧ ask.1 + ask.2 ≤ v.stop := by
    intro some ask among
    cases List.mem_singleton.mp among
    exact ⟨some, first, by dsimp only; omega⟩
  cases reads with
  | nothing none =>
    exact ⟨⟨first, last, stop_le⟩, rfl, rfl, fun _ among => absurd among List.not_mem_nil⟩
  | given some answer bound =>
    refine ⟨⟨?_, ?_, stop_le⟩, rfl, rfl, within some⟩
    · exact Nat.le_add_right_of_le first
    · dsimp only
      omega
  | failed some answer => exact ⟨inside, rfl, rfl, within some⟩

theorem read_readsAt (small : source.size < offsetBound) (inside : v.WellFormed source.size)
    (length : Nat) (s : σ) (asked : List (Nat × Nat)) :
    ∃ result v' s' more, v.read source length s = (result, v', s') ∧
      v.read source.noting length (s, asked) = (result, v', s', asked ++ more) ∧
      v.ReadsAt source v.pos length s result v' s' more :=
  advance_readsAt small inside.pos_le inside.stop_le length s asked

/-- A position that is behind the window is its end. No offset is as great as the greatest that is
told apart. -/
theorem readFrom_readsAt (small : source.size < offsetBound) (inside : v.WellFormed source.size)
    (length position : Nat) (s : σ) (asked : List (Nat × Nat)) :
    ∃ result v' s' more, v.readFrom source length position s = (result, v', s') ∧
      v.readFrom source.noting length position (s, asked) = (result, v', s', asked ++ more) ∧
      v.ReadsAt source (min (v.start + position) v.stop) length s result v' s' more := by
  have stop_le := inside.stop_le
  have offset : min (min (v.start + position) (offsetBound - 1)) v.stop =
      min (v.start + position) v.stop := by omega
  unfold readFrom
  rw [offset]
  exact advance_readsAt small (Nat.min_le_right _ _) stop_le length s asked

theorem read_kept (small : source.size < offsetBound) (inside : v.WellFormed source.size)
    {length : Nat} {s s' : σ} {result : Except IoError ByteArray} {v' : View}
    (answer : v.read source length s = (result, v', s')) (asked : List (Nat × Nat)) :
    ∃ more, v.read source.noting length (s, asked) = (result, v', s', asked ++ more) ∧
      Kept source.size v v' more := by
  obtain ⟨_, _, _, more, plain, noted, reads⟩ := read_readsAt small inside length s asked
  cases answer.symm.trans plain
  exact ⟨more, noted, reads.kept inside inside.start_le inside.pos_le⟩

/-- Reading to the end is one read after the other. -/
theorem readToEnd_kept (small : source.size < offsetBound) (inside : v.WellFormed source.size)
    (there : ByteArray) (s : σ) (asked : List (Nat × Nat)) :
    ∃ result v' s' more, v.readToEnd source there s = (result, v', s') ∧
      v.readToEnd source.noting there (s, asked) = (result, v', s', asked ++ more) ∧
      Kept source.size v v' more := by
  fun_induction readToEnd source v there s generalizing asked with
  | case1 v there s bytes v' s' answer none =>
    obtain ⟨more, noted, kept⟩ := read_kept small inside answer asked
    refine ⟨_, _, _, more, rfl, ?_, kept⟩
    rw [readToEnd, noted]
    exact dif_pos none
  | case2 v there s bytes v' s' answer some ih =>
    obtain ⟨more, noted, kept⟩ := read_kept small inside answer asked
    obtain ⟨result, v'', s'', rest, plain, noted', kept'⟩ := ih kept.inside (asked ++ more)
    refine ⟨result, v'', s'', more ++ rest, plain, ?_, kept.trans kept'⟩
    rw [readToEnd, noted, ← List.append_assoc, ← noted']
    exact dif_neg some
  | case3 v there s e v' s' answer again ih =>
    obtain ⟨more, noted, kept⟩ := read_kept small inside answer asked
    obtain ⟨result, v'', s'', rest, plain, noted', kept'⟩ := ih kept.inside (asked ++ more)
    refine ⟨result, v'', s'', more ++ rest, plain, ?_, kept.trans kept'⟩
    rw [readToEnd, noted, ← List.append_assoc, ← noted']
    exact dif_pos again
  | case4 v there s e v' s' answer last =>
    obtain ⟨more, noted, kept⟩ := read_kept small inside answer asked
    refine ⟨_, _, _, more, rfl, ?_, kept⟩
    rw [readToEnd, noted]
    exact dif_neg last

/-! ## Seeking -/

/-- Where a seek asks to go, as a number of bytes from the start of the window. -/
def target (v : View) : SeekTarget → Int
  | .start offset => offset
  | .current offset => v.position + offset
  | .stop offset => v.length + offset

/-- The target, or the nearest end of the window. -/
def targetInside (v : View) (target : SeekTarget) : Nat :=
  (max 0 (min (v.target target) v.length)).toNat

theorem targetInside_le (v : View) (target : SeekTarget) : v.targetInside target ≤ v.length := by
  unfold targetInside
  omega

theorem seek_eq {size : Nat} (inside : v.WellFormed size) (target : SeekTarget) :
    v.seek target = { v with pos := v.start + v.targetInside target } ∧
      (v.seek target).position = v.targetInside target := by
  obtain ⟨start_le, pos_le, -⟩ := inside
  have position : (v.position : Int) = v.pos - v.start := Int.ofNat_sub start_le
  have length : (v.length : Int) = v.stop - v.start := Int.ofNat_sub (Nat.le_trans start_le pos_le)
  have target_eq : v.target target = v.wanted target - v.start := by
    cases target <;>
    · simp only [View.target, wanted]
      omega
  have pos : (v.seek target).pos = v.start + v.targetInside target := by
    simp only [seek, targetInside]
    omega
  refine ⟨?_, ?_⟩
  · rw [← pos]
    rfl
  · rw [View.position, pos]
    exact Nat.add_sub_cancel_left _ _

end View

/-! ## Views under their names -/

/-- The name of the view that must be there for a request to be answered. -/
def ViewRequest.needs (name : String) : ViewRequest → Option String
  | .new _ _ => none
  | .clone other => some other
  | _ => some name

/-- A request that puts a view under the name it is about. -/
def ViewRequest.makes : ViewRequest → Bool
  | .new _ _ | .clone _ => true
  | _ => false

namespace Views

theorem get?_insert_self (views : Views) (name : String) (view : View) :
    (views.insert name view).get? name = some view :=
  (lookup_replaced views name name view).trans (if_pos rfl)

theorem get?_insert (views : Views) {name other : String} (different : other ≠ name)
    (view : View) : (views.insert name view).get? other = views.get? other :=
  (lookup_replaced views name other view).trans (if_neg different)

/-! ## Requests -/

/-- The answer to a read. -/
def answerTo : Except IoError ByteArray → ViewAnswer
  | .ok bytes => .bytes bytes
  | .error e => .failed e

theorem ofRead_eq (result : Except IoError ByteArray) (v : View) (s : σ) :
    ofRead (result, v, s) = (answerTo result, v, s) := by
  cases result <;> rfl

/-- What a request about the view of a name comes to: the answer and the view as it is then, if
there is one, the state of the source, and what the source was asked for. -/
inductive Comes (source : Source σ) (views : Views) (name : String) (s : σ) :
    ViewRequest → Option (ViewAnswer × View) → σ → List (Nat × Nat) → Prop where
  | new (start stop : Nat) :
    Comes source views name s (.new start stop)
      (some (.done, ⟨min start (min stop source.size), min stop source.size,
        min start (min stop source.size)⟩)) s []
  | clone {other : String} {v : View} (found : views.get? other = some v) :
    Comes source views name s (.clone other) (some (.done, v)) s []
  | read {length : Nat} {v v' : View} {result : Except IoError ByteArray} {s' : σ}
      {asked : List (Nat × Nat)} (found : views.get? name = some v)
      (reads : v.ReadsAt source v.pos length s result v' s' asked) :
    Comes source views name s (.read length) (some (answerTo result, v')) s' asked
  | readFrom {length position : Nat} {v v' : View} {result : Except IoError ByteArray} {s' : σ}
      {asked : List (Nat × Nat)} (found : views.get? name = some v)
      (reads : v.ReadsAt source (min (v.start + position) v.stop) length s result v' s' asked) :
    Comes source views name s (.readFrom length position) (some (answerTo result, v')) s' asked
  | readToEnd {v v' : View} {result : Except IoError ByteArray} {s' : σ}
      {asked : List (Nat × Nat)} (found : views.get? name = some v)
      (kept : v.Kept source.size v' asked) :
    Comes source views name s .readToEnd (some (answerTo result, v')) s' asked
  | seek {target : SeekTarget} {v : View} (found : views.get? name = some v) :
    Comes source views name s (.seek target)
      (some (.position (v.targetInside target),
        { v with pos := v.start + v.targetInside target })) s []
  | tell {v : View} (found : views.get? name = some v) :
    Comes source views name s .tell (some (.done, v)) s []
  | missing {request : ViewRequest} {needed : String} (needs : request.needs name = some needed)
      (missing : views.get? needed = none) :
    Comes source views name s request none s []

/-- The windows that views were made with, under the names of the views. -/
abbrev Windows : Type := String → Option (Nat × Nat)

/-- Only making and copying a view has its window kept under a name. -/
def windowsAfter (size : Nat) (windows : Windows) : String × ViewRequest → Windows
  | (name, .new start stop) => fun other =>
    if other = name then some (min start (min stop size), min stop size) else windows other
  | (name, .clone original) => fun other =>
    if other = name then (windows original).or (windows name) else windows other
  | _ => windows

theorem windowsAfter_clone (size : Nat) (windows : Windows) (name original other : String) :
    windowsAfter size windows (name, .clone original) other =
      if other = name then (windows original).or (windows name) else windows other := rfl

/-- The windows that a run of requests has made, in a source of the given size. -/
def windows (size : Nat) (requests : List (String × ViewRequest)) : Windows :=
  requests.foldl (windowsAfter size) fun _ => none

/-- The views after a run of requests, and the state of the source. -/
def after (source : Source σ) : List (String × ViewRequest) → Views → σ → Views × σ
  | [], views, s => (views, s)
  | (name, request) :: rest, views, s =>
    after source rest (views.answer source name request s).2.1
      (views.answer source name request s).2.2

/-- Each view stands within its window, and its window is the one told. -/
structure Keeps (size : Nat) (views : Views) (windows : Windows) : Prop where
  window : ∀ name, (views.get? name).map (fun v => (v.start, v.stop)) = windows name
  inside : ∀ name v, views.get? name = some v → v.WellFormed size

/-- The views with the one that a request was about as it is then. -/
def updated (views : Views) (name : String) : Option (ViewAnswer × View) → Views
  | some (_, view) => views.insert name view
  | none => views

variable {views : Views} {name : String}

theorem answer_none {request : ViewRequest} {s : σ}
    (missing : views.apply source name request s = none) :
    views.answer source name request s = (none, views.updated name none, s) := by
  rw [answer, missing]
  rfl

theorem answer_some {request : ViewRequest} {s s' : σ} {found : ViewAnswer} {v : View}
    (applied : views.apply source name request s = some (found, v, s')) :
    views.answer source name request s =
      (some (found, v), views.updated name (some (found, v)), s') := by
  rw [answer, applied]
  rfl

/-- A request about a view that is not there. -/
theorem apply_missing {request : ViewRequest} {needed : String}
    (needs : request.needs name = some needed) (missing : views.get? needed = none) (s : σ) :
    views.apply source name request s = none := by
  cases request <;> cases needs <;> exact congrArg (Option.map _) missing

/-- Every request comes to what it should, and writing reads down makes no difference to it. -/
theorem answer_comes (small : source.size < offsetBound)
    (inside : ∀ name v, views.get? name = some v → v.WellFormed source.size)
    (name : String) (request : ViewRequest) (s : σ) (asked : List (Nat × Nat)) :
    ∃ answered s' more,
      views.answer source name request s = (answered, views.updated name answered, s') ∧
      views.answer source.noting name request (s, asked) =
        (answered, views.updated name answered, s', asked ++ more) ∧
      Comes source views name s request answered s' more := by
  cases needs : request.needs name with
  | none =>
    cases request with
    | new start stop =>
      refine ⟨_, s, [], rfl, ?_, .new start stop⟩
      rw [List.append_nil]
      rfl
    | _ => cases needs
  | some needed =>
  cases found : views.get? needed with
  | none =>
    refine ⟨none, s, [], answer_none (apply_missing needs found s), ?_, .missing needs found⟩
    rw [List.append_nil]
    exact answer_none (apply_missing needs found _)
  | some v =>
    have fit := inside needed v found
    -- What the request makes of the view, with the reads written down and without.
    suffices ∃ answered v' s' more,
        views.apply source name request s = some (answered, v', s') ∧
        views.apply source.noting name request (s, asked) = some (answered, v', s', asked ++ more) ∧
        Comes source views name s request (some (answered, v')) s' more by
      obtain ⟨answered, v', s', more, plain, noted, comes⟩ := this
      exact ⟨_, s', more, answer_some plain, answer_some noted, comes⟩
    cases request with
    | new start stop => cases needs
    | clone other =>
      cases needs
      refine ⟨_, v, s, [], congrArg (Option.map _) found, ?_, .clone found⟩
      rw [List.append_nil]
      exact congrArg (Option.map _) found
    | read length =>
      cases needs
      obtain ⟨result, v', s', more, plain, noted, reads⟩ := v.read_readsAt small fit length s asked
      refine ⟨answerTo result, v', s', more, ?_, ?_, .read found reads⟩
      · rw [apply, found, Option.map_some, plain, ofRead_eq]
      · rw [apply, found, Option.map_some, noted, ofRead_eq]
    | readFrom length position =>
      cases needs
      obtain ⟨result, v', s', more, plain, noted, reads⟩ :=
        v.readFrom_readsAt small fit length position s asked
      refine ⟨answerTo result, v', s', more, ?_, ?_, .readFrom found reads⟩
      · rw [apply, found, Option.map_some, plain, ofRead_eq]
      · rw [apply, found, Option.map_some, noted, ofRead_eq]
    | readToEnd =>
      cases needs
      obtain ⟨result, v', s', more, plain, noted, kept⟩ :=
        v.readToEnd_kept small fit .empty s asked
      refine ⟨answerTo result, v', s', more, ?_, ?_, .readToEnd found kept⟩
      · rw [apply, found, Option.map_some, plain, ofRead_eq]
      · rw [apply, found, Option.map_some, noted, ofRead_eq]
    | seek target =>
      cases needs
      obtain ⟨moved, position⟩ := v.seek_eq fit target
      refine ⟨.position (v.targetInside target), _, s, [], ?_, ?_, .seek found⟩
      · rw [apply, found, Option.map_some, position, moved]
      · rw [apply, found, Option.map_some, position, moved, List.append_nil]
    | tell =>
      cases needs
      refine ⟨_, v, s, [], congrArg (Option.map _) found, ?_, .tell found⟩
      rw [List.append_nil]
      exact congrArg (Option.map _) found

/-- Where the window of a view comes from: a request makes it, copies it, or leaves it as it was. -/
inductive WindowFrom (size : Nat) (views : Views) (name : String) : ViewRequest → View → Prop where
  | made (start stop : Nat) : WindowFrom size views name (.new start stop) (.new size start stop)
  | copied {other : String} {v : View} (found : views.get? other = some v) :
    WindowFrom size views name (.clone other) v
  | kept {request : ViewRequest} {v v' : View} (old : request.makes = false)
      (found : views.get? name = some v) (start_eq : v'.start = v.start)
      (stop_eq : v'.stop = v.stop) :
    WindowFrom size views name request v'

/-- The view that a request was about stands within its window, and the source was asked for bytes
of this window only. -/
theorem Comes.left {request : ViewRequest} {s s' : σ} {answered : ViewAnswer} {v' : View}
    {more : List (Nat × Nat)}
    (comes : Comes source views name s request (some (answered, v')) s' more)
    (inside : ∀ name v, views.get? name = some v → v.WellFormed source.size) :
    v'.WellFormed source.size ∧
      (∀ ask ∈ more, 0 < ask.2 ∧ v'.start ≤ ask.1 ∧ ask.1 + ask.2 ≤ v'.stop) ∧
      WindowFrom source.size views name request v' := by
  have of_kept : ∀ {v : View}, views.get? name = some v → request.makes = false →
      v.Kept source.size v' more → _ ∧ _ ∧ WindowFrom source.size views name request v' :=
    fun found old kept =>
      ⟨kept.inside, kept.asks_here, .kept old found kept.start_eq kept.stop_eq⟩
  cases comes with
  | new start stop =>
    exact ⟨View.new_wellFormed .., fun _ among => absurd among List.not_mem_nil,
      .made start stop⟩
  | @clone other _ found =>
    exact ⟨inside other v' found, fun _ among => absurd among List.not_mem_nil, .copied found⟩
  | @read _ v _ _ _ _ found reads =>
    have fit := inside name v found
    exact of_kept found rfl (reads.kept fit fit.start_le fit.pos_le)
  | @readFrom _ _ v _ _ _ _ found reads =>
    have fit := inside name v found
    have ordered := Nat.le_trans fit.start_le fit.pos_le
    exact of_kept found rfl (reads.kept fit (by omega) (Nat.min_le_right _ _))
  | readToEnd found kept => exact of_kept found rfl kept
  | @seek target v found =>
    have fit := inside name v found
    have moved := v.targetInside_le target
    have ordered := Nat.le_trans fit.start_le fit.pos_le
    unfold View.length at moved
    exact of_kept found rfl ⟨⟨Nat.le_add_right _ _, by dsimp only; omega, fit.stop_le⟩, rfl, rfl,
      fun _ among => absurd among List.not_mem_nil⟩
  | tell found => exact of_kept found rfl (.refl (inside name v' found))

theorem keeps_insert {size : Nat} {windows windows' : Windows} {v : View}
    (keeps : Keeps size views windows) (inside : v.WellFormed size)
    (here : windows' name = some (v.start, v.stop))
    (others : ∀ other, other ≠ name → windows' other = windows other) :
    Keeps size (views.insert name v) windows' where
  window other := by
    by_cases same : other = name
    · rw [same, get?_insert_self, here, Option.map_some]
    · rw [views.get?_insert same, keeps.window, others other same]
  inside other w found := by
    by_cases same : other = name
    · rw [same, get?_insert_self] at found
      cases found
      exact inside
    · rw [views.get?_insert same] at found
      exact keeps.inside other w found

/-- A request keeps each view within its window. -/
theorem Comes.keeps {request : ViewRequest} {s s' : σ} {answered : Option (ViewAnswer × View)}
    {more : List (Nat × Nat)} (comes : Comes source views name s request answered s' more)
    {windows : Windows} (keeps : Keeps source.size views windows) :
    Keeps source.size (views.updated name answered)
      (windowsAfter source.size windows (name, request)) := by
  rcases answered with _ | ⟨answer, v'⟩
  · cases comes with
    | @missing _ needed needs missing =>
      have none := keeps.window needed
      rw [missing, Option.map_none] at none
      cases request with
      | new start stop => cases needs
      | clone original =>
        cases needs
        have same : windowsAfter source.size windows (name, .clone needed) = windows := by
          funext other
          rw [windowsAfter_clone, ← none, Option.none_or]
          by_cases here : other = name
          · rw [if_pos here, here]
          · rw [if_neg here]
        rwa [same]
      | _ => exact keeps
  · obtain ⟨fit, -, origin⟩ := comes.left keeps.inside
    cases origin with
    | made start stop => exact keeps_insert keeps fit (if_pos rfl) fun _ other => if_neg other
    | @copied original _ found =>
      have window := keeps.window original
      rw [found, Option.map_some] at window
      refine keeps_insert keeps fit ?_ fun _ other => if_neg other
      rw [windowsAfter_clone, if_pos rfl, ← window, Option.some_or]
    | kept old found start_eq stop_eq =>
      have window := keeps.window name
      rw [found, Option.map_some, ← start_eq, ← stop_eq] at window
      have same : windowsAfter source.size windows (name, request) = windows := by
        cases request with
        | new start stop => cases old
        | clone original => cases old
        | _ => rfl
      rw [same]
      exact keeps_insert keeps fit window.symm fun _ _ => rfl

/-! ## Runs -/

theorem keeps_after (small : source.size < offsetBound) (requests : List (String × ViewRequest))
    {windows : Windows} (keeps : Keeps source.size views windows) (s : σ) :
    Keeps source.size (after source requests views s).1
      (requests.foldl (windowsAfter source.size) windows) := by
  induction requests generalizing views windows s with
  | nil => exact keeps
  | cons first rest ih =>
    obtain ⟨name, request⟩ := first
    obtain ⟨answered, s', more, plain, -, comes⟩ :=
      answer_comes small keeps.inside name request s []
    rw [after, plain]
    exact ih (comes.keeps keeps) s'

/-- After any run of requests each view stands within its window, in the window it was made with. Then
each request comes to what it should, asks the source for some bytes of the window of its view if it
asks for anything, and leaves all other views alone. -/
theorem run_keeps (small : source.size < offsetBound) (earlier : List (String × ViewRequest))
    (start : σ) :
    let views := (after source earlier [] start).1
    let s := (after source earlier [] start).2
    (∀ name, (views.get? name).map (fun v => (v.start, v.stop)) =
      windows source.size earlier name) ∧
    (∀ name v, views.get? name = some v →
      v.start ≤ v.pos ∧ v.pos ≤ v.stop ∧ v.stop ≤ source.size) ∧
    ∀ name request, ∃ answered views' s' asked,
      views.answer source name request s = (answered, views', s') ∧
      views.answer source.noting name request (s, []) = (answered, views', s', asked) ∧
      Comes source views name s request answered s' asked ∧
      (∀ answer v, answered = some (answer, v) → views'.get? name = some v ∧
        ∀ ask ∈ asked, 0 < ask.2 ∧ v.start ≤ ask.1 ∧ ask.1 + ask.2 ≤ v.stop) ∧
      (answered = none → views' = views ∧ asked = []) ∧
      ∀ other, other ≠ name → views'.get? other = views.get? other := by
  intro views s
  have keeps : Keeps source.size views (windows source.size earlier) :=
    keeps_after small earlier ⟨fun _ => rfl, fun _ _ found => by cases found⟩ start
  refine ⟨keeps.window, fun name v found => ?_, fun name request => ?_⟩
  · obtain ⟨start_le, pos_le, stop_le⟩ := keeps.inside name v found
    exact ⟨start_le, pos_le, stop_le⟩
  · obtain ⟨answered, s', asked, plain, noted, comes⟩ :=
      answer_comes small keeps.inside name request s []
    refine ⟨answered, _, s', asked, plain, noted, comes, ?_, ?_, ?_⟩
    · rintro answer v rfl
      exact ⟨views.get?_insert_self name v, (comes.left keeps.inside).2.1⟩
    · rintro rfl
      cases comes
      exact ⟨rfl, rfl⟩
    · intro other different
      rcases answered with _ | ⟨answer, v⟩
      · rfl
      · exact views.get?_insert different v

end Views

/-! ## Any answers at all -/

/-- A source that answers its reads as a script says, cut to what was asked for, and fails when the
script has ended. Whatever a source may answer to a run of requests, interruptions included, is some
script. -/
def Source.scripted (label : String) (size : Nat) :
    Source (List (Except ReadFailure ByteArray)) where
  label := label
  size := size
  readAt _ length
    | [] => (.error (.os .inputOutput), [])
    | .ok bytes :: script => (.ok (slice bytes 0 length), script)
    | .error failure :: script => (.error failure, script)
  patience := List.length
  size_readAt := by
    intro _ length script bytes script' answer
    split at answer <;> cases answer
    exact size_slice_le _ _ _
  patience_readAt := by
    intro _ length script script' answer
    split at answer <;> cases answer
    exact Nat.lt_succ_self _

/-- A window that is told backwards is empty, and a copy keeps the window of what it copies. -/
theorem Views.scripted_keeps :
    let source := Source.scripted "a.zip" 26
    let views := (Views.after source
      [("a", .new 3 8), ("b", .clone "a"), ("a", .read 4), ("c", .new 9 2)] []
      [.error .interrupted, .ok ⟨#[1, 2]⟩]).1
    source.size < offsetBound ∧
      (views.get? "a").map (fun v => (v.start, v.stop)) = some (3, 8) ∧
      (views.get? "b").map (fun v => (v.start, v.stop)) = some (3, 8) ∧
      (views.get? "c").map (fun v => (v.start, v.stop)) = some (2, 2) := by
  have small : (Source.scripted "a.zip" 26).size < offsetBound := by decide
  obtain ⟨windows, _⟩ := Views.run_keeps small
    [("a", .new 3 8), ("b", .clone "a"), ("a", .read 4), ("c", .new 9 2)]
    [.error .interrupted, .ok ⟨#[1, 2]⟩]
  exact ⟨small, (windows "a").trans (by decide +kernel), (windows "b").trans (by decide +kernel),
    (windows "c").trans (by decide +kernel)⟩

end ZipArchive
