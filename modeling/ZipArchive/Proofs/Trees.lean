import ZipArchive.Proofs.Containment

/-!
# File trees as a run changes them

In a file tree everything stands in a directory (`FileTree.WellFormed`). Making directories and
writing files keeps it so, and a path that leads somewhere leads there ever after
(`FileTree.Develops`). A path that leads nowhere may do so once directories are made. If it leads to
a file then that has been there all the time, it leads up again out of a directory that was missing
(`FileTree.resolve_of_file`).
-/
namespace ZipArchive.Command

/-- Without a step up, a walk goes down from where it starts. -/
theorem suffix_walk {parts : List String} (down : ".." ∉ parts) (place : List String) :
    place <:+ walk place parts := by
  induction parts generalizing place with
  | nil => exact List.suffix_refl place
  | cons part rest ih =>
    rw [List.mem_cons, not_or] at down
    obtain ⟨other, others⟩ := down
    refine List.IsSuffix.trans ?_ (ih others (stepTo place part))
    unfold stepTo
    rw [if_neg (Ne.symm other)]
    split
    · exact List.suffix_refl place
    · exact List.suffix_cons part place

namespace FileTree

variable {t u v : FileTree} {place found : List String} {path : String} {node : Node}

/-- What is put where there is no directory stands there, and everything else where it did. -/
theorem node?_put_of_fit (fit : t.node? place ≠ some .directory) (node : Node)
    (other : List String) :
    (t.put place node).node? other = if other = place then some node else t.node? other := by
  have below : place ≠ [] := by
    rintro rfl
    exact fit t.root_node?
  exact node?_put below node other

/-! ## Following paths -/

theorem follow_cons (part : String) (rest : List String) (here : t.node? place = some .directory) :
    t.follow place (part :: rest) =
      if part = "" ∨ part = "." then t.follow place rest
      else if part = ".." then t.follow place.tail rest
      else if nameLimit < part.utf8ByteSize then .error OsError.nameTooLong
      else t.follow (part :: place) rest := by
  rw [follow, here]

/-- Only directories are passed through. -/
theorem directory_of_follow {part : String} {rest : List String}
    (followed : t.follow place (part :: rest) = .ok found) : t.node? place = some .directory := by
  unfold follow at followed
  cases node : t.node? place with
  | none =>
    rw [node] at followed
    cases followed
  | some node' =>
    cases node' with
    | file content =>
      rw [node] at followed
      cases followed
    | directory => rfl

/-- One part of a path leads to its step, and the others lead on from there. -/
theorem follow_step {part : String} {rest : List String}
    (followed : t.follow place (part :: rest) = .ok found) :
    t.follow (stepTo place part) rest = .ok found := by
  rw [follow_cons part rest (directory_of_follow followed)] at followed
  unfold stepTo
  by_cases stays : part = "" ∨ part = "."
  · rwa [if_pos stays] at followed ⊢
  · rw [if_neg stays] at followed ⊢
    by_cases up : part = ".."
    · rwa [if_pos up] at followed ⊢
    · rw [if_neg up] at followed ⊢
      split at followed
      · cases followed
      · exact followed

/-- A path leads to the same place in another tree that has all the directories on the way. -/
theorem follow_congr {parts : List String} (followed : t.follow place parts = .ok found)
    (kept : ∀ n < parts.length, t.node? (walk place (parts.take n)) = some .directory →
      u.node? (walk place (parts.take n)) = some .directory) :
    u.follow place parts = .ok found := by
  induction parts generalizing place with
  | nil => exact followed
  | cons part rest ih =>
    have here := directory_of_follow followed
    have there : u.node? place = some .directory := kept 0 (Nat.succ_pos _) here
    have onward : u.follow (stepTo place part) rest = .ok found := by
      apply ih (follow_step followed)
      intro n inside
      exact kept (n + 1) (Nat.succ_lt_succ inside)
    rw [follow_cons part rest here] at followed
    rw [follow_cons part rest there]
    unfold stepTo at onward
    split_ifs at followed onward ⊢
    all_goals assumption

/-- A path in two parts is followed one after the other. -/
theorem follow_append (place front back : List String) :
    t.follow place (front ++ back) =
      match t.follow place front with
      | .error code => .error code
      | .ok middle => t.follow middle back := by
  induction front generalizing place with
  | nil => rfl
  | cons part rest ih =>
    rw [List.cons_append]
    cases node : t.node? place with
    | none => simp only [follow, node]
    | some node' =>
      cases node' with
      | file content => simp only [follow, node]
      | directory =>
        rw [follow_cons part _ node, follow_cons part _ node]
        split_ifs
        · exact ih place
        · exact ih place.tail
        · rfl
        · exact ih (part :: place)

/-- A path leads where its parts lead, if it can be passed to the system at all. -/
theorem resolve_eq_ok_iff :
    t.resolve path = .ok place ↔
      (path.toList.contains '\x00' = false ∧ path.isEmpty = false ∧ path.utf8ByteSize < pathBound) ∧
        t.follow (origin t.workingDirectory path) (pathParts path) = .ok place := by
  have parts : (Text.segments (· = '/') path.toList).map String.ofList = pathParts path := by
    rw [Text.segments_eq_splitOnP]
    rfl
  unfold resolve
  rw [parts]
  change (if _ then _ else if _ then _ else if _ then _ else
    (t.follow (origin t.workingDirectory path) (pathParts path)).mapError IoCause.os) = _ ↔ _
  split_ifs with zero empty long
  · exact ⟨nofun, fun ⟨⟨clean, _⟩, _⟩ => Bool.noConfusion (clean.symm.trans zero)⟩
  · exact ⟨nofun, fun ⟨⟨_, filled, _⟩, _⟩ => Bool.noConfusion (filled.symm.trans empty)⟩
  · exact ⟨nofun, fun ⟨⟨_, _, short⟩, _⟩ => absurd short (Nat.not_lt_of_le long)⟩
  · have passable : path.toList.contains '\x00' = false ∧ path.isEmpty = false ∧
        path.utf8ByteSize < pathBound :=
      ⟨Bool.eq_false_iff.mpr zero, Bool.eq_false_iff.mpr empty, Nat.lt_of_not_le long⟩
    rw [and_iff_right passable]
    cases t.follow (origin t.workingDirectory path) (pathParts path) with
    | error code => exact ⟨nofun, nofun⟩
    | ok found => simp [Except.mapError]

theorem pathParts_ne_nil (path : String) : pathParts path ≠ [] := by
  unfold pathParts
  rw [ne_eq, List.map_eq_nil_iff]
  exact List.splitOnP_ne_nil _ _

/-! ## Well-formed trees -/

/-- Whatever there is stands in a directory. -/
def WellFormed (t : FileTree) : Prop :=
  ∀ name above, t.node? (name :: above) ≠ none → t.node? above = some .directory

/-- It is enough to look at what is listed. -/
theorem wellFormed_of_listed
    (inside : ∀ entry ∈ t.nodes, t.node? entry.1.tail = some .directory) : t.WellFormed := by
  intro name above there
  have listed : t.nodes.lookup (name :: above) ≠ none := by
    unfold node? at there
    rwa [if_neg (List.cons_ne_nil name above)] at there
  obtain ⟨node, found⟩ := Option.ne_none_iff_exists'.mp listed
  obtain ⟨front, behind, nodes, -⟩ := List.lookup_eq_some_iff.mp found
  refine inside (name :: above, node) ?_
  rw [nodes]
  exact List.mem_append_right _ List.mem_cons_self

namespace WellFormed

variable (wellFormed : t.WellFormed)
include wellFormed

/-- Above whatever there is are directories. -/
theorem above (there : t.node? place ≠ none) : t.node? place.tail = some .directory := by
  cases place with
  | nil => exact t.root_node?
  | cons name above => exact wellFormed name above there

theorem above_of_suffix {other : List String} (there : t.node? place ≠ none)
    (suffix : other <:+ place) (apart : other ≠ place) : t.node? other = some .directory := by
  induction place with
  | nil => exact absurd (List.suffix_nil.mp suffix) apart
  | cons name above ih =>
    have directory := wellFormed name above there
    rcases List.suffix_cons_iff.mp suffix with same | within
    · exact absurd same apart
    · by_cases here : other = above
      · rw [here, directory]
      · exact ih (by rw [directory]; exact nofun) within here

/-- A path leads into a directory. -/
theorem above_of_follow {parts : List String} (here : t.node? place.tail = some .directory)
    (followed : t.follow place parts = .ok found) : t.node? found.tail = some .directory := by
  induction parts generalizing place with
  | nil =>
    cases followed
    exact here
  | cons part rest ih =>
    have directory := directory_of_follow followed
    refine ih ?_ (follow_step followed)
    unfold stepTo
    split_ifs
    · exact here
    · exact wellFormed.above (by rw [here]; exact nofun)
    · exact directory

theorem above_of_resolve (resolved : t.resolve path = .ok place) :
    t.node? place.tail = some .directory := by
  obtain ⟨-, followed⟩ := resolve_eq_ok_iff.mp resolved
  obtain ⟨part, rest, parts⟩ := List.exists_cons_of_ne_nil (pathParts_ne_nil path)
  rw [parts] at followed
  have start := directory_of_follow followed
  exact wellFormed.above_of_follow (wellFormed.above (by rw [start]; exact nofun)) followed

/-- Nothing stands in what is not a directory, so that it can be replaced. -/
theorem put (fit : t.node? place ≠ some .directory) (inside : t.node? place.tail = some .directory)
    (node : Node) : (t.put place node).WellFormed := by
  intro name above there
  rw [node?_put_of_fit fit] at there ⊢
  have directory : t.node? above = some .directory := by
    by_cases here : name :: above = place
    · rwa [← here] at inside
    · rw [if_neg here] at there
      exact wellFormed name above there
  have apart : above ≠ place := by
    rintro rfl
    exact fit directory
  rw [if_neg apart, directory]

end WellFormed

/-! ## Trees that develop -/

theorem put_put (t : FileTree) (place : List String) (first second : Node) :
    (t.put place first).put place second = t.put place second := by
  unfold put
  simp [List.filter_filter]

theorem find?_of_resolve (resolved : t.resolve path = .ok place) :
    t.find? path = t.node? place := by
  rw [find?, resolved]

theorem isDirectory_iff (resolved : t.resolve path = .ok place) :
    t.isDirectory path = true ↔ t.node? place = some .directory := by
  rw [isDirectory, find?_of_resolve resolved]
  split
  · rename_i directory
    exact ⟨fun _ => directory, fun _ => rfl⟩
  · rename_i other
    exact ⟨nofun, fun directory => absurd directory other⟩

theorem read_eq_ok_iff {content : ByteArray} :
    t.read path = .ok content ↔
      ∃ place, t.resolve path = .ok place ∧ t.node? place = some (.file content) := by
  constructor
  · intro there
    unfold read at there
    split at there
    · cases there
    · rename_i place resolved
      split at there
      · cases there
      · cases there
      · rename_i found file
        cases there
        exact ⟨place, resolved, file⟩
  · rintro ⟨place, resolved, file⟩
    simp only [read, resolved, file]

theorem write_of_resolve (resolved : t.resolve path = .ok place)
    (fit : t.node? place ≠ some .directory) (content : ByteArray) :
    t.write path content = (.ok (), t.put place (.file content)) := by
  unfold write
  rw [resolved]
  dsimp only
  split
  · rename_i directory
    exact absurd directory fit
  · rfl

/-- A file is written where its path leads, or the tree is left alone. -/
theorem write_cases (t : FileTree) (path : String) (content : ByteArray) :
    (∃ error, t.write path content = (.error error, t)) ∨
      ∃ place, t.resolve path = .ok place ∧ t.node? place ≠ some .directory := by
  unfold write
  cases resolved : t.resolve path with
  | error cause => exact .inl ⟨_, rfl⟩
  | ok place =>
    dsimp only
    split
    · exact .inl ⟨_, rfl⟩
    · rename_i fit
      exact .inr ⟨place, rfl, fit⟩

/-- What was a directory in the one tree is one in the other, which is well-formed if the one is. -/
structure Develops (t u : FileTree) : Prop where
  workingDirectory : u.workingDirectory = t.workingDirectory
  directories : ∀ place, t.node? place = some .directory → u.node? place = some .directory
  wellFormed : t.WellFormed → u.WellFormed

namespace Develops

theorem refl (t : FileTree) : Develops t t := ⟨rfl, fun _ => id, id⟩

theorem trans (first : Develops t u) (second : Develops u v) : Develops t v where
  workingDirectory := second.workingDirectory.trans first.workingDirectory
  directories place := second.directories place ∘ first.directories place
  wellFormed := second.wellFormed ∘ first.wellFormed

theorem follow (develops : Develops t u) {parts : List String}
    (followed : t.follow place parts = .ok found) : u.follow place parts = .ok found :=
  follow_congr followed fun _ _ => develops.directories _

/-- A path that leads somewhere leads there ever after. -/
theorem resolve (develops : Develops t u) (resolved : t.resolve path = .ok place) :
    u.resolve path = .ok place := by
  obtain ⟨passable, followed⟩ := resolve_eq_ok_iff.mp resolved
  refine resolve_eq_ok_iff.mpr ⟨passable, ?_⟩
  rw [develops.workingDirectory]
  exact develops.follow followed

end Develops

/-- Where a path leads to no directory, something can be put. -/
theorem put_develops (resolved : t.resolve path = .ok place)
    (fit : t.node? place ≠ some .directory) (node : Node) : Develops t (t.put place node) where
  workingDirectory := rfl
  directories other directory := by
    have apart : other ≠ place := by
      rintro rfl
      exact fit directory
    rw [node?_put_of_fit fit, if_neg apart, directory]
  wellFormed wellFormed := wellFormed.put fit (wellFormed.above_of_resolve resolved) node

/-- A file is read as it was while another is written. -/
theorem read_put (resolved : t.resolve path = .ok place) (fit : t.node? place ≠ some .directory)
    (node : Node) {other : String} {content : ByteArray} (reads : t.read other = .ok content)
    (apart : t.resolve other ≠ .ok place) : (t.put place node).read other = .ok content := by
  obtain ⟨source, leads, file⟩ := read_eq_ok_iff.mp reads
  have different : source ≠ place := by
    rintro rfl
    exact apart leads
  refine read_eq_ok_iff.mpr ⟨source, (put_develops resolved fit node).resolve leads, ?_⟩
  rw [node?_put_of_fit fit, if_neg different, file]

/-! ## Directories that are made -/

/-- One tree becomes another by making directories. -/
inductive Furnished (t : FileTree) : FileTree → Prop where
  | same : Furnished t t
  | made {u : FileTree} (before : Furnished t u) (path : String) :
      Furnished t (u.makeDirectory path).2

theorem makeDirectory_cases (t : FileTree) (path : String) :
    (t.makeDirectory path).2 = t ∨
      ∃ place, t.resolve path = .ok place ∧ t.node? place = none ∧
        (t.makeDirectory path).2 = t.put place .directory := by
  unfold makeDirectory
  cases resolved : t.resolve path with
  | error cause => exact .inl rfl
  | ok place =>
    cases node : t.node? place with
    | some found => simp only [node, true_or]
    | none => exact .inr ⟨place, rfl, node, by simp only [node]⟩

namespace Furnished

theorem trans (first : Furnished t u) (second : Furnished u v) : Furnished t v := by
  induction second with
  | same => exact first
  | made _ path ih => exact ih.made path

theorem develops (furnished : Furnished t u) : Develops t u := by
  induction furnished with
  | same => exact .refl t
  | @made u _ path ih =>
    rcases u.makeDirectory_cases path with same | ⟨place, resolved, free, put⟩
    · rwa [same]
    · rw [put]
      exact ih.trans (put_develops resolved (by rw [free]; exact nofun) .directory)

/-- The files are the same. -/
theorem file_iff (furnished : Furnished t u) {content : ByteArray} :
    u.node? place = some (.file content) ↔ t.node? place = some (.file content) := by
  induction furnished with
  | same => rfl
  | @made u _ path ih =>
    rcases u.makeDirectory_cases path with same | ⟨made, -, free, put⟩
    · rw [same, ih]
    · rw [put, ← ih, node?_put_of_fit (by rw [free]; exact nofun)]
      by_cases here : place = made
      · rw [if_pos here, here, free]
        exact ⟨nofun, nofun⟩
      · rw [if_neg here]

theorem read (furnished : Furnished t u) {content : ByteArray} (reads : t.read path = .ok content) :
    u.read path = .ok content := by
  obtain ⟨source, leads, file⟩ := read_eq_ok_iff.mp reads
  exact read_eq_ok_iff.mpr ⟨source, furnished.develops.resolve leads, furnished.file_iff.mpr file⟩

end Furnished

/-! ## Paths that lead up -/

/-- As far as a path leads up, it leads somewhere. -/
def StepsUp (t : FileTree) (path : String) : Prop :=
  ∃ front back middle, pathParts path = front ++ back ∧ ".." ∉ back ∧
    t.follow (origin t.workingDirectory path) front = .ok middle

theorem Develops.stepsUp (develops : Develops t u) (stepsUp : t.StepsUp path) : u.StepsUp path := by
  obtain ⟨front, back, middle, parts, down, led⟩ := stepsUp
  refine ⟨front, back, middle, parts, down, ?_⟩
  rw [develops.workingDirectory]
  exact develops.follow led

/-- A member's path leads up no further than the one of the target directory. -/
theorem StepsUp.destination {d : Destination} (stepsUp : t.StepsUp (d.directory.getD ""))
    (some : d.parts ≠ []) (plain : ∀ c ∈ d.parts, IsComponent c) : t.StepsUp d.path := by
  obtain ⟨front, back, middle, split, down, led⟩ := stepsUp
  obtain ⟨stem, tail, -, parts, whole, start⟩ :=
    parts_below t.workingDirectory (d.directory.getD "") some plain
  have stem_eq : stem = front.take stem.length ++ back.take (stem.length - front.length) := by
    rw [← List.take_append, ← split, parts, List.take_left]
  rw [← List.take_append_drop stem.length front, follow_append] at led
  cases up : t.follow (origin t.workingDirectory (d.directory.getD ""))
    (front.take stem.length) with
  | error code =>
    rw [up] at led
    cases led
  | ok middle' =>
    refine ⟨front.take stem.length, back.take (stem.length - front.length) ++ d.parts, middle',
      ?_, ?_, ?_⟩
    · rw [d.path_eq, whole, ← List.append_assoc, ← stem_eq]
    · rw [List.mem_append, not_or]
      exact ⟨fun up => down (List.mem_of_mem_take up), fun up => (plain _ up).ne_dots rfl⟩
    · rw [d.path_eq, start, up]

/-- To a file that has been there all the time, a path leads once directories are made only if it
led there before. -/
theorem resolve_of_file (wellFormed : t.WellFormed) (stepsUp : t.StepsUp path)
    (furnished : Furnished t u) (resolved : u.resolve path = .ok place) {content : ByteArray}
    (file : t.node? place = some (.file content)) : t.resolve path = .ok place := by
  obtain ⟨passable, followed⟩ := resolve_eq_ok_iff.mp resolved
  obtain ⟨front, back, middle, parts, down, led⟩ := stepsUp
  refine resolve_eq_ok_iff.mpr ⟨passable, ?_⟩
  rw [furnished.develops.workingDirectory, parts, follow_append,
    furnished.develops.follow led] at followed
  rw [parts, follow_append, led]
  -- What the rest of the path passes through is above the file.
  refine follow_congr followed fun n _ directory => ?_
  have lead : place = walk (walk middle (back.take n)) (back.drop n) := by
    rw [← walk_append, List.take_append_drop]
    exact follow_ok followed
  have suffix : walk middle (back.take n) <:+ place := by
    rw [lead]
    exact suffix_walk (fun up => down (List.mem_of_mem_drop up)) _
  have apart : walk middle (back.take n) ≠ place := by
    intro same
    rw [same, furnished.file_iff.mpr file] at directory
    cases directory
  exact wellFormed.above_of_suffix (by rw [file]; exact nofun) suffix apart

end FileTree

/-! ## Actions that make directories -/

/-- Whatever the tree is that an action works on, it only makes directories. -/
def Furnishes {α : Type} (x : StateM Console α) : Prop :=
  ∀ c, FileTree.Furnished c.tree (x.run c).2.tree

namespace Furnishes

variable {α β : Type} {x : StateM Console α}

theorem pure (value : α) : Furnishes (Pure.pure value) := fun _ => .same

theorem bind {f : α → StateM Console β} (hx : Furnishes x) (hf : ∀ value, Furnishes (f value)) :
    Furnishes (x >>= f) := fun c => (hx c).trans (hf _ _)

theorem ite {p : Prop} [Decidable p] {y : StateM Console α} (hx : Furnishes x) (hy : Furnishes y) :
    Furnishes (if p then x else y) := by
  split
  · exact hx
  · exact hy

theorem makeDirectory (path : String) : Furnishes (Console.host.makeDirectory path) :=
  fun _ => .made .same path

theorem unlessDirectory (path : String) (error : IoError) :
    Furnishes (Console.host.unlessDirectory path error) := fun _ => .same

theorem makeDirectories (paths : List String) :
    Furnishes (Console.host.makeDirectories paths) := by
  induction paths with
  | nil => exact pure _
  | cons path above ih =>
    unfold Host.makeDirectories
    refine (makeDirectory _).bind fun first => ?_
    cases first with
    | ok _ => exact pure _
    | error error =>
      refine .ite (ih.bind fun second => ?_) (unlessDirectory _ _)
      cases second with
      | error error => exact pure _
      | ok _ =>
        refine (makeDirectory _).bind fun third => ?_
        cases third with
        | ok _ => exact pure _
        | error error => exact unlessDirectory _ _

end Furnishes
end ZipArchive.Command
