import Mathlib.Data.List.TakeDrop
import ZipArchive.Command.FileTree

/-!
# Places that paths lead to

A path is followed part by part, and leads to a place if everything on the way is there. Which place
that is depends on the path and on the working directory alone (`Command.placeOf`). The path of a
member below the target directory leads to the components of its name, one below the other, from the
place of the target directory (`Command.Destination.placeOf_path`), and the directories that are made
for it are on the way there (`Command.Destination.placeOf_parent`).
-/
namespace ZipArchive

/-! ## Segments -/

namespace Text

variable {α : Type}

theorem segments_eq_splitOnP (isSeparator : α → Bool) (items : List α) :
    segments isSeparator items = items.splitOnP isSeparator := by
  induction items with
  | nil => rfl
  | cons item items ih =>
    have step : segments isSeparator (item :: items) =
        joinSegments isSeparator item (segments isSeparator items) := rfl
    rw [step, ih, List.splitOnP_cons_eq_if_modifyHead]
    unfold joinSegments
    cases split : items.splitOnP isSeparator with
    | nil => exact absurd split (List.splitOnP_ne_nil isSeparator items)
    | cons first rest => rfl

/-- There is no separator in a segment. -/
theorem not_separator_of_mem {isSeparator : α → Bool} {items segment : List α}
    (among : segment ∈ items.splitOnP isSeparator) : ∀ item ∈ segment, isSeparator item = false := by
  induction items generalizing segment with
  | nil =>
    rw [List.splitOnP_nil] at among
    cases List.mem_singleton.mp among
    exact fun _ none => absurd none List.not_mem_nil
  | cons first items ih =>
    rw [List.splitOnP_cons_eq_if_modifyHead] at among
    by_cases here : isSeparator first = true
    · rw [if_pos here] at among
      rcases List.mem_cons.mp among with rfl | later
      · exact fun _ none => absurd none List.not_mem_nil
      · exact ih later
    · rw [if_neg here] at among
      cases split : items.splitOnP isSeparator with
      | nil => exact absurd split (List.splitOnP_ne_nil isSeparator items)
      | cons head rest =>
        rw [split] at among ih
        rcases List.mem_cons.mp among with rfl | later
        · exact List.forall_mem_cons.mpr ⟨Bool.eq_false_iff.mpr here, ih List.mem_cons_self⟩
        · exact ih (List.mem_cons_of_mem head later)

end Text

namespace Command

/-- The parts of a path, between its slashes. -/
def pathParts (path : String) : List String := (path.toList.splitOn '/').map String.ofList

/-- Where a part of a path leads from a place. -/
def stepTo (place : List String) (part : String) : List String :=
  if part = "" ∨ part = "." then place
  else if part = ".." then place.tail
  else part :: place

/-- Where the parts of a path lead from a place, one after the other. -/
def walk (place parts : List String) : List String := parts.foldl stepTo place

/-- Where a path starts from. -/
def origin (workingDirectory : List String) (path : String) : List String :=
  if path.toList.head? = some '/' then [] else workingDirectory

/-- The place that a path leads to, if everything on the way is there. -/
def placeOf (workingDirectory : List String) (path : String) : List String :=
  walk (origin workingDirectory path) (pathParts path)

theorem walk_append (place first second : List String) :
    walk place (first ++ second) = walk (walk place first) second := List.foldl_append

namespace FileTree

variable {t : FileTree}

theorem follow_ok {place parts found : List String} (followed : t.follow place parts = .ok found) :
    found = walk place parts := by
  induction parts generalizing place with
  | nil =>
    cases followed
    rfl
  | cons part rest ih =>
    unfold follow at followed
    rw [walk, List.foldl_cons, stepTo]
    cases node : t.node? place with
    | none =>
      rw [node] at followed
      cases followed
    | some node' =>
      cases node' with
      | file content =>
        rw [node] at followed
        cases followed
      | directory =>
        rw [node] at followed
        by_cases stays : part = "" ∨ part = "."
        · simp only [if_pos stays] at followed ⊢
          exact ih followed
        · by_cases up : part = ".."
          · simp only [if_neg stays, if_pos up] at followed ⊢
            exact ih followed
          · by_cases long : nameLimit < part.utf8ByteSize
            · simp only [if_neg stays, if_neg up, if_pos long] at followed
              cases followed
            · simp only [if_neg stays, if_neg up, if_neg long] at followed ⊢
              exact ih followed

/-- If a path leads anywhere, it leads to its place. -/
theorem resolve_ok {path : String} {found : List String} (resolved : t.resolve path = .ok found) :
    found = placeOf t.workingDirectory path := by
  have parts : (Text.segments (· = '/') path.toList).map String.ofList = pathParts path := by
    rw [Text.segments_eq_splitOnP]
    rfl
  unfold resolve at resolved
  rw [parts] at resolved
  split at resolved
  · cases resolved
  · split at resolved
    · cases resolved
    · split at resolved
      · cases resolved
      · cases followed : t.follow (origin t.workingDirectory path) (pathParts path) with
        | error code =>
          rw [origin] at followed
          simp only [followed] at resolved
          cases resolved
        | ok place =>
          have same := follow_ok followed
          rw [origin] at followed
          simp only [followed] at resolved
          cases resolved
          exact same

end FileTree

/-! ## Paths that are put together -/

/-- A name that leads one step down: it is neither empty nor a dot or two, and there is no slash in
it, of either kind. -/
structure IsComponent (name : String) : Prop where
  ne_empty : name ≠ ""
  ne_dot : name ≠ "."
  ne_dots : name ≠ ".."
  slash : '/' ∉ name.toList
  backslash : '\\' ∉ name.toList

theorem walk_components {components : List String} (plain : ∀ c ∈ components, IsComponent c)
    (place : List String) : walk place components = components.reverse ++ place := by
  induction components generalizing place with
  | nil => rfl
  | cons c rest ih =>
    obtain ⟨component, others⟩ := List.forall_mem_cons.mp plain
    have down : stepTo place c = c :: place := by
      unfold stepTo
      rw [if_neg (not_or.mpr ⟨component.ne_empty, component.ne_dot⟩), if_neg component.ne_dots]
    rw [walk, List.foldl_cons, down]
    change walk (c :: place) rest = _
    rw [ih others, List.reverse_cons, List.append_assoc]
    rfl

theorem pathParts_pathOf {parts : List String} (some : parts ≠ [])
    (plain : ∀ part ∈ parts, '/' ∉ part.toList) : pathParts (pathOf parts) = parts := by
  have slash : "/".toList = ['/'] := rfl
  have filled : parts.map String.toList ≠ [] := by rwa [ne_eq, List.map_eq_nil_iff]
  have listed : ∀ characters ∈ parts.map String.toList, '/' ∉ characters := by
    intro characters among
    obtain ⟨part, there, rfl⟩ := List.mem_map.mp among
    exact plain part there
  have whole := List.splitOn_intercalate '/' listed filled
  rw [pathParts, pathOf, String.toList_intercalate, slash, whole, List.map_map]
  exact List.map_id'' (fun part => String.ofList_toList) parts

theorem pathParts_append_slash (first second : String) :
    pathParts (first ++ "/" ++ second) = pathParts first ++ pathParts second := by
  have slash : "/".toList = ['/'] := rfl
  rw [pathParts, String.toList_append, String.toList_append, slash, List.append_assoc,
    List.singleton_append, List.splitOn, List.splitOnP_append_cons (p := (· == '/')) _ _ rfl,
    List.map_append]
  rfl

/-- What is put behind a path does not change where the path starts from. -/
theorem origin_append {first : String} (some : first ≠ "") (wd : List String) (second : String) :
    origin wd (first ++ second) = origin wd first := by
  unfold origin
  rw [String.toList_append, List.head?_append]
  cases head : first.toList.head? with
  | none =>
    rw [List.head?_eq_none_iff, String.toList_eq_nil_iff] at head
    exact absurd head some
  | some c => rfl

/-- The first part of a path alone tells where the path starts from, if it is not empty. -/
theorem origin_pathOf_cons {first : String} (some : first ≠ "") (wd rest : List String) :
    origin wd (pathOf (first :: rest)) = origin wd first := by
  cases rest with
  | nil => rfl
  | cons second rest =>
    rw [pathOf, String.intercalate_cons_cons, String.append_assoc, origin_append some]

/-- A path does not start with a slash if its first part is one that has no slash in it. -/
theorem origin_pathOf {first : String} {rest : List String} (some : first ≠ "")
    (plain : '/' ∉ first.toList) (wd : List String) :
    origin wd (pathOf (first :: rest)) = wd := by
  rw [origin_pathOf_cons some]
  refine if_neg fun head => plain ?_
  exact List.mem_of_mem_head? head

/-- A path below a directory has the parts of the directory's path in front, up to an empty one at the
end. -/
theorem parts_below (wd : List String) (directory : String) {components : List String}
    (some : components ≠ []) (plain : ∀ c ∈ components, IsComponent c) :
    ∃ stem tail, (tail = [] ∨ tail = [""]) ∧ pathParts directory = stem ++ tail ∧
      pathParts (below directory (pathOf components)) = stem ++ components ∧
      origin wd (below directory (pathOf components)) = origin wd directory := by
  have parts : pathParts (pathOf components) = components :=
    pathParts_pathOf some fun c among => (plain c among).slash
  by_cases none : directory = ""
  · obtain ⟨c, rest, rfl⟩ := List.exists_cons_of_ne_nil some
    obtain ⟨component, -⟩ := List.forall_mem_cons.mp plain
    have relative : below directory (pathOf (c :: rest)) = pathOf (c :: rest) := by
      rw [none, below, if_pos (by decide), String.empty_append]
    refine ⟨[], [""], .inr rfl, ?_, ?_, ?_⟩
    · rw [none]
      rfl
    · rw [relative, parts, List.nil_append]
    · rw [relative, origin_pathOf component.ne_empty component.slash, none]
      rfl
  · have filled : directory.isEmpty = false := by
      rw [Bool.eq_false_iff, ne_eq, String.isEmpty_iff]
      exact none
    by_cases slashed : directory.toList.getLast? = Option.some '/'
    · have joined : below directory (pathOf components) = directory ++ pathOf components := by
        rw [below, if_pos (by rw [filled, slashed]; rfl)]
      obtain ⟨front, cut⟩ := List.getLast?_eq_some_iff.mp slashed
      have whole : directory = String.ofList front ++ "/" := by
        rw [← String.toList_inj, String.toList_append, String.toList_ofList, cut]
        rfl
      refine ⟨pathParts (String.ofList front), [""], .inr rfl, ?_, ?_, ?_⟩
      · have slash := pathParts_append_slash (String.ofList front) ""
        rw [String.append_empty] at slash
        rw [whole, slash]
        rfl
      · rw [joined, whole, pathParts_append_slash, parts]
      · rw [joined, origin_append none]
    · have joined : below directory (pathOf components) =
          directory ++ "/" ++ pathOf components := by
        rw [below, if_neg (by simp [filled, slashed])]
      refine ⟨pathParts directory, [], .inl rfl, (List.append_nil _).symm, ?_, ?_⟩
      · rw [joined, pathParts_append_slash, parts]
      · rw [joined, String.append_assoc, origin_append none]

/-- A path below a directory leads from where the directory is. -/
theorem placeOf_below (wd : List String) (directory : String) {components : List String}
    (some : components ≠ []) (plain : ∀ c ∈ components, IsComponent c) :
    placeOf wd (below directory (pathOf components)) =
      components.reverse ++ placeOf wd directory := by
  obtain ⟨stem, tail, empty, parts, whole, start⟩ := parts_below wd directory some plain
  have stays : ∀ place, walk place tail = place := by
    intro place
    rcases empty with rfl | rfl <;> rfl
  rw [placeOf, placeOf, start, whole, parts, walk_append, walk_append, stays,
    walk_components plain]

theorem Destination.path_eq (d : Destination) :
    d.path = below (d.directory.getD "") (pathOf d.parts) := by
  unfold Destination.path
  cases d.directory with
  | some directory => rfl
  | none => exact (String.empty_append).symm

/-- The path of a member leads where its components lead from the target directory. -/
theorem Destination.placeOf_path (wd : List String) (d : Destination) (some : d.parts ≠ [])
    (plain : ∀ c ∈ d.parts, IsComponent c) :
    placeOf wd d.path = d.parts.reverse ++ placeOf wd (d.directory.getD "") := by
  rw [d.path_eq, placeOf_below wd _ some plain]

/-! ## Directories on the way -/

theorem slash_not_mem_pathParts {path part : String} (among : part ∈ pathParts path) :
    '/' ∉ part.toList := by
  obtain ⟨characters, split, rfl⟩ := List.mem_map.mp among
  rw [String.toList_ofList]
  exact fun slash => absurd (Text.not_separator_of_mem split '/' slash) (by decide)

theorem pathOf_pathParts (path : String) : pathOf (pathParts path) = path := by
  have slash : "/".toList = ['/'] := rfl
  have same : (path.toList.splitOn '/').map (String.toList ∘ String.ofList) =
      path.toList.splitOn '/' := List.map_id'' (fun _ => String.toList_ofList) _
  rw [← String.toList_inj, pathOf, String.toList_intercalate, slash, pathParts, List.map_map, same]
  exact List.intercalate_splitOn '/'

/-- A path with an empty part in front of others starts from the root. -/
theorem origin_pathOf_empty (wd : List String) (second : String) (rest : List String) :
    origin wd (pathOf ("" :: second :: rest)) = [] := by
  rw [pathOf, String.intercalate_cons_cons, String.empty_append, origin_append (by decide)]
  rfl

/-- The first parts of a path, up to one that is a name, make a path that starts where it does. -/
theorem origin_front (wd : List String) {parts : List String} {n : Nat}
    (named : endsInName (parts.take n) = true) :
    origin wd (pathOf (parts.take n)) = origin wd (pathOf parts) := by
  cases parts with
  | nil => rw [List.take_nil]
  | cons first rest =>
    cases n with
    | zero => cases named
    | succ n =>
      rw [List.take_succ_cons] at named ⊢
      by_cases none : first = ""
      · subst none
        cases front : rest.take n with
        | nil =>
          rw [front] at named
          exact absurd named (by decide)
        | cons second others =>
          obtain ⟨behind, rest_eq⟩ : ∃ behind, rest = second :: behind := by
            cases rest with
            | nil => simp at front
            | cons head tail =>
              cases n with
              | zero => cases front
              | succ n =>
                cases front
                exact ⟨tail, rfl⟩
          rw [rest_eq, origin_pathOf_empty, origin_pathOf_empty]
      · rw [origin_pathOf_cons none, origin_pathOf_cons none]

/-- The path that the first parts of a path make leads where these parts lead. -/
theorem placeOf_front (wd : List String) (path : String) {n : Nat}
    (named : endsInName ((pathParts path).take n) = true) :
    placeOf wd (pathOf ((pathParts path).take n)) =
      walk (origin wd path) ((pathParts path).take n) := by
  have some : (pathParts path).take n ≠ [] := by
    intro none
    rw [none] at named
    cases named
  have parts : pathParts (pathOf ((pathParts path).take n)) = (pathParts path).take n :=
    pathParts_pathOf some fun part among => slash_not_mem_pathParts (List.mem_of_mem_take among)
  have start := origin_front wd named
  rw [pathOf_pathParts] at start
  rw [placeOf, parts, start]

theorem mem_ancestors {path above : String} :
    above ∈ ancestors path ↔ ∃ n < (pathParts path).length,
      endsInName ((pathParts path).take n) = true ∧ above = pathOf ((pathParts path).take n) := by
  have parts : (Text.segments (· = '/') path.toList).map String.ofList = pathParts path := by
    rw [Text.segments_eq_splitOnP]
    rfl
  unfold ancestors
  rw [parts]
  simp only [List.mem_reverse, List.mem_map, List.mem_filter, List.mem_range]
  constructor
  · rintro ⟨front, ⟨⟨n, below, rfl⟩, named⟩, rfl⟩
    exact ⟨n, below, named, rfl⟩
  · rintro ⟨n, below, named, rfl⟩
    exact ⟨_, ⟨⟨n, below, rfl⟩, named⟩, rfl⟩

example : ancestors "./a//b/./f" = ["./a//b", "./a", "."] := by decide

/-- The directories that are made for a member are those that the first parts of the target
directory's path lead to, and those below it on the way to the member. -/
theorem Destination.placeOf_parent (wd : List String) (d : Destination) (some : d.parts ≠ [])
    (plain : ∀ c ∈ d.parts, IsComponent c) {path : String} (above : path ∈ d.parents) :
    (∃ n, placeOf wd path =
      walk (origin wd (d.directory.getD "")) ((pathParts (d.directory.getD "")).take n)) ∨
    ∃ n < d.parts.length, placeOf wd path =
      (d.parts.take n).reverse ++ placeOf wd (d.directory.getD "") := by
  obtain ⟨n, below, named, rfl⟩ := mem_ancestors.mp above
  obtain ⟨stem, tail, empty, parts, whole, start⟩ :=
    parts_below wd (d.directory.getD "") some plain
  rw [placeOf_front wd d.path named]
  rw [d.path_eq, whole, List.length_append] at below
  rw [d.path_eq, whole, start]
  by_cases inside : n ≤ stem.length
  · left
    refine ⟨n, ?_⟩
    rw [parts, List.take_append_of_le_length inside, List.take_append_of_le_length inside]
  · right
    have stays : ∀ place, walk place tail = place := by
      intro place
      rcases empty with rfl | rfl <;> rfl
    refine ⟨n - stem.length, by omega, ?_⟩
    rw [List.take_append, List.take_of_length_le (Nat.le_of_not_le inside), walk_append,
      walk_components fun c among => plain c (List.mem_of_mem_take among), placeOf, parts,
      walk_append, stays]

/-! ## Names of members -/

/-- Parts that lead anywhere. -/
def isReal (part : String) : Bool := part ≠ "" && part ≠ "."

theorem ofList_eq_iff {characters : List Char} {text : String} :
    String.ofList characters = text ↔ characters = text.toList := by
  rw [← String.toList_inj, String.toList_ofList]

/-- Real parts may be told apart before or after their characters are put together. -/
theorem map_ofList_filter (segments : List (List Char)) :
    (segments.filter fun part => part ≠ [] && part ≠ ['.']).map String.ofList =
      (segments.map String.ofList).filter isReal := by
  have same : isReal ∘ String.ofList = fun part => part ≠ [] && part ≠ ['.'] := by
    funext part
    have empty : String.ofList part = "" ↔ part = [] := ofList_eq_iff
    have dot : String.ofList part = "." ↔ part = ['.'] := ofList_eq_iff
    simp only [isReal, Function.comp, ne_eq, empty, dot]
  rw [List.filter_map, same]

/-- The parts of a member's name, between slashes of either kind. -/
def nameParts (name : String) : List String :=
  (name.toList.splitOnP fun c => c = '/' || c = '\\').map String.ofList

/-- The parts of a member's name that lead down, or only the last of them. -/
def components (junkPaths : Bool) (name : String) : List String :=
  let all := (nameParts name).filter isReal
  if junkPaths then all.getLast?.toList else all

/-- A name is refused if it leads up, or nowhere. -/
def IsRefused (name : String) : Prop :=
  ".." ∈ nameParts name ∨ ∀ part ∈ nameParts name, part = "" ∨ part = "."

instance (name : String) : Decidable (IsRefused name) := inferInstanceAs (Decidable (_ ∨ _))

theorem isReal_iff {part : String} : isReal part = true ↔ ¬ (part = "" ∨ part = ".") := by
  simp [isReal]

theorem filter_isReal_eq_nil {parts : List String} :
    parts.filter isReal = [] ↔ ∀ part ∈ parts, part = "" ∨ part = "." := by
  simp only [List.filter_eq_nil_iff, isReal_iff, Decidable.not_not]

/-- Some part of a name that is not refused leads down. -/
theorem filter_isReal_ne_nil {name : String} (fit : ¬ IsRefused name) :
    (nameParts name).filter isReal ≠ [] :=
  fun empty => fit (.inr (filter_isReal_eq_nil.mp empty))

theorem components_junk {name : String} (fit : ¬ IsRefused name) :
    components true name = [((nameParts name).filter isReal).getLast (filter_isReal_ne_nil fit)] := by
  simp only [components, if_true]
  rw [List.getLast?_eq_some_getLast (filter_isReal_ne_nil fit)]
  rfl

/-- Of a name that is not refused, the parts that lead down are the member's path. -/
theorem outputParts_eq (junkPaths : Bool) (name : String) :
    outputParts junkPaths name =
      if IsRefused name then none else some (components junkPaths name) := by
  have split : Text.segments (fun c => c = '/' || c = '\\') name.toList =
      name.toList.splitOnP fun c => c = '/' || c = '\\' := Text.segments_eq_splitOnP _ _
  unfold outputParts
  rw [split]
  dsimp only
  have all := map_ofList_filter (name.toList.splitOnP fun c => c = '/' || c = '\\')
  change _ = (nameParts name).filter isReal at all
  have dots : (name.toList.splitOnP fun c => c = '/' || c = '\\').contains ['.', '.'] = true ↔
      ".." ∈ nameParts name := by
    rw [List.contains_iff_mem, nameParts, List.mem_map]
    constructor
    · intro among
      exact ⟨_, among, rfl⟩
    · rintro ⟨characters, among, up⟩
      rw [ofList_eq_iff.mp up] at among
      exact among
  have none : ((name.toList.splitOnP fun c => c = '/' || c = '\\').filter
      fun part => part ≠ [] && part ≠ ['.']).isEmpty = true ↔
        ∀ part ∈ nameParts name, part = "" ∨ part = "." := by
    rw [List.isEmpty_iff, ← filter_isReal_eq_nil, ← all, List.map_eq_nil_iff]
  rw [all]
  by_cases refused : IsRefused name
  · rw [if_pos refused, if_pos]
    rw [Bool.or_eq_true, dots, none]
    exact refused
  · rw [if_neg refused, if_neg]
    · cases junkPaths with
      | false => rfl
      | true =>
        simp only [components_junk refused, if_true]
        rw [List.drop_length_sub_one (filter_isReal_ne_nil refused)]
    · rw [Bool.or_eq_true, dots, none]
      exact refused

/-- Of a name that is not refused, some parts are left, and each leads one step down. -/
theorem components_spec {junkPaths : Bool} {name : String} (fit : ¬ IsRefused name) :
    components junkPaths name ≠ [] ∧ ∀ c ∈ components junkPaths name, IsComponent c := by
  have filled := filter_isReal_ne_nil fit
  have plain : ∀ c ∈ (nameParts name).filter isReal, IsComponent c := by
    intro c among
    obtain ⟨whole, real⟩ := List.mem_filter.mp among
    obtain ⟨none, dot⟩ := not_or.mp (isReal_iff.mp real)
    obtain ⟨characters, split, same⟩ := List.mem_map.mp whole
    have separators : ∀ b ∈ c.toList, b ≠ '/' ∧ b ≠ '\\' := by
      intro b inside
      rw [← same, String.toList_ofList] at inside
      simpa using Text.not_separator_of_mem split b inside
    exact ⟨none, dot, fun up => fit (.inl (up ▸ whole)), fun slash => (separators _ slash).1 rfl,
      fun slash => (separators _ slash).2 rfl⟩
  cases junkPaths with
  | false => exact ⟨filled, plain⟩
  | true =>
    rw [components_junk fit]
    exact ⟨List.cons_ne_nil _ _, List.forall_mem_singleton.mpr (plain _ (List.getLast_mem filled))⟩

example : components false "/a/./b.txt" = ["a", "b.txt"] := by decide

example : IsRefused "a\\..\\..\\x" := by decide

end Command
end ZipArchive
