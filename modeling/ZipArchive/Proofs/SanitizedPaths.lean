import Mathlib.Data.List.Basic
import Mathlib.Data.List.Induction
import Mathlib.Data.List.Infix
import ZipArchive.Path
import ZipArchive.Proofs.Places

/-!
# Canonical paths

A sanitized path is made of plain segments, each behind a slash, with one more slash at the end
where the raw path has a separator there or no segment is left (`Path.sanitize_eq`). The canonical
paths are all made so (`Path.IsCanonical.exists_laid`), and taking one apart gives back the segments
that it is made of (`Path.resolved_laid`). So sanitizing leaves canonical paths alone, and what is put
behind a path may be put behind the sanitized one as well (`Path.sanitize_canonical`).
-/
namespace ZipArchive

namespace Text

variable {α : Type}

theorem splitOnP_congr {p q : α → Bool} {items : List α} (same : ∀ item ∈ items, p item = q item) :
    items.splitOnP p = items.splitOnP q := by
  induction items with
  | nil => rfl
  | cons item items ih =>
    obtain ⟨here, others⟩ := List.forall_mem_cons.mp same
    rw [List.splitOnP_cons_eq_if_modifyHead, List.splitOnP_cons_eq_if_modifyHead, here, ih others]

end Text

namespace Path

variable {raw path segment : List UInt8} {segments : List (List UInt8)} {isDirectory : Bool}

/-! ## Canonical paths -/

/-- The path starts at the root, has no backslash and no two slashes side by side, and no segment
that means the current or the parent directory. -/
structure IsCanonical (path : List UInt8) : Prop where
  root : path.head? = some slash
  forward : backslash ∉ path
  single : ¬ [slash, slash] <:+: path
  no_dot : [dot] ∉ path.splitOn slash
  no_dots : [dot, dot] ∉ path.splitOn slash

/-- A segment that is a name: it is neither empty nor a dot or two, and there is no separator in
it. -/
structure IsPlain (segment : List UInt8) : Prop where
  ne_nil : segment ≠ []
  ne_dot : segment ≠ [dot]
  ne_dots : segment ≠ [dot, dot]
  separator : ∀ b ∈ segment, isSeparator b = false

/-- The path with the given segments. The root and directories have a slash at the end. -/
def laid (segments : List (List UInt8)) (isDirectory : Bool) : List UInt8 :=
  rooted segments ++ if isDirectory || segments.isEmpty then [slash] else []

theorem rooted_append (first second : List (List UInt8)) :
    rooted (first ++ second) = rooted first ++ rooted second := List.flatMap_append

theorem rooted_singleton (segment : List UInt8) : rooted [segment] = slash :: segment :=
  List.flatMap_singleton ..

theorem rooted_eq_nil : rooted segments = [] ↔ segments = [] := by
  cases segments with
  | nil => exact ⟨fun _ => rfl, fun _ => rfl⟩
  | cons first rest => exact ⟨nofun, nofun⟩

theorem sanitize_eq (raw : List UInt8) :
    sanitize raw = laid (resolved raw) (endsInSeparator raw) := by
  have empty : (rooted (resolved raw)).isEmpty = (resolved raw).isEmpty := by
    rw [Bool.eq_iff_iff, List.isEmpty_iff, List.isEmpty_iff, rooted_eq_nil]
  unfold sanitize laid
  dsimp only
  rw [empty, Bool.or_comm]
  split
  · rfl
  · exact (List.append_nil _).symm

/-! ## Segments that are kept -/

/-- The segments that are kept of those up to some place, once the one at this place is met: two
dots take the last one away. -/
def descend (kept : List (List UInt8)) (segment : List UInt8) : List (List UInt8) :=
  if segment = [dot, dot] then kept.dropLast else kept ++ [segment]

/-- A segment that says anything. -/
def isTold (segment : List UInt8) : Bool := segment ≠ [] && segment ≠ [dot]

theorem resolved_eq_foldl_keep (raw : List UInt8) :
    resolved raw = ((raw.splitOnP isSeparator).foldl keep []).reverse := by
  rw [resolved, Text.segments_eq_splitOnP]

theorem reverse_keep (kept : List (List UInt8)) (segment : List UInt8) :
    (keep kept segment).reverse =
      if isTold segment then descend kept.reverse segment else kept.reverse := by
  unfold keep isTold descend
  by_cases empty : segment = []
  · simp [empty]
  by_cases single : segment = [dot]
  · simp [single]
  by_cases double : segment = [dot, dot]
  · simp [double]
  · simp [empty, single, double]

/-- What is kept is found from left to right. -/
theorem resolved_eq_foldl_descend (raw : List UInt8) :
    resolved raw = ((raw.splitOnP isSeparator).filter isTold).foldl descend [] := by
  rw [resolved_eq_foldl_keep, List.foldl_filter]
  have along : ∀ (split kept : List (List UInt8)), (split.foldl keep kept).reverse =
      split.foldl (fun kept segment => if isTold segment then descend kept segment else kept)
        kept.reverse := by
    intro split
    induction split with
    | nil => exact fun _ => rfl
    | cons segment split ih =>
      intro kept
      rw [List.foldl_cons, ih, reverse_keep, List.foldl_cons]
  exact along _ []

/-- Nothing is kept that is no name. -/
theorem mem_foldl_keep {split kept : List (List UInt8)} (among : segment ∈ split.foldl keep kept) :
    segment ∈ kept ∨
      segment ∈ split ∧ segment ≠ [] ∧ segment ≠ [dot] ∧ segment ≠ [dot, dot] := by
  induction split generalizing kept with
  | nil => exact .inl among
  | cons first split ih =>
    rcases ih among with here | ⟨later, named⟩
    · unfold keep at here
      split at here
      · exact .inl here
      · rename_i told
        split at here
        · exact .inl (List.mem_of_mem_tail here)
        · rename_i up
          rcases List.mem_cons.mp here with rfl | before
          · obtain ⟨empty, single⟩ := not_or.mp told
            exact .inr ⟨List.mem_cons_self, empty, single, up⟩
          · exact .inl before
    · exact .inr ⟨List.mem_cons_of_mem _ later, named⟩

theorem plain_of_mem_resolved (among : segment ∈ resolved raw) : IsPlain segment := by
  rw [resolved_eq_foldl_keep, List.mem_reverse] at among
  obtain none | ⟨inside, ne_nil, ne_dot, ne_dots⟩ := mem_foldl_keep among
  · exact absurd none List.not_mem_nil
  · exact ⟨ne_nil, ne_dot, ne_dots, Text.not_separator_of_mem inside⟩

theorem foldl_keep_plain (plain : ∀ s ∈ segments, IsPlain s) (kept : List (List UInt8)) :
    segments.foldl keep kept = segments.reverse ++ kept := by
  induction segments generalizing kept with
  | nil => rfl
  | cons segment segments ih =>
    obtain ⟨here, others⟩ := List.forall_mem_cons.mp plain
    have kept_eq : keep kept segment = segment :: kept := by
      rw [keep, if_neg (not_or.mpr ⟨here.ne_nil, here.ne_dot⟩), if_neg here.ne_dots]
    rw [List.foldl_cons, kept_eq, ih others, List.reverse_cons, List.append_assoc]
    rfl

/-- What is behind a separator is resolved from what is kept of the path in front of it. -/
theorem resolved_append (first second : List UInt8) :
    resolved (first ++ slash :: second) =
      ((second.splitOnP isSeparator).foldl keep (resolved first).reverse).reverse := by
  rw [resolved_eq_foldl_keep, resolved_eq_foldl_keep,
    List.splitOnP_append_cons (p := isSeparator) _ _ rfl, List.foldl_append, List.reverse_reverse]

/-! ## Paths that are laid from plain segments -/

section
variable (plain : ∀ s ∈ segments, IsPlain s)
include plain

theorem splitOnP_rooted : (rooted segments).splitOnP isSeparator = [] :: segments := by
  induction segments using List.reverseRecOn with
  | nil => rfl
  | append_singleton segments last ih =>
    have others := ih fun s among => plain s (List.mem_append_left _ among)
    have last_plain := plain last (List.mem_append_right _ (List.mem_singleton_self last))
    rw [rooted_append, rooted_singleton, List.splitOnP_append_cons (p := isSeparator) _ _ rfl,
      others, List.splitOnP_eq_singleton last_plain.separator, List.cons_append]

theorem splitOnP_laid : (laid segments isDirectory).splitOnP isSeparator =
    [] :: (segments ++ if isDirectory || segments.isEmpty then [[]] else []) := by
  unfold laid
  split
  · rw [List.splitOnP_append_cons (p := isSeparator) _ _ rfl, splitOnP_rooted plain]
    rfl
  · rw [List.append_nil, List.append_nil, splitOnP_rooted plain]

theorem resolved_laid : resolved (laid segments isDirectory) = segments := by
  have last : ∀ kept, (if isDirectory || segments.isEmpty then [[]] else []).foldl keep kept =
      kept := by
    intro kept
    split <;> rfl
  rw [resolved_eq_foldl_keep, splitOnP_laid plain, List.foldl_cons, List.foldl_append, last,
    foldl_keep_plain plain]
  exact (congrArg List.reverse (List.append_nil _)).trans (List.reverse_reverse _)

/-- The last byte of a path is the slash at the end, or in the last segment. -/
theorem getLast?_laid :
    (isDirectory || segments.isEmpty) = true ∧
        (laid segments isDirectory).getLast? = some slash ∨
      (isDirectory || segments.isEmpty) = false ∧
        ∃ b, (laid segments isDirectory).getLast? = some b ∧ isSeparator b = false := by
  unfold laid
  cases ends : isDirectory || segments.isEmpty with
  | true => exact .inl ⟨rfl, List.getLast?_concat⟩
  | false =>
    obtain ⟨-, filled⟩ := Bool.or_eq_false_iff.mp ends
    have some : segments ≠ [] := fun none => by simp [none] at filled
    obtain ⟨front, last, rfl⟩ := (List.eq_nil_or_concat' segments).resolve_left some
    have last_plain := plain last (List.mem_append_right _ (List.mem_singleton_self last))
    have last_eq : (rooted (front ++ [last]) ++ []).getLast? =
        Option.some (last.getLast last_plain.ne_nil) := by
      rw [List.append_nil, rooted_append, rooted_singleton, List.getLast?_append,
        List.getLast?_cons, List.getLast?_eq_some_getLast last_plain.ne_nil]
      rfl
    exact .inr ⟨rfl, _, last_eq, last_plain.separator _ (List.getLast_mem _)⟩

theorem endsInSeparator_laid :
    endsInSeparator (laid segments isDirectory) = (isDirectory || segments.isEmpty) := by
  unfold endsInSeparator
  obtain ⟨ends, last⟩ | ⟨ends, b, last, inside⟩ := @getLast?_laid segments isDirectory plain
  · rw [ends, last]
    rfl
  · rw [ends, last]
    exact inside

theorem sanitize_laid : sanitize (laid segments isDirectory) = laid segments isDirectory := by
  rw [sanitize_eq, resolved_laid plain, endsInSeparator_laid plain]
  unfold laid
  rw [Bool.or_assoc, Bool.or_self]

/-! ### They are canonical -/

theorem backslash_not_mem_laid : backslash ∉ laid segments isDirectory := by
  intro among
  rcases List.mem_append.mp among with inside | last
  · obtain ⟨segment, there, inside⟩ := List.mem_flatMap.mp inside
    rcases List.mem_cons.mp inside with slash | inside
    · cases slash
    · cases (plain segment there).separator backslash inside
  · split at last
    · cases List.mem_singleton.mp last
    · exact absurd last List.not_mem_nil

theorem head?_laid : (laid segments isDirectory).head? = some slash := by
  cases segments with
  | nil => rw [laid, List.isEmpty_nil, Bool.or_true, if_pos rfl]; rfl
  | cons first rest => rfl

/-- An empty segment is only in front of the root, and behind the slash at the end. -/
theorem single_laid : ¬ [slash, slash] <:+: laid segments isDirectory := by
  rintro ⟨front, behind, whole⟩
  have split : (laid segments isDirectory).splitOnP isSeparator =
      front.splitOnP isSeparator ++ [] :: behind.splitOnP isSeparator := by
    rw [← whole, List.append_assoc, List.cons_append, List.cons_append, List.nil_append,
      List.splitOnP_append_cons (p := isSeparator) _ _ rfl,
      ← List.nil_append (slash :: behind), List.splitOnP_append_cons (p := isSeparator) _ _ rfl]
    rfl
  rw [splitOnP_laid plain] at split
  obtain ⟨first, others, front_split⟩ :=
    List.exists_cons_of_ne_nil (List.splitOnP_ne_nil isSeparator front)
  rw [front_split, List.cons_append] at split
  have inner : [] ∈ (others ++ [] :: behind.splitOnP isSeparator).dropLast := by
    rw [List.dropLast_append_of_ne_nil (List.cons_ne_nil _ _),
      List.dropLast_cons_of_ne_nil (List.splitOnP_ne_nil isSeparator behind)]
    exact List.mem_append_right _ List.mem_cons_self
  rw [← (List.cons.inj split).2] at inner
  refine absurd rfl (plain [] ?_).ne_nil
  split at inner
  · rwa [List.dropLast_concat] at inner
  · rw [List.append_nil] at inner
    exact List.mem_of_mem_dropLast inner

end

theorem splitOn_slash (forward : backslash ∉ path) :
    path.splitOn slash = path.splitOnP isSeparator := by
  refine Text.splitOnP_congr fun b among => ?_
  have other : b ≠ backslash := fun same => forward (same ▸ among)
  simp only [isSeparator, other, decide_false, Bool.or_false, beq_eq_decide]

theorem laid_isCanonical (plain : ∀ s ∈ segments, IsPlain s) :
    IsCanonical (laid segments isDirectory) := by
  have forward := @backslash_not_mem_laid segments isDirectory plain
  have named : ∀ segment, segment ≠ [] → segment ∈ (laid segments isDirectory).splitOn slash →
      IsPlain segment := by
    intro segment some among
    rw [splitOn_slash forward, splitOnP_laid plain] at among
    refine plain segment ?_
    split at among <;> simpa [some] using among
  exact {
    root := head?_laid plain
    forward
    single := single_laid plain
    no_dot := fun among => (named _ (List.cons_ne_nil _ _) among).ne_dot rfl
    no_dots := fun among => (named _ (List.cons_ne_nil _ _) among).ne_dots rfl }

/-- A path that starts with a slash has each of its other segments behind one. -/
theorem eq_rooted_of_splitOn (split : path.splitOn slash = [] :: segments) :
    path = rooted segments := by
  have joined : ∀ (first : List UInt8) (segments : List (List UInt8)),
      [slash].intercalate (first :: segments) = first ++ rooted segments := by
    intro first segments
    induction segments generalizing first with
    | nil => rw [List.intercalate_singleton, rooted, List.flatMap_nil, List.append_nil]
    | cons second rest ih =>
      rw [List.intercalate_cons_cons, ih, List.append_assoc]
      rfl
  have whole : [slash].intercalate (path.splitOn slash) = path := List.intercalate_splitOn slash
  rw [← whole, split, joined, List.nil_append]

/-- Only the last segment can be empty, as two slashes would stand around any other one. -/
theorem nil_not_mem_of_single {last : List UInt8}
    (single : ¬ [slash, slash] <:+: rooted (segments ++ [last])) : [] ∉ segments := by
  intro among
  obtain ⟨before, after, rfl⟩ := List.append_of_mem among
  obtain ⟨second, others, rest_eq⟩ := List.exists_cons_of_ne_nil (List.concat_ne_nil last after)
  have regrouped : before ++ [] :: after ++ [last] = before ++ [] :: second :: others := by
    rw [List.append_assoc, List.cons_append, rest_eq]
  refine single ⟨rooted before, second ++ rooted others, ?_⟩
  rw [regrouped, rooted_append]
  simp [rooted]

theorem IsCanonical.exists_laid (canonical : IsCanonical path) :
    ∃ segments isDirectory, (∀ s ∈ segments, IsPlain s) ∧ path = laid segments isDirectory := by
  obtain ⟨rest, rfl⟩ : ∃ rest, path = slash :: rest := List.head?_eq_some_iff.mp canonical.root
  have split : (slash :: rest).splitOn slash = [] :: rest.splitOn slash :=
    List.splitOnP_append_cons (p := (· == slash)) [] rest rfl
  have whole := eq_rooted_of_splitOn split
  have behind : rest.splitOn slash = rest.splitOnP isSeparator :=
    splitOn_slash fun among => canonical.forward (List.mem_cons_of_mem _ among)
  have plain : ∀ s ∈ rest.splitOn slash, s ≠ [] → IsPlain s := by
    intro s among some
    refine ⟨some, ?_, ?_, ?_⟩
    · rintro rfl
      exact canonical.no_dot (split ▸ List.mem_cons_of_mem _ among)
    · rintro rfl
      exact canonical.no_dots (split ▸ List.mem_cons_of_mem _ among)
    · exact Text.not_separator_of_mem (behind ▸ among)
  obtain ⟨front, last, parts⟩ := (List.eq_nil_or_concat' (rest.splitOn slash)).resolve_left
    (List.splitOnP_ne_nil _ rest)
  rw [parts] at plain whole
  rw [whole] at canonical
  have front_plain : ∀ s ∈ front, IsPlain s := fun s among =>
    plain s (List.mem_append_left _ among) fun empty =>
      nil_not_mem_of_single canonical.single (empty ▸ among)
  by_cases empty : last = []
  · refine ⟨front, true, front_plain, ?_⟩
    rw [whole, empty, rooted_append, rooted_singleton, laid, Bool.true_or, if_pos rfl]
  · refine ⟨front ++ [last], false, ?_, ?_⟩
    · intro s among
      refine plain s among ?_
      rcases List.mem_append.mp among with inside | here
      · exact (front_plain s inside).ne_nil
      · rwa [List.mem_singleton.mp here]
    · rw [whole, laid, if_neg (by simp), List.append_nil]

/-! ## Sanitized paths -/

theorem resolved_sanitize (raw : List UInt8) : resolved (sanitize raw) = resolved raw := by
  rw [sanitize_eq, resolved_laid fun _ => plain_of_mem_resolved]

theorem endsInSeparator_append_cons (first second : List UInt8) (b : UInt8) :
    endsInSeparator (first ++ b :: second) = endsInSeparator (b :: second) := by
  unfold endsInSeparator
  rw [List.getLast?_append, List.getLast?_cons]
  rfl

theorem endsInSeparator_iff : endsInSeparator raw = true ↔
    raw.getLast? = some slash ∨ raw.getLast? = some backslash := by
  unfold endsInSeparator isSeparator
  cases raw.getLast? <;> simp

theorem sanitize_eq_root : sanitize raw = [slash] ↔ resolved raw = [] := by
  constructor
  · intro root
    rw [← resolved_sanitize, root]
    rfl
  · intro none
    rw [sanitize_eq, none, laid, List.isEmpty_nil, Bool.or_true]
    rfl

theorem getLast?_sanitize : (sanitize raw).getLast? = some slash ↔
    endsInSeparator raw = true ∨ sanitize raw = [slash] := by
  have last := @getLast?_laid (resolved raw) (endsInSeparator raw) fun _ => plain_of_mem_resolved
  rw [sanitize_eq_root, ← List.isEmpty_iff, ← Bool.or_eq_true, sanitize_eq]
  obtain ⟨marked, last⟩ | ⟨unmarked, b, last, inside⟩ := last
  · exact ⟨fun _ => marked, fun _ => last⟩
  · rw [unmarked, last]
    refine ⟨fun ends => ?_, nofun⟩
    cases ends
    cases inside

/-- The segments of a sanitized path are those that are kept of the raw one. -/
theorem splitOn_sanitize :
    ((sanitize raw).splitOn slash).filter (· ≠ []) = resolved raw := by
  have plain : ∀ s ∈ resolved raw, IsPlain s := fun _ => plain_of_mem_resolved
  have kept : (resolved raw).filter (· ≠ []) = resolved raw :=
    List.filter_eq_self.mpr fun s among => decide_eq_true (plain s among).ne_nil
  have none : (if endsInSeparator raw || (resolved raw).isEmpty then [[]] else
      ([] : List (List UInt8))).filter (· ≠ []) = [] := by
    split <;> rfl
  rw [sanitize_eq, splitOn_slash (backslash_not_mem_laid plain), splitOnP_laid plain,
    List.filter_cons_of_neg (by decide), List.filter_append, kept, none, List.append_nil]

/-- A sanitized path is canonical. It ends in a slash if the raw path ends in a separator or nothing
but the root is left. Its segments are those of the raw path that say anything, resolved from left
to right. Canonical paths, and no others, are left alone by it, so that sanitizing once more changes
nothing, and a path may be sanitized before or after something is put behind it. -/
theorem sanitize_canonical (raw : List UInt8) :
    IsCanonical (sanitize raw) ∧
    ((sanitize raw).getLast? = some slash ↔
      (raw.getLast? = some slash ∨ raw.getLast? = some backslash) ∨ sanitize raw = [slash]) ∧
    ((sanitize raw).splitOn slash).filter (· ≠ []) =
      ((raw.splitOnP fun b => b = slash || b = backslash).filter
        fun segment => segment ≠ [] && segment ≠ [dot]).foldl descend [] ∧
    (sanitize raw = raw ↔ IsCanonical raw) ∧
    sanitize (sanitize raw) = sanitize raw ∧
    ∀ more, sanitize (raw ++ slash :: more) = sanitize (sanitize raw ++ slash :: more) := by
  have plain : ∀ s ∈ resolved raw, IsPlain s := fun _ => plain_of_mem_resolved
  have canonical : IsCanonical (sanitize raw) := by
    rw [sanitize_eq]
    exact laid_isCanonical plain
  refine ⟨canonical, ?_, ?_, ⟨fun same => same ▸ canonical, fun canonical => ?_⟩, ?_,
    fun more => ?_⟩
  · rw [getLast?_sanitize, endsInSeparator_iff]
  · rw [splitOn_sanitize]
    exact resolved_eq_foldl_descend raw
  · obtain ⟨segments, isDirectory, named, rfl⟩ := canonical.exists_laid
    exact sanitize_laid named
  · rw [sanitize_eq raw]
    exact sanitize_laid plain
  · rw [sanitize_eq (raw ++ _), sanitize_eq (sanitize raw ++ _), resolved_append, resolved_append,
      resolved_sanitize, endsInSeparator_append_cons, endsInSeparator_append_cons]

end Path
end ZipArchive
