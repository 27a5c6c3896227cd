import ZipArchive.Command.Extraction
import ZipArchive.Proofs.Entries
import ZipArchive.Proofs.Places

/-!
# Extraction stays below its target

What a command line does to a file tree is a row of changes, each one a directory that was not there
or a file (`FileTree.Grows`). `Stays` says of an action which directories and which files these may
be, and is derived along the action's parts. A member is written where its components lead from the
target directory, and nowhere else (`extractMember_stays`).
-/
namespace ZipArchive.Command

/-! ## Trees that grow -/

namespace FileTree

/-- One tree becomes another by making directories where nothing is, and by giving files their
content, only at the places told. -/
inductive Grows (directories files : List String → Prop) (t : FileTree) : FileTree → Prop where
  | same : Grows directories files t t
  | directory {u : FileTree} {place : List String} (before : Grows directories files t u)
      (free : u.node? place = none) (told : directories place) :
    Grows directories files t (u.put place .directory)
  | file {u : FileTree} {place : List String} {content : ByteArray}
      (before : Grows directories files t u) (fit : u.node? place ≠ some .directory)
      (told : files place) :
    Grows directories files t (u.put place (.file content))

variable {directories files : List String → Prop} {t u v : FileTree}

theorem node?_put {place : List String} (below : place ≠ []) (node : Node) (other : List String) :
    (t.put place node).node? other = if other = place then some node else t.node? other := by
  unfold node? put
  by_cases root : other = []
  · have apart : other ≠ place := fun same => below (same ▸ root)
    rw [if_pos root, if_pos root, if_neg apart]
  · rw [if_neg root, if_neg root]
    exact lookup_replaced t.nodes place other node

theorem root_node? (t : FileTree) : t.node? [] = some .directory := if_pos rfl

namespace Grows

theorem trans (first : Grows directories files t u) (second : Grows directories files u v) :
    Grows directories files t v := by
  induction second with
  | same => exact first
  | directory _ free told ih => exact ih.directory free told
  | file _ fit told ih => exact ih.file fit told

theorem workingDirectory_eq (grows : Grows directories files t u) :
    u.workingDirectory = t.workingDirectory := by
  induction grows with
  | same => rfl
  | directory _ _ _ ih => exact ih
  | file _ _ _ ih => exact ih

/-- Where nothing may be made, nothing is. -/
theorem eq_of_nowhere (grows : Grows (fun _ => False) (fun _ => False) t u) : u = t := by
  cases grows with
  | same => rfl
  | directory _ _ told => exact told.elim
  | file _ _ told => exact told.elim

/-- A place where something is different holds a file then, or a directory where nothing was. -/
theorem changed (grows : Grows directories files t u) (place : List String) :
    u.node? place = t.node? place ∨
      (∃ content, u.node? place = some (.file content)) ∧ files place ∨
      t.node? place = none ∧ u.node? place = some .directory ∧ directories place := by
  induction grows with
  | same => exact .inl rfl
  | @directory u made _ free told ih =>
    have below : made ≠ [] := by
      rintro rfl
      rw [root_node?] at free
      cases free
    rw [node?_put below]
    by_cases here : place = made
    · subst here
      rw [if_pos rfl]
      rcases ih with same | ⟨⟨content, file⟩, -⟩ | ⟨none, -, -⟩
      · exact .inr (.inr ⟨same.symm.trans free, rfl, told⟩)
      · rw [free] at file
        cases file
      · exact .inr (.inr ⟨none, rfl, told⟩)
    · rwa [if_neg here]
  | @file u made content _ fit told ih =>
    have below : made ≠ [] := by
      rintro rfl
      exact fit (root_node? u)
    rw [node?_put below]
    by_cases here : place = made
    · subst here
      rw [if_pos rfl]
      exact .inr (.inl ⟨⟨content, rfl⟩, told⟩)
    · rwa [if_neg here]

end Grows

theorem makeDirectory_grows (t : FileTree) {path : String}
    (told : directories (placeOf t.workingDirectory path)) :
    Grows directories files t (t.makeDirectory path).2 := by
  unfold makeDirectory
  cases resolved : t.resolve path with
  | error cause => exact .same
  | ok place =>
    rw [← resolve_ok resolved] at told
    cases node : t.node? place with
    | some found =>
      simp only [node]
      exact .same
    | none =>
      simp only [node]
      exact .directory .same node told

theorem write_grows (t : FileTree) {path : String} (content : ByteArray)
    (told : files (placeOf t.workingDirectory path)) :
    Grows directories files t (t.write path content).2 := by
  unfold write
  cases resolved : t.resolve path with
  | error cause => exact .same
  | ok place =>
    rw [← resolve_ok resolved] at told
    dsimp only
    split
    · exact .same
    · rename_i fit
      exact .file .same fit told

end FileTree

/-! ## Actions that stay -/

/-- Whatever the tree is that an action works on, with this working directory, it only makes the
directories and the files that are told. -/
def Stays {α : Type} (wd : List String) (directories files : List String → Prop)
    (x : StateM Console α) : Prop :=
  ∀ c, c.tree.workingDirectory = wd →
    FileTree.Grows directories files c.tree (x.run c).2.tree

namespace Stays

variable {α β : Type} {wd : List String} {directories files : List String → Prop}
  {x : StateM Console α}

theorem pure (value : α) : Stays wd directories files (Pure.pure value) := fun _ _ => .same

theorem bind {f : α → StateM Console β} (hx : Stays wd directories files x)
    (hf : ∀ value, Stays wd directories files (f value)) :
    Stays wd directories files (x >>= f) := by
  intro c here
  have first := hx c here
  exact first.trans (hf _ _ (first.workingDirectory_eq.trans here))

theorem ite {p : Prop} [Decidable p] {y : StateM Console α} (hx : Stays wd directories files x)
    (hy : Stays wd directories files y) : Stays wd directories files (if p then x else y) := by
  split
  · exact hx
  · exact hy

/-- A step that may be left out, and what follows in either case. -/
theorem optional {p : Prop} [Decidable p] {x : StateM Console Unit} {f : Unit → StateM Console β}
    (hx : Stays wd directories files x) (hf : ∀ value, Stays wd directories files (f value)) :
    Stays wd directories files (if p then x >>= f else f ()) := .ite (hx.bind hf) (hf ())

theorem forIn {γ : Type} (items : List γ) {f : γ → β → StateM Console (ForInStep β)}
    (hf : ∀ item value, Stays wd directories files (f item value)) (value : β) :
    Stays wd directories files (ForIn.forIn items value f) := by
  induction items generalizing value with
  | nil => exact pure value
  | cons item items ih =>
    rw [List.forIn_cons]
    refine (hf item value).bind fun step => ?_
    cases step with
    | done value => exact pure value
    | yield value => exact ih value

/-! ### The host -/

theorem read (path : String) : Stays wd directories files (Console.host.read path) :=
  fun _ _ => .same

theorem isPresent (path : String) : Stays wd directories files (Console.host.isPresent path) :=
  fun _ _ => .same

theorem isDirectory (path : String) :
    Stays wd directories files (Console.host.isDirectory path) :=
  fun _ _ => .same

theorem output (bytes : ByteArray) : Stays wd directories files (Console.host.output bytes) :=
  fun _ _ => .same

theorem complain (line : String) : Stays wd directories files (Console.host.complain line) :=
  fun _ _ => .same

theorem makeDirectory {path : String} (told : directories (placeOf wd path)) :
    Stays wd directories files (Console.host.makeDirectory path) := by
  rintro c rfl
  exact c.tree.makeDirectory_grows told

theorem create {path : String} (told : files (placeOf wd path)) :
    Stays wd directories files (Console.host.create path) := by
  rintro c rfl
  exact c.tree.write_grows .empty told

theorem write {path : String} (told : files (placeOf wd path)) (content : ByteArray) :
    Stays wd directories files (Console.host.write path content) := by
  rintro c rfl
  exact c.tree.write_grows content told

theorem outputLine (line : String) :
    Stays wd directories files (Console.host.outputLine line) := output _

theorem unlessDirectory (path : String) (error : IoError) :
    Stays wd directories files (Console.host.unlessDirectory path error) :=
  (isDirectory path).bind fun _ => pure _

/-- No other directories are made than those that are to be made. -/
theorem makeDirectories {paths : List String}
    (told : ∀ path ∈ paths, directories (placeOf wd path)) :
    Stays wd directories files (Console.host.makeDirectories paths) := by
  induction paths with
  | nil => exact pure _
  | cons path above ih =>
    obtain ⟨here, others⟩ := List.forall_mem_cons.mp told
    have others := ih others
    unfold Host.makeDirectories
    refine (makeDirectory here).bind fun first => ?_
    cases first with
    | ok _ => exact pure _
    | error error =>
      refine .ite (others.bind fun second => ?_) (unlessDirectory _ _)
      cases second with
      | error error => exact pure _
      | ok _ =>
        refine (makeDirectory here).bind fun third => ?_
        cases third with
        | ok _ => exact pure _
        | error error => exact unlessDirectory _ _

end Stays

/-! ## Members -/

/-- The place of a target directory, or one that the first parts of its path lead to. -/
def IsAbove (wd : List String) (directory : String) (place : List String) : Prop :=
  ∃ n, place = walk (origin wd directory) ((pathParts directory).take n)

/-- A place on the way from a target directory to where components lead. -/
def IsBetween (wd : List String) (directory : String) (components place : List String) : Prop :=
  ∃ n < components.length, place = (components.take n).reverse ++ placeOf wd directory

/-- A place on the way to where components lead from a target directory. -/
def IsOnWayTo (wd : List String) (directory : String) (components place : List String) : Prop :=
  IsAbove wd directory place ∨ IsBetween wd directory components place

/-- The place that components lead to from a target directory. -/
def IsOutputOf (wd : List String) (directory : String) (components place : List String) : Prop :=
  place = components.reverse ++ placeOf wd directory

section
variable {wd : List String} {directories files : List String → Prop}
variable (a : Arguments) (opened : Opened) (member : Member)

theorem skip_stays (reason : String) :
    Stays wd directories files (skip Console.host a member reason) :=
  .optional (.complain _) fun _ => .pure _

theorem reread_stays : Stays wd directories files (reread Console.host opened) := by
  unfold reread
  refine (Stays.read _).bind fun content => ?_
  cases content <;> exact .pure _

theorem openArchive_stays : Stays wd directories files (openArchive Console.host a) := by
  unfold openArchive
  refine (Stays.read _).bind fun content => ?_
  cases content with
  | error error => exact .pure _
  | ok content =>
    dsimp only
    split <;> exact .pure _

variable [Decoders]

theorem pipeMember_stays (headed : Bool) :
    Stays wd directories files (pipeMember Console.host a headed opened member) := by
  refine .optional (.outputLine _) fun _ => ?_
  cases opened.extraction member with
  | error error => exact .pure _
  | ok extraction =>
    refine (Stays.output _).bind fun _ => ?_
    cases extraction.failure <;> exact .pure _

theorem writeMember_stays {path : String} (told : files (placeOf wd path)) :
    Stays wd directories files (writeMember Console.host a opened member path) := by
  unfold writeMember
  cases opened.extraction member with
  | error error => exact .pure _
  | ok extraction =>
    obtain ⟨bytes, failure⟩ := extraction
    -- What was extracted is written whether or not extracting it failed later on.
    cases failure <;>
    · refine .ite ((Stays.write told _).bind fun written => ?_) (.pure _)
      cases written <;> exact .pure _

theorem extractTo_stays (destination : Destination)
    (parents : ∀ path ∈ destination.parents, directories (placeOf wd path))
    (told : files (placeOf wd destination.path)) :
    Stays wd directories files
      (extractTo Console.host a opened member destination) := by
  refine .optional (.outputLine _) fun _ => ?_
  refine (Stays.makeDirectories parents).bind fun made => ?_
  cases made with
  | error error => exact .pure _
  | ok _ =>
    refine (Stays.isPresent _).bind fun wasThere => (Stays.create told).bind fun created => ?_
    cases created with
    | error error => exact .pure _
    | ok _ =>
      have last : ∀ opened : Opened, Stays wd directories files (do
          let result ← writeMember Console.host a opened member destination.path
          pure (result, opened) : StateM Console (Except Failure Unit × Opened)) := fun opened =>
        (writeMember_stays a opened member told).bind fun _ => .pure _
      exact .ite ((reread_stays opened).bind last) ((Stays.pure opened).bind last)

/-- Of the members of an archive, one is written where its components lead, and nowhere else. -/
theorem extractMember_stays (fit : ¬ IsRefused member.name) :
    Stays wd
      (IsOnWayTo wd (a.directory.getD "") (components a.junkPaths member.name))
      (IsOutputOf wd (a.directory.getD "") (components a.junkPaths member.name))
      (extractMember Console.host a opened member) := by
  obtain ⟨some, plain⟩ := @components_spec a.junkPaths _ fit
  unfold extractMember
  rw [outputParts_eq, if_neg fit]
  dsimp only
  refine (Stays.isPresent _).bind fun wasThere => ?_
  refine .ite ((skip_stays a member _).bind fun _ => .pure _) ?_
  refine .ite ((skip_stays a member _).bind fun _ => .pure _) ?_
  refine extractTo_stays a opened member _ ?_ ?_
  · intro path above
    exact Destination.placeOf_parent wd ⟨a.directory, _⟩ some plain above
  · exact Destination.placeOf_path wd ⟨a.directory, _⟩ some plain

/-- A member whose name is refused is passed over, and the tree is left alone. -/
theorem extractMember_refused (refused : IsRefused member.name) (c : Console) :
    ∃ c', (extractMember Console.host a opened member).run c = ((.ok (), opened), c') ∧
      c'.tree = c.tree := by
  unfold extractMember
  rw [outputParts_eq, if_pos refused]
  unfold skip
  cases a.isVeryQuiet with
  | true => exact ⟨c, rfl, rfl⟩
  | false => exact ⟨_, rfl, rfl⟩

/-! ## Runs that extract no files -/

theorem extractAll_stays (pipes : a.pipe = true) (headed : Bool) (members : List Member)
    (failed : Nat) :
    Stays wd directories files (extractAll Console.host a headed members opened failed) := by
  induction members generalizing opened failed with
  | nil => exact .pure failed
  | cons member rest ih =>
    unfold extractAll
    rw [if_pos pipes]
    refine (pipeMember_stays a opened member headed).bind fun result => (Stays.pure _).bind ?_
    rintro ⟨failure | _, opened⟩
    · exact (Stays.complain _).bind fun _ => ih opened (failed + 1)
    · exact ih opened failed

theorem process_stays (quiet : (a.list || a.verbose || a.pipe) = true) :
    Stays wd directories files (process Console.host a opened) := by
  unfold process
  split
  · exact (Stays.forIn _ (fun _ _ => (Stays.outputLine _).bind fun _ => .pure _) _).bind
      fun _ => .pure _
  · rename_i extracting
    rw [Bool.or_eq_true] at quiet
    refine (extractAll_stays a opened (quiet.resolve_left extracting) _ _ 0).bind fun failed => ?_
    cases failed <;> exact .pure _

/-- Listing members or writing them to the standard output makes and changes nothing. -/
theorem run_stays (quiet : (a.list || a.verbose || a.pipe) = true) :
    Stays wd directories files (run Console.host a) := by
  unfold run
  refine (openArchive_stays a).bind fun result => ?_
  cases result with
  | error failure => exact .pure _
  | ok opened => exact process_stays a opened quiet

end

end ZipArchive.Command
