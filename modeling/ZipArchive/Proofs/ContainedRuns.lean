import ZipArchive.Decode.Standard
import ZipArchive.Proofs.LaidOut

/-!
# Runs stay below their target

An attempt makes or changes no file but its member's, and no directory but those on the way there
(`Attempt.Contained`). What is different behind a run came with one of its attempts
(`Course.turned`), and no later one takes a file or a directory away. So a run touches nothing but
the files of its members, the target directory and those above it, and what is on the way to a file
that it makes, or that the host refuses once its directory is there (`Touched`, `run_contained`). It
can happen that nothing is left but that directory (`zeroName_left_directory`).
-/
namespace ZipArchive.Command

open FileTree

variable {a : Arguments} {opened left : Opened} {member : Member} {c : Console} {t u v : FileTree}
  {result : Except Failure Unit} {xs : List Attempt} {place : List String} {content : ByteArray}

/-- Where nothing stands on the way, nothing stands at the end. -/
theorem outputPlace_free (wellFormed : t.WellFormed) (free : t.node? place = none)
    {wd : List String}
    (leads : IsBetween wd (a.directory.getD "") (components a.junkPaths member.name) place) :
    t.node? (a.outputPlace wd member) = none := by
  obtain ⟨n, inside, rfl⟩ := leads
  have split : a.outputPlace wd member =
      ((components a.junkPaths member.name).drop n).reverse ++
        (((components a.junkPaths member.name).take n).reverse ++
          placeOf wd (a.directory.getD "")) := by
    rw [← List.append_assoc, ← List.reverse_append, List.take_append_drop]
    rfl
  by_contra there
  rw [wellFormed.above_of_suffix there (split ▸ List.suffix_append _ _) ?_] at free
  · cases free
  · intro same
    have length := congrArg List.length (split.symm.trans same.symm)
    simp only [List.length_append, List.length_reverse, List.length_drop, List.length_take]
      at length
    omega

section
variable [Decoders]

/-! ## One attempt -/

/-- An attempt passes a refused member over, and with any other makes and changes nothing but the
member's file and directories on the way there. -/
structure Attempt.Contained (a : Arguments) (wd : List String) (x : Attempt) : Prop where
  refused : IsRefused x.member.name → x.result = .ok () ∧ x.after = x.before
  grows : ¬ IsRefused x.member.name → Grows
    (IsOnWayTo wd (a.directory.getD "") (components a.junkPaths x.member.name))
    (IsOutputOf wd (a.directory.getD "") (components a.junkPaths x.member.name)) x.before x.after

theorem grows_of_attempt (a : Arguments) (members : List Member) (opened : Opened) (c : Console) :
    ∀ x ∈ attempts a members opened c, ¬ IsRefused x.member.name → Grows
      (IsOnWayTo x.before.workingDirectory (a.directory.getD "")
        (components a.junkPaths x.member.name))
      (IsOutputOf x.before.workingDirectory (a.directory.getD "")
        (components a.junkPaths x.member.name)) x.before x.after := by
  induction members generalizing opened c with
  | nil => exact fun _ none => absurd none List.not_mem_nil
  | cons member rest ih =>
    rw [attempts]
    refine List.forall_mem_cons.mpr ⟨fun fit => ?_, ih _ _⟩
    exact extractMember_stays a opened member fit c rfl

namespace Tried

theorem of_refused (tried : Tried a opened member t result left u)
    (refused : IsRefused member.name) : result = .ok () ∧ u = t := by
  cases tried with
  | skipped => exact ⟨rfl, rfl⟩
  | blocked fit => exact absurd refused fit
  | written fit => exact absurd refused fit

/-- An attempt that makes anything is refused by the host, or leaves the member's file. -/
theorem of_ne (tried : Tried a opened member t result left u) (changed : u ≠ t) :
    (∃ error, result = .error (.host error)) ∨
      ∃ content, u.node? (a.outputPlace t.workingDirectory member) = some (.file content) := by
  cases tried with
  | skipped => exact absurd rfl changed
  | blocked _ _ _ error => exact .inl ⟨error, rfl⟩
  | written _ _ _ _ free => exact .inr ⟨_, (node?_put_of_fit free _ _).trans (if_pos rfl)⟩

theorem file_stays (tried : Tried a opened member t result left u)
    (file : t.node? place = some (.file content)) :
    ∃ content, u.node? place = some (.file content) := by
  cases tried with
  | skipped => exact ⟨content, file⟩
  | blocked _ _ furnished => exact ⟨content, furnished.file_iff.mpr file⟩
  | @written _ _ u furnished _ free =>
    rw [node?_put_of_fit free, furnished.file_iff.mpr file]
    split
    · exact ⟨_, rfl⟩
    · exact ⟨content, rfl⟩

end Tried

/-! ## One attempt after the other -/

namespace Course

theorem contained {members : List Member}
    (course : Course a opened c.tree (attempts a members opened c) v) :
    ∀ x ∈ attempts a members opened c, x.Contained a c.tree.workingDirectory := by
  intro x among
  obtain ⟨tried, same⟩ := course.tried x among
  refine ⟨tried.of_refused, fun fit => ?_⟩
  have grows := grows_of_attempt a members opened c x among fit
  rwa [same] at grows

theorem file_stays (course : Course a opened t xs v)
    (file : t.node? place = some (.file content)) :
    ∃ content, v.node? place = some (.file content) := by
  induction course generalizing content with
  | done => exact ⟨content, file⟩
  | step tried _ ih =>
    obtain ⟨content, file⟩ := tried.file_stays file
    exact ih file

theorem directory_stays (course : Course a opened t xs v)
    (directory : t.node? place = some .directory) : v.node? place = some .directory := by
  induction course with
  | done => exact directory
  | step tried _ ih => exact ih (tried.develops.directories place directory)

/-- What holds behind a row of attempts and not before it came to hold with one of them. -/
theorem turned {holds : FileTree → Prop} (course : Course a opened t xs v) (before : ¬ holds t)
    (after : holds v) : ∃ earlier x later, xs = earlier ++ x :: later ∧
      ¬ holds x.before ∧ holds x.after ∧ Course a x.left x.after later v := by
  induction course with
  | done => exact absurd after before
  | @step opened left member t u v result rest _ onward ih =>
    by_cases now : holds u
    · exact ⟨[], _, rest, rfl, before, now, onward⟩
    · obtain ⟨earlier, x, later, rfl, found⟩ := ih now after
      exact ⟨_ :: earlier, x, later, rfl, found⟩

end Course

/-- What a place is to a row of attempts that has changed what is there. -/
inductive Touched (a : Arguments) (t v : FileTree) (xs : List Attempt) (place : List String) :
    Prop where
  /-- The components of a member's name lead there, and there is a file. -/
  | output (x : Attempt) (among : x ∈ xs) (fit : ¬ IsRefused x.member.name)
      (leads : IsOutputOf t.workingDirectory (a.directory.getD "")
        (components a.junkPaths x.member.name) place)
      (content : ByteArray) (file : v.node? place = some (.file content))
  /-- The target directory was made, or one that leads there. -/
  | above (free : t.node? place = none) (made : v.node? place = some .directory)
      (leads : IsAbove t.workingDirectory (a.directory.getD "") place)
  /-- A directory was made on the way to a member's file. The host then refused the member, or its
  file was made as well. -/
  | onWay (x : Attempt) (among : x ∈ xs) (fit : ¬ IsRefused x.member.name)
      (free : t.node? place = none) (made : v.node? place = some .directory)
      (leads : IsBetween t.workingDirectory (a.directory.getD "")
        (components a.junkPaths x.member.name) place)
      (reason : (∃ error, x.result = .error (.host error)) ∨
        (t.WellFormed → t.node? (a.outputPlace t.workingDirectory x.member) = none) ∧
          ∃ content, v.node? (a.outputPlace t.workingDirectory x.member) = some (.file content)) :
      Touched a t v xs place

theorem Course.touched (course : Course a opened t xs v)
    (contained : ∀ x ∈ xs, x.Contained a t.workingDirectory)
    (changed : v.node? place ≠ t.node? place) : Touched a t v xs place := by
  obtain ⟨earlier, x, later, split, before, after, onward⟩ :=
    @Course.turned _ _ _ _ _ _ (fun u => u.node? place ≠ t.node? place) course (fun ne => ne rfl)
      changed
  have before : x.before.node? place = t.node? place := Classical.not_not.mp before
  have among : x ∈ xs := by
    rw [split]
    exact List.mem_append_right _ List.mem_cons_self
  obtain ⟨tried, here⟩ := course.tried x among
  have fit : ¬ IsRefused x.member.name := by
    intro refused
    rw [((contained x among).refused refused).2] at after
    exact after before
  rcases ((contained x among).grows fit).changed place with
    same | ⟨⟨content, file⟩, output⟩ | ⟨free, made, onWay⟩
  · exact absurd (same.trans before) after
  · obtain ⟨content, file⟩ := onward.file_stays file
    exact .output x among fit output content file
  · have free : t.node? place = none := before.symm.trans free
    have made : v.node? place = some .directory := onward.directory_stays made
    rcases onWay with above | between
    · exact .above free made above
    · refine .onWay x among fit free made between ?_
      have some : x.after ≠ x.before := by
        intro same
        rw [same] at after
        exact after before
      rcases tried.of_ne some with refused | ⟨content, file⟩
      · exact .inl refused
      · rw [here] at file
        exact .inr ⟨fun wellFormed => outputPlace_free wellFormed free between,
          onward.file_stays file⟩

/-! ## Whole runs -/

/-- What a run may touch. A member is extracted to where the parts of its name lead that are neither
empty nor a dot, or the last of them; it is passed over if there is none or if one of them leads up.
No file is made or changed but at these places. No directory is made but the target directory, those
that lead there, and those on the way to a file that is made or that the host refuses. If members
are listed or written to the standard output, nothing is touched. -/
theorem run_contained (a : Arguments) (c : Console) {opened : Opened}
    (opens : ((openArchive Console.host a).run c).1 = .ok opened) :
    let xs := attempts a (a.selected opened.archive) opened c
    let after := ((run Console.host a).run c).2.tree
    ((a.list || a.verbose || a.pipe) = true → after = c.tree) ∧
    (∀ junkPaths name, outputParts junkPaths name =
      if IsRefused name then none else some (components junkPaths name)) ∧
    (∀ name, components true name = (components false name).getLast?.toList) ∧
    (∀ junkPaths name, ¬ IsRefused name → components junkPaths name ≠ [] ∧
      ∀ part ∈ components junkPaths name, IsComponent part) ∧
    ((a.list || a.verbose || a.pipe) = false →
      xs.map Attempt.member = a.selected opened.archive ∧ Course a opened c.tree xs after ∧
      (∀ x ∈ xs, x.Contained a c.tree.workingDirectory) ∧
      ∀ place, after.node? place ≠ c.tree.node? place → Touched a c.tree after xs place) := by
  intro xs after
  refine ⟨fun quiet => ?_, outputParts_eq, fun _ => rfl, fun _ _ => components_spec, ?_⟩
  · exact (run_stays a quiet c rfl).eq_of_nowhere
  · intro extracts
    obtain ⟨-, course⟩ := run_attempts opens extracts
    exact ⟨map_member_attempts a _ opened c, course, course.contained,
      fun _ => course.touched course.contained⟩

end

/-- A tree with nothing but an archive in it. -/
def alone (d : Draft) : Console where
  tree := { nodes := [(["a.zip"], .file d.bytes.toByteArray)], workingDirectory := [] }

theorem alone_opens {d : Draft} (fits : d.Fits) (small : d.bytes.length < fileOffsetLimit)
    (bare : d.comment = []) (file : a.file = "a.zip") (asStored : a.sanitize = false)
    (all : a.limit = none) :
    ((openArchive Console.host a).run (alone d)).1 = .ok (laidOut d "a.zip") := by
  have reads : (alone d).tree.read a.file = .ok d.bytes.toByteArray := by
    rw [file]
    exact read_eq_ok_iff.mpr ⟨["a.zip"], by rfl, rfl⟩
  rw [laidOut_opens fits small bare asStored all reads, file]

/-- An archive with one member `a/b`. -/
def nested : Draft := ⟨false, [{ newFile 0 with name := [0x61, 0x2f, 0x62] }], []⟩

/-- Below `out`, the member is extracted along with the directories that it needs. -/
theorem nested_contained :
    let c := alone nested
    let a : Arguments := { file := "a.zip", directory := some "out", quiet := 2 }
    let opened := laidOut nested "a.zip"
    let xs := attempts a (a.selected opened.archive) opened c
    let after := ((run Console.host a).run c).2.tree
    ((openArchive Console.host a).run c).1 = .ok opened ∧
      (∃ content, after.node? ["b", "a", "out"] = some (.file content)) ∧
      after.node? ["a", "out"] = some .directory ∧
      Touched a c.tree after xs ["b", "a", "out"] ∧ Touched a c.tree after xs ["a", "out"] := by
  intro c a opened xs after
  have fits : nested.Fits := by decide +kernel
  have small : nested.bytes.length < fileOffsetLimit := by decide +kernel
  have opens : ((openArchive Console.host a).run c).1 = .ok opened :=
    alone_opens fits small rfl rfl rfl rfl
  let member := nested.entries[0].member 0 0
  have path : a.outputPath member = "out/a/b" := by decide +kernel
  have absent : (c.tree.find? "out/a/b").isSome = false := by decide +kernel
  have above : (parentMade a member c).2.tree.resolve "out/a" = .ok ["a", "out"] := by
    decide +kernel
  have made := (isDirectory_iff above).mp (by decide +kernel)
  have leads : (parentMade a member c).2.tree.resolve (a.outputPath member) =
      .ok ["b", "a", "out"] := by decide +kernel
  have free : (parentMade a member c).2.tree.node? ["b", "a", "out"] ≠ some .directory := by
    rw [show (parentMade a member c).2.tree.node? ["b", "a", "out"] = none by decide +kernel]
    exact nofun
  have tree : after = _ := run_single_made opens rfl
    (show a.selected opened.archive = [member] by decide +kernel)
    (show ¬ IsRefused member.name by decide +kernel)
    (fun kept => Bool.false_ne_true (absent.symm.trans (path ▸ kept.2))) (by decide +kernel)
  rw [run_makeFile leads free] at tree
  dsimp only at tree
  obtain ⟨-, -, -, -, contained⟩ := run_contained a c opens
  obtain ⟨-, -, -, touched⟩ := contained rfl
  have file : ∃ content, after.node? ["b", "a", "out"] = some (.file content) := by
    rw [tree]
    exact ⟨_, (node?_put_of_fit free _ _).trans (if_pos rfl)⟩
  have directory : after.node? ["a", "out"] = some .directory := by
    rw [tree, node?_put_of_fit free, if_neg (by decide)]
    exact made
  refine ⟨opens, file, directory, touched _ ?_, touched _ ?_⟩
  · obtain ⟨content, file⟩ := file
    rw [file]
    exact nofun
  · rw [directory]
    exact nofun

/-- An archive with one member `a/` and a name behind it that no file can have. -/
def zeroName : Draft := ⟨false, [{ newFile 0 with name := [0x61, 0x2f, 0] }], []⟩

/-- The directory `a` is made for a file that the host refuses. No file is made or changed. -/
theorem zeroName_left_directory :
    let c := alone zeroName
    let a : Arguments := { file := "a.zip", quiet := 2 }
    let after := ((run Console.host a).run c).2.tree
    ((openArchive Console.host a).run c).1 = .ok (laidOut zeroName "a.zip") ∧
      c.tree.node? ["a"] = none ∧ after.node? ["a"] = some .directory ∧
      ¬ IsAbove c.tree.workingDirectory (a.directory.getD "") ["a"] ∧
      ∀ place content, after.node? place = some (.file content) ↔
        c.tree.node? place = some (.file content) := by
  intro c a after
  have fits : zeroName.Fits := by decide +kernel
  have small : zeroName.bytes.length < fileOffsetLimit := by decide +kernel
  have opens : ((openArchive Console.host a).run c).1 = .ok (laidOut zeroName "a.zip") :=
    alone_opens fits small rfl rfl rfl rfl
  let member := zeroName.entries[0].member 0 0
  have path : a.outputPath member = "a/\x00" := by decide +kernel
  have absent : (c.tree.find? "a/\x00").isSome = false := by decide +kernel
  have refused : (parentMade a member c).2.tree.write (a.outputPath member) .empty =
      (.error ⟨.zeroInName, none⟩, (parentMade a member c).2.tree) := by
    rw [path, FileTree.write, show (parentMade a member c).2.tree.resolve "a/\x00" =
      .error .zeroInName by decide +kernel]
  have tree : after = _ := run_single_made opens rfl
    (show a.selected (laidOut zeroName "a.zip").archive = [member] by decide +kernel)
    (show ¬ IsRefused member.name by decide +kernel)
    (fun kept => Bool.false_ne_true (absent.symm.trans (path ▸ kept.2))) (by decide +kernel)
  rw [run_makeFile_error refused] at tree
  dsimp only at tree
  have above : (parentMade a member c).2.tree.resolve "a" = .ok ["a"] := by decide +kernel
  have made := (isDirectory_iff above).mp (by decide +kernel)
  refine ⟨opens, rfl, ?_, ?_, ?_⟩
  · rw [tree]
    exact made
  · rintro ⟨n, same⟩
    have here : ["a"] = walk [] ([""].take n) := same
    cases n with
    | zero => cases here
    | succ n =>
      rw [List.take_succ_cons, List.take_nil] at here
      cases here
  · intro place content
    rw [tree]
    exact parentMade_furnished.file_iff

end ZipArchive.Command
