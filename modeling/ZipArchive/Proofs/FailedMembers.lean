import ZipArchive.Proofs.Overwriting

/-!
# Members that cannot be extracted

A run goes on behind a member that cannot be extracted, and fails with the number of those members
(`run_failures`). Where the host refuses a member, every file is as it was. A member that the
archive does not deliver leaves its file with what did come of it, instead of what was there before
(`Fails`). So a file can be emptied for a member that gives nothing (`oldFile_emptied`). Where files
are kept, what is left then is kept like any other file, and later members with that place are
passed over (`Course.left_behind`).
-/
namespace ZipArchive.Command

open FileTree

variable {a : Arguments} {opened left : Opened} {member : Member} {t u v : FileTree}
  {wd : List String} {xs : List Attempt}

theorem Arguments.resultOf_eq_error {found : Extraction} {failure : Failure} :
    a.resultOf found = .error failure ↔
      ∃ error, found.failure = some error ∧ failure = .archive a.file error := by
  unfold resultOf
  cases found.failure with
  | none => exact ⟨nofun, by rintro ⟨_, ⟨⟩, _⟩⟩
  | some error =>
    constructor
    · rintro ⟨⟩
      exact ⟨error, rfl, rfl⟩
    · rintro ⟨_, ⟨⟩, rfl⟩
      rfl

section
variable [Decoders]

/-- What a failed attempt leaves. -/
inductive Fails (a : Arguments) (wd : List String) (x : Attempt) : Failure → Prop where
  /-- The host refused it, and no file was changed. -/
  | host (error : IoError)
      (kept : ∀ place content, x.after.node? place = some (.file content) ↔
        x.before.node? place = some (.file content)) : Fails a wd x (.host error)
  /-- Not all of the member was delivered, and what was is all that its file holds. -/
  | archive (error : ZipError) (fit : ¬ IsRefused x.member.name)
      (free : ¬ a.Keeps x.before x.member)
      (delivered : (x.left.delivery x.member).failure = some error)
      (file : x.after.node? (a.outputPlace wd x.member) =
        some (.file (x.left.delivery x.member).bytes))
      (others : ∀ place, place ≠ a.outputPlace wd x.member → ∀ content,
        x.after.node? place = some (.file content) ↔
          x.before.node? place = some (.file content)) : Fails a wd x (.archive a.file error)

namespace Tried

/-- An attempt that is not passed over comes to what was delivered, if the host allows it. -/
theorem result_eq {result : Except Failure Unit} (tried : Tried a opened member t result left u)
    (fit : ¬ IsRefused member.name) (free : ¬ a.Keeps t member) :
    (∃ error, result = .error (.host error)) ∨ result = a.resultOf (left.delivery member) := by
  cases tried with
  | skipped reason => exact absurd reason (not_or.mpr ⟨fit, free⟩)
  | blocked _ _ _ error => exact .inl ⟨error, rfl⟩
  | written => exact .inr rfl

theorem fails {x : Attempt} {failure : Failure}
    (tried : Tried a x.opened x.member x.before x.result x.left x.after)
    (failed : x.result = .error failure) : Fails a x.before.workingDirectory x failure := by
  obtain ⟨member, opened, t, result, left, u⟩ := x
  dsimp only at tried failed ⊢
  cases tried with
  | skipped => cases failed
  | blocked _ _ furnished error =>
    cases failed
    exact .host error fun _ _ => furnished.file_iff
  | written fit free furnished _ noDirectory =>
    obtain ⟨error, delivered, rfl⟩ := Arguments.resultOf_eq_error.mp failed
    refine .archive error fit free delivered ?_ ?_
    · rw [node?_put_of_fit noDirectory, if_pos rfl]
    · intro place other content
      rw [node?_put_of_fit noDirectory, if_neg other, furnished.file_iff]

end Tried

namespace Course

/-- A run never finds anything else in the archive than what was opened, or nothing. -/
theorem left_cases (course : Course a opened t xs v)
    (reads : t.read opened.file = .ok opened.content) :
    ∀ x ∈ xs, x.left = opened ∨ x.left = opened.emptied := by
  induction course with
  | done => exact fun _ none => absurd none List.not_mem_nil
  | step tried _ ih =>
    obtain ⟨cases, reads⟩ := tried.left_cases reads
    refine List.forall_mem_cons.mpr ⟨cases, ?_⟩
    rcases cases with rfl | rfl
    · exact ih reads
    · exact fun x among => .inr ((ih reads x among).elim id id)

theorem left_eq_of_apart (course : Course a opened t xs v) (here : t.workingDirectory = wd)
    {source : List String} (leads : t.resolve opened.file = .ok source)
    (reads : t.read opened.file = .ok opened.content)
    (apart : ∀ x ∈ xs, ¬ a.GoesTo wd x.member source) : ∀ x ∈ xs, x.left = opened := by
  induction course with
  | done => exact fun _ none => absurd none List.not_mem_nil
  | step tried _ ih =>
    obtain ⟨first, others⟩ := List.forall_mem_cons.mp apart
    rw [← here] at first
    obtain ⟨rfl, reads⟩ := tried.left_eq_of_apart leads reads first
    have develops := tried.develops
    exact List.forall_mem_cons.mpr ⟨rfl, ih (develops.workingDirectory.trans here)
      (develops.resolve leads) reads others⟩

/-- What an attempt that the archive failed leaves in its file stays there, if no later one writes
to it; where files are kept, none does. -/
theorem left_behind {earlier later : List Attempt} {x : Attempt} {error : ZipError}
    (course : Course a opened t (earlier ++ x :: later) v) (here : t.workingDirectory = wd)
    (failed : x.result = .error (.archive a.file error)) :
    (a.keeps = true → ∀ y ∈ later, a.GoesTo wd y.member (a.outputPlace wd x.member) →
      y.result = .ok () ∧ y.after = y.before) ∧
    (a.keeps = true ∨ (∀ y ∈ later, ¬ a.GoesTo wd y.member (a.outputPlace wd x.member)) →
      v.node? (a.outputPlace wd x.member) = some (.file (x.left.delivery x.member).bytes)) := by
  induction earlier generalizing opened t with
  | nil =>
    cases course with
    | @step opened left member t u v result rest tried onward =>
      subst here
      have here' := tried.develops.workingDirectory
      obtain rfl : result = _ := failed
      generalize same : (Except.error (.archive a.file error) : Except Failure Unit) = result
        at tried
      cases tried with
      | skipped => cases same
      | blocked => cases same
      | written fit _ _ resolved noDirectory =>
        have file := (node?_put_of_fit noDirectory (.file (left.delivery member).bytes)
          (a.outputPlace t.workingDirectory member)).trans (if_pos rfl)
        have leads := (put_develops resolved noDirectory
          (.file (left.delivery member).bytes)).resolve resolved
        have passed := fun keeps =>
          onward.passed_over keeps here' ⟨fit, rfl⟩ leads file
        refine ⟨fun keeps => (passed keeps).1, fun reason => ?_⟩
        rcases reason with keeps | apart
        · exact (passed keeps).2
        · exact (onward.file_iff here' apart).mpr file
  | cons first earlier ih =>
    cases course with
    | step tried onward => exact ih onward (tried.develops.workingDirectory.trans here)

end Course

/-- What becomes of members that cannot be extracted. Every selected member is tried, and a run
fails with the number of attempts that failed. Each attempt finds in the archive what was opened,
unless the archive's file is a member's and was emptied; if it is not passed over and the host
allows it, it comes to what is delivered. Where it fails, either the host refused it and no file was
changed, or its file holds what was delivered and no other file was changed. That stays so to the
end if no later member has that file, and where files are kept, those that have it are passed
over. -/
theorem run_failures (a : Arguments) (c : Console) {opened : Opened}
    (opens : ((openArchive Console.host a).run c).1 = .ok opened)
    (extracts : (a.list || a.verbose || a.pipe) = false) :
    let wd := c.tree.workingDirectory
    let members := a.selected opened.archive
    let xs := attempts a members opened c
    let done := (run Console.host a).run c
    xs.map Attempt.member = members ∧
    done.1 = (if xs.countP Attempt.failed = 0 then .ok ()
      else .error (.members (xs.countP Attempt.failed) a.file)) ∧
    Course a opened c.tree xs done.2.tree ∧
    (∀ x ∈ xs, x.left = opened ∨ x.left = opened.emptied) ∧
    (∀ source, c.tree.resolve opened.file = .ok source →
      (∀ member ∈ members, ¬ a.GoesTo wd member source) → ∀ x ∈ xs, x.left = opened) ∧
    (∀ x ∈ xs, ¬ IsRefused x.member.name → ¬ a.Keeps x.before x.member →
      (∃ error, x.result = .error (.host error)) ∨
        x.result = a.resultOf (x.left.delivery x.member)) ∧
    (∀ x ∈ xs, ∀ failure, x.result = .error failure → Fails a wd x failure) ∧
    ∀ earlier x later error, xs = earlier ++ x :: later →
      x.result = .error (.archive a.file error) →
      (a.keeps = true → ∀ y ∈ later, a.GoesTo wd y.member (a.outputPlace wd x.member) →
        y.result = .ok () ∧ y.after = y.before) ∧
      (a.keeps = true ∨ (∀ y ∈ later, ¬ a.GoesTo wd y.member (a.outputPlace wd x.member)) →
        done.2.tree.node? (a.outputPlace wd x.member) =
          some (.file (x.left.delivery x.member).bytes)) := by
  intro wd members xs done
  obtain ⟨outcome, course⟩ := run_attempts opens extracts
  obtain ⟨-, reads⟩ := openArchive_reads opens
  have tried : xs.map Attempt.member = members := map_member_attempts a members opened c
  refine ⟨tried, outcome, course, course.left_cases reads, ?_,
    fun x among => (course.tried x among).1.result_eq, ?_, ?_⟩
  · intro source leads apart
    apply course.left_eq_of_apart rfl leads reads
    intro x among
    apply apart
    rw [← tried]
    exact List.mem_map_of_mem among
  · intro x among failure failed
    obtain ⟨each, same⟩ := course.tried x among
    have fails := each.fails failed
    rwa [same] at fails
  · intro earlier x later error split failed
    have course' : Course a opened c.tree xs done.2.tree := course
    rw [split] at course'
    exact course'.left_behind rfl failed

end

/-- Of a member with an unknown method an empty file is left where none was. -/
theorem missingFile_left_empty :
    let c := besideOld 77
    let a : Arguments := { file := "a.zip", directory := some "out", quiet := 2 }
    let opened := laidOut (oneMember 77) "a.zip"
    let done := (run Console.host a).run c
    ((openArchive Console.host a).run c).1 = .ok opened ∧
      c.tree.node? ["f", "out"] = none ∧
      (∃ x failure, attempts a (a.selected opened.archive) opened c = [x] ∧
        x.result = .error failure ∧ Fails a [] x failure) ∧
      done.1 = .error (.members 1 "a.zip") ∧
      done.2.tree.node? ["f", "out"] = some (.file .empty) := by
  intro c a opened done
  have fits : (oneMember 77).Fits := by decide +kernel
  have small : (oneMember 77).bytes.length < fileOffsetLimit := by decide +kernel
  have opens : ((openArchive Console.host a).run c).1 = .ok opened :=
    besideOld_opens fits small rfl rfl rfl
  have selected : a.selected opened.archive = [(newFile 77).member 0 0] := by decide +kernel
  obtain ⟨error, undelivered⟩ := newFile_undelivered
  have path : a.outputPath ((newFile 77).member 0 0) = "out/f" := by decide +kernel
  have absent : (c.tree.find? "out/f").isSome = false := by decide +kernel
  have parent : (parentMade a ((newFile 77).member 0 0) c).2.tree.node? ["f", "out"] = none := by
    decide +kernel
  obtain ⟨failed, file⟩ := @run_single a _ _ c ["f", "out"] _ opens rfl selected
    (by decide +kernel) (fun kept => Bool.false_ne_true (absent.symm.trans (path ▸ kept.2)))
    (by decide +kernel) (by decide +kernel) (by rw [parent]; exact nofun) (by decide +kernel)
  rw [undelivered] at failed file
  obtain ⟨tried, outcome, -, -, -, -, fails, -⟩ := run_failures a c opens rfl
  rw [selected] at tried outcome fails ⊢
  obtain ⟨x, single, -⟩ := List.map_eq_singleton_iff.mp tried
  refine ⟨opens, rfl, ?_, failed, file⟩
  rw [single] at outcome fails
  cases result : x.result with
  | ok _ =>
    rw [List.countP_singleton, Attempt.failed_eq_false.mpr result] at outcome
    cases failed.symm.trans outcome
  | error failure =>
    exact ⟨x, failure, single, result, fails x List.mem_cons_self failure result⟩

/-- The file `f` is emptied for it. -/
theorem oldFile_emptied :
    let c := besideOld 77
    let a : Arguments := { file := "a.zip", overwrite := true, quiet := 2 }
    let done := (run Console.host a).run c
    ((openArchive Console.host a).run c).1 = .ok (laidOut (oneMember 77) "a.zip") ∧
      c.tree.node? ["f"] = some (.file [0x6f, 0x6c, 0x64].toByteArray) ∧
      done.1 = .error (.members 1 "a.zip") ∧
      done.2.tree.node? ["f"] = some (.file .empty) := by
  intro c a done
  have fits : (oneMember 77).Fits := by decide +kernel
  have small : (oneMember 77).bytes.length < fileOffsetLimit := by decide +kernel
  have opens : ((openArchive Console.host a).run c).1 = .ok (laidOut (oneMember 77) "a.zip") :=
    besideOld_opens fits small rfl rfl rfl
  obtain ⟨error, undelivered⟩ := newFile_undelivered
  obtain ⟨failed, file⟩ := @run_single a _ _ c ["f"] _ opens rfl
    (show _ = [(newFile 77).member 0 0] by decide +kernel)
    (by decide +kernel) (fun kept => Bool.false_ne_true kept.1) (by decide +kernel)
    (by decide +kernel) (parentMade_besideOld _ _ _) (by decide +kernel)
  rw [undelivered] at failed file
  exact ⟨opens, rfl, failed, file⟩

end ZipArchive.Command
