import ZipArchive.Proofs.LaidOut

/-!
# What a run does to files that are there

Where files are kept, none that was there before is changed, and the first member that is written to
a place stays there (`Course.file_kept`, `Course.first_written`). Where they are not, the last one
does, if all goes well (`Course.last_written`). A run touches no file but those of its members
(`Course.file_iff`). Whether a file is there is asked before the directories on the way to it are
made, so that a path that leads up out of a missing directory can lead to a file after all and empty
it (`onlyMember_overwritten`).
-/
namespace ZipArchive.Command

open FileTree

variable {a : Arguments} {opened left : Opened} {member : Member} {c : Console}
  {t u v : FileTree} {place : List String} {content : ByteArray}
  {result : Except Failure Unit} {xs : List Attempt}

/-! ## One attempt -/

/-- Where files are kept, a member is not written to a file that is there: its path leads there
already before any directory is made. -/
theorem Tried.absent_of_written (keeps : a.keeps = true) (wellFormed : t.WellFormed)
    (stepsUp : t.StepsUp (a.directory.getD "")) (fit : ¬ IsRefused member.name)
    (free : ¬ a.Keeps t member) (furnished : Furnished t u)
    (resolved : u.resolve (a.outputPath member) = .ok place) :
    t.node? place ≠ some (.file content) := by
  intro file
  obtain ⟨some, plain⟩ := @components_spec a.junkPaths _ fit
  have path : t.StepsUp (a.outputPath member) :=
    @StepsUp.destination t (a.destination member) stepsUp some plain
  have there := resolve_of_file wellFormed path furnished resolved file
  apply free
  refine ⟨keeps, ?_⟩
  rw [find?_of_resolve there, file]
  rfl

section
variable [Decoders]

namespace Tried

/-- A file that is not the member's is left alone. -/
theorem file_iff (tried : Tried a opened member t result left u)
    (apart : ¬ a.GoesTo t.workingDirectory member place) :
    u.node? place = some (.file content) ↔ t.node? place = some (.file content) := by
  cases tried with
  | skipped => rfl
  | blocked _ _ furnished => exact furnished.file_iff
  | @written fit _ u furnished resolved free =>
    have other : place ≠ a.outputPlace t.workingDirectory member := fun same =>
      apart ⟨fit, same.symm⟩
    rw [node?_put_of_fit free, if_neg other, furnished.file_iff]

/-- A member that must keep its file is passed over. -/
theorem of_keeps (tried : Tried a opened member t result left u) (kept : a.Keeps t member) :
    result = .ok () ∧ u = t := by
  cases tried with
  | skipped => exact ⟨rfl, rfl⟩
  | blocked _ free => exact absurd kept free
  | written _ free => exact absurd kept free

/-- Where files are kept, one that is there stays as it is. -/
theorem file_kept (keeps : a.keeps = true) (wellFormed : t.WellFormed)
    (stepsUp : t.StepsUp (a.directory.getD "")) (tried : Tried a opened member t result left u)
    (file : t.node? place = some (.file content)) : u.node? place = some (.file content) := by
  by_cases goes : a.GoesTo t.workingDirectory member place
  · cases tried with
    | skipped => exact file
    | blocked _ _ furnished => exact furnished.file_iff.mpr file
    | written fit free furnished resolved =>
      rw [goes.2] at resolved
      exact absurd file (absent_of_written keeps wellFormed stepsUp fit free furnished resolved)
  · exact (tried.file_iff goes).mpr file

/-- A member that leaves nothing in its place was refused by the host. -/
theorem blocked_of_absent (tried : Tried a opened member t result left u)
    (goes : a.GoesTo t.workingDirectory member place)
    (noFile : ∀ found, u.node? place ≠ some (.file found))
    (noDirectory : u.node? place ≠ some .directory) : ∃ error, result = .error (.host error) := by
  cases tried with
  | blocked _ _ _ error => exact ⟨error, rfl⟩
  | skipped reason =>
    rcases reason with refused | ⟨-, there⟩
    · exact absurd refused goes.1
    · obtain ⟨node, found⟩ := Option.isSome_iff_exists.mp there
      unfold find? at found
      cases resolved : t.resolve (a.outputPath member) with
      | error cause =>
        rw [resolved] at found
        cases found
      | ok reached =>
        rw [resolved, resolve_ok resolved, a.placeOf_outputPath _ goes.1, goes.2] at found
        cases node with
        | file content => exact absurd found (noFile content)
        | directory => exact absurd found noDirectory
  | @written _ _ _ _ _ free left =>
    rw [goes.2] at free noFile
    refine absurd ?_ (noFile (left.delivery member).bytes)
    rw [node?_put_of_fit free, if_pos rfl]

/-- Where files are kept, the archive is not emptied either. -/
theorem left_eq_of_keeps (keeps : a.keeps = true) (wellFormed : t.WellFormed)
    (stepsUp : t.StepsUp (a.directory.getD "")) (tried : Tried a opened member t result left u) :
    left = opened := by
  cases tried with
  | skipped => rfl
  | blocked => rfl
  | @written fit free u furnished resolved noDirectory left reread =>
    rw [reread]
    apply if_neg
    intro there
    obtain ⟨node, found⟩ := Option.isSome_iff_exists.mp there
    cases node with
    | directory => exact noDirectory found
    | file content =>
      exact absent_of_written keeps wellFormed stepsUp fit free furnished resolved
        (furnished.file_iff.mp found)

/-- Unless its file is the archive's own, an attempt leaves the archive as it was. -/
theorem left_eq_of_apart (tried : Tried a opened member t result left u) {source : List String}
    (leads : t.resolve opened.file = .ok source) (reads : t.read opened.file = .ok opened.content)
    (apart : ¬ a.GoesTo t.workingDirectory member source) :
    left = opened ∧ u.read opened.file = .ok opened.content := by
  cases tried with
  | skipped => exact ⟨rfl, reads⟩
  | blocked _ _ furnished => exact ⟨rfl, furnished.read reads⟩
  | @written fit free u furnished resolved noDirectory left reread =>
    have other : u.resolve opened.file ≠ .ok (a.outputPlace t.workingDirectory member) := by
      rw [furnished.develops.resolve leads]
      exact fun same => apart ⟨fit, (Except.ok.inj same).symm⟩
    have stays := fun node => read_put resolved noDirectory node (furnished.read reads) other
    have same : left = opened := by
      rw [reread, Opened.foundIn_of_read (stays _), ite_self]
    exact ⟨same, stays _⟩

/-- If it is the archive's own, the archive can be empty afterwards. -/
theorem left_cases (tried : Tried a opened member t result left u)
    (reads : t.read opened.file = .ok opened.content) :
    (left = opened ∨ left = opened.emptied) ∧ u.read opened.file = .ok left.content := by
  obtain ⟨source, leads, file⟩ := read_eq_ok_iff.mp reads
  by_cases goes : a.GoesTo t.workingDirectory member source
  · cases tried with
    | skipped => exact ⟨.inl rfl, reads⟩
    | blocked _ _ furnished => exact ⟨.inl rfl, furnished.read reads⟩
    | @written fit free u furnished resolved noDirectory left reread =>
      rw [goes.2] at resolved noDirectory reread ⊢
      have holds : ∀ content, (u.put source (.file content)).read opened.file = .ok content := by
        intro content
        have leads := furnished.develops.resolve leads
        refine read_eq_ok_iff.mpr ⟨_, (put_develops resolved noDirectory _).resolve leads, ?_⟩
        rw [node?_put_of_fit noDirectory, if_pos rfl]
      rw [furnished.file_iff.mpr file, Option.isSome_some, if_pos rfl, Opened.foundIn,
        holds] at reread
      obtain rfl : left = opened.emptied := reread
      obtain ⟨error, nothing⟩ := opened.delivery_emptied member
      refine ⟨.inr rfl, ?_⟩
      rw [nothing, holds, Opened.emptied]
  · obtain ⟨rfl, stays⟩ := tried.left_eq_of_apart leads reads goes
    exact ⟨.inl rfl, stays⟩

/-- An attempt that succeeds has not emptied the archive, as nothing is delivered from one that is
empty. -/
theorem left_eq_of_ok (tried : Tried a opened member t (.ok ()) left u)
    (reads : t.read opened.file = .ok opened.content) :
    left = opened ∧ u.read opened.file = .ok opened.content := by
  obtain ⟨rfl | rfl, reads⟩ := tried.left_cases reads
  · exact ⟨rfl, reads⟩
  obtain ⟨error, nothing⟩ := opened.delivery_emptied member
  generalize ok : (Except.ok () : Except Failure Unit) = result at tried
  generalize gone : opened.emptied = left at tried nothing ⊢
  cases tried with
  | skipped => exact ⟨rfl, gone ▸ reads⟩
  | blocked => cases ok
  | written =>
    have whole := Arguments.resultOf_eq_ok.mp ok.symm
    rw [nothing] at whole
    cases whole

end Tried

/-! ## All attempts of a run -/

/-- One attempt among others wrote the file at a place: those before it were refused by the host,
and those after it passed it over. -/
structure WrittenOnce (a : Arguments) (opened : Opened) (wd place : List String)
    (content : ByteArray) (earlier : List Attempt) (x : Attempt) (later : List Attempt) : Prop where
  goes : a.GoesTo wd x.member place
  content_eq : content = (opened.delivery x.member).bytes
  result_eq : x.result = a.resultOf (opened.delivery x.member)
  earlier_refused : ∀ y ∈ earlier, a.GoesTo wd y.member place →
    ∃ error, y.result = .error (.host error)
  later_passed : ∀ y ∈ later, a.GoesTo wd y.member place → y.result = .ok () ∧ y.after = y.before

namespace Course

variable {wd : List String}

theorem develops (course : Course a opened t xs v) : Develops t v := by
  induction course with
  | done => exact .refl _
  | step tried _ ih => exact tried.develops.trans ih

/-- A file that is none of the members' is left alone. -/
theorem file_iff (course : Course a opened t xs v) (here : t.workingDirectory = wd)
    (apart : ∀ x ∈ xs, ¬ a.GoesTo wd x.member place) :
    v.node? place = some (.file content) ↔ t.node? place = some (.file content) := by
  induction course with
  | done => rfl
  | step tried _ ih =>
    obtain ⟨first, others⟩ := List.forall_mem_cons.mp apart
    rw [ih (tried.develops.workingDirectory.trans here) others]
    apply tried.file_iff
    rwa [here]

/-- Where files are kept, one that was there before the run is not changed. -/
theorem file_kept (keeps : a.keeps = true) (wellFormed : t.WellFormed)
    (stepsUp : t.StepsUp (a.directory.getD "")) (course : Course a opened t xs v)
    (file : t.node? place = some (.file content)) : v.node? place = some (.file content) := by
  induction course with
  | done => exact file
  | step tried _ ih =>
    have develops := tried.develops
    apply ih (develops.wellFormed wellFormed) (develops.stepsUp stepsUp)
    exact tried.file_kept keeps wellFormed stepsUp file

/-- Where files are kept, a member whose file is there is passed over, however late it is tried, and
the file stays as it is. -/
theorem passed_over (keeps : a.keeps = true) (course : Course a opened t xs v)
    (here : t.workingDirectory = wd) (goes : a.GoesTo wd member place)
    (leads : t.resolve (a.outputPath member) = .ok place)
    (file : t.node? place = some (.file content)) :
    (∀ y ∈ xs, a.GoesTo wd y.member place → y.result = .ok () ∧ y.after = y.before) ∧
      v.node? place = some (.file content) := by
  induction course with
  | done => exact ⟨fun _ none => absurd none List.not_mem_nil, file⟩
  | @step opened left other t u v result rest tried _ ih =>
    have develops := tried.develops
    have passed : a.GoesTo wd other place → result = .ok () ∧ u = t := by
      intro same
      apply tried.of_keeps
      refine ⟨keeps, ?_⟩
      rw [Arguments.outputPath_congr (same.2.trans goes.2.symm), find?_of_resolve leads, file]
      rfl
    have stays : u.node? place = some (.file content) := by
      by_cases same : a.GoesTo wd other place
      · rw [(passed same).2, file]
      · apply (tried.file_iff _).mpr file
        rwa [here]
    obtain ⟨others, file⟩ :=
      ih (develops.workingDirectory.trans here) (develops.resolve leads) stays
    exact ⟨List.forall_mem_cons.mpr ⟨passed, others⟩, file⟩

/-- Where files are kept, a file that the run made was written once: by the first of its members
that the host did not refuse. -/
theorem first_written (keeps : a.keeps = true) (wellFormed : t.WellFormed)
    (stepsUp : t.StepsUp (a.directory.getD "")) (course : Course a opened t xs v)
    (here : t.workingDirectory = wd) (absent : ∀ old, t.node? place ≠ some (.file old))
    (file : v.node? place = some (.file content)) :
    ∃ earlier x later, xs = earlier ++ x :: later ∧
      WrittenOnce a opened wd place content earlier x later := by
  induction course with
  | done => exact absurd file (absent content)
  | @step opened left member t u v result rest tried onward ih =>
    have develops := tried.develops
    have here' := develops.workingDirectory.trans here
    have wellFormed' := develops.wellFormed wellFormed
    have stepsUp' := develops.stepsUp stepsUp
    have left_eq := tried.left_eq_of_keeps keeps wellFormed stepsUp
    by_cases made : ∃ found, u.node? place = some (.file found)
    · -- This attempt made the file, and it stays as it is from here on.
      obtain ⟨found, made⟩ := made
      have goes : a.GoesTo wd member place := by
        by_contra apart
        rw [← here] at apart
        exact absent found ((tried.file_iff apart).mp made)
      have same := (onward.file_kept keeps wellFormed' stepsUp' made).symm.trans file
      obtain rfl : found = content := Node.file.inj (Option.some.inj same)
      obtain rfl : a.outputPlace t.workingDirectory member = place := by
        rw [here]
        exact goes.2
      cases tried with
      | skipped => exact absurd made (absent found)
      | blocked _ _ furnished => exact absurd (furnished.file_iff.mp made) (absent found)
      | @written fit free u furnished resolved noDirectory left reread =>
        have there := (node?_put_of_fit noDirectory (.file (left.delivery member).bytes)
          (a.outputPlace t.workingDirectory member)).trans (if_pos rfl)
        have bytes := Node.file.inj (Option.some.inj (there.symm.trans made))
        have leads := (put_develops resolved noDirectory
          (.file (left.delivery member).bytes)).resolve resolved
        refine ⟨[], _, rest, rfl, goes, ?_, ?_, ?_, ?_⟩
        · rw [← left_eq, bytes]
        · rw [← left_eq]
        · exact fun _ none => absurd none List.not_mem_nil
        · exact (onward.passed_over keeps here' goes leads there).1
    · have absent' : ∀ old, u.node? place ≠ some (.file old) := fun old found => made ⟨old, found⟩
      obtain ⟨earlier, x, later, split, once⟩ := ih wellFormed' stepsUp' here' absent' file
      rw [left_eq] at once
      refine ⟨⟨member, opened, t, result, left, u⟩ :: earlier, x, later, ?_,
        once.goes, once.content_eq, once.result_eq, ?_, once.later_passed⟩
      · rw [split]
        rfl
      · intro y among same
        rcases List.mem_cons.mp among with rfl | others
        · rw [← here] at same
          exact tried.blocked_of_absent same absent' fun directory => by
            rw [onward.develops.directories place directory] at file
            cases file
        · exact once.earlier_refused y others same

/-- Where files are not kept and all goes well, a file holds what the last of its members has. -/
theorem last_written (loose : a.keeps = false) {earlier later : List Attempt} {x : Attempt}
    (course : Course a opened t (earlier ++ x :: later) v) (here : t.workingDirectory = wd)
    (reads : t.read opened.file = .ok opened.content)
    (succeeds : ∀ y ∈ earlier ++ x :: later, y.result = .ok ())
    (goes : a.GoesTo wd x.member place) (last : ∀ y ∈ later, ¬ a.GoesTo wd y.member place) :
    (opened.delivery x.member).failure = none ∧
      v.node? place = some (.file (opened.delivery x.member).bytes) := by
  induction earlier generalizing opened t with
  | nil =>
    cases course with
    | @step opened left member t u v result rest tried onward =>
      obtain rfl : result = .ok () := succeeds _ List.mem_cons_self
      obtain ⟨left_eq, -⟩ := tried.left_eq_of_ok reads
      rw [onward.file_iff (tried.develops.workingDirectory.trans here) last]
      generalize ok : (Except.ok () : Except Failure Unit) = result at tried
      cases tried with
      | skipped reason =>
        rcases reason with refused | ⟨keeps, -⟩
        · exact absurd refused goes.1
        · rw [loose] at keeps
          cases keeps
      | blocked => cases ok
      | written _ _ _ _ free =>
        rw [here, goes.2] at free ⊢
        rw [node?_put_of_fit free, if_pos rfl, left_eq]
        rw [left_eq] at ok
        exact ⟨Arguments.resultOf_eq_ok.mp ok.symm, rfl⟩
  | cons first earlier ih =>
    cases course with
    | @step opened left member t u v result rest tried onward =>
      obtain ⟨ok, others⟩ := List.forall_mem_cons.mp succeeds
      obtain rfl : result = .ok () := ok
      obtain ⟨left_eq, reads'⟩ := tried.left_eq_of_ok reads
      rw [left_eq] at onward
      exact ih onward (tried.develops.workingDirectory.trans here) reads' others

end Course

/-! ## Whole runs -/

section

variable {m : Type → Type} [Monad m] (host : Host m) (overwrite : Bool)

/-- Where files must not be overwritten, it makes no difference that somebody asked for it. -/
theorem extractMember_never (never : a.neverOverwrite = true) (opened : Opened) (member : Member) :
    extractMember host { a with overwrite } opened member = extractMember host a opened member := by
  unfold extractMember
  cases outputParts a.junkPaths member.name with
  | none => rfl
  | some parts =>
    dsimp only
    rw [never]
    refine congrArg (host.isPresent _ >>= ·) (funext fun wasThere => ?_)
    cases wasThere <;> rfl

theorem extractAll_never (never : a.neverOverwrite = true) (headed : Bool) (members : List Member)
    (opened : Opened) (failed : Nat) :
    extractAll host { a with overwrite } headed members opened failed =
      extractAll host a headed members opened failed := by
  induction members generalizing opened failed with
  | nil => rfl
  | cons member rest ih =>
    unfold extractAll
    rw [extractMember_never host overwrite never]
    simp only [ih]
    rfl

theorem run_never (never : a.neverOverwrite = true) :
    run host { a with overwrite } = run host a := by
  unfold run process
  simp only [extractAll_never host overwrite never]
  rfl

end

/-- Which files a run changes. Where files are kept and the target directory's path leads up out of
no directory that is missing, no file is changed that was there, and one that the run made was
written once, by the first of its members that could be. Where they are not kept and all goes well,
each file holds what the last of its members has. A file that is no selected member's is never
changed. That files must not be overwritten outweighs that it was asked for. -/
theorem run_overwrites (a : Arguments) (c : Console) {opened : Opened}
    (opens : ((openArchive Console.host a).run c).1 = .ok opened)
    (extracts : (a.list || a.verbose || a.pipe) = false) :
    let wd := c.tree.workingDirectory
    let members := a.selected opened.archive
    let xs := attempts a members opened c
    let done := (run Console.host a).run c
    (a.keeps = true → c.tree.WellFormed → c.tree.StepsUp (a.directory.getD "") →
      (∀ place content, c.tree.node? place = some (.file content) →
        done.2.tree.node? place = some (.file content)) ∧
      ∀ place content, (∀ old, c.tree.node? place ≠ some (.file old)) →
        done.2.tree.node? place = some (.file content) →
          ∃ earlier x later, xs = earlier ++ x :: later ∧
            WrittenOnce a opened wd place content earlier x later) ∧
    (a.keeps = false → done.1 = .ok () → ∀ earlier member later,
      members = earlier ++ member :: later → ¬ IsRefused member.name →
      (∀ other ∈ later, ¬ a.GoesTo wd other (a.outputPlace wd member)) →
        ∃ bytes count, opened.extraction member = .ok ⟨bytes, .ok count⟩ ∧
          done.2.tree.node? (a.outputPlace wd member) = some (.file bytes)) ∧
    (∀ place content, (∀ member ∈ members, ¬ a.GoesTo wd member place) →
      (done.2.tree.node? place = some (.file content) ↔
        c.tree.node? place = some (.file content))) ∧
    (a.neverOverwrite = true → ∀ overwrite,
      run Console.host { a with overwrite } = run Console.host a) := by
  intro wd members xs done
  obtain ⟨outcome, course⟩ := run_attempts opens extracts
  have tried : xs.map Attempt.member = members := map_member_attempts a members opened c
  refine ⟨?_, ?_, ?_, ?_⟩
  · intro keeps wellFormed stepsUp
    constructor
    · intro place content file
      exact course.file_kept keeps wellFormed stepsUp file
    · intro place content absent file
      exact course.first_written keeps wellFormed stepsUp rfl absent file
  · intro loose ok earlier member later split fit last
    obtain ⟨-, reads⟩ := openArchive_reads opens
    have none_failed : xs.countP Attempt.failed = 0 := by
      by_contra some
      have outcome' : done.1 = _ := outcome
      rw [if_neg some, ok] at outcome'
      cases outcome'
    have succeeds : ∀ y ∈ xs, y.result = .ok () := by
      intro y among
      have passed := List.countP_eq_zero.mp none_failed y among
      exact Attempt.failed_eq_false.mp (Bool.eq_false_iff.mpr passed)
    rw [split] at tried
    obtain ⟨before, behind, parts, -, second⟩ := List.map_eq_append_iff.mp tried
    obtain ⟨x, after, rfl, rfl, others⟩ := List.map_eq_cons_iff.mp second
    have course' : Course a opened c.tree xs done.2.tree := course
    rw [parts] at course' succeeds
    have last' : ∀ y ∈ after, ¬ a.GoesTo wd y.member (a.outputPlace wd x.member) := by
      intro y among
      apply last
      rw [← others]
      exact List.mem_map_of_mem among
    obtain ⟨whole, file⟩ := course'.last_written loose rfl reads succeeds ⟨fit, rfl⟩ last'
    obtain ⟨count, extracted⟩ := Opened.extraction_of_delivery whole
    exact ⟨_, count, extracted, file⟩
  · intro place content apart
    apply course.file_iff rfl
    intro x among
    apply apart
    rw [← tried]
    exact List.mem_map_of_mem among
  · exact fun never overwrite => run_never Console.host overwrite never

end

/-- The file `f` is kept where files must not be overwritten, though it was asked for, and holds the
content of the member where it was asked for alone. -/
theorem oldFile_kept :
    let c := besideOld 0
    let asked : Arguments := { file := "a.zip", overwrite := true, quiet := 2 }
    let forbidden : Arguments := { asked with neverOverwrite := true }
    let opened := laidOut (oneMember 0) "a.zip"
    ((openArchive Console.host asked).run c).1 = .ok opened ∧
      ((openArchive Console.host forbidden).run c).1 = .ok opened ∧
      c.tree.WellFormed ∧ c.tree.StepsUp (forbidden.directory.getD "") ∧
      ((run Console.host forbidden).run c).2.tree.node? ["f"] =
        some (.file [0x6f, 0x6c, 0x64].toByteArray) ∧
      ((run Console.host asked).run c).1 = .ok () ∧
      ∃ new count, opened.extraction ((newFile 0).member 0 0) = .ok ⟨new, .ok count⟩ ∧
        ((run Console.host asked).run c).2.tree.node? ["f"] = some (.file new) := by
  intro c asked forbidden opened
  have fits : (oneMember 0).Fits := by decide +kernel
  have small : (oneMember 0).bytes.length < fileOffsetLimit := by decide +kernel
  have opens : ((openArchive Console.host asked).run c).1 = .ok opened :=
    besideOld_opens fits small rfl rfl rfl
  have opens' : ((openArchive Console.host forbidden).run c).1 = .ok opened :=
    besideOld_opens fits small rfl rfl rfl
  have wellFormed : c.tree.WellFormed := besideOld_wellFormed 0
  have stepsUp : c.tree.StepsUp (forbidden.directory.getD "") := ⟨[], _, _, rfl, by decide, rfl⟩
  have selected : asked.selected opened.archive = [(newFile 0).member 0 0] := by decide +kernel
  have kept := ((run_overwrites forbidden c opens' rfl).1 rfl wellFormed stepsUp).1 ["f"] _ rfl
  obtain ⟨bytes, delivered, -⟩ := newFile_delivered
  obtain ⟨ok, -⟩ := @run_single asked _ _ c ["f"] _ opens rfl selected
    (by decide +kernel) (fun keeps => Bool.false_ne_true keeps.1) (by decide +kernel)
    (by decide +kernel) (parentMade_besideOld _ _ _) (by decide +kernel)
  rw [delivered] at ok
  have place : asked.outputPlace c.tree.workingDirectory ((newFile 0).member 0 0) = ["f"] := by
    decide +kernel
  obtain ⟨new, count, extracted, file⟩ := (run_overwrites asked c opens rfl).2.1 rfl ok [] _ []
    selected (by decide +kernel) (fun _ none => absurd none List.not_mem_nil)
  rw [place] at file
  exact ⟨opens, opens', wellFormed, stepsUp, kept, ok, new, count, extracted, file⟩

/-- Files must not be overwritten, and the target directory leads up out of one that is missing. -/
def upOutOfMissing : Arguments where
  file := "a.zip"
  directory := some "new/.."
  neverOverwrite := true
  quiet := 2

/-- The file `f` is overwritten. -/
theorem onlyMember_overwritten :
    let c := besideOld 0
    let done := (run Console.host upOutOfMissing).run c
    c.tree.WellFormed ∧ upOutOfMissing.keeps = true ∧ done.1 = .ok () ∧
      c.tree.node? ["f"] = some (.file [0x6f, 0x6c, 0x64].toByteArray) ∧
      ∃ new, done.2.tree.node? ["f"] = some (.file new) ∧ new.data.toList = [0x6e, 0x65, 0x77] := by
  intro c done
  have fits : (oneMember 0).Fits := by decide +kernel
  have small : (oneMember 0).bytes.length < fileOffsetLimit := by decide +kernel
  have opens : ((openArchive Console.host upOutOfMissing).run c).1 =
      .ok (laidOut (oneMember 0) "a.zip") := besideOld_opens fits small rfl rfl rfl
  obtain ⟨new, delivered, payload⟩ := newFile_delivered
  have wellFormed : c.tree.WellFormed := besideOld_wellFormed 0
  have path : upOutOfMissing.outputPath ((newFile 0).member 0 0) = "new/../f" := by decide +kernel
  have absent : (c.tree.find? "new/../f").isSome = false := by decide +kernel
  have free : ¬ upOutOfMissing.Keeps c.tree ((newFile 0).member 0 0) := fun kept =>
    Bool.false_ne_true (absent.symm.trans (path ▸ kept.2))
  obtain ⟨ok, file⟩ := @run_single upOutOfMissing _ _ c ["f"] _ opens rfl
    (show _ = [(newFile 0).member 0 0] by decide +kernel)
    (by decide +kernel) free (by decide +kernel) (by decide +kernel)
    (parentMade_besideOld _ _ _) (by decide +kernel)
  rw [delivered] at ok file
  exact ⟨wellFormed, rfl, ok, rfl, new, file, payload⟩

end ZipArchive.Command
