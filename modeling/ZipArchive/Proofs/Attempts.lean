import ZipArchive.Proofs.Delivery
import ZipArchive.Proofs.Trees

/-!
# Attempts at members

A run tries the selected members one after the other. An attempt passes its member over, or is
refused by the host before there is a file, or leaves the file with what could be delivered of the
member (`Tried`). The attempts of a run are such steps one after the other (`Course`), and the run
fails with the number of those that failed (`run_attempts`).
-/
namespace ZipArchive.Command

open FileTree

/-! ## What is written, and where -/

namespace Opened

/-- What the file of a member is given, and why that is not all. -/
def delivery [Decoders] (o : Opened) (m : Member) : Extraction :=
  match o.extraction m with
  | .ok found => found
  | .error error => ⟨.empty, .error error⟩

theorem extraction_of_delivery [Decoders] {o : Opened} {m : Member}
    (whole : (o.delivery m).failure = none) :
    ∃ count, o.extraction m = .ok ⟨(o.delivery m).bytes, .ok count⟩ := by
  unfold delivery at whole ⊢
  cases extracted : o.extraction m with
  | error error =>
    rw [extracted] at whole
    cases whole
  | ok found =>
    rw [extracted] at whole
    obtain ⟨bytes, error | count⟩ := found
    · cases whole
    · exact ⟨count, rfl⟩

/-- The archive, with the content that its file has in a tree. -/
def foundIn (o : Opened) (t : FileTree) : Opened :=
  match t.read o.file with
  | .ok content => { o with content }
  | .error _ => o

/-- The archive, once its file was emptied. -/
def emptied (o : Opened) : Opened := { o with content := .empty }

/-- Nothing is delivered from it then. -/
theorem delivery_emptied [Decoders] (o : Opened) (m : Member) :
    ∃ error, o.emptied.delivery m = ⟨.empty, .error error⟩ := by
  have dry : o.emptied.source.IsDry := by
    intro offset length s
    have none : slice .empty offset length = .empty := ByteArray.ext (by simp [slice])
    refine ⟨s, ?_⟩
    change (Except.ok (slice .empty offset length), s) = _
    rw [none]
  obtain ⟨error, failed⟩ := o.emptied.archive.extraction_dry m.index dry none ⟨(), #[]⟩
  exact ⟨error, by simp only [delivery, extraction, failed]⟩

theorem foundIn_of_read {o : Opened} {t : FileTree} (same : t.read o.file = .ok o.content) :
    o.foundIn t = o := by
  rw [foundIn, same]

end Opened

namespace Arguments

/-- Files that are there already are kept: they must not be overwritten, or nobody asked for it. -/
def keeps (a : Arguments) : Bool := a.neverOverwrite || !a.overwrite

/-- What an attempt comes to that delivered this to its file. -/
def resultOf (a : Arguments) (found : Extraction) : Except Failure Unit :=
  match found.failure with
  | none => .ok ()
  | some error => .error (.archive a.file error)

theorem resultOf_eq_ok {a : Arguments} {found : Extraction} :
    a.resultOf found = .ok () ↔ found.failure = none := by
  unfold resultOf
  cases found.failure with
  | none => exact ⟨fun _ => rfl, fun _ => rfl⟩
  | some error => exact ⟨nofun, nofun⟩

/-- The destination of a member whose name is not refused. -/
def destination (a : Arguments) (member : Member) : Destination :=
  ⟨a.directory, components a.junkPaths member.name⟩

def outputPath (a : Arguments) (member : Member) : String := (a.destination member).path

/-- Where that path leads from a working directory. -/
def outputPlace (a : Arguments) (wd : List String) (member : Member) : List String :=
  (components a.junkPaths member.name).reverse ++ placeOf wd (a.directory.getD "")

/-- The file of a member is the one at a place. -/
def GoesTo (a : Arguments) (wd : List String) (member : Member) (place : List String) : Prop :=
  ¬ IsRefused member.name ∧ a.outputPlace wd member = place

/-- A member's file is there, and must not be changed. -/
def Keeps (a : Arguments) (t : FileTree) (member : Member) : Prop :=
  a.keeps = true ∧ (t.find? (a.outputPath member)).isSome = true

theorem placeOf_outputPath (a : Arguments) (wd : List String) {member : Member}
    (fit : ¬ IsRefused member.name) :
    placeOf wd (a.outputPath member) = a.outputPlace wd member := by
  obtain ⟨some, plain⟩ := @components_spec a.junkPaths _ fit
  exact (a.destination member).placeOf_path wd some plain

/-- Members with the same place have the same path. -/
theorem outputPath_congr {a : Arguments} {wd : List String} {member other : Member}
    (same : a.outputPlace wd member = a.outputPlace wd other) :
    a.outputPath member = a.outputPath other := by
  have components := List.reverse_inj.mp (List.append_cancel_right same)
  rw [outputPath, outputPath, destination, destination, components]

end Arguments

/-! ## Runs of the parts -/

variable {a : Arguments} {opened left : Opened} {member : Member} {c c' : Console}
  {t u v : FileTree} {place : List String}

theorem run_bind {α β : Type} (x : StateM Console α) (f : α → StateM Console β) (c : Console) :
    (x >>= f).run c = (f (x.run c).1).run (x.run c).2 := rfl

theorem run_pure {α : Type} (value : α) (c : Console) :
    (pure value : StateM Console α).run c = (value, c) := rfl

theorem run_reread (opened : Opened) (c : Console) :
    (reread Console.host opened).run c = (opened.foundIn c.tree, c) := by
  unfold reread Opened.foundIn
  change (match c.tree.read opened.file with
    | .ok content => (pure { opened with content } : StateM Console Opened)
    | .error _ => pure opened).run c = _
  cases c.tree.read opened.file <;> rfl

theorem run_skip (a : Arguments) (member : Member) (reason : String) (c : Console) :
    ∃ c', (skip Console.host a member reason).run c = (.ok (), c') ∧ c'.tree = c.tree := by
  unfold skip
  cases a.isVeryQuiet with
  | true => exact ⟨c, rfl, rfl⟩
  | false => exact ⟨_, rfl, rfl⟩

/-- A file that was just made, or emptied, gets what is delivered. -/
theorem run_writeMember [Decoders] {path : String} (tree : c.tree = u.put place (.file .empty))
    (resolved : u.resolve path = .ok place) (fit : u.node? place ≠ some .directory) :
    (writeMember Console.host a opened member path).run c =
      (a.resultOf (opened.delivery member),
        { c with tree := u.put place (.file (opened.delivery member).bytes) }) := by
  have written : ∀ bytes, (Console.host.write path bytes).run c =
      (.ok (), { c with tree := u.put place (.file bytes) }) := by
    intro bytes
    have leads := (put_develops resolved fit (.file .empty)).resolve resolved
    have file : (u.put place (.file .empty)).node? place ≠ some .directory := by
      rw [node?_put_of_fit fit, if_pos rfl]
      exact nofun
    change ((c.tree.write path bytes).1, { c with tree := (c.tree.write path bytes).2 }) = _
    rw [tree, write_of_resolve leads file, put_put]
  unfold writeMember Opened.delivery Arguments.resultOf
  cases opened.extraction member with
  | error error =>
    change (_, c) = _
    rw [← tree]
    rfl
  | ok found =>
    obtain ⟨bytes, outcome⟩ := found
    by_cases none : bytes.isEmpty = true
    · obtain rfl : bytes = .empty := by simpa [ByteArray.isEmpty] using none
      dsimp only
      rw [← tree]
      cases outcome <;> rfl
    · have some : (!bytes.isEmpty) = true := by simpa using none
      dsimp only
      rw [if_pos some, run_bind, written]
      cases outcome <;> rfl

/-- The console once it was told which member is extracted. -/
def announced (a : Arguments) (member : Member) (c : Console) : Console :=
  if a.isQuiet then c
  else ((Console.host.outputLine s!"  extracting: {member.name}").run c).2

theorem announced_tree : (announced a member c).tree = c.tree := by
  unfold announced
  split <;> rfl

/-- The directory of a member's file is made. -/
def parentMade (a : Arguments) (member : Member) (c : Console) : Except IoError Unit × Console :=
  (makeParent Console.host (a.destination member)).run (announced a member c)

theorem parentMade_furnished : Furnished c.tree (parentMade a member c).2.tree := by
  rw [← @announced_tree a member c]
  exact Furnishes.makeDirectories _ _

/-! ## Opening archives -/

/-- An archive that is opened was loaded from the content of its file, and nothing else was done. -/
theorem openArchive_inv (opens : ((openArchive Console.host a).run c).1 = .ok opened) :
    ∃ content archive, c.tree.read a.file = .ok content ∧
      ((Archive.load (Source.ofContent a.file content) a.options).run ⟨(), #[]⟩).1 =
        .ok archive ∧
      opened = ⟨a.file, content.size, content, archive⟩ ∧
      (openArchive Console.host a).run c = (.ok opened, c) := by
  unfold openArchive at opens ⊢
  rw [run_bind] at opens ⊢
  have answer : (Console.host.read a.file).run c = (c.tree.read a.file, c) := rfl
  rw [answer] at opens ⊢
  cases read : c.tree.read a.file with
  | error error =>
    rw [read] at opens
    cases opens
  | ok content =>
    rw [read] at opens
    dsimp only at opens ⊢
    split at opens
    · cases opens
    · rename_i archive loaded
      cases opens
      exact ⟨content, archive, rfl, loaded, rfl, rfl⟩

/-- Opening an archive changes nothing, and the archive holds what its file does. -/
theorem openArchive_reads (opens : ((openArchive Console.host a).run c).1 = .ok opened) :
    (openArchive Console.host a).run c = (.ok opened, c) ∧
      c.tree.read opened.file = .ok opened.content := by
  obtain ⟨content, archive, read, -, rfl, run⟩ := openArchive_inv opens
  exact ⟨run, read⟩

/-- An archive is opened as it is loaded from the content of its file. -/
theorem openArchive_opens {content : ByteArray} {archive : Archive}
    (reads : c.tree.read a.file = .ok content)
    (loads : ((Archive.load (Source.ofContent a.file content) a.options).run ⟨(), #[]⟩).1 =
      .ok archive) :
    ((openArchive Console.host a).run c).1 = .ok ⟨a.file, content.size, content, archive⟩ := by
  have answer : (Console.host.read a.file).run c = (.ok content, c) := by
    rw [← reads]
    rfl
  unfold openArchive
  rw [run_bind, answer]
  dsimp only
  rw [show Opened.source ⟨a.file, content.size, content, ⟨#[]⟩⟩ = Source.ofContent a.file content
    from rfl, loads]
  rfl

/-! ## One member -/

section
variable [Decoders]

/-- What is left to do once the directory of a member's file is made, or could not be. -/
def makeFile (a : Arguments) (opened : Opened) (member : Member) :
    Except IoError Unit → StateM Console (Except Failure Unit × Opened)
  | .error error => return (.error (.host error), opened)
  | .ok () => do
    let wasThere ← Console.host.isPresent (a.outputPath member)
    match ← Console.host.create (a.outputPath member) with
    | .error error => return (.error (.host error), opened)
    | .ok () =>
      let opened ← if wasThere then reread Console.host opened else pure opened
      return (← writeMember Console.host a opened member (a.outputPath member), opened)

theorem run_extractTo :
    (extractTo Console.host a opened member (a.destination member)).run c =
      (makeFile a opened member (parentMade a member c).1).run (parentMade a member c).2 := by
  unfold extractTo parentMade announced
  cases a.isQuiet with
  | true =>
    simp only [Bool.not_true, Bool.false_eq_true, if_false, if_true]
    rw [run_bind]
    rcases (makeParent Console.host (a.destination member)).run c with ⟨error | _, c'⟩ <;> rfl
  | false =>
    simp only [Bool.not_false, Bool.false_eq_true, if_false, if_true]
    rw [run_bind, run_bind]
    rcases (makeParent Console.host (a.destination member)).run _ with ⟨error | _, c'⟩ <;> rfl

/-- Where the path of a member's file leads to no place for it, there is none. -/
theorem run_makeFile_error {error : IoError}
    (refused : c.tree.write (a.outputPath member) .empty = (.error error, c.tree)) :
    (makeFile a opened member (.ok ())).run c = ((.error (.host error), opened), c) := by
  have created : (Console.host.create (a.outputPath member)).run c = (.error error, c) := by
    change ((c.tree.write (a.outputPath member) .empty).1,
      { c with tree := (c.tree.write (a.outputPath member) .empty).2 }) = _
    rw [refused]
  unfold makeFile
  rw [run_bind, run_bind]
  change StateT.run (match ((Console.host.create (a.outputPath member)).run c).1 with
    | .error error => _ | .ok () => _) ((Console.host.create (a.outputPath member)).run c).2 = _
  rw [created]
  rfl

/-- Where there is a place for it, it is made there, and filled from the archive as it is then. -/
theorem run_makeFile (resolved : c.tree.resolve (a.outputPath member) = .ok place)
    (fit : c.tree.node? place ≠ some .directory) :
    let left := if (c.tree.node? place).isSome then opened.foundIn (c.tree.put place (.file .empty))
      else opened
    (makeFile a opened member (.ok ())).run c =
      ((a.resultOf (left.delivery member), left),
        { c with tree := c.tree.put place (.file (left.delivery member).bytes) }) := by
  have created : (Console.host.create (a.outputPath member)).run c =
      (.ok (), { c with tree := c.tree.put place (.file .empty) }) := by
    change ((c.tree.write (a.outputPath member) .empty).1,
      { c with tree := (c.tree.write (a.outputPath member) .empty).2 }) = _
    rw [write_of_resolve resolved fit]
  have present : (Console.host.isPresent (a.outputPath member)).run c =
      ((c.tree.node? place).isSome, c) := by
    rw [← find?_of_resolve resolved]
    rfl
  have filled := fun opened : Opened => @run_writeMember a opened member
    { c with tree := c.tree.put place (.file .empty) } _ _ _ _ rfl resolved fit
  intro left
  unfold makeFile
  dsimp only
  rw [run_bind, present, run_bind, created]
  dsimp only
  cases there : (c.tree.node? place).isSome with
  | true =>
    have reread : left = opened.foundIn (c.tree.put place (.file .empty)) := if_pos there
    rw [if_pos rfl, run_bind, run_reread, run_bind, filled, ← reread]
    rfl
  | false =>
    have same : left = opened := if_neg (by rw [there]; decide)
    rw [if_neg (by decide), run_bind, run_pure, run_bind, filled, same]
    rfl

/-- A member whose name is not refused is passed over, or extracted to its destination. -/
theorem run_extractMember_fit (opened : Opened) (c : Console) (fit : ¬ IsRefused member.name) :
    (extractMember Console.host a opened member).run c =
      let wasThere := (c.tree.find? (a.outputPath member)).isSome
      StateT.run (if wasThere && a.neverOverwrite then
        return (← skip Console.host a member "file exists", opened)
      else if wasThere && !a.overwrite then
        return (← skip Console.host a member "use -o to overwrite", opened)
      else extractTo Console.host a opened member (a.destination member)) c := by
  unfold extractMember
  rw [outputParts_eq, if_neg fit]
  rfl

/-- A member that has its file already, and must not change it, is passed over. -/
theorem run_extractMember_kept (opened : Opened) (fit : ¬ IsRefused member.name)
    (kept : a.Keeps c.tree member) :
    ∃ c', (extractMember Console.host a opened member).run c = ((.ok (), opened), c') ∧
      c'.tree = c.tree := by
  obtain ⟨keeps, there⟩ := kept
  have passed : ∀ reason, ∃ c', StateT.run (do
      return (← skip Console.host a member reason, opened)) c = ((.ok (), opened), c') ∧
        c'.tree = c.tree := by
    intro reason
    obtain ⟨c', skipped, same⟩ := run_skip a member reason c
    refine ⟨c', ?_, same⟩
    rw [run_bind, skipped, run_pure]
  rw [run_extractMember_fit opened c fit, there]
  cases never : a.neverOverwrite with
  | true => exact passed _
  | false =>
    have ask : (!a.overwrite) = true := by rwa [Arguments.keeps, never, Bool.false_or] at keeps
    rw [ask]
    exact passed _

/-- Any other one is extracted. -/
theorem run_extractMember (opened : Opened) (fit : ¬ IsRefused member.name)
    (free : ¬ a.Keeps c.tree member) :
    (extractMember Console.host a opened member).run c =
      (makeFile a opened member (parentMade a member c).1).run (parentMade a member c).2 := by
  rw [run_extractMember_fit opened c fit, ← run_extractTo]
  cases there : (c.tree.find? (a.outputPath member)).isSome with
  | false => rfl
  | true =>
    have loose : a.keeps = false := Bool.eq_false_iff.mpr fun keeps => free ⟨keeps, there⟩
    rw [Arguments.keeps, Bool.or_eq_false_iff] at loose
    rw [loose.1, loose.2]
    rfl

/-- What an attempt at a member comes to: the result, and the archive and tree that it leaves. -/
inductive Tried (a : Arguments) (opened : Opened) (member : Member) (t : FileTree) :
    Except Failure Unit → Opened → FileTree → Prop where
  /-- The member is passed over. -/
  | skipped (reason : IsRefused member.name ∨ a.Keeps t member) :
      Tried a opened member t (.ok ()) opened t
  /-- The host refuses to make the directory or the file. -/
  | blocked (fit : ¬ IsRefused member.name) (free : ¬ a.Keeps t member) {u : FileTree}
      (furnished : Furnished t u) (error : IoError) :
      Tried a opened member t (.error (.host error)) opened u
  /-- The file is made, or emptied, and given what is delivered then. -/
  | written (fit : ¬ IsRefused member.name) (free : ¬ a.Keeps t member) {u : FileTree}
      (furnished : Furnished t u)
      (resolved : u.resolve (a.outputPath member) = .ok (a.outputPlace t.workingDirectory member))
      (place : u.node? (a.outputPlace t.workingDirectory member) ≠ some .directory) {left : Opened}
      (reread : left = if (u.node? (a.outputPlace t.workingDirectory member)).isSome then
          opened.foundIn (u.put (a.outputPlace t.workingDirectory member) (.file .empty))
        else opened) :
      Tried a opened member t (a.resultOf (left.delivery member)) left
        (u.put (a.outputPlace t.workingDirectory member) (.file (left.delivery member).bytes))

theorem extractMember_tried (a : Arguments) (opened : Opened) (member : Member) (c : Console) :
    let tried := (extractMember Console.host a opened member).run c
    Tried a opened member c.tree tried.1.1 tried.1.2 tried.2.tree := by
  intro tried
  by_cases refused : IsRefused member.name
  · obtain ⟨c', skipped, same⟩ := extractMember_refused a opened member refused c
    have tried_eq : tried = _ := skipped
    rw [tried_eq, same]
    exact .skipped (.inl refused)
  by_cases kept : a.Keeps c.tree member
  · obtain ⟨c', skipped, same⟩ := run_extractMember_kept opened refused kept
    have tried_eq : tried = _ := skipped
    rw [tried_eq, same]
    exact .skipped (.inr kept)
  have furnished : Furnished c.tree (parentMade a member c).2.tree := parentMade_furnished
  have tried_eq : tried = _ := run_extractMember opened refused kept
  rw [tried_eq]
  rcases made : parentMade a member c with ⟨error | _, c'⟩
  · rw [made] at furnished
    exact .blocked refused kept furnished error
  · rw [made] at furnished
    rcases c'.tree.write_cases (a.outputPath member) .empty with
      ⟨error, failed⟩ | ⟨place, resolved, fit⟩
    · rw [run_makeFile_error failed]
      exact .blocked refused kept furnished error
    · have place_eq : place = a.outputPlace c.tree.workingDirectory member := by
        rw [resolve_ok resolved, a.placeOf_outputPath _ refused,
          furnished.develops.workingDirectory]
      subst place_eq
      rw [run_makeFile resolved fit]
      exact .written refused kept furnished resolved fit rfl

theorem Tried.develops (tried : Tried a opened member t result left u) : Develops t u := by
  cases tried with
  | skipped => exact .refl t
  | blocked _ _ furnished => exact furnished.develops
  | written _ _ furnished resolved free =>
    exact furnished.develops.trans (put_develops resolved free _)

end

/-! ## One member after the other -/

/-- One attempt of a run: what it was made at, what it found, and what it left. -/
structure Attempt where
  member : Member
  opened : Opened
  before : FileTree
  result : Except Failure Unit
  left : Opened
  after : FileTree

def Attempt.failed (x : Attempt) : Bool := !x.result.isOk

theorem Attempt.failed_eq_false {x : Attempt} : x.failed = false ↔ x.result = .ok () := by
  unfold failed
  cases x.result with
  | ok _ => exact ⟨fun _ => rfl, fun _ => rfl⟩
  | error failure => exact ⟨nofun, nofun⟩

/-- The console once a failure was reported. -/
def reported : Except Failure Unit → Console → Console
  | .ok (), c => c
  | .error failure, c => ((Console.host.complain s!"error: {failure.message}").run c).2

theorem reported_tree (result : Except Failure Unit) (c : Console) :
    (reported result c).tree = c.tree := by
  cases result <;> rfl

variable [Decoders]

/-- The attempts at members, each of them made where the one before it has left. -/
def attempts (a : Arguments) : List Member → Opened → Console → List Attempt
  | [], _, _ => []
  | member :: rest, opened, c =>
    let tried := (extractMember Console.host a opened member).run c
    ⟨member, opened, c.tree, tried.1.1, tried.1.2, tried.2.tree⟩ ::
      attempts a rest tried.1.2 (reported tried.1.1 tried.2)

/-- Attempts follow one another, from an archive and a tree to the tree that the last one leaves. -/
inductive Course (a : Arguments) : Opened → FileTree → List Attempt → FileTree → Prop where
  | done (opened : Opened) (t : FileTree) : Course a opened t [] t
  | step {opened left : Opened} {member : Member} {t u v : FileTree} {result : Except Failure Unit}
      {rest : List Attempt} (tried : Tried a opened member t result left u)
      (onward : Course a left u rest v) :
      Course a opened t (⟨member, opened, t, result, left, u⟩ :: rest) v

/-- Whatever is known of an attempt holds for each attempt of a run. The working directory stays the
same. -/
theorem Course.tried (course : Course a opened t xs v) : ∀ x ∈ xs,
    Tried a x.opened x.member x.before x.result x.left x.after ∧
      x.before.workingDirectory = t.workingDirectory := by
  induction course with
  | done => exact fun _ none => absurd none List.not_mem_nil
  | step tried _ ih =>
    refine List.forall_mem_cons.mpr ⟨⟨tried, rfl⟩, fun x among => ?_⟩
    obtain ⟨other, same⟩ := ih x among
    exact ⟨other, same.trans tried.develops.workingDirectory⟩

/-- Every selected member is tried, whatever became of those before it. -/
theorem map_member_attempts (a : Arguments) (members : List Member) (opened : Opened)
    (c : Console) : (attempts a members opened c).map Attempt.member = members := by
  induction members generalizing opened c with
  | nil => rfl
  | cons member rest ih =>
    rw [attempts, List.map_cons, ih]

/-- A failure is counted and reported, and the other members are extracted all the same. -/
theorem run_extractAll_cons (extracts : a.pipe = false) (headed : Bool) (member : Member)
    (rest : List Member) (opened : Opened) (failed : Nat) (c : Console) :
    let tried := (extractMember Console.host a opened member).run c
    (extractAll Console.host a headed (member :: rest) opened failed).run c =
      (extractAll Console.host a headed rest tried.1.2
        (failed + if tried.1.1.isOk then 0 else 1)).run (reported tried.1.1 tried.2) := by
  rw [extractAll, extracts, if_neg Bool.false_ne_true, run_bind]
  rcases (extractMember Console.host a opened member).run c with ⟨⟨failure | _, left⟩, c'⟩ <;> rfl

/-- Where members are not to be written to the standard output, attempts are all there is to
extracting them one by one. -/
theorem extractAll_attempts (extracts : a.pipe = false) (headed : Bool) (members : List Member)
    (opened : Opened) (failed : Nat) (c : Console) :
    let xs := attempts a members opened c
    let extracted := (extractAll Console.host a headed members opened failed).run c
    extracted.1 = failed + xs.countP Attempt.failed ∧
      Course a opened c.tree xs extracted.2.tree := by
  induction members generalizing opened failed c with
  | nil => exact ⟨rfl, .done opened c.tree⟩
  | cons member rest ih =>
    intro xs extracted
    have tried := extractMember_tried a opened member c
    have extracted_eq : extracted = _ :=
      run_extractAll_cons extracts headed member rest opened failed c
    have xs_eq : xs = attempts a (member :: rest) opened c := rfl
    rw [attempts] at xs_eq
    rcases found : (extractMember Console.host a opened member).run c with ⟨⟨result, left⟩, c'⟩
    rw [found] at tried xs_eq extracted_eq
    obtain ⟨count, course⟩ := ih left (failed + if result.isOk then 0 else 1) (reported result c')
    rw [reported_tree] at course
    rw [extracted_eq, xs_eq]
    refine ⟨?_, .step tried course⟩
    rw [count, List.countP_cons, Attempt.failed, Nat.add_assoc, Nat.add_comm _ (List.countP _ _)]
    cases result.isOk <;> rfl

/-! ## Whole runs -/

/-- A run tries the selected members of the archive that it opens, and fails if any attempt does. -/
theorem run_attempts (opens : ((openArchive Console.host a).run c).1 = .ok opened)
    (extracts : (a.list || a.verbose || a.pipe) = false) :
    let xs := attempts a (a.selected opened.archive) opened c
    let done := (run Console.host a).run c
    done.1 = (if xs.countP Attempt.failed = 0 then .ok ()
      else .error (.members (xs.countP Attempt.failed) a.file)) ∧
      Course a opened c.tree xs done.2.tree := by
  intro xs done
  obtain ⟨opened_eq, -⟩ := openArchive_reads opens
  rw [Bool.or_eq_false_iff] at extracts
  obtain ⟨unlisted, extracts⟩ := extracts
  obtain ⟨count, course⟩ := extractAll_attempts extracts (1 < (a.selected opened.archive).length)
    (a.selected opened.archive) opened 0 c
  rw [Nat.zero_add] at count
  have done_eq : done = (process Console.host a opened).run c := by
    change (run Console.host a).run c = _
    unfold run
    rw [run_bind, opened_eq]
  rw [process, unlisted, if_neg Bool.false_ne_true, run_bind, count] at done_eq
  rw [done_eq]
  change (_ = if xs.countP Attempt.failed = 0 then _ else _) ∧ _
  cases attempts a (a.selected opened.archive) opened c |>.countP Attempt.failed <;>
    exact ⟨rfl, course⟩

/-- A run with one selected member leaves the tree as the attempt at that member does. -/
theorem run_single_tree (opens : ((openArchive Console.host a).run c).1 = .ok opened)
    (extracts : (a.list || a.verbose || a.pipe) = false)
    (selected : a.selected opened.archive = [member]) :
    ((run Console.host a).run c).2.tree =
      ((extractMember Console.host a opened member).run c).2.tree := by
  obtain ⟨-, course⟩ := run_attempts opens extracts
  rw [selected, attempts, attempts] at course
  generalize ((run Console.host a).run c).2.tree = after at course ⊢
  cases course with
  | step _ onward =>
    cases onward with
    | done => rfl

/-- If the directory for the member's file is made, the run leaves the tree as making the file then
does. -/
theorem run_single_made (opens : ((openArchive Console.host a).run c).1 = .ok opened)
    (extracts : (a.list || a.verbose || a.pipe) = false)
    (selected : a.selected opened.archive = [member]) (fit : ¬ IsRefused member.name)
    (free : ¬ a.Keeps c.tree member) (made : (parentMade a member c).1 = .ok ()) :
    ((run Console.host a).run c).2.tree =
      ((makeFile a opened member (.ok ())).run (parentMade a member c).2).2.tree := by
  rw [run_single_tree opens extracts selected, run_extractMember opened fit free, made]

/-- A run whose only selected member finds its place writes it there. -/
theorem run_single (opens : ((openArchive Console.host a).run c).1 = .ok opened)
    (extracts : (a.list || a.verbose || a.pipe) = false)
    (selected : a.selected opened.archive = [member]) (fit : ¬ IsRefused member.name)
    (free : ¬ a.Keeps c.tree member) (made : (parentMade a member c).1 = .ok ())
    (resolved : (parentMade a member c).2.tree.resolve (a.outputPath member) = .ok place)
    (noDirectory : (parentMade a member c).2.tree.node? place ≠ some .directory)
    (apart : (parentMade a member c).2.tree.resolve opened.file ≠ .ok place) :
    let done := (run Console.host a).run c
    done.1 = (if (opened.delivery member).failure = none then .ok ()
      else .error (.members 1 a.file)) ∧
      done.2.tree.node? place = some (.file (opened.delivery member).bytes) := by
  intro done
  obtain ⟨outcome, -⟩ := run_attempts opens extracts
  have tree : done.2.tree = _ := run_single_tree opens extracts selected
  have furnished : Furnished c.tree (parentMade a member c).2.tree := parentMade_furnished
  have reads := furnished.read (openArchive_reads opens).2
  have extracted := run_extractMember opened fit free
  rw [made, run_makeFile resolved noDirectory,
    Opened.foundIn_of_read (read_put resolved noDirectory _ reads apart), ite_self] at extracted
  constructor
  · rw [selected, attempts, attempts, extracted] at outcome
    have outcome' : done.1 = _ := outcome
    rw [outcome', List.countP_singleton, Attempt.failed, Arguments.resultOf]
    cases (opened.delivery member).failure <;> rfl
  · rw [tree, extracted, node?_put_of_fit noDirectory, if_pos rfl]

end ZipArchive.Command
