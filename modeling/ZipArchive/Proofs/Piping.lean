import ZipArchive.Proofs.LaidOut

/-!
# Contents on the standard output

A run that writes contents to the standard output pours one selected member after the other
(`run_pours`). A member adds a line with its name, if it is not alone, and what is delivered of it
(`foldl_pour_output`): nothing if it cannot be plugged, and else what its bytes decode to
(`Opened.delivery_pours`). Those that fail are reported and counted, and the others are poured all
the same.
-/
namespace ZipArchive

/-! ## Members in the order of the directory -/

/-- Each member has the index of its place. -/
def Directory.IsNumbered (members : Array Member) : Prop :=
  ∀ (i : Nat) (m : Member), members[i]? = some m → m.index = i

section

variable {σ : Type} {source : Source σ} {options : Options} {directory : DirectoryEnd}

namespace Directory

theorem IsNumbered.push {members : Array Member} (numbered : IsNumbered members) {m : Member}
    (last : m.index = members.size) : IsNumbered (members.push m) := by
  intro i other there
  rw [Array.getElem?_push] at there
  split at there
  · rename_i here
    cases there
    rw [last, here]
  · exact numbered i other there

theorem memberOf_index {index : Nat} {header : CentralHeader} {m : Member}
    (told : memberOf source options directory index header = .ok m) : m.index = index := by
  unfold memberOf at told
  split at told
  · cases told
  · split at told
    · cases told
    · cases told
      rfl

theorem readMembers_numbered {count : Nat} {window : Buffered} {members found : Array Member}
    {r r' : Run σ} (numbered : IsNumbered members)
    (read : (readMembers source options directory count window members).run r =
      (.ok found, r')) : IsNumbered found := by
  induction count generalizing window members r with
  | zero =>
    cases read
    exact numbered
  | succ count ih =>
    unfold readMembers at read
    obtain ⟨⟨header, window⟩, between, -, read⟩ := Action.run_bind_inv read
    obtain ⟨m, behind, told, read⟩ := Action.run_bind_inv read
    refine ih (numbered.push ?_) read
    cases described : memberOf source options directory members.size header with
    | ok member =>
      rw [described] at told
      cases told
      exact memberOf_index described
    | error error =>
      rw [described, Action.ofExcept, Action.run_raise] at told
      cases told

end Directory

theorem Archive.load_numbered {a : Archive} {r r' : Run σ}
    (loads : (Archive.load source options).run r = (.ok a, r')) :
    Directory.IsNumbered a.members := by
  unfold load at loads
  obtain ⟨trailer, located, -, loads⟩ := Action.run_bind_inv loads
  obtain ⟨members, filled, read, loads⟩ := Action.run_bind_inv loads
  cases loads
  unfold Directory.read at read
  obtain ⟨-, logged, -, read⟩ := Action.run_bind_inv read
  obtain ⟨stop, started, -, read⟩ := Action.run_bind_inv read
  exact Directory.readMembers_numbered (fun i m none => by simp at none) read

end

namespace Command

variable {a : Arguments} {opened : Opened} {member : Member} {c : Console}

theorem openArchive_numbered (opens : ((openArchive Console.host a).run c).1 = .ok opened) :
    Directory.IsNumbered opened.archive.members := by
  obtain ⟨content, archive, -, loads, rfl, -⟩ := openArchive_inv opens
  exact Archive.load_numbered (Prod.ext loads rfl)

/-- The selected members, in the order of the directory, are found by their indices. -/
theorem selected_numbered (numbered : Directory.IsNumbered opened.archive.members) :
    ((a.selected opened.archive).map Member.index).Pairwise (· < ·) ∧
      ∀ m ∈ a.selected opened.archive, opened.archive.members[m.index]? = some m := by
  constructor
  · rw [List.pairwise_map]
    refine List.Pairwise.sublist List.filter_sublist (List.pairwise_iff_getElem.mpr ?_)
    intro i j before within ordered
    rw [numbered i _ (by simp), numbered j _ (by simp)]
    exact ordered
  · intro m among
    obtain ⟨i, inside, rfl⟩ := List.getElem_of_mem (List.mem_of_mem_filter among)
    have there : opened.archive.members[i]? = some opened.archive.members.toList[i] := by simp
    rw [numbered i _ there]
    exact there

section
variable [Decoders]

/-! ## What is poured -/

namespace Opened

/-- A member can be plugged, and these are the bytes in its range, for this decoder. -/
def Plugs (o : Opened) (m : Member) (stage : Stage) (encoded : ByteArray) : Prop :=
  ∃ plugged range, ((o.archive.plug o.source m.index).run ⟨(), #[]⟩).1 = .ok plugged ∧
    ((o.archive.dataRange o.source m.index).run ⟨(), #[]⟩).1 = .ok range ∧
    range.header.method.stage? = some stage ∧
    encoded = slice o.content range.start (range.stop - range.start)

/-- What is poured of a member, and why that is not its content. -/
inductive Pours (o : Opened) (m : Member) : Extraction → Prop where
  /-- It cannot be plugged, and nothing is poured. -/
  | nothing {error : ZipError}
      (unplugged : ((o.archive.plug o.source m.index).run ⟨(), #[]⟩).1 = .error error) :
      Pours o m ⟨.empty, .error error⟩
  /-- All that its bytes decode to is poured. -/
  | whole {stage : Stage} {encoded all : ByteArray} (plugs : o.Plugs m stage encoded)
      (decoded : stage.decode encoded = .ok all) : Pours o m ⟨all, .ok all.size.toUInt64⟩
  /-- Its bytes cannot be decoded. How much is poured then is left open. -/
  | broken {stage : Stage} {encoded : ByteArray} {error : DecodeError}
      (plugs : o.Plugs m stage encoded) (failed : stage.decode encoded = .error error)
      (bytes : ByteArray) : Pours o m ⟨bytes, .error (Archive.undecodable m.name error)⟩

/-- Nothing is delivered of a member that cannot be plugged. -/
theorem delivery_of_plug_error {o : Opened} {m : Member} {error : ZipError}
    (unplugged : ((o.archive.plug o.source m.index).run ⟨(), #[]⟩).1 = .error error) :
    o.delivery m = ⟨.empty, .error error⟩ := by
  have nothing : o.extraction m = .error error :=
    congrArg Prod.fst (o.archive.extraction_of_plug_error m.index none (Prod.ext unplugged rfl))
  rw [delivery, nothing]

theorem delivery_pours (o : Opened) {file : String} {m : Member}
    (source : o.source = Source.ofContent file o.content)
    (small : o.content.size < fileOffsetLimit) (there : o.archive.members[m.index]? = some m) :
    o.Pours m (o.delivery m) := by
  have serves : o.source.Serves o.content := source ▸ Source.ofContent_serves file small
  rcases ready : (o.archive.plug o.source m.index).run ⟨(), #[]⟩ with ⟨error | plugged, r⟩
  · have unplugged := congrArg Prod.fst ready
    rw [delivery_of_plug_error unplugged]
    exact .nothing unplugged
  have result := (o.archive.plug_yields m.index serves).result_eq ⟨(), #[]⟩
  rw [ready] at result
  obtain ⟨other, range, stage, found, ranged, method, rfl⟩ :=
    o.archive.plugged_parts m.index result.symm
  obtain rfl : m = other := Option.some.inj (there.symm.trans found)
  have plugs : o.Plugs m stage (slice o.content range.start (range.stop - range.start)) := by
    refine ⟨_, range, congrArg Prod.fst ready, ?_, method, rfl⟩
    rw [(o.archive.dataRange_yields m.index serves).result_eq, Archive.ranged, Archive.memberAt,
      there]
    dsimp only
    rw [bind_ok, ranged]
  have stands := Archive.new_stands ranged stage
  cases decoded : stage.decode (slice o.content range.start (range.stop - range.start)) with
  | ok all =>
    rw [decoded] at stands
    have whole : o.extraction m = .ok ⟨all, .ok all.size.toUInt64⟩ :=
      (o.archive.delivers_of_stands m.index serves ready stands).whole
    rw [delivery, whole]
    exact .whole plugs decoded
  | error error =>
    rw [decoded] at stands
    obtain ⟨bytes, broken⟩ := (o.archive.failsToDecode_of_stands m.index serves ready stands).whole
    have failed : o.extraction m = .ok ⟨bytes, .error (Archive.undecodable m.name error)⟩ := broken
    rw [delivery, failed]
    exact .broken plugs decoded bytes

end Opened

/-- The line above the content of a member that is not the only one. -/
def headline (headed : Bool) (m : Member) : ByteArray :=
  if headed then (s!"--- {m.name} ---" ++ "\n").toUTF8 else .empty

/-- The console once a member was poured, and its failure reported. -/
def pour (a : Arguments) (headed : Bool) (opened : Opened) (c : Console) (m : Member) : Console :=
  reported (a.resultOf (opened.delivery m))
    { c with output := c.output ++ headline headed m ++ (opened.delivery m).bytes }

/-- What is delivered of a member is written, under its line. -/
theorem run_pipeMember (a : Arguments) (headed : Bool) (opened : Opened) (member : Member)
    (c : Console) :
    (pipeMember Console.host a headed opened member).run c =
      (a.resultOf (opened.delivery member), { c with
        output := c.output ++ headline headed member ++ (opened.delivery member).bytes }) := by
  unfold pipeMember headline Opened.delivery Arguments.resultOf
  cases opened.extraction member with
  | error error =>
    dsimp only
    rw [ByteArray.append_empty]
    cases headed with
    | true => rfl
    | false =>
      rw [if_neg Bool.false_ne_true, if_neg Bool.false_ne_true, ByteArray.append_empty]
      rfl
  | ok found =>
    obtain ⟨bytes, outcome⟩ := found
    cases headed with
    | true => cases outcome <;> rfl
    | false =>
      rw [if_neg Bool.false_ne_true, if_neg Bool.false_ne_true, ByteArray.append_empty]
      cases outcome <;> rfl

/-- A member is poured and its failure counted, and the others are poured all the same. -/
theorem run_extractAll_pours (pipes : a.pipe = true) (headed : Bool) (members : List Member)
    (opened : Opened) (failed : Nat) (c : Console) :
    (extractAll Console.host a headed members opened failed).run c =
      (failed + members.countP (fun m => (opened.delivery m).failure.isSome),
        members.foldl (pour a headed opened) c) := by
  induction members generalizing failed c with
  | nil => rfl
  | cons member rest ih =>
    have step : (extractAll Console.host a headed (member :: rest) opened failed).run c =
        (extractAll Console.host a headed rest opened
          (failed + if (opened.delivery member).failure.isSome then 1 else 0)).run
          (pour a headed opened c member) := by
      rw [extractAll, pipes, if_pos rfl, run_bind, run_bind, run_pipeMember, run_pure]
      dsimp only
      unfold pour Arguments.resultOf
      cases (opened.delivery member).failure <;> rfl
    rw [step, ih, List.foldl_cons, List.countP_cons, Nat.add_assoc, Nat.add_comm (List.countP _ _)]

/-! ## Whole runs -/

/-- What a member adds to the standard output. -/
def portion (headed : Bool) (opened : Opened) (m : Member) : List UInt8 :=
  (headline headed m).data.toList ++ (opened.delivery m).bytes.data.toList

/-- The line that reports a member that fails. -/
def complaint (a : Arguments) (opened : Opened) (m : Member) : Option String :=
  (opened.delivery m).failure.map fun error =>
    s!"error: {(Failure.archive a.file error).message}" ++ "\n"

section

variable (a) (headed : Bool) (opened) (members : List Member) (c)

theorem pour_tree (m : Member) : (pour a headed opened c m).tree = c.tree := reported_tree _ _

theorem pour_output (m : Member) : (pour a headed opened c m).output.data.toList =
    c.output.data.toList ++ portion headed opened m := by
  have kept : (pour a headed opened c m).output =
      c.output ++ headline headed m ++ (opened.delivery m).bytes := by
    unfold pour Arguments.resultOf
    cases (opened.delivery m).failure <;> rfl
  rw [kept, ByteArray.toList_data_append, ByteArray.toList_data_append, List.append_assoc, portion]

theorem pour_complaints (m : Member) : (pour a headed opened c m).complaints =
    c.complaints ++ ((complaint a opened m).getD "") := by
  unfold pour complaint Arguments.resultOf
  cases (opened.delivery m).failure with
  | none => exact String.append_empty.symm
  | some error => exact String.append_assoc

theorem foldl_pour_tree : (members.foldl (pour a headed opened) c).tree = c.tree := by
  induction members generalizing c with
  | nil => rfl
  | cons m rest ih => rw [List.foldl_cons, ih, pour_tree]

theorem foldl_pour_output : (members.foldl (pour a headed opened) c).output.data.toList =
    c.output.data.toList ++ members.flatMap (portion headed opened) := by
  induction members generalizing c with
  | nil => exact (List.append_nil _).symm
  | cons m rest ih =>
    rw [List.foldl_cons, ih, pour_output, List.append_assoc, List.flatMap_cons]

theorem foldl_pour_complaints : (members.foldl (pour a headed opened) c).complaints =
    c.complaints ++ String.join (members.filterMap (complaint a opened)) := by
  induction members generalizing c with
  | nil => exact String.append_empty.symm
  | cons m rest ih =>
    rw [List.foldl_cons, ih, pour_complaints, String.append_assoc, List.filterMap_cons]
    cases complaint a opened m with
    | none => rw [Option.getD_none, String.empty_append]
    | some line => rw [Option.getD_some, String.join_cons]

end

/-- A run pours the selected members of the archive that it opens, and fails if any of them does. -/
theorem run_pours (opens : ((openArchive Console.host a).run c).1 = .ok opened)
    (pipes : a.pipe = true) (unlisted : (a.list || a.verbose) = false) :
    let members := a.selected opened.archive
    let failed := members.countP fun m => (opened.delivery m).failure.isSome
    (run Console.host a).run c =
      (if failed = 0 then .ok () else .error (.members failed a.file),
        members.foldl (pour a (1 < members.length) opened) c) := by
  dsimp only
  have opened_eq := (openArchive_reads opens).1
  have poured : (run Console.host a).run c = (process Console.host a opened).run c := by
    unfold run
    rw [run_bind, opened_eq]
  rw [poured, process, unlisted, if_neg Bool.false_ne_true, run_bind,
    run_extractAll_pours pipes, Nat.zero_add]
  generalize List.countP _ (a.selected opened.archive) = failed
  cases failed <;> rfl

/-- What a run writes that pours contents. The selected members are poured in the order of the
directory: a line with the name of each, if there are several, and what is delivered of it, which
is its content unless it cannot be plugged or decoded. A member that fails is reported and does not
keep the others from being poured. Files are left alone, and the run fails with the number of the
members that failed. How it is to extract to files has no say in it. -/
theorem run_pipes (a : Arguments) (c : Console) {opened : Opened}
    (opens : ((openArchive Console.host a).run c).1 = .ok opened)
    (pipes : a.pipe = true) (unlisted : (a.list || a.verbose) = false) :
    let members := opened.archive.members.toList.filter fun m =>
      !m.isDirectory && isSelected a.files a.exclude m.name
    let failed := members.countP fun m => (opened.delivery m).failure.isSome
    let done := (run Console.host a).run c
    (members.map Member.index).Pairwise (· < ·) ∧
    (∀ m ∈ members, opened.archive.members[m.index]? = some m) ∧
    done.2.output.data.toList = c.output.data.toList ++
      members.flatMap (portion (1 < members.length) opened) ∧
    (∀ m ∈ members, ∀ error,
      ((opened.archive.plug opened.source m.index).run ⟨(), #[]⟩).1 = .error error →
        opened.delivery m = ⟨.empty, .error error⟩) ∧
    (opened.content.size < fileOffsetLimit → ∀ m ∈ members, opened.Pours m (opened.delivery m)) ∧
    done.2.complaints = c.complaints ++ String.join (members.filterMap (complaint a opened)) ∧
    done.2.tree = c.tree ∧
    done.1 = (if failed = 0 then .ok () else .error (.members failed a.file)) ∧
    (Failure.members failed a.file).message =
      s!"{failed} file(s) could not be extracted from {a.file}" ∧
    ∀ quiet neverOverwrite overwrite junkPaths directory,
      (run Console.host { a with quiet, neverOverwrite, overwrite, junkPaths, directory }).run c =
        done := by
  intro members failed done
  obtain ⟨content, archive, -, -, opened_eq, -⟩ := openArchive_inv opens
  have source : opened.source = Source.ofContent a.file opened.content := by
    rw [opened_eq]
    rfl
  obtain ⟨ordered, found⟩ := @selected_numbered a opened (openArchive_numbered opens)
  have done_eq : done = (if failed = 0 then .ok () else .error (.members failed a.file),
      members.foldl (pour a (1 < members.length) opened) c) := run_pours opens pipes unlisted
  have pours : opened.content.size < fileOffsetLimit →
      ∀ m ∈ members, opened.Pours m (opened.delivery m) :=
    fun small m among => opened.delivery_pours source small (found m among)
  refine ⟨ordered, found, ?_, fun _ _ _ => Opened.delivery_of_plug_error, pours, ?_, ?_, ?_, rfl,
    ?_⟩
  · rw [done_eq, foldl_pour_output]
  · rw [done_eq, foldl_pour_complaints]
  · rw [done_eq, foldl_pour_tree]
  · rw [done_eq]
  · intro quiet neverOverwrite overwrite junkPaths directory
    have same := @run_pours { a with quiet, neverOverwrite, overwrite, junkPaths, directory }
      opened c _ opens pipes unlisted
    exact same.trans done_eq.symm

end

/-- An archive with two files of one name, of which the second one has an unknown method. -/
def sameName : Draft := ⟨false, [newFile 0, newFile 77], []⟩

/-- Both lines are written, but only the content of the first one. -/
theorem sameName_piped :
    let c : Console := { tree := ⟨[(["a.zip"], .file sameName.bytes.toByteArray)], []⟩ }
    let done := (run Console.host { file := "a.zip", pipe := true }).run c
    done.1 = .error (.members 1 "a.zip") ∧
      done.2.output.data.toList = "--- f ---\nnew--- f ---\n".toUTF8.data.toList := by
  intro c done
  have fits : sameName.Fits := by decide +kernel
  have small : sameName.bytes.length < fileOffsetLimit := by decide +kernel
  have opens : ((openArchive Console.host { file := "a.zip", pipe := true }).run c).1 =
      .ok (laidOut sameName "a.zip") :=
    laidOut_opens fits small rfl rfl rfl
      (show c.tree.read "a.zip" = _ from FileTree.read_eq_ok_iff.mpr ⟨["a.zip"], by rfl, rfl⟩)
  have selected : (laidOut sameName "a.zip").archive.members.toList.filter (fun m =>
      !m.isDirectory && isSelected [] [] m.name) =
      [(newFile 0).member 0 0, (newFile 77).member 1 (sameName.headerOffset 1)] := by decide +kernel
  obtain ⟨bytes, delivered, payload⟩ := laidOut_delivery fits small Nat.zero_lt_two "a.zip" rfl
  obtain ⟨error, undelivered⟩ := laidOut_unsupported fits small Nat.one_lt_two "a.zip" rfl
  have first : (laidOut sameName "a.zip").delivery ((newFile 0).member 0 0) =
    ⟨bytes, .ok bytes.size.toUInt64⟩ := delivered
  have second : (laidOut sameName "a.zip").delivery
      ((newFile 77).member 1 (sameName.headerOffset 1)) = ⟨.empty, .error error⟩ := undelivered
  obtain ⟨-, -, output, -, -, -, -, outcome, -⟩ :=
    run_pipes { file := "a.zip", pipe := true } c opens rfl rfl
  rw [selected] at output outcome
  constructor
  · rw [List.countP_cons, List.countP_singleton, first, second] at outcome
    exact outcome
  · rw [List.flatMap_cons, List.flatMap_singleton, portion, portion, first, second] at output
    dsimp only at output
    rw [payload] at output
    rw [output]
    decide +kernel

end Command
end ZipArchive
