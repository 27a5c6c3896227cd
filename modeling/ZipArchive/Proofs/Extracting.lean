import ZipArchive.Proofs.FaultRuns
import ZipArchive.Proofs.Members
import ZipArchive.Proofs.StreamContents
import ZipArchive.Proofs.TrailerScan

/-!
# What archives come to

On a source that serves a content, each operation of an archive comes to what the content alone
says: opening it (`Archive.load_yields`), finding the content of a member
(`Archive.dataRange_yields`) and extracting it (`Archive.extract_yields`). The bytes that a member
is extracted as are what its range decodes to as a whole.
-/
namespace ZipArchive

variable {σ : Type} {source : Source σ} {content : ByteArray}

/-- An action whose first part logs what it raises, and whose second part does so too. -/
theorem Action.Yields.bindReported {α β : Type} {x : Action σ α} {f : α → Action σ β}
    {first : Except ZipError α} {second : α → Except ZipError β} {steps : Array Event}
    {label : String} (hx : x.Yields first (steps ++ reportsOf label first))
    (hf : ∀ value, first = .ok value →
      (f value).Yields (second value) (reportsOf label (second value))) :
    (x >>= f).Yields (first.bind second) (steps ++ reportsOf label (first.bind second)) := by
  cases first with
  | error e => exact hx.bind_error
  | ok value =>
    rw [reportsOf, Array.append_empty] at hx
    exact hx.bind (hf value rfl)

theorem Action.outOfRange_yields (source : Source σ) :
    (Action.inRange source none).Yields (.error (.io ⟨.offsetOverflow, some source.label⟩)) #[] :=
  Action.raise_yields source (.io ⟨.offsetOverflow, some source.label⟩)

/-- Going on with a result. Unfolding the steps themselves would run into the parser. -/
theorem bind_ok {ε α β : Type} (value : α) (f : α → Except ε β) :
    (Except.ok value).bind f = f value := rfl

/-! ## Opening -/

namespace Trailer

/-- What is logged while the trailer is looked for. -/
def locateSteps (content : ByteArray) (tailWindow : Nat) : Array Event :=
  passedOver content (candidateOffsets content tailWindow) ++
    match scanned content (candidateOffsets content tailWindow) none with
    | .ok (_, record) => steps record.needsWide
    | .error _ => #[]

theorem locate_yields (serves : source.Serves content) (tailWindow : Nat) :
    (locate source tailWindow).Yields (located content tailWindow)
      (locateSteps content tailWindow ++ reportsOf source.label (located content tailWindow)) := by
  have scan := findClassic_yields serves tailWindow
  rw [locate_eq]
  unfold located locateSteps
  rcases accepted : scanned content (candidateOffsets content tailWindow) none with
    e | ⟨offset, record⟩
  · rw [accepted] at scan
    simp only [Array.append_empty]
    exact scan.bind_error
  · obtain ⟨found, rfl⟩ := scanned_ok accepted
    have last := (candidateOffsets_find? content tailWindow offset).mp found
    rw [accepted, reportsOf, Array.append_empty] at scan
    rw [Array.append_assoc]
    exact scan.bind (complete_yields serves last.1.2)

end Trailer

namespace Directory

variable (source : Source σ) (options : Options) (directory : DirectoryEnd)

/-- What reading the directory comes to, also where its end is no offset. -/
def readFrom (content : ByteArray) : Except ZipError (Array Member) :=
  if directory.offset.toNat + directory.size.toNat < offsetBound then
    described source options directory content
  else .error (.io ⟨.offsetOverflow, some source.label⟩)

variable {source}

theorem readFrom_yields (serves : source.Serves content) :
    (read source options directory).Yields (readFrom source options directory content)
      (#[.readingDirectory (recordCount options directory) directory.recordsHere.toNat] ++
        reportsOf source.label (readFrom source options directory content)) := by
  unfold readFrom
  by_cases in_range : directory.offset.toNat + directory.size.toNat < offsetBound
  · rw [if_pos in_range]
    exact read_yields options directory serves.holds in_range
  · rw [if_neg in_range]
    unfold read addOffset?
    rw [if_neg in_range]
    exact (Action.log_yields _).bind (Action.outOfRange_yields source).bind_error

end Directory

namespace Archive

variable (source : Source σ) (options : Options)

/-- What opening an archive comes to. -/
def loaded (content : ByteArray) : Except ZipError Archive :=
  (Trailer.located content options.tailWindow).bind fun trailer =>
    (Directory.readFrom source options trailer.directory content).map Archive.mk

/-- What is logged while an archive is opened. -/
def loadSteps (content : ByteArray) : Array Event :=
  Trailer.locateSteps content options.tailWindow ++
    match Trailer.located content options.tailWindow with
    | .ok trailer => #[.readingDirectory (Directory.recordCount options trailer.directory)
        trailer.directory.recordsHere.toNat]
    | .error _ => #[]

variable {source}

/-- Opening an archive comes to what the content says. -/
theorem load_yields (serves : source.Serves content) :
    (load source options).Yields (loaded source options content)
      (loadSteps options content ++ reportsOf source.label (loaded source options content)) := by
  have found := Trailer.locate_yields serves options.tailWindow
  unfold load loaded loadSteps
  rcases located : Trailer.located content options.tailWindow with e | trailer
  · rw [located] at found
    simp only [Array.append_empty]
    exact found.bind_error
  · rw [located, reportsOf, Array.append_empty] at found
    rw [Array.append_assoc]
    refine found.bind ?_
    have members := Directory.readFrom_yields options trailer.directory serves
    dsimp only [Except.bind]
    rcases read : Directory.readFrom source options trailer.directory content with e | members'
    · rw [read] at members
      exact members.bind_error
    · rw [read] at members
      exact members.bind (Action.Yields.pure (Archive.mk members'))

end Archive

/-! ## Members -/

namespace Member

variable (source : Source σ) (m : Member)

/-- What a range of the content decodes to. -/
def unpackedFrom [Decoders] (content : ByteArray) (range : DataRange) : Except ZipError Extracted :=
  match range.header.method.stage? with
  | some stage =>
    match stage.decode (slice content range.start (range.stop - range.start)) with
    | .ok bytes => .ok ⟨bytes, bytes.size.toUInt64⟩
    | .error error => .error (.corrupt (.undecodable m.name ⟨.undecodable error, none⟩))
  | none => .error (.unsupportedMethod m.name range.header.method)

/-- A member whose range was found, ready to be read. -/
def pluggedFrom [Decoders] (size : Nat) (range : DataRange) : Except ZipError Plugged :=
  match range.header.method.stage? with
  | some stage =>
    .ok ⟨m.path, range.uncompressedSize, .new stage (.new size range.start range.stop)⟩
  | none => .error (.unsupportedMethod m.name range.header.method)

/-- What is done with the range of a member to plug it. -/
def plugRange [Decoders] (range : DataRange) : Action σ Plugged :=
  match range.header.method.stage? with
  | some stage =>
    return ⟨m.path, range.uncompressedSize, .new stage (.new source.size range.start range.stop)⟩
  | none => Action.raise source (.unsupportedMethod m.name range.header.method)

theorem plug_eq [Decoders] : m.plug source = m.dataRange source >>= m.plugRange source := rfl

variable {source} {m}

theorem plugRange_yields [Decoders] (holds : source.Holds content) (range : DataRange) :
    (m.plugRange source range).Yields (m.pluggedFrom content.size range)
      (reportsOf source.label (m.pluggedFrom content.size range)) := by
  unfold plugRange pluggedFrom
  cases range.header.method.stage? with
  | none => exact Action.raise_yields source _
  | some stage =>
    rw [holds.size_eq]
    exact Action.pure_yields source _

/-- A range that was found lies within the content. -/
theorem ranged_inside {range : DataRange} (found : m.ranged source content = .ok range) :
    range.start ≤ range.stop ∧ range.stop ≤ content.size := by
  unfold ranged at found
  cases read : m.headerRead source content with
  | error e =>
    rw [read] at found
    cases found
  | ok header =>
    rw [read] at found
    change m.rangeBehind content.size header = _ at found
    unfold rangeBehind at found
    dsimp only at found
    split at found
    · rename_i inside
      cases found
      exact ⟨Nat.le_add_right _ _, inside⟩
    · cases found

end Member

namespace Archive

variable (source : Source σ) (a : Archive) (index : Nat)

/-- The member that an index stands for. -/
def memberAt : Except ZipError Member :=
  match a.members[index]? with
  | some member => .ok member
  | none => .error (.invalidIndex index a.members.size)

/-- Where the content of a member lies. -/
def ranged (content : ByteArray) : Except ZipError DataRange :=
  (a.memberAt index).bind (·.ranged source content)

/-- The member that is ready to be read. -/
def plugged [Decoders] (content : ByteArray) : Except ZipError Plugged :=
  (a.memberAt index).bind fun m => (m.ranged source content).bind (m.pluggedFrom content.size)

/-- What a member is extracted as. -/
def extracted [Decoders] (content : ByteArray) : Except ZipError Extracted :=
  (a.memberAt index).bind fun m => (m.ranged source content).bind (m.unpackedFrom content)

/-- What is logged once the local header of a member has been read. -/
def stepsBehind (content : ByteArray) : Array Event :=
  match a.memberAt index with
  | .ok m => m.stepsBehind (m.headerRead source content)
  | .error _ => #[]

variable {source}

/-- What is done with a member, logged as finding it is. -/
theorem member_bind_yields {β : Type} {f : Member → Action σ β} {g : Member → Except ZipError β}
    (hf : ∀ m : Member, (f m).Yields (g m)
      (m.stepsBehind (m.headerRead source content) ++ reportsOf source.label (g m))) :
    (a.member source index >>= f).Yields ((a.memberAt index).bind g)
      (a.stepsBehind source index content ++
        reportsOf source.label ((a.memberAt index).bind g)) := by
  unfold member stepsBehind memberAt
  cases a.members[index]? with
  | some m => exact (Action.Yields.pure m).andThen (hf m)
  | none =>
    rw [Array.empty_append]
    exact (Action.raise_yields source _).bind_error

theorem dataRange_yields (serves : source.Serves content) :
    (a.dataRange source index).Yields (a.ranged source index content)
      (a.stepsBehind source index content ++
        reportsOf source.label (a.ranged source index content)) :=
  a.member_bind_yields index fun m => m.dataRange_yields serves.holds

variable [Decoders]

theorem plug_yields (serves : source.Serves content) :
    (a.plug source index).Yields (a.plugged source index content)
      (a.stepsBehind source index content ++
        reportsOf source.label (a.plugged source index content)) :=
  a.member_bind_yields index fun m =>
    (m.dataRange_yields serves.holds).bindReported fun range _ =>
      Member.plugRange_yields serves.holds range

/-- A new stream of a range that was found has handed out nothing of what the range decodes to. -/
theorem new_stands {m : Member} {range : DataRange}
    (found : m.ranged source content = .ok range) (stage : Stage) :
    (MemberStream.new stage (.new content.size range.start range.stop)).Stands content
      (stage.decode (slice content range.start (range.stop - range.start))) 0 := by
  obtain ⟨ordered, inside⟩ := Member.ranged_inside found
  have stands := MemberStream.new_stands stage content range.start range.stop
  have start : (View.new content.size range.start range.stop).start = range.start := by
    simp only [View.new]
    omega
  have length : (View.new content.size range.start range.stop).length =
      range.stop - range.start := by
    simp only [View.new, View.length]
    omega
  rwa [start, length] at stands

/-- A plugged member is collected as what its range decodes to. -/
theorem drain_yields (serves : source.Serves content) {m : Member} {range : DataRange}
    (found : m.ranged source content = .ok range) :
    (m.plugRange source range >>= fun plugged =>
        collectWithin source none plugged >>= handOver source plugged.name).Yields
      (m.unpackedFrom content range)
      (reportsOf source.label (m.unpackedFrom content range)) := by
  unfold Member.plugRange Member.unpackedFrom
  cases range.header.method.stage? with
  | none => exact (Action.raise_yields source _).bind_error
  | some stage =>
    have asks : ∀ there, 0 < askWithin none there := fun _ => Nat.zero_lt_succ _
    have stands := new_stands found stage
    rw [serves.size_eq]
    dsimp only
    refine (Action.Yields.pure _).andThen fun r => ?_
    rcases answer : (MemberStream.new stage (.new content.size range.start range.stop)).collect
      source (askWithin none) .empty r.state with ⟨⟨result, bytes⟩, last, s⟩
    rw [Action.run_bind_ok (run_collectWithin _ r answer)]
    cases decoded : stage.decode (slice content range.start (range.stop - range.start)) with
    | ok all =>
      rw [decoded] at stands
      have collected := MemberStream.collect_decoded serves asks r.state stands
      rw [answer] at collected
      cases collected
      exact Action.pure_yields source _ ⟨s, r.log⟩
    | error error =>
      rw [decoded] at stands
      have collected := MemberStream.collect_undecodable serves asks r.state stands
      rw [answer] at collected
      cases collected
      have undecodable := @Action.raise_yields σ Extracted source
        (.corrupt (.undecodable m.name ⟨.undecodable error, none⟩))
      exact undecodable ⟨s, r.log⟩

/-- A member that could be plugged has a range, and a decoder for what is in it. -/
theorem plugged_parts {plugged : Plugged} (ready : a.plugged source index content = .ok plugged) :
    ∃ m range stage, a.members[index]? = some m ∧ m.ranged source content = .ok range ∧
      range.header.method.stage? = some stage ∧
      plugged = ⟨m.path, range.uncompressedSize,
        .new stage (.new content.size range.start range.stop)⟩ := by
  unfold Archive.plugged memberAt at ready
  cases member : a.members[index]? with
  | none =>
    rw [member] at ready
    cases ready
  | some m =>
    rw [member] at ready
    dsimp only at ready
    rw [bind_ok] at ready
    cases found : m.ranged source content with
    | error e =>
      rw [found] at ready
      cases ready
    | ok range =>
      rw [found, bind_ok, Member.pluggedFrom] at ready
      cases method : range.header.method.stage? with
      | none =>
        rw [method] at ready
        cases ready
      | some stage =>
        rw [method] at ready
        cases ready
        exact ⟨m, range, stage, rfl, found, method, rfl⟩

/-- The stream of a member that can be extracted stands at the start of its content. -/
theorem plugged_stands {plugged : Plugged} {found : Extracted}
    (ready : a.plugged source index content = .ok plugged)
    (whole : a.extracted source index content = .ok found) :
    plugged.stream.Stands content (.ok found.bytes) 0 := by
  obtain ⟨m, range, stage, member, found, method, rfl⟩ := a.plugged_parts index ready
  have stands := new_stands found stage
  rw [extracted, memberAt, member] at whole
  dsimp only at whole
  rw [bind_ok, found, bind_ok, Member.unpackedFrom, method] at whole
  cases decoded : stage.decode (slice content range.start (range.stop - range.start)) with
  | error error =>
    simp only [decoded] at whole
    cases whole
  | ok bytes =>
    simp only [decoded] at whole
    cases whole
    rwa [decoded] at stands

/-- A member is extracted as what its range decodes to. -/
theorem extract_yields (serves : source.Serves content) :
    (a.extract source index none).Yields (a.extracted source index content)
      (a.stepsBehind source index content ++
        reportsOf source.label (a.extracted source index content)) := by
  have parts : a.extract source index none = a.member source index >>= fun m =>
      m.dataRange source >>= fun range => m.plugRange source range >>= fun plugged =>
        collectWithin source none plugged >>= handOver source plugged.name := by
    rw [extract_eq, plug]
    simp only [Member.plug_eq, bind_assoc]
  rw [parts]
  exact a.member_bind_yields index fun m =>
    (m.dataRange_yields serves.holds).bindReported fun range found => drain_yields serves found

end Archive

/-! ## What a source is asked for -/

section
variable {τ : Type} {other : Source τ}

/-- Of a source, what the headers describe depends on its name and its size alone. -/
theorem Directory.listed_congr (label : source.label = other.label)
    (size : source.size = other.size) (options : Options) (directory : DirectoryEnd) (count : Nat)
    (bytes : List UInt8) (members : Array Member) :
    listed source options directory count bytes members =
      listed other options directory count bytes members := by
  induction count generalizing bytes members with
  | zero => rfl
  | succ count ih =>
    have same : memberOf source options directory members.size =
        memberOf other options directory members.size := by
      unfold memberOf
      rw [size]
    unfold listed
    rw [label, same]
    simp only [ih]

/-- Of the options, it depends on whether paths are sanitized alone. -/
theorem Directory.listed_options {options options' : Options}
    (paths : options'.sanitizePaths = options.sanitizePaths) (directory : DirectoryEnd)
    (count : Nat) (bytes : List UInt8) (members : Array Member) :
    listed source options' directory count bytes members =
      listed source options directory count bytes members := by
  induction count generalizing bytes members with
  | zero => rfl
  | succ count ih =>
    have same : memberOf source options' directory members.size =
        memberOf source options directory members.size := by
      unfold memberOf
      rw [paths]
    unfold listed
    rw [same]
    simp only [ih]

theorem Directory.readFrom_congr (label : source.label = other.label)
    (size : source.size = other.size) (options : Options) (directory : DirectoryEnd)
    (content : ByteArray) :
    readFrom source options directory content = readFrom other options directory content := by
  have described_eq := listed_congr label size options directory (recordCount options directory)
    (span content directory.offset.toNat (directory.offset.toNat + directory.size.toNat)) #[]
  unfold readFrom described
  dsimp only
  rw [described_eq, label]

namespace Archive

theorem loaded_congr (label : source.label = other.label) (size : source.size = other.size)
    (options : Options) (content : ByteArray) :
    loaded source options content = loaded other options content := by
  unfold loaded
  simp only [Directory.readFrom_congr label size]

variable (a : Archive) (index : Nat) (content : ByteArray)

theorem ranged_congr (label : source.label = other.label) :
    a.ranged source index content = a.ranged other index content := by
  unfold ranged Member.ranged Member.headerRead
  rw [label]

theorem plugged_congr [Decoders] (label : source.label = other.label) :
    a.plugged source index content = a.plugged other index content := by
  unfold plugged Member.ranged Member.headerRead
  rw [label]

theorem extracted_congr [Decoders] (label : source.label = other.label) :
    a.extracted source index content = a.extracted other index content := by
  unfold extracted Member.ranged Member.headerRead
  rw [label]

theorem stepsBehind_congr (label : source.label = other.label) :
    a.stepsBehind source index content = a.stepsBehind other index content := by
  unfold stepsBehind Member.headerRead
  rw [label]

end Archive
end

end ZipArchive
