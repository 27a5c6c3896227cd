import ZipArchive.Proofs.LoggedScan
import ZipArchive.Proofs.OffsetRanges

/-!
# What calls log

A call that fails tells of its error in the log, once and last, unless it fails on damage or on a
failed read (`ZipError.isReported`). Only the scan for the trailer warns, of each candidate that it
passes over. This holds call by call, whatever the source answers and whichever calls were made
before (`Call.makeAll_accounted`).
-/
namespace ZipArchive

variable {σ α β : Type} {source : Source σ}

/-! ## Actions that warn of nothing -/

namespace Action

/-- Wherever the action is run, it logs steps on the way, and its error at the end if it is one that
the log reports. -/
def Quiet (source : Source σ) (x : Action σ α) : Prop :=
  ∀ r, ∃ steps : Array Event, (∀ step ∈ steps, step.level = .debug) ∧
    (x.run r).2.log = r.log ++ steps ++ reportsOf source.label (x.run r).1

theorem Quiet.of_log {x : Action σ α}
    (logged : ∀ r, (x.run r).2.log = r.log ++ reportsOf source.label (x.run r).1) :
    x.Quiet source := by
  intro r
  refine ⟨#[], fun _ among => absurd among (Array.not_mem_empty _), ?_⟩
  rw [logged, Array.append_empty]

theorem Silent.quiet {x : Action σ α} (silent : x.Silent) : x.Quiet source := by
  refine .of_log fun r => ?_
  obtain ⟨result, s', unreported, ran⟩ := silent r.state
  rw [show x.run r = (result, ⟨s', r.log⟩) from ran r.log, reportsOf_unreported unreported,
    Array.append_empty]

theorem Quiet.pure (value : α) : (Pure.pure value : Action σ α).Quiet source :=
  (Silent.pure value).quiet

theorem Quiet.bind {x : Action σ α} {f : α → Action σ β} (first : x.Quiet source)
    (next : ∀ a, (f a).Quiet source) : (x >>= f).Quiet source := by
  intro r
  obtain ⟨steps, debug, logged⟩ := first r
  rcases here : x.run r with ⟨e | a, r'⟩
  · rw [here] at logged
    rw [run_bind_error here]
    exact ⟨steps, debug, logged⟩
  · obtain ⟨more, debug', logged'⟩ := next a r'
    rw [here] at logged
    rw [run_bind_ok here, logged', logged]
    refine ⟨steps ++ more, fun step among => ?_, ?_⟩
    · exact (Array.mem_append.mp among).elim (debug step) (debug' step)
    · simp only [reportsOf, Array.append_empty, Array.append_assoc]

theorem log_quiet {event : Event} (debug : event.level = .debug) :
    (log event : Action σ Unit).Quiet source := by
  intro r
  refine ⟨#[event], fun step among => ?_, ?_⟩
  · rwa [List.mem_singleton.mp (Array.mem_def.mp among)]
  · rw [← Array.push_eq_append]
    rfl

theorem raise_quiet (error : ZipError) : (raise source error : Action σ α).Quiet source := by
  refine .of_log fun r => ?_
  rw [run_raise]
  rfl

theorem ofExcept_quiet (result : Except ZipError α) : (ofExcept source result).Quiet source := by
  cases result with
  | ok value => exact .pure value
  | error e => exact raise_quiet e

theorem inRange_quiet (offset : Option Nat) : (inRange source offset).Quiet source :=
  (inRange_silent offset).quiet

theorem readRecord_quiet (record : String) (layout : Layout α) (b : Buffered) :
    (readRecord source record layout b).Quiet source := by
  refine .of_log fun r => ?_
  rw [run_readRecord]
  rcases layout.readWindow source record b r.state with ⟨e | value, b', s⟩
  · rfl
  · exact Array.append_empty.symm

end Action

namespace Trailer

theorem readWide_quiet (offset : Nat) : (readWide source offset).Quiet source := by
  unfold readWide
  refine (Action.inRange_quiet _).bind fun locatorOffset => ?_
  refine (Action.log_quiet rfl).bind fun _ => ?_
  refine (Action.readRecord_quiet _ _ _).bind fun locator => ?_
  dsimp only
  split
  · exact Action.raise_quiet _
  · split
    · exact Action.raise_quiet _
    · exact (Action.readRecord_quiet _ _ _).bind fun directory => .pure _

theorem conclude_quiet (offset : Nat) (isWide : Bool) (directory : DirectoryEnd) :
    (conclude source offset isWide directory).Quiet source := by
  unfold conclude
  split
  · exact Action.raise_quiet _
  · split
    · exact .pure _
    · exact Action.raise_quiet _

theorem complete_quiet (offset : Nat) (record : ClassicEnd) :
    (complete source offset record).Quiet source := by
  unfold complete
  refine (Action.log_quiet rfl).bind fun _ => ?_
  split
  · exact (readWide_quiet offset).bind fun directory => conclude_quiet _ _ directory
  · exact conclude_quiet _ _ _

/-- The trailer that is found stands where the record does that was accepted. -/
theorem complete_offset {offset : Nat} {record : ClassicEnd} {r r' : Run σ} {t : Trailer}
    (found : (complete source offset record).run r = (.ok t, r')) : t.offset = offset := by
  have kept : ∀ directory r,
      ((conclude source offset record.needsWide directory).run r).1 = .ok t →
        t.offset = offset := by
    intro directory r concluded
    unfold conclude at concluded
    split at concluded
    · rw [Action.run_raise] at concluded
      cases concluded
    · split at concluded
      · cases concluded
        rfl
      · rw [Action.run_raise] at concluded
        cases concluded
  obtain ⟨_, _, -, behind⟩ := Action.run_bind_inv found
  split at behind
  · obtain ⟨directory, r₁, -, concluded⟩ := Action.run_bind_inv behind
    exact kept directory r₁ (congrArg Prod.fst concluded)
  · exact kept _ _ (congrArg Prod.fst behind)

end Trailer

namespace Directory

theorem readMembers_quiet (options : Options) (directory : DirectoryEnd) (count : Nat)
    (window : Buffered) (members : Array Member) :
    (readMembers source options directory count window members).Quiet source := by
  induction count generalizing window members with
  | zero => exact .pure members
  | succ count ih =>
    unfold readMembers
    refine (Action.readRecord_quiet _ _ _).bind fun header => ?_
    exact (Action.ofExcept_quiet _).bind fun member => ih _ _

theorem read_quiet (options : Options) (directory : DirectoryEnd) :
    (read source options directory).Quiet source := by
  unfold read
  refine (Action.log_quiet rfl).bind fun _ => ?_
  exact (Action.inRange_quiet _).bind fun stop => readMembers_quiet options directory _ _ #[]

end Directory

namespace Member

variable (m : Member)

theorem rangeFrom_quiet (header : LocalHeader) : (m.rangeFrom source header).Quiet source := by
  unfold rangeFrom
  refine (Action.inRange_quiet _).bind fun start => ?_
  cases addOffset? start (m.sizes header).1.toNat with
  | none => exact Action.raise_quiet _
  | some stop =>
    dsimp only
    split
    · exact .pure _
    · exact Action.raise_quiet _

theorem dataRange_quiet : (m.dataRange source).Quiet source := by
  rw [dataRange_eq]
  refine (Action.readRecord_quiet _ _ _).bind fun header => ?_
  dsimp only
  split
  · exact (Action.log_quiet rfl).bind fun _ => m.rangeFrom_quiet header.1
  · exact m.rangeFrom_quiet header.1

theorem plug_quiet [Decoders] : (m.plug source).Quiet source := by
  unfold plug
  refine m.dataRange_quiet.bind fun range => ?_
  cases range.header.method.stage? with
  | some stage => exact .pure _
  | none => exact Action.raise_quiet _

end Member

namespace Archive

variable (a : Archive)

theorem find_quiet (path : List UInt8) : (a.find source path).Quiet source := by
  unfold find
  split
  · exact .pure _
  · exact Action.raise_quiet _

theorem member_quiet (index : Nat) : (a.member source index).Quiet source := by
  unfold member
  split
  · exact .pure _
  · exact Action.raise_quiet _

variable [Decoders]

theorem plug_quiet (index : Nat) : (a.plug source index).Quiet source :=
  (a.member_quiet index).bind fun m => m.plug_quiet

theorem collectWithin_silent (limit : Option Nat) (plugged : Plugged) :
    (collectWithin source limit plugged).Silent := by
  intro s
  refine ⟨.ok (plugged.stream.collect source (askWithin limit) .empty s).1,
    (plugged.stream.collect source (askWithin limit) .empty s).2.2, fun _ failed => ?_,
    fun _ => rfl⟩
  cases failed

/-- A sink that is full and a content that cannot be decoded are left to the caller to report. -/
theorem extract_quiet (index : Nat) (limit : Option Nat) :
    (a.extract source index limit).Quiet source := by
  unfold extract
  rw [extraction_eq]
  refine Action.Quiet.bind ?_ fun found => ?_
  · refine (a.plug_quiet index).bind fun plugged => ?_
    exact (collectWithin_silent limit plugged).quiet.bind fun answer => .pure _
  · cases found.outcome with
    | ok _ => exact .pure _
    | error error => exact Action.raise_quiet error

end Archive

/-! ## Calls -/

/-- A call of the library. -/
inductive Call where
  | locate (tailWindow : Nat)
  | readDirectory (options : Options) (directory : DirectoryEnd)
  | load (options : Options)
  | find (archive : Archive) (path : List UInt8)
  | member (archive : Archive) (index : Nat)
  | dataRange (member : Member)
  | plug (archive : Archive) (index : Nat)
  /-- Extract into a sink that takes no more than `limit` bytes. -/
  | extract (archive : Archive) (index : Nat) (limit : Option Nat)

section
variable [Decoders]

/-- What a call gives. -/
inductive Given where
  | trailer (trailer : Trailer)
  | members (members : Array Member)
  | archive (archive : Archive)
  | index (index : Nat)
  | member (member : Member)
  | range (range : DataRange)
  | plugged (plugged : Plugged)
  | extracted (content : Extracted)

/-- A call that has been made: the state in which it found the source, what came of it, and the
events that it logged. -/
structure Made (σ : Type) where
  call : Call
  state : σ
  result : Except ZipError Given
  events : List Event

namespace Call

def action (source : Source σ) : Call → Action σ Given
  | .locate tailWindow => return .trailer (← Trailer.locate source tailWindow)
  | .readDirectory options directory => return .members (← Directory.read source options directory)
  | .load options => return .archive (← Archive.load source options)
  | .find a path => return .index (← a.find source path)
  | .member a index => return .member (← a.member source index)
  | .dataRange m => return .range (← m.dataRange source)
  | .plug a index => return .plugged (← a.plug source index)
  | .extract a index limit => return .extracted (← a.extract source index limit)

/-- How many bytes at the end of the archive a call searches for the trailer, if it does. -/
def tailWindow? : Call → Option Nat
  | .locate tailWindow => some tailWindow
  | .load options => some options.tailWindow
  | _ => none

def make (source : Source σ) (call : Call) (r : Run σ) : Made σ × Run σ :=
  let (result, r') := (call.action source).run r
  (⟨call, r.state, result, r'.log.toList.drop r.log.size⟩, r')

/-- Makes calls in order. -/
def makeAll (source : Source σ) : List Call → Run σ → List (Made σ) × Run σ
  | [], r => ([], r)
  | call :: rest, r =>
    let (made, r) := call.make source r
    let (others, r) := makeAll source rest r
    (made :: others, r)

end Call

/-- What is logged by a call that searches for the trailer: the candidates that it passes over, each
once and from the end of the archive on. They are all those behind the one where the scan ends. If
the scan fails the call fails with its error, and a trailer that is found is the accepted one's. -/
structure Made.Scanned (source : Source σ) (made : Made σ) (tailWindow : Nat)
    (rejected : List (Nat × Rejection)) (ending : Trailer.ScanEnd) : Prop where
  scan : ∃ s', Trailer.Scan source tailWindow made.state rejected ending s'
  warned : made.events.filter (·.level = .warning) = Trailer.warnings rejected
  descending : (rejected.map (·.1)).Pairwise (· > ·)
  all : ∀ block s', source.readExactAt (Trailer.tailStart source tailWindow)
      (Trailer.tailLength source tailWindow) made.state = (.ok block, s') →
    ∀ offset, offset ∈ rejected.map (·.1) ↔
      Trailer.Signed (Trailer.tailStart source tailWindow) block offset ∧
        ∀ last, ending.offset? = some last → last < offset
  failed : ∀ e, ending.result (Trailer.firstBadLocator rejected) = .error e → made.result = .error e
  accepted : ∀ t, made.result = .ok (.trailer t) → ∃ record, ending = .accepted t.offset record

/-- The log of a call accounts for its result. -/
structure Made.Accounted (source : Source σ) (made : Made σ) : Prop where
  /-- An error that the log reports is its last line, and no other line tells of an error. -/
  reported : ∀ e, made.result = .error e → e.isReported = true →
    ∃ report before, e.report? source.label = some report ∧
      made.events = before ++ [.raised report] ∧ ∀ event ∈ before, event.level ≠ .error
  unreported : (∀ e, made.result = .error e → e.isReported = false) →
    ∀ event ∈ made.events, event.level ≠ .error
  scanned : ∀ tailWindow, made.call.tailWindow? = some tailWindow →
    ∃ rejected ending, made.Scanned source tailWindow rejected ending
  unscanned : made.call.tailWindow? = none → ∀ event ∈ made.events, event.level ≠ .warning

end

/-! ## Accounting -/

/-- The lines that a call adds to the log: a warning of each candidate that is passed over, steps on
the way, and the error at the end if it is one that the log reports. -/
def Tells (label : String) (rejected : List (Nat × Rejection)) (result : Except ZipError α)
    (events : List Event) : Prop :=
  ∃ steps : List Event, (∀ step ∈ steps, step.level = .debug) ∧
    events = Trailer.warnings rejected ++ steps ++ (reportsOf label result).toList

namespace Tells

variable {label : String} {rejected : List (Nat × Rejection)} {result : Except ZipError α}
  {events : List Event}

theorem level_warnings : ∀ event ∈ Trailer.warnings rejected, event.level = .warning := by
  intro event among
  obtain ⟨_, _, rfl⟩ := List.mem_map.mp among
  rfl

theorem level_reports (result : Except ZipError α) :
    ∀ event ∈ (reportsOf label result).toList, event.level = .error := by
  intro event among
  cases result with
  | ok value => exact absurd among List.not_mem_nil
  | error e =>
    cases reported : e.isReported with
    | false =>
      rw [reportsOf, ZipError.reports_of_not_isReported reported] at among
      exact absurd among List.not_mem_nil
    | true =>
      obtain ⟨report, -, reports⟩ := ZipError.reports_of_isReported reported label
      rw [reportsOf, reports] at among
      cases List.mem_singleton.mp among
      rfl

theorem warned (tells : Tells label rejected result events) :
    events.filter (·.level = .warning) = Trailer.warnings rejected := by
  obtain ⟨steps, debug, rfl⟩ := tells
  rw [List.filter_append, List.filter_append, List.filter_eq_self.mpr, List.filter_eq_nil_iff.mpr,
    List.filter_eq_nil_iff.mpr, List.append_nil, List.append_nil]
  · intro event among
    simp [level_reports result event among]
  · intro event among
    simp [debug event among]
  · intro event among
    simp [level_warnings event among]

/-- No line in front of the last tells of an error. -/
theorem level_before {steps : List Event} (debug : ∀ step ∈ steps, step.level = .debug) :
    ∀ event ∈ Trailer.warnings rejected ++ steps, event.level ≠ .error := by
  intro event among
  rcases List.mem_append.mp among with warning | step
  · simp [level_warnings event warning]
  · simp [debug event step]

theorem reported {e : ZipError} (tells : Tells label rejected result events)
    (failed : result = .error e) (reported : e.isReported = true) :
    ∃ report before, e.report? label = some report ∧ events = before ++ [.raised report] ∧
      ∀ event ∈ before, event.level ≠ .error := by
  obtain ⟨steps, debug, rfl⟩ := tells
  obtain ⟨report, found, reports⟩ := ZipError.reports_of_isReported reported label
  refine ⟨report, Trailer.warnings rejected ++ steps, found, ?_, level_before debug⟩
  rw [failed, reportsOf, reports]

theorem unreported (tells : Tells label rejected result events)
    (unreported : ∀ e, result = .error e → e.isReported = false) :
    ∀ event ∈ events, event.level ≠ .error := by
  obtain ⟨steps, debug, rfl⟩ := tells
  rw [reportsOf_unreported unreported, List.append_nil]
  exact level_before debug

end Tells

/-- A call that does not search for the trailer warns of nothing. -/
theorem Action.Quiet.tells {x : Action σ α} (quiet : x.Quiet source) (r : Run σ) :
    ∃ events, (x.run r).2.log.toList = r.log.toList ++ events ∧
      Tells source.label [] (x.run r).1 events := by
  obtain ⟨steps, debug, logged⟩ := quiet r
  refine ⟨_, ?_, steps.toList, fun step among => debug step (Array.mem_def.mpr among), rfl⟩
  rw [logged, Array.toList_append, Array.toList_append, List.append_assoc]
  rfl

/-- What follows on the scan adds no warnings to the scan's. -/
theorem Trailer.findClassic_tells {f : Nat × ClassicEnd → Action σ α}
    (quiet : ∀ found, (f found).Quiet source) (tailWindow : Nat) (r : Run σ) :
    ∃ rejected ending s' events, Scan source tailWindow r.state rejected ending s' ∧
      ((findClassic source tailWindow >>= f).run r).2.log.toList = r.log.toList ++ events ∧
      Tells source.label rejected ((findClassic source tailWindow >>= f).run r).1 events ∧
      (∀ e, ending.result (firstBadLocator rejected) = .error e →
        ((findClassic source tailWindow >>= f).run r).1 = .error e) ∧
      ∀ a, ((findClassic source tailWindow >>= f).run r).1 = .ok a →
        ∃ offset record r', ending = .accepted offset record ∧
          ((f (offset, record)).run r').1 = .ok a := by
  obtain ⟨rejected, ending, s', scan, ran⟩ := findClassic_scan source tailWindow r
  refine ⟨rejected, ending, s', ?_⟩
  dsimp only at ran
  rcases ended : ending.result (firstBadLocator rejected) with e | found
  · rw [ended] at ran
    rw [Action.run_bind_error ran]
    refine ⟨_, scan, ?_, ⟨[], fun _ among => absurd among List.not_mem_nil, rfl⟩, fun _ same => ?_,
      fun _ given => ?_⟩
    · simp only [Array.toList_append, List.append_assoc, List.append_nil]
      rfl
    · cases same
      rfl
    · cases given
  · rw [ended, reportsOf, Array.append_empty] at ran
    obtain ⟨events, logged, steps, debug, told⟩ :=
      (quiet found).tells ⟨s', r.log ++ (warnings rejected).toArray⟩
    rw [Action.run_bind_ok ran]
    refine ⟨warnings rejected ++ events, scan, ?_, ⟨steps, debug, ?_⟩, fun _ same => ?_,
      fun a given => ?_⟩
    · rw [logged, Array.toList_append, List.append_assoc]
    · rw [told]
      exact (List.append_assoc _ steps _).symm
    · cases same
    · exact ⟨found.1, found.2, _, ScanEnd.accepted_of_result ended, given⟩

namespace Call

variable [Decoders]

theorem action_quiet {call : Call} (unscanned : call.tailWindow? = none) :
    (call.action source).Quiet source := by
  cases call with
  | locate tailWindow => cases unscanned
  | load options => cases unscanned
  | readDirectory options directory =>
    exact (Directory.read_quiet options directory).bind fun _ => .pure _
  | find a path => exact (a.find_quiet path).bind fun _ => .pure _
  | member a index => exact (a.member_quiet index).bind fun _ => .pure _
  | dataRange m => exact m.dataRange_quiet.bind fun _ => .pure _
  | plug a index => exact (a.plug_quiet index).bind fun _ => .pure _
  | extract a index limit => exact (a.extract_quiet index limit).bind fun _ => .pure _

/-- A call that searches for the trailer scans first, and warns of nothing after it. A trailer that
it gives stands where the scan has ended. -/
theorem action_scan (source : Source σ) {call : Call} {tailWindow : Nat}
    (scans : call.tailWindow? = some tailWindow) :
    ∃ f, call.action source = Trailer.findClassic source tailWindow >>= f ∧
      (∀ found, (f found).Quiet source) ∧
      ∀ found r t, ((f found).run r).1 = .ok (.trailer t) → t.offset = found.1 := by
  cases call with
  | locate window =>
    cases scans
    refine ⟨fun found => Trailer.complete source found.1 found.2 >>= fun t => pure (.trailer t),
      ?_, fun found => (Trailer.complete_quiet _ _).bind fun _ => .pure _,
      fun found r t given => ?_⟩
    · rw [action, Trailer.locate_eq, bind_assoc]
    · obtain ⟨t', r', completed, same⟩ := Action.run_bind_inv (Prod.ext given rfl)
      cases same
      exact Trailer.complete_offset completed
  | load options =>
    cases scans
    refine ⟨fun found => Trailer.complete source found.1 found.2 >>= fun trailer =>
        Directory.read source options trailer.directory >>= fun members =>
          pure (.archive ⟨members⟩),
      ?_, fun found => ?_, fun found r t given => ?_⟩
    · simp only [action, Archive.load, Trailer.locate_eq, bind_assoc, pure_bind]
    · refine (Trailer.complete_quiet _ _).bind fun trailer => ?_
      exact (Directory.read_quiet options trailer.directory).bind fun _ => .pure _
    · obtain ⟨trailer, r₁, -, read⟩ := Action.run_bind_inv (Prod.ext given rfl)
      obtain ⟨members, r₂, -, same⟩ := Action.run_bind_inv read
      cases same
  | _ => cases scans

/-- A call adds its events to the log, and they account for its result. -/
theorem make_accounted (source : Source σ) (call : Call) (r : Run σ) :
    (call.make source r).2.log.toList = r.log.toList ++ (call.make source r).1.events ∧
      (call.make source r).1.Accounted source := by
  -- What has been added is what the log holds behind its old length.
  have added : ∀ events, ((call.action source).run r).2.log.toList = r.log.toList ++ events →
      (call.make source r).1.events = events := by
    intro events logged
    change ((call.action source).run r).2.log.toList.drop r.log.size = events
    rw [logged, ← Array.length_toList, List.drop_left]
  cases scans : call.tailWindow? with
  | none =>
    obtain ⟨events, logged, tells⟩ := (action_quiet scans).tells r
    obtain rfl := added events logged
    refine ⟨logged, fun _ => tells.reported, tells.unreported, fun _ some => ?_,
      fun _ event among => ?_⟩
    · cases scans.symm.trans some
    · simpa using List.filter_eq_nil_iff.mp tells.warned event among
  | some tailWindow =>
    obtain ⟨f, action_eq, quiet, offset_eq⟩ := action_scan source scans
    obtain ⟨rejected, ending, s', events, scan, logged, tells, failed, found⟩ :=
      Trailer.findClassic_tells quiet tailWindow r
    rw [← action_eq] at logged tells failed found
    obtain rfl := added events logged
    refine ⟨logged, fun _ => tells.reported, tells.unreported, fun window some => ?_,
      fun none => ?_⟩
    · cases scans.symm.trans some
      refine ⟨rejected, ending, ⟨s', scan⟩, tells.warned, scan.rejected_all.1, scan.rejected_all.2,
        failed, fun t given => ?_⟩
      obtain ⟨offset, record, r', accepted, completed⟩ := found _ given
      exact ⟨record, by rw [accepted, offset_eq _ _ _ completed]⟩
    · cases scans.symm.trans none

/-- Whatever a source answers and whichever calls are made of it, the log is what they have logged,
one after the other, and the lines of each account for its result. An error that the log reports is
the last of them and the only one that tells of an error; a call that succeeds, or fails on damage
or a failed read, tells of none. Only a call that searches for the trailer warns: once of each
candidate behind the one where the scan ends, from the end of the archive on. -/
theorem makeAll_accounted (source : Source σ) (calls : List Call) (r : Run σ) :
    (makeAll source calls r).1.map (·.call) = calls ∧
      (makeAll source calls r).2.log.toList =
        r.log.toList ++ (makeAll source calls r).1.flatMap (·.events) ∧
      ∀ made ∈ (makeAll source calls r).1, made.Accounted source := by
  induction calls generalizing r with
  | nil => exact ⟨rfl, (List.append_nil _).symm, fun _ among => absurd among List.not_mem_nil⟩
  | cons call rest ih =>
    obtain ⟨logged, accounted⟩ := make_accounted source call r
    obtain ⟨made, log, others⟩ := ih (call.make source r).2
    unfold makeAll
    refine ⟨congrArg (call :: ·) made, ?_, fun each among => ?_⟩
    · dsimp only
      rw [log, logged, List.flatMap_cons, List.append_assoc]
    · rcases List.mem_cons.mp among with rfl | later
      · exact accounted
      · exact others each later

end Call

end ZipArchive
