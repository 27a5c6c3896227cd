import ZipArchive.Proofs.TrailerScan

/-!
# The log of the scan

Whatever a source answers, the scan for the trailer is a walk over the places where the signature
stands in the bytes that it has read, from the end (`Trailer.Visits`). It logs each place that it
passes over, once, and ends at one that is accepted, at one whose check fails, or behind the last
(`Trailer.findClassic_scan`).
-/
namespace ZipArchive

variable {σ α β : Type} {source : Source σ}

/-- The kinds of errors that are told in the log. Damage and failed reads are not among them. -/
def ZipError.isReported : ZipError → Bool
  | .corrupt _ | .io _ => false
  | _ => true

theorem ZipError.reports_of_isReported {error : ZipError} (reported : error.isReported = true)
    (label : String) :
    ∃ report, error.report? label = some report ∧ error.reports label = #[.raised report] := by
  have told : (error.report? label).isSome := by
    cases error with
    | multiDisk declared => cases declared <;> rfl
    | corrupt _ | io _ => cases reported
    | _ => rfl
  obtain ⟨report, found⟩ := Option.isSome_iff_exists.mp told
  exact ⟨report, found, by rw [reports, found]⟩

theorem ZipError.reports_of_not_isReported {error : ZipError}
    (unreported : error.isReported = false) (label : String) : error.reports label = #[] := by
  cases error with
  | corrupt _ | io _ => rfl
  | _ => cases unreported

theorem reportsOf_unreported {result : Except ZipError α}
    (unreported : ∀ e, result = .error e → e.isReported = false) (label : String) :
    reportsOf label result = #[] := by
  cases result with
  | ok value => rfl
  | error e => exact ZipError.reports_of_not_isReported (unreported e rfl) label

theorem ZipError.ofRead_unreported (label record : String) (e : IoError) :
    (ofRead label record e).isReported = false := by
  unfold ofRead
  split
  · rfl
  · rfl

/-! ## Actions that log nothing -/

namespace Action

/-- An action that logs nothing, whatever comes of it. What comes of it does not depend on the log,
and an error is none that the log reports. -/
def Silent (x : Action σ α) : Prop :=
  ∀ s, ∃ result s', (∀ e, result = .error e → e.isReported = false) ∧
    ∀ log, x.run ⟨s, log⟩ = (result, ⟨s', log⟩)

theorem Silent.pure (value : α) : (Pure.pure value : Action σ α).Silent :=
  fun s => ⟨.ok value, s, nofun, fun _ => rfl⟩

theorem Silent.bind {x : Action σ α} {f : α → Action σ β} (first : x.Silent)
    (next : ∀ a, (f a).Silent) : (x >>= f).Silent := by
  intro s
  obtain ⟨e | a, s', unreported, here⟩ := first s
  · exact ⟨.error e, s', fun _ same => unreported _ (by cases same; rfl),
      fun log => run_bind_error (here log)⟩
  · obtain ⟨result, s'', unreported, there⟩ := next a s'
    exact ⟨result, s'', unreported, fun log => (run_bind_ok (here log)).trans (there log)⟩

theorem raise_silent {error : ZipError} (unreported : error.isReported = false) :
    (raise source error : Action σ α).Silent := by
  intro s
  refine ⟨.error error, s, fun _ same => by cases same; exact unreported, fun log => ?_⟩
  rw [run_raise, ZipError.reports_of_not_isReported unreported, Array.append_empty]

theorem inRange_silent (offset : Option Nat) : (inRange source offset).Silent := by
  cases offset with
  | some offset => exact .pure offset
  | none =>
    unfold inRange
    exact raise_silent rfl

theorem readExactAt_silent (record : String) (offset length : Nat) :
    (readExactAt source record offset length).Silent := by
  intro s
  have unreported := ZipError.ofRead_unreported source.label record
  rcases read : source.readExactAt offset length s with ⟨e | bytes, s'⟩
  · refine ⟨.error (.ofRead source.label record e), s',
      fun _ same => by cases same; exact unreported e, fun log => ?_⟩
    rw [run_readExactAt, read]
    simp only [ZipError.reports_of_not_isReported (unreported e), Array.append_empty]
  · refine ⟨.ok bytes, s', nofun, fun log => ?_⟩
    rw [run_readExactAt, read]

end Action

namespace Trailer

/-! ## The walk -/

theorem check_silent (source : Source σ) (offset : Nat) (record : ClassicEnd) :
    (check source offset record).Silent := by
  unfold check
  refine (Action.inRange_silent _).bind fun commentEnd => ?_
  split
  · exact .pure _
  · split
    · cases subOffset? offset WideLocator.length with
      | none => exact .pure _
      | some locator =>
        refine (Action.readExactAt_silent _ _ _).bind fun bytes => ?_
        dsimp only
        split
        · exact .pure _
        · exact .pure _
    · exact .pure _

/-- What the check of a candidate comes to. -/
def verdict (source : Source σ) (offset : Nat) (record : ClassicEnd) (s : σ) :
    Except ZipError (Option Rejection) × σ :=
  let (result, r) := (check source offset record).run ⟨s, #[]⟩
  (result, r.state)

theorem run_check (source : Source σ) (offset : Nat) (record : ClassicEnd) (r : Run σ) :
    (check source offset record).run r =
        ((verdict source offset record r.state).1,
          ⟨(verdict source offset record r.state).2, r.log⟩) ∧
      ∀ e, (verdict source offset record r.state).1 = .error e → e.isReported = false := by
  obtain ⟨result, s', unreported, ran⟩ := check_silent source offset record r.state
  unfold verdict
  rw [ran #[]]
  exact ⟨ran r.log, unreported⟩

/-- Where a scan ends. -/
inductive ScanEnd where
  /-- The bytes at the end of the archive cannot be read. -/
  | unread (error : ZipError)
  | accepted (offset : Nat) (record : ClassicEnd)
  /-- The check of a candidate cannot be made. -/
  | failed (offset : Nat) (error : ZipError)
  /-- There are no more candidates. -/
  | exhausted

namespace ScanEnd

/-- The candidate that a scan ends at. -/
def offset? : ScanEnd → Option Nat
  | .accepted offset _ | .failed offset _ => some offset
  | .unread _ | .exhausted => none

/-- What a scan comes to that remembers a bad locator, if there was one. -/
def result (badLocator : Option UInt32) : ScanEnd → Except ZipError (Nat × ClassicEnd)
  | .unread error | .failed _ error => .error error
  | .accepted offset record => .ok (offset, record)
  | .exhausted =>
    match badLocator with
    | some found => .error (.badSignature WideLocator.recordName WideLocator.signature found)
    | none => .error .missingTrailer

theorem accepted_of_result {ending : ScanEnd} {badLocator : Option UInt32}
    {found : Nat × ClassicEnd} (ended : ending.result badLocator = .ok found) :
    ending = .accepted found.1 found.2 := by
  cases ending with
  | accepted offset record =>
    cases ended
    rfl
  | unread _ | failed _ _ => cases ended
  | exhausted =>
    cases badLocator with
    | none => cases ended
    | some _ => cases ended

end ScanEnd

/-- The first bad locator among the candidates that have been passed over. -/
def firstBadLocator (rejected : List (Nat × Rejection)) : Option UInt32 :=
  rejected.findSome? fun (_, reason) =>
    match reason with
    | .badLocator found => some found
    | _ => none

/-- What is logged about the candidates that have been passed over. -/
def warnings (rejected : List (Nat × Rejection)) : List Event :=
  rejected.map fun (offset, reason) => .candidateIgnored offset reason

theorem append_warnings_nil (log : Array Event) : log ++ (warnings []).toArray = log :=
  Array.append_empty

theorem append_warnings_cons (log : Array Event) (offset : Nat) (reason : Rejection)
    (rejected : List (Nat × Rejection)) :
    log ++ (warnings ((offset, reason) :: rejected)).toArray =
      log.push (.candidateIgnored offset reason) ++ (warnings rejected).toArray := by
  simp [warnings]

theorem remembered_or (badLocator : Option UInt32) (offset : Nat) (reason : Rejection)
    (rejected : List (Nat × Rejection)) :
    (remembered badLocator reason).or (firstBadLocator rejected) =
      badLocator.or (firstBadLocator ((offset, reason) :: rejected)) := by
  cases badLocator with
  | some known => rfl
  | none => cases reason <;> rfl

/-- A walk over places in a block, on the state of the source: the places that are passed over, each
with the reason, and where the walk ends. -/
inductive Visits (source : Source σ) (start : Nat) (block : ByteArray) :
    List Nat → σ → List (Nat × Rejection) → ScanEnd → σ → Prop where
  | exhausted {s : σ} : Visits source start block [] s [] .exhausted s
  | accepted {i : Nat} {rest : List Nat} {s s' : σ}
      (checked : verdict source (start + i) (recordAt block i) s = (.ok none, s')) :
    Visits source start block (i :: rest) s [] (.accepted (start + i) (recordAt block i)) s'
  | failed {i : Nat} {rest : List Nat} {s s' : σ} {error : ZipError}
      (checked : verdict source (start + i) (recordAt block i) s = (.error error, s')) :
    Visits source start block (i :: rest) s [] (.failed (start + i) error) s'
  | rejected {i : Nat} {rest : List Nat} {s s' s'' : σ} {reason : Rejection}
      {rejected : List (Nat × Rejection)} {ending : ScanEnd}
      (checked : verdict source (start + i) (recordAt block i) s = (.ok (some reason), s'))
      (onward : Visits source start block rest s' rejected ending s'') :
    Visits source start block (i :: rest) s ((start + i, reason) :: rejected) ending s''

/-- The walk stops in front of the places that are left. -/
theorem Visits.split {start : Nat} {block : ByteArray} {indices : List Nat} {s s' : σ}
    {rejected : List (Nat × Rejection)} {ending : ScanEnd}
    (visits : Visits source start block indices s rejected ending s') :
    ∃ left, indices.map (start + ·) = rejected.map (·.1) ++ left ∧ left.head? = ending.offset? := by
  induction visits with
  | exhausted => exact ⟨[], rfl, rfl⟩
  | accepted checked => exact ⟨_, rfl, rfl⟩
  | failed checked => exact ⟨_, rfl, rfl⟩
  | rejected checked onward ih =>
    obtain ⟨left, rest, head⟩ := ih
    exact ⟨left, by rw [List.map_cons, rest]; rfl, head⟩

/-- Going through candidates is such a walk. What is passed over is logged, and an error at the end
if it is one that the log reports. -/
theorem select_visits (source : Source σ) (start : Nat) {block : ByteArray} {indices : List Nat}
    (candidates : ∀ i ∈ indices, i + ClassicEnd.length ≤ block.size ∧
      wordAt block i = ClassicEnd.signature) (badLocator : Option UInt32) (r : Run σ) :
    ∃ rejected ending s', Visits source start block indices r.state rejected ending s' ∧
      let result := ending.result (badLocator.or (firstBadLocator rejected))
      (select source start block indices badLocator).run r =
        (result, ⟨s', r.log ++ (warnings rejected).toArray ++ reportsOf source.label result⟩) := by
  induction indices generalizing badLocator r with
  | nil =>
    refine ⟨[], .exhausted, r.state, .exhausted, ?_⟩
    dsimp only
    rw [append_warnings_nil]
    cases badLocator with
    | none => exact Action.run_raise source _ r
    | some found => exact Action.run_raise source _ r
  | cons i rest ih =>
    obtain ⟨room, signed⟩ := candidates i List.mem_cons_self
    have parsed : (ClassicEnd.layout.parse source.label ClassicEnd.recordName
        (slice block i ClassicEnd.length).data.toList).1 = .ok (recordAt block i) := by
      rw [toList_slice, ← encode_recordAt room signed, ← List.append_nil (ClassicEnd.encode _),
        ClassicEnd.parse_encode]
    obtain ⟨checking, unreported⟩ := run_check source (start + i) (recordAt block i) r
    unfold select
    rw [parsed, Action.run_bind_ok (show (Action.ofExcept source _).run r = (.ok _, r) from rfl)]
    rcases checked : verdict source (start + i) (recordAt block i) r.state with
      ⟨e | rejection, s'⟩
    · rw [checked] at checking unreported
      refine ⟨[], .failed (start + i) e, s', .failed checked, ?_⟩
      rw [Action.run_bind_error checking]
      simp only [append_warnings_nil, ScanEnd.result, reportsOf,
        ZipError.reports_of_not_isReported (unreported e rfl), Array.append_empty]
    · rw [checked] at checking
      rw [Action.run_bind_ok checking]
      cases rejection with
      | none =>
        refine ⟨[], .accepted (start + i) (recordAt block i), s', .accepted checked, ?_⟩
        simp only [append_warnings_nil, ScanEnd.result, reportsOf, Array.append_empty]
        rfl
      | some reason =>
        obtain ⟨rejected, ending, s'', onward, walked⟩ :=
          ih (fun j member => candidates j (List.mem_cons_of_mem i member))
            (remembered badLocator reason)
            ⟨s', r.log.push (.candidateIgnored (start + i) reason)⟩
        refine ⟨_, ending, s'', .rejected checked onward, ?_⟩
        rw [← remembered_or, append_warnings_cons]
        exact (Action.run_bind_ok rfl).trans walked

/-! ## The scan -/

/-- How many bytes at the end of the archive are searched. -/
def tailLength (source : Source σ) (tailWindow : Nat) : Nat :=
  min source.size (max tailWindow ClassicEnd.length)

/-- Where these bytes begin. -/
def tailStart (source : Source σ) (tailWindow : Nat) : Nat :=
  source.size - tailLength source tailWindow

/-- A scan of the end of the archive, and the state in which it leaves the source. -/
inductive Scan (source : Source σ) (tailWindow : Nat) (s : σ) :
    List (Nat × Rejection) → ScanEnd → σ → Prop where
  | unread {e : IoError} {s' : σ}
      (read : source.readExactAt (tailStart source tailWindow) (tailLength source tailWindow) s =
        (.error e, s')) :
    Scan source tailWindow s [] (.unread (.ofRead source.label "archive tail" e)) s'
  | read {block : ByteArray} {s' s'' : σ} {rejected : List (Nat × Rejection)} {ending : ScanEnd}
      (read : source.readExactAt (tailStart source tailWindow) (tailLength source tailWindow) s =
        (.ok block, s'))
      (visits : Visits source (tailStart source tailWindow) block (candidates block) s' rejected
        ending s'') :
    Scan source tailWindow s rejected ending s''

/-- The scan logs the candidates that it passes over, and its error if it is one that the log
reports. -/
theorem findClassic_scan (source : Source σ) (tailWindow : Nat) (r : Run σ) :
    ∃ rejected ending s', Scan source tailWindow r.state rejected ending s' ∧
      let result := ending.result (firstBadLocator rejected)
      (findClassic source tailWindow).run r =
        (result, ⟨s', r.log ++ (warnings rejected).toArray ++ reportsOf source.label result⟩) := by
  simp only [findClassic, subOffset?, Nat.min_le_left, if_true]
  rw [Action.run_bind_ok (show (Action.inRange source (some _)).run r = (.ok _, r) from rfl)]
  have tail := Action.run_readExactAt source "archive tail" (tailStart source tailWindow)
    (tailLength source tailWindow) r
  rcases read : source.readExactAt (tailStart source tailWindow) (tailLength source tailWindow)
    r.state with ⟨e | block, s'⟩
  · rw [read] at tail
    refine ⟨[], _, s', .unread read, ?_⟩
    refine (Action.run_bind_error tail).trans ?_
    rw [append_warnings_nil]
    rfl
  · rw [read] at tail
    have signed : ∀ i ∈ candidates block, i + ClassicEnd.length ≤ block.size ∧
        wordAt block i = ClassicEnd.signature := by
      intro i member
      obtain ⟨below, signed⟩ := (mem_matchesBelow block _ i).mp member
      unfold ClassicEnd.length at *
      exact ⟨by omega, signed⟩
    obtain ⟨rejected, ending, s'', visits, walked⟩ :=
      select_visits source (tailStart source tailWindow) signed none ⟨s', r.log⟩
    exact ⟨rejected, ending, s'', .read read visits, (Action.run_bind_ok tail).trans walked⟩

/-- The signature of the end record stands at an offset, in a block that begins at `start`. -/
def Signed (start : Nat) (block : ByteArray) (offset : Nat) : Prop :=
  start ≤ offset ∧ offset + ClassicEnd.length ≤ start + block.size ∧
    wordAt block (offset - start) = ClassicEnd.signature

theorem mem_map_candidates {start : Nat} {block : ByteArray} {offset : Nat} :
    offset ∈ (candidates block).map (start + ·) ↔ Signed start block offset := by
  simp only [List.mem_map, candidates, mem_matchesBelow, Signed, ClassicEnd.length]
  constructor
  · rintro ⟨i, ⟨below, signed⟩, rfl⟩
    rw [Nat.add_sub_cancel_left]
    exact ⟨by omega, by omega, signed⟩
  · rintro ⟨first, room, signed⟩
    exact ⟨offset - start, ⟨by omega, signed⟩, Nat.add_sub_of_le first⟩

/-- Candidates are passed over from the end of the archive on. They are all those that stand behind
the one where the scan ends. -/
theorem Scan.rejected_all {tailWindow : Nat} {s s' : σ} {rejected : List (Nat × Rejection)}
    {ending : ScanEnd} (scan : Scan source tailWindow s rejected ending s') :
    (rejected.map (·.1)).Pairwise (· > ·) ∧
      ∀ block s₁, source.readExactAt (tailStart source tailWindow) (tailLength source tailWindow) s =
          (.ok block, s₁) →
        ∀ offset, offset ∈ rejected.map (·.1) ↔ Signed (tailStart source tailWindow) block offset ∧
          ∀ last, ending.offset? = some last → last < offset := by
  cases scan with
  | unread read =>
    refine ⟨.nil, fun block s₁ given => ?_⟩
    cases read.symm.trans given
  | @read block s₁ s' _ _ read visits =>
    obtain ⟨left, split, head⟩ := visits.split
    have descending : (rejected.map (·.1) ++ left).Pairwise (· > ·) := by
      rw [← split]
      refine List.pairwise_map.mpr ((matchesBelow_descending _ _).imp fun above => ?_)
      omega
    obtain ⟨descending, leftDescending, apart⟩ := List.pairwise_append.mp descending
    refine ⟨descending, fun block' s₂ given offset => ?_⟩
    cases read.symm.trans given
    rw [← mem_map_candidates, split, List.mem_append, ← head]
    constructor
    · intro passed
      exact ⟨.inl passed, fun last found => apart offset passed last (List.mem_of_head? found)⟩
    · rintro ⟨passed | remains, above⟩
      · exact passed
      · cases left with
        | nil => exact absurd remains List.not_mem_nil
        | cons last rest =>
          have behind := above last rfl
          rcases List.mem_cons.mp remains with rfl | later
          · exact absurd behind (Nat.lt_irrefl _)
          · have := (List.pairwise_cons.mp leftDescending).1 offset later
            omega

end Trailer
end ZipArchive
