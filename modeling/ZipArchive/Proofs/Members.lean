import ZipArchive.Content
import ZipArchive.Proofs.Headers
import ZipArchive.Proofs.Outcome

/-!
# What members come to

On a source that serves a content, reading the directory comes to what its bytes describe
(`Directory.described`), and finding the content of a member comes to what the bytes behind its header
offset say (`Member.ranged`). Neither depends on how the source answers.
-/
namespace ZipArchive

variable {σ : Type} {source : Source σ} {content : ByteArray}

/-! ## Directories -/

namespace Directory

variable (source : Source σ) (options : Options) (directory : DirectoryEnd)

/-- The members that the headers in some bytes describe, behind those already described. The source
is only asked for its name and its size. -/
def listed : (count : Nat) → (bytes : List UInt8) → Array Member → Except ZipError (Array Member)
  | 0, _, members => .ok members
  | count + 1, bytes, members =>
    match CentralHeader.layout.parse source.label CentralHeader.recordName bytes with
    | (.error e, _) => .error e
    | (.ok header, rest) =>
      match memberOf source options directory members.size header with
      | .error e => .error e
      | .ok member => listed count rest (members.push member)

/-- The members that the content describes. -/
def described (content : ByteArray) : Except ZipError (Array Member) :=
  let start := directory.offset.toNat
  listed source options directory (recordCount options directory)
    (span content start (start + directory.size.toNat)) #[]

variable {source}

theorem readMembers_yields (holds : source.Holds content) (count : Nat) {b : Buffered}
    {cursor stop : Nat} (reads : b.Reads content cursor stop) (members : Array Member) :
    (readMembers source options directory count b members).Yields
      (listed source options directory count (span content cursor stop) members)
      (reportsOf source.label
        (listed source options directory count (span content cursor stop) members)) := by
  induction count generalizing b cursor members with
  | zero => exact Action.pure_yields source members
  | succ count ih =>
    unfold readMembers listed
    apply Action.readRecord_bind holds _ _ reads
    rcases CentralHeader.layout.parse source.label CentralHeader.recordName
      (span content cursor stop) with ⟨e | header, rest⟩
    · exact ⟨rfl, rfl⟩
    · rintro b' cursor' onward rfl
      dsimp only
      cases described : memberOf source options directory members.size header with
      | error e => exact (Action.raise_yields source e).bind_error
      | ok member => exact (Action.ofExcept_yields source member).andThen (ih onward _)

/-- Reading a directory comes to what the content describes. -/
theorem read_yields (holds : source.Holds content)
    (in_range : directory.offset.toNat + directory.size.toNat < offsetBound) :
    (read source options directory).Yields (described source options directory content)
      (#[.readingDirectory (recordCount options directory) directory.recordsHere.toNat] ++
        reportsOf source.label (described source options directory content)) := by
  unfold read described
  rw [addOffset?, if_pos in_range, holds.size_eq]
  refine (Action.log_yields _).bind ((Action.inRange_yields source _).andThen ?_)
  have window := Buffered.reads_new content directory.offset.toNat
    (directory.offset.toNat + directory.size.toNat) blockSize
  have members := readMembers_yields options directory holds
    (recordCount options directory) window #[]
  rwa [span_clamped] at members

end Directory

/-! ## Contents -/

namespace Member

variable (source : Source σ) (m : Member)

/-- The bytes that a member's local header is read from. -/
def headerBytes (content : ByteArray) : List UInt8 :=
  span content m.headerStart (m.headerStart + LocalHeader.maxLength)

/-- The range that a local header tells of, in a content of the given size. -/
def rangeBehind (size : Nat) (header : LocalHeader) : Except ZipError DataRange :=
  let compressedSize := (m.sizes header).1
  let start := m.headerStart + header.length
  if start + compressedSize.toNat ≤ size then
    .ok ⟨header, compressedSize, (m.sizes header).2, start, start + compressedSize.toNat⟩
  else .error (.corrupt (.dataBeyondEnd m.name compressedSize.toNat start))

/-- What reading a member's local header comes to. -/
def headerRead (content : ByteArray) : Except ZipError LocalHeader :=
  LocalHeader.layout.outcome source.label LocalHeader.recordName (m.headerBytes content)

/-- Where the content of a member lies. -/
def ranged (content : ByteArray) : Except ZipError DataRange :=
  (m.headerRead source content).bind (m.rangeBehind content.size)

/-- What is logged once the local header has been read. -/
def stepsBehind : Except ZipError LocalHeader → Array Event
  | .ok header => if header.hasDescriptor then #[.usingDescriptor m.name] else #[]
  | .error _ => #[]

variable {source}

/-- A local header that could be read ends within the content. -/
theorem header_inside {header : LocalHeader} (read : m.headerRead source content = .ok header) :
    m.headerStart + header.length ≤ content.size := by
  obtain ⟨rest, parsed⟩ := Layout.outcome_eq_iff.mp read
  have taken := LocalHeader.parse_length parsed
  have some : 0 < header.length := by
    unfold LocalHeader.length LocalHeader.minLength
    omega
  rw [headerBytes, length_span] at taken
  omega

theorem headerWindow_reads (holds : source.Holds content) :
    ∃ cursor stop, (m.headerWindow source).Reads content cursor stop ∧
      span content cursor stop = m.headerBytes content := by
  have small := holds.size_lt
  have clamped : min (min (min (m.headerStart + LocalHeader.maxLength) (offsetBound - 1))
      content.size) content.size = min (m.headerStart + LocalHeader.maxLength) content.size := by
    omega
  have window := Buffered.reads_new content m.headerStart
    (min (min (m.headerStart + LocalHeader.maxLength) (offsetBound - 1)) content.size) blockSize
  rw [clamped] at window
  unfold headerWindow
  rw [holds.size_eq]
  exact ⟨_, _, window, span_clamped content _ _⟩

/-- What is done with a local header that has been read. -/
def rangeFrom (source : Source σ) (m : Member) (header : LocalHeader) : Action σ DataRange := do
  let start ← Action.inRange source (addOffset? m.headerStart header.length)
  match addOffset? start (m.sizes header).1.toNat with
  | some stop =>
    if stop ≤ source.size then
      return ⟨header, (m.sizes header).1, (m.sizes header).2, start, stop⟩
    else Action.raise source (.corrupt (.dataBeyondEnd m.name (m.sizes header).1.toNat start))
  | none => Action.raise source (.corrupt (.dataBeyondEnd m.name (m.sizes header).1.toNat start))

theorem dataRange_eq (source : Source σ) (m : Member) :
    m.dataRange source = (do
      let (header, _) ←
        Action.readRecord source LocalHeader.recordName LocalHeader.layout (m.headerWindow source)
      if header.hasDescriptor then Action.log (.usingDescriptor m.name)
      m.rangeFrom source header) := rfl

theorem rangeFrom_yields (holds : source.Holds content) {header : LocalHeader}
    (inside : m.headerStart + header.length ≤ content.size) :
    (m.rangeFrom source header).Yields (m.rangeBehind content.size header)
      (reportsOf source.label (m.rangeBehind content.size header)) := by
  have small := holds.size_lt
  unfold rangeFrom
  rw [addOffset?, if_pos (Nat.lt_of_le_of_lt inside small), holds.size_eq]
  apply (Action.inRange_yields source _).andThen
  unfold rangeBehind addOffset?
  by_cases range : m.headerStart + header.length + (m.sizes header).1.toNat < offsetBound
  · by_cases fits : m.headerStart + header.length + (m.sizes header).1.toNat ≤ content.size
    · simp only [range, fits, if_true]
      exact Action.pure_yields source _
    · simp only [range, fits, if_true, if_false]
      exact Action.raise_yields source _
  · have beyond : ¬ m.headerStart + header.length + (m.sizes header).1.toNat ≤ content.size := by
      omega
    simp only [range, beyond, if_false]
    exact Action.raise_yields source _

/-- Finding a member's content comes to what the content says. -/
theorem dataRange_yields (holds : source.Holds content) :
    (m.dataRange source).Yields (m.ranged source content)
      (m.stepsBehind (m.headerRead source content) ++
        reportsOf source.label (m.ranged source content)) := by
  obtain ⟨cursor, stop, window, bytes⟩ := m.headerWindow_reads holds
  rw [dataRange_eq]
  apply Action.readRecord_bind holds _ _ window
  rw [bytes]
  cases parsed : LocalHeader.layout.parse source.label LocalHeader.recordName
    (m.headerBytes content) with
  | mk result rest =>
    have read : m.headerRead source content = result := Layout.outcome_eq_iff.mpr ⟨rest, parsed⟩
    cases result with
    | error e =>
      rw [ranged, read]
      exact ⟨rfl, by rw [stepsBehind, Array.empty_append]; rfl⟩
    | ok header =>
      have behind := m.rangeFrom_yields holds (m.header_inside read)
      intro b' cursor' _ _
      rw [ranged, read]
      unfold stepsBehind
      by_cases descriptor : header.hasDescriptor
      · simp only [descriptor, if_true]
        exact (Action.log_yields _).bind behind
      · simp only [descriptor, if_false, Bool.false_eq_true, Array.empty_append]
        exact behind

end Member
end ZipArchive
