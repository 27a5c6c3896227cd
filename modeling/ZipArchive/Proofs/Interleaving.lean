import ZipArchive.Proofs.Entries
import ZipArchive.Proofs.Extracting
import ZipArchive.Proofs.Retrying
import ZipArchive.Proofs.RoundTrip
import ZipArchive.Session

/-!
# Streams of a session keep apart

What a session answers about a stream depends on the requests about this stream alone, in their
order, since its member was plugged (`Session.answerAll_uses`): requests about other streams, about
members and about the archive may come in between, and may use up interruptions of the source. The
answers are those of a session in which nothing else is done (`Session.streams_apart`).
-/
namespace ZipArchive

variable {σ : Type} {source : Source σ} {calm : σ} {content : ByteArray}

section
variable [Decoders]

/-! ## Streams under their names -/

namespace Streams

variable (streams : Streams) {name other : String}

theorem get?_insert_self (stream : MemberStream) :
    (streams.insert name stream).get? name = some stream :=
  (lookup_replaced streams name name stream).trans (if_pos rfl)

theorem get?_erase (different : name ≠ other) :
    (streams.erase other).get? name = streams.get? name := lookup_filter_ne streams different

theorem get?_insert (different : name ≠ other) (stream : MemberStream) :
    (streams.insert other stream).get? name = streams.get? name :=
  (lookup_replaced streams other name stream).trans (if_neg different)

end Streams

/-! ## Requests about one stream -/

/-- The request reads the stream of a name or moves its cursor. -/
def Request.uses (name : String) : Request → Bool
  | .read stream _ => stream = name
  | .readToEnd stream => stream = name
  | .seek stream _ => stream = name
  | _ => false

namespace Session

/-- The stream of a name is closed, or another one is put in its place. -/
def Ends (name : String) (request : Request) (answer : Answer) : Prop :=
  request = .close name ∨ ∃ index plugged, request = .plug index name ∧ answer = .plugged plugged

/-- The answer to what was collected from a stream. -/
def collected : Except IoError Unit × ByteArray → Answer
  | (.ok (), bytes) => .bytes bytes
  | (.error e, _) => .streamFailed e

/-- What a stream on its own answers to a request, and where it is then. -/
def solo (source : Source σ) (calm : σ) (request : Request) (stream : MemberStream) :
    Answer × MemberStream :=
  match request with
  | .read _ length =>
    let (found, stream, _) := stream.collect source (length - ·) .empty calm
    (collected found, stream)
  | .readToEnd _ =>
    let (found, stream, _) := stream.collect source (fun _ => chunkSize) .empty calm
    (collected found, stream)
  | .seek _ target =>
    match stream.seek target with
    | .ok stream => (.position stream.position, stream)
    | .error e => (.streamFailed e, stream)
  | _ => (.noStream, stream)

/-- What a stream on its own answers to requests in order. -/
def soloAll (source : Source σ) (calm : σ) : List Request → MemberStream → List Answer
  | [], _ => []
  | request :: rest, stream =>
    (solo source calm request stream).1 ::
      soloAll source calm rest (solo source calm request stream).2

/-- Those of the answers that are about what the stream of a name was used for. -/
def answersOn (name : String) (requests : List Request) (answers : List Answer) : List Answer :=
  ((requests.zip answers).filter (·.1.uses name)).map (·.2)

variable {session : Session} {name : String} {stream : MemberStream} {request : Request} {r : Run σ}

theorem answerAll_cons (request : Request) (rest : List Request) (session : Session) (r : Run σ) :
    (session.answerAll source (request :: rest) r).1 =
      (session.answer source request r).1.1 ::
        ((session.answer source request r).1.2.answerAll source rest
          (session.answer source request r).2).1 := rfl

/-! ## One step -/

/-- A request about the archive that only tells something leaves the session alone. -/
theorem onArchive_kept {α : Type} (act : Archive → Action σ α) (answer : α → Answer) :
    (session.onArchive act (fun value session => (answer value, session)) r).1.2 = session := by
  unfold onArchive
  cases session.archive with
  | none => rfl
  | some archive =>
    dsimp only
    rcases (act archive).run r with ⟨e | value, r'⟩
    · rfl
    · rfl

/-- Reading a stream is answered as the stream on its own does, whatever the source's state. -/
theorem onStream_solo (calms : source.Calms calm) (ask : Nat → Nat)
    (there : session.streams.get? name = some stream) :
    (session.onStream source name ask r).1.1 =
        collected (stream.collect source ask .empty calm).1 ∧
      (session.onStream source name ask r).1.2.streams.get? name =
        some (stream.collect source ask .empty calm).2.1 := by
  obtain ⟨found, left⟩ := stream.collect_calm calms ask .empty r.state
  rw [← found, ← left]
  unfold onStream
  rw [there]
  dsimp only
  rcases stream.collect source ask .empty r.state with ⟨⟨e | _, bytes⟩, stream', s'⟩
  · exact ⟨rfl, session.streams.get?_insert_self _⟩
  · exact ⟨rfl, session.streams.get?_insert_self _⟩

theorem onStream_other (ask : Nat → Nat) {other : String} (different : name ≠ other) :
    (session.onStream source other ask r).1.2.streams.get? name = session.streams.get? name := by
  unfold onStream
  cases session.streams.get? other with
  | none => rfl
  | some stream =>
    dsimp only
    rcases stream.collect source ask .empty r.state with ⟨⟨e | _, bytes⟩, stream', s'⟩
    · exact session.streams.get?_insert different _
    · exact session.streams.get?_insert different _

/-- A request about a stream is answered as the stream on its own does. -/
theorem answer_uses (calms : source.Calms calm) (used : request.uses name = true)
    (there : session.streams.get? name = some stream) :
    (session.answer source request r).1.1 = (solo source calm request stream).1 ∧
      (session.answer source request r).1.2.streams.get? name =
        some (solo source calm request stream).2 := by
  cases request with
  | read other length =>
    obtain rfl : other = name := of_decide_eq_true used
    exact onStream_solo calms _ there
  | readToEnd other =>
    obtain rfl : other = name := of_decide_eq_true used
    exact onStream_solo calms _ there
  | seek other target =>
    obtain rfl : other = name := of_decide_eq_true used
    simp only [answer, Session.seek, there, solo]
    cases stream.seek target with
    | ok moved => exact ⟨rfl, session.streams.get?_insert_self _⟩
    | error e => exact ⟨rfl, there⟩
  | _ => cases used

/-- Any other request leaves the stream where it is, unless it closes or replaces it. -/
theorem answer_other (other : request.uses name = false)
    (kept : ¬ Ends name request (session.answer source request r).1.1) :
    (session.answer source request r).1.2.streams.get? name = session.streams.get? name := by
  cases request with
  | members | find path | member index | extract index limit | range index =>
    exact congrArg (·.streams.get? name) (onArchive_kept _ _)
  | drop => rfl
  | read stream length =>
    exact onStream_other _ fun same => by simp [Request.uses, same] at other
  | readToEnd stream =>
    exact onStream_other _ fun same => by simp [Request.uses, same] at other
  | seek stream target =>
    have different : name ≠ stream := fun same => by simp [Request.uses, same] at other
    simp only [answer, Session.seek]
    cases session.streams.get? stream with
    | none => rfl
    | some found =>
      dsimp only
      cases found.seek target with
      | ok moved => exact session.streams.get?_insert different _
      | error e => rfl
  | close stream =>
    have different : name ≠ stream := fun same => kept (.inl (same ▸ rfl))
    simp only [answer, Session.close]
    cases session.streams.get? stream with
    | none => rfl
    | some found => exact session.streams.get?_erase different
  | plug index stream =>
    simp only [answer, onArchive] at kept ⊢
    cases held : session.archive with
    | none => rfl
    | some archive =>
      rw [held] at kept
      dsimp only at kept ⊢
      rcases done : (archive.plug source index).run r with ⟨e | plugged, r'⟩
      · rfl
      · rw [done] at kept
        have different : name ≠ stream := fun same =>
          kept (.inr ⟨index, plugged, same ▸ rfl, rfl⟩)
        exact session.streams.get?_insert different _

/-! ## All steps -/

/-- Whatever else is asked for in between, a stream that is neither closed nor replaced is answered
for as it is on its own. -/
theorem answerAll_uses (calms : source.Calms calm) (requests : List Request) (session : Session)
    (r : Run σ) (stream : MemberStream) (there : session.streams.get? name = some stream)
    (kept : ∀ step ∈ requests.zip (session.answerAll source requests r).1,
      ¬ Ends name step.1 step.2) :
    answersOn name requests (session.answerAll source requests r).1 =
      soloAll source calm (requests.filter (·.uses name)) stream := by
  induction requests generalizing session r stream with
  | nil => rfl
  | cons request rest ih =>
    rw [answerAll_cons, List.zip_cons_cons] at kept
    have here := kept _ List.mem_cons_self
    have later := fun step member => kept step (List.mem_cons_of_mem _ member)
    rw [answerAll_cons, answersOn, List.zip_cons_cons]
    cases used : request.uses name with
    | true =>
      obtain ⟨answered, there'⟩ := answer_uses calms used there (r := r)
      simp only [List.filter_cons, used, if_true, List.map_cons, soloAll, answered]
      exact congrArg _ (ih _ _ _ there' later)
    | false =>
      have there' := (answer_other used here).trans there
      simp only [List.filter_cons, used, Bool.false_eq_true, if_false]
      exact ih _ _ _ there' later

/-- The requests about a stream are not ended by one another. -/
theorem kept_filter (requests : List Request) (answers : List Answer) :
    ∀ step ∈ (requests.filter (·.uses name)).zip answers, ¬ Ends name step.1 step.2 := by
  rintro ⟨request, answer⟩ member (rfl | ⟨index, plugged, rfl, -⟩)
  · have used := (List.mem_filter.mp (List.of_mem_zip member).1).2
    cases used
  · have used := (List.mem_filter.mp (List.of_mem_zip member).1).2
    cases used

theorem answersOn_filter (requests : List Request) (answers : List Answer)
    (whole : answers.length = (requests.filter (·.uses name)).length) :
    answersOn name (requests.filter (·.uses name)) answers = answers := by
  have all : ∀ step ∈ (requests.filter (·.uses name)).zip answers, step.1.uses name = true :=
    fun step member => (List.mem_filter.mp (List.of_mem_zip member).1).2
  rw [answersOn, List.filter_eq_self.mpr all]
  exact List.map_snd_zip (Nat.le_of_eq whole)

theorem length_answerAll (requests : List Request) (session : Session) (r : Run σ) :
    (session.answerAll source requests r).1.length = requests.length := by
  induction requests generalizing session r with
  | nil => rfl
  | cons request rest ih => rw [answerAll_cons, List.length_cons, List.length_cons, ih]

/-- Asked for nothing else, a session answers for a stream as it is on its own. -/
theorem answerAll_alone (calms : source.Calms calm) (requests : List Request) (session : Session)
    (r : Run σ) (stream : MemberStream) (there : session.streams.get? name = some stream) :
    (session.answerAll source (requests.filter (·.uses name)) r).1 =
      soloAll source calm (requests.filter (·.uses name)) stream := by
  have alone := answerAll_uses calms (requests.filter (·.uses name)) session r stream there
    (kept_filter _ _)
  rw [answersOn_filter _ _ (length_answerAll _ session r), List.filter_filter] at alone
  simpa only [Bool.and_self] using alone

/-! ## Plugging -/

/-- A request to plug that is not granted leaves the session as it was. -/
theorem answer_plug_refused {index : Nat}
    (refused : ∀ plugged, (session.answer source (.plug index name) r).1.1 ≠ .plugged plugged) :
    (session.answer source (.plug index name) r).1.2 = session := by
  simp only [answer, onArchive] at refused ⊢
  cases held : session.archive with
  | none => rfl
  | some archive =>
    rw [held] at refused
    dsimp only at refused ⊢
    rcases done : (archive.plug source index).run r with ⟨e | plugged, r'⟩
    · rfl
    · rw [done] at refused
      exact absurd rfl (refused plugged)

theorem answer_plug {archive : Archive} (held : session.archive = some archive) {index : Nat}
    {plugged : Plugged} {r' : Run σ}
    (ready : (archive.plug source index).run r = (.ok plugged, r')) :
    session.answer source (.plug index name) r = ((.plugged plugged,
      { session with streams := session.streams.insert name plugged.stream }), r') := by
  simp only [answer, onArchive, held, ready]

/-- A request to plug is granted when the member can be plugged. -/
theorem plug_of_answer {archive : Archive} (held : session.archive = some archive) {index : Nat}
    {plugged : Plugged} {session' : Session} {r' : Run σ}
    (granted : session.answer source (.plug index name) r = ((.plugged plugged, session'), r')) :
    (archive.plug source index).run r = (.ok plugged, r') ∧
      session' = { session with streams := session.streams.insert name plugged.stream } := by
  simp only [answer, onArchive, held] at granted
  rcases done : (archive.plug source index).run r with ⟨e | found, r''⟩
  · rw [done] at granted
    cases granted
  · rw [done] at granted
    cases granted
    exact ⟨rfl, by rw [held]⟩

/-! ## Consecutive parts -/

/-- How many bytes a request reads, at most, when `left` of them are left. -/
def reach (left : Nat) : Request → Nat
  | .read _ length => length
  | _ => left

/-- The answers to reads that hand out a content part by part, when `handed` bytes of it have been
handed out before. -/
def consecutive (all : ByteArray) : (handed : Nat) → List Request → List Answer
  | _, [] => []
  | handed, request :: rest =>
    let bytes := slice all handed (reach (all.size - handed) request)
    .bytes bytes :: consecutive all (handed + bytes.size) rest

/-- A read hands out the next bytes of a stream's content, as many as it wants or as are left. -/
theorem solo_slice (serves : source.Serves content) {all : ByteArray} {handed : Nat}
    (stands : stream.Stands content (.ok all) handed) (used : request.uses name = true)
    (read : ∀ target, request ≠ .seek name target) :
    let bytes := slice all handed (reach (all.size - handed) request)
    (solo source calm request stream).1 = .bytes bytes ∧
      (solo source calm request stream).2.Stands content (.ok all) (handed + bytes.size) := by
  cases request with
  | read other length =>
    obtain ⟨count, found, size, onward, ended⟩ :=
      MemberStream.collect_part serves (length - ·) calm stands
    have bound : count ≤ length := by
      have few : (stream.collect source (length - ·) .empty calm).1.2.size ≤ length :=
        MemberStream.collect_size_le serves (fun n small => by omega) .empty stream calm handed
          stands (Nat.zero_le length)
      rwa [found, size] at few
    have same := slice_eq_slice size bound (ended.imp_left Nat.le_of_sub_eq_zero)
    simp only [solo, reach, found, same, size]
    exact ⟨rfl, onward⟩
  | readToEnd other =>
    obtain ⟨count, found, size, onward, ended⟩ :=
      MemberStream.collect_part serves (fun _ => chunkSize) calm stands
    have reached := ended.resolve_left (by decide)
    have room : (slice all handed count).size ≤ all.size - handed := by
      simp only [slice, ByteArray.size_extract]
      omega
    have same := slice_eq_slice size (size ▸ room) (.inr reached)
    simp only [solo, reach, found, same, size]
    exact ⟨rfl, onward⟩
  | seek other target =>
    obtain rfl : other = name := of_decide_eq_true used
    exact absurd rfl (read target)
  | _ => cases used

theorem soloAll_consecutive (serves : source.Serves content) {all : ByteArray}
    (requests : List Request) (read : ∀ request ∈ requests, request.uses name = true ∧
      ∀ target, request ≠ .seek name target) (handed : Nat) (stream : MemberStream)
    (stands : stream.Stands content (.ok all) handed) :
    soloAll source calm requests stream = consecutive all handed requests := by
  induction requests generalizing handed stream with
  | nil => rfl
  | cons request rest ih =>
    obtain ⟨used, unmoved⟩ := read request List.mem_cons_self
    obtain ⟨answered, onward⟩ := @solo_slice _ _ calm _ _ _ _ _ serves _ _ stands used unmoved
    rw [soloAll, consecutive, answered]
    exact congrArg _ (ih (fun q member => read q (List.mem_cons_of_mem _ member)) _ _ onward)

/-! ## The archive of a session -/

/-- Only letting go of the archive changes what is known of it. -/
theorem answer_archive (request : Request) (session : Session) (r : Run σ) :
    (session.answer source request r).1.2.archive =
      if request = .drop then none else session.archive := by
  have onStream_archive : ∀ (name : String) (ask : Nat → Nat),
      (session.onStream source name ask r).1.2.archive = session.archive := by
    intro name ask
    unfold onStream
    cases session.streams.get? name with
    | none => rfl
    | some stream =>
      dsimp only
      rcases stream.collect source ask .empty r.state with ⟨⟨e | _, bytes⟩, stream', s'⟩
      · rfl
      · rfl
  cases request with
  | members | find path | member index | extract index limit | range index =>
    exact congrArg Session.archive (onArchive_kept _ _)
  | drop => rfl
  | read stream length => exact onStream_archive _ _
  | readToEnd stream => exact onStream_archive _ _
  | seek stream target =>
    simp only [answer, Session.seek]
    cases session.streams.get? stream with
    | none => rfl
    | some found =>
      dsimp only
      cases found.seek target with
      | ok moved => rfl
      | error e => rfl
  | close stream =>
    simp only [answer, Session.close]
    cases session.streams.get? stream with
    | none => rfl
    | some found => rfl
  | plug index stream =>
    simp only [answer, onArchive]
    cases held : session.archive with
    | none => exact held
    | some archive =>
      dsimp only
      rcases (archive.plug source index).run r with ⟨e | plugged, r'⟩
      · exact held
      · rfl

theorem answerAll_archive (requests : List Request) (session : Session) (r : Run σ) :
    (session.answerAll source requests r).2.1.archive =
      if Request.drop ∈ requests then none else session.archive := by
  induction requests generalizing session r with
  | nil => rfl
  | cons request rest ih =>
    have onward := ih (session.answer source request r).1.2 (session.answer source request r).2
    rw [answer_archive] at onward
    change ((session.answer source request r).1.2.answerAll source rest
      (session.answer source request r).2).2.1.archive = _
    rw [onward]
    by_cases dropped : request = .drop
    · simp [dropped]
    · simp [dropped, Ne.symm dropped]

theorem answer_members (session : Session) (r : Run σ) :
    (session.answer source .members r).1.1 =
      match session.archive with
      | some archive => .members archive.members
      | none => .noArchive := by
  simp only [answer, onArchive]
  cases session.archive with
  | none => rfl
  | some archive => rfl

/-- A request about a stream does without the archive. -/
theorem answer_dropped (used : request.uses name = true) (session : Session) (r : Run σ) :
    { session with archive := none }.answer source request r =
      (((session.answer source request r).1.1,
          { (session.answer source request r).1.2 with archive := none }),
        (session.answer source request r).2) := by
  have onStream_dropped : ∀ (name : String) (ask : Nat → Nat),
      { session with archive := none }.onStream source name ask r =
        (((session.onStream source name ask r).1.1,
            { (session.onStream source name ask r).1.2 with archive := none }),
          (session.onStream source name ask r).2) := by
    intro name ask
    unfold onStream
    cases session.streams.get? name with
    | none => rfl
    | some stream =>
      dsimp only
      rcases stream.collect source ask .empty r.state with ⟨⟨e | _, bytes⟩, stream', s'⟩
      · rfl
      · rfl
  cases request with
  | read other length => exact onStream_dropped _ _
  | readToEnd other => exact onStream_dropped _ _
  | seek other target =>
    simp only [answer, Session.seek]
    cases session.streams.get? other with
    | none => rfl
    | some found =>
      dsimp only
      cases found.seek target with
      | ok moved => rfl
      | error e => rfl
  | _ => cases used

/-- Streams are read and moved without their archive. -/
theorem answerAll_dropped (requests : List Request)
    (uses : ∀ request ∈ requests, ∃ name, request.uses name = true) (session : Session)
    (r : Run σ) :
    ({ session with archive := none }.answerAll source requests r).1 =
      (session.answerAll source requests r).1 := by
  induction requests generalizing session r with
  | nil => rfl
  | cons request rest ih =>
    obtain ⟨name, used⟩ := uses request List.mem_cons_self
    rw [answerAll_cons, answerAll_cons, answer_dropped used session r]
    exact congrArg _ (ih (fun q member => uses q (List.mem_cons_of_mem _ member)) _ _)

/-! ## Sessions on a scheduled source -/

/-- On a source that gives at least one byte with each read, and interrupts first reads at any
offsets, streams do not disturb each other, whatever a session is asked for and in what order.

From the plugging of a member on until the stream is closed or replaced, reads and seeks of the
stream are answered as in a session in which the member is plugged and nothing else is done. Without
seeks, they hand out consecutive parts of the member's content. A member that cannot be plugged
leaves the session as it was, with the older stream of that name. The members are told as long as
the archive is held, and letting go of it changes no answer about a stream. -/
theorem streams_apart (label : String) {content : ByteArray} {plan : Schedule}
    (small : content.size < fileOffsetLimit) (sound : plan.failing = [])
    (true_size : plan.size = none) (some_bytes : ∀ cap, plan.cap = some cap → 0 < cap) :
    let source := Source.scheduled label content plan
    (∀ (session : Session) (archive : Archive), session.archive = some archive →
      ∀ (index : Nat) (name : String) (plugged : Plugged) (begun : Session) (r r₁ : Run (List Nat)),
      session.answer source (.plug index name) r = ((.plugged plugged, begun), r₁) →
      ∀ after : List Request,
      (∀ step ∈ after.zip (begun.answerAll source after r₁).1, ¬ Ends name step.1 step.2) →
      let answers := answersOn name after (begun.answerAll source after r₁).1
      let uses := after.filter (·.uses name)
      ∀ r' : Run (List Nat), ∃ alone r₂,
        (Session.new archive).answer source (.plug index name) r' =
          ((.plugged plugged, alone), r₂) ∧
        answers = (alone.answerAll source uses r₂).1 ∧
        ∀ whole, ((archive.extract source index none).run r').1 = .ok whole →
          (∀ target, Request.seek name target ∉ after) →
          answers = consecutive whole.bytes 0 uses) ∧
    (∀ (session : Session) (index : Nat) (name : String) (r : Run (List Nat)),
      (∀ plugged, (session.answer source (.plug index name) r).1.1 ≠ .plugged plugged) →
      (session.answer source (.plug index name) r).1.2 = session) ∧
    (∀ (session : Session) (archive : Archive), session.archive = some archive →
      ∀ (requests : List Request) (r r' : Run (List Nat)),
      ((session.answerAll source requests r).2.1.answer source .members r').1.1 =
        if Request.drop ∈ requests then .noArchive else .members archive.members) ∧
    ∀ (session : Session) (requests : List Request),
      (∀ request ∈ requests, ∃ name, request.uses name = true) → ∀ r : Run (List Nat),
      (((session.answer source .drop r).1.2).answerAll source requests r).1 =
        (session.answerAll source requests r).1 := by
  intro source
  have serves : source.Serves content :=
    Source.scheduled_serves label small sound true_size some_bytes
  have calms : source.Calms [] := Source.scheduled_calms label content plan
  refine ⟨?_, ?_, ?_, ?_⟩
  · intro session archive held index name plugged begun r r₁ granted after kept answers uses r'
    obtain ⟨ready, rfl⟩ := plug_of_answer held granted
    have comes := archive.plug_yields index serves
    have same : archive.plugged source index content = .ok plugged := by
      rw [← comes.result_eq r, ready]
    obtain ⟨s, ready'⟩ := comes r'
    rw [same] at ready'
    have solely := answerAll_uses calms after _ r₁ plugged.stream
      (Streams.get?_insert_self session.streams plugged.stream) kept
    refine ⟨_, _, answer_plug rfl ready', ?_, ?_⟩
    · rw [answerAll_alone calms after _ _ plugged.stream
        (Streams.get?_insert_self [] plugged.stream)]
      exact solely
    · intro whole extracted unmoved
      rw [(archive.extract_yields index serves).result_eq] at extracted
      have stands := archive.plugged_stands index same extracted
      have reads : ∀ request ∈ uses, request.uses name = true ∧
          ∀ target, request ≠ .seek name target := by
        intro request member
        obtain ⟨listed, used⟩ := List.mem_filter.mp member
        exact ⟨used, fun target sought => unmoved target (sought ▸ listed)⟩
      exact solely.trans (soloAll_consecutive serves uses reads 0 _ stands)
  · intro session index name r refused
    exact answer_plug_refused refused
  · intro session archive held requests r r'
    rw [answer_members, answerAll_archive, held]
    by_cases dropped : Request.drop ∈ requests
    · rw [if_pos dropped, if_pos dropped]
    · rw [if_neg dropped, if_neg dropped]
  · intro session requests uses r
    exact answerAll_dropped requests uses session r

end Session
end

/-- The first of two members is read in two parts, one byte at a time and with interruptions. In
between the second one is plugged, read and extracted, and the archive is let go of. -/
theorem Session.twoMembers_apart :
    let source := Source.scheduled "a.zip" Draft.twoMembers.bytes.toByteArray
      { interrupted := [0, 59, 40], cap := some 1 }
    let after : List Request := [.plug 1 "b", .readToEnd "b", .read "a" 2, .extract 1 none, .drop,
      .seek "b" (.start 0), .read "a" 5]
    ∃ plugged begun r₁,
      (Session.new Draft.twoMembers.archive).answer source (.plug 0 "a") ⟨[0, 59, 40], #[]⟩ =
        ((.plugged plugged, begun), r₁) ∧
      answersOn "a" after (begun.answerAll source after r₁).1 =
        [.bytes [1, 2].toByteArray, .bytes [3].toByteArray] := by
  intro source after
  have written : Draft.twoMembers.bytes.toByteArray.data.toList = Draft.twoMembers.bytes :=
    List.toList_data_toByteArray
  have small : Draft.twoMembers.bytes.toByteArray.size < fileOffsetLimit := by
    rw [size_of_toList written]
    decide +kernel
  have positive : ∀ cap, some 1 = some cap → 0 < cap := by
    rintro cap ⟨⟩
    decide
  have fits : Draft.twoMembers.Fits := by decide +kernel
  have first : 0 < Draft.twoMembers.entries.length := by decide
  have serves := @Source.scheduled_serves "a.zip" _ { interrupted := [0, 59, 40], cap := some 1 }
    small rfl rfl positive
  obtain ⟨r₁, ready⟩ := Draft.plug_written serves fits written first rfl ⟨[0, 59, 40], #[]⟩
  obtain ⟨all, extracted, payload⟩ := Draft.extract_written serves fits written first rfl
    ⟨[0, 59, 40], #[]⟩
  have content : all = [1, 2, 3].toByteArray := by
    ext1
    apply Array.toList_inj.mp
    rw [payload, List.toList_data_toByteArray]
    rfl
  subst content
  have granted := @answer_plug _ source _ (.new Draft.twoMembers.archive) "a" _ _ rfl _ _ _ ready
  have kept : ∀ answers, ∀ step ∈ after.zip answers, ¬ Ends "a" step.1 step.2 := by
    rintro answers ⟨request, answer⟩ member (rfl | ⟨index, plugged, rfl, -⟩)
    · have listed := (List.of_mem_zip member).1
      simp [after] at listed
    · have listed := (List.of_mem_zip member).1
      simp [after] at listed
  have apart := @streams_apart _ "a.zip" _ { interrupted := [0, 59, 40], cap := some 1 } small rfl
    rfl positive
  obtain ⟨alone, r₂, -, -, parts⟩ := apart.1 _ _ rfl 0 "a" _ _ _ _ granted after (kept _)
    ⟨[0, 59, 40], #[]⟩
  exact ⟨_, _, _, granted, parts _ extracted (by simp [after])⟩

end ZipArchive
