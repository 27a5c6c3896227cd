import ZipArchive.Proofs.Faults
import ZipArchive.Proofs.StreamServing

/-!
# Interruptions leave no trace

A source calms down when there is a state in which it is not interrupted any more and in which its
reads answer as they do in any other state that does not interrupt them (`Source.Calms`). What is
collected from a stream, and where the stream is left, is then the same from every state
(`MemberStream.collect_calm`): a read that is interrupted leaves the stream where reading on comes
to the same.
-/
namespace ZipArchive

variable {σ : Type} {source : Source σ} {calm : σ}

/-- In the calm state nothing is interrupted and no read changes the state. Everywhere else a read
is answered as there, or is interrupted. -/
structure Source.Calms (source : Source σ) (calm : σ) : Prop where
  stays : ∀ offset length, (source.readAt offset length calm).2 = calm
  uninterrupted : ∀ offset length, (source.readAt offset length calm).1 ≠ .error .interrupted
  readAt : ∀ offset length s, (source.readAt offset length s).1 = .error .interrupted ∨
    (source.readAt offset length s).1 = (source.readAt offset length calm).1

/-- A scheduled source calms down once its interruptions have been used up. -/
theorem Source.scheduled_calms (label : String) (content : ByteArray) (plan : Schedule) :
    (Source.scheduled label content plan).Calms [] where
  stays := by
    intro offset length
    change (plan.readAt content offset length []).2 = []
    unfold Schedule.readAt
    split
    · rfl
    · rw [if_neg List.not_mem_nil]
      split <;> rfl
  uninterrupted := by
    intro offset length
    change (plan.readAt content offset length []).1 ≠ _
    unfold Schedule.readAt
    split
    · simp
    · rw [if_neg List.not_mem_nil]
      split <;> simp
  readAt := by
    intro offset length waiting
    change (plan.readAt content offset length waiting).1 = _ ∨
      (plan.readAt content offset length waiting).1 = (plan.readAt content offset length []).1
    unfold Schedule.readAt
    cases plan.failing.lookup offset with
    | some code => exact .inr rfl
    | none =>
      by_cases waits : offset ∈ waiting
      · exact .inl (by rw [if_pos waits])
      · right
        simp only [if_neg waits, if_neg List.not_mem_nil]
        by_cases refused : plan.isFile = true ∧ fileOffsetLimit ≤ offset + plan.limit length
        · rw [if_pos refused, if_pos refused]
        · rw [if_neg refused, if_neg refused]

/-- How a read compares with the same read in the calm state: it comes to the same, or it was
interrupted and reading on there comes to the same. -/
inductive Retried {α : Type} (read : α → σ → Except IoError ByteArray × α × σ) (calm : σ) (a : α) :
    Except IoError ByteArray × α × σ → Prop where
  | done (result : Except IoError ByteArray) (a' : α) (s' : σ)
      (same : read a calm = (result, a', calm))
      (final : ∀ e, result = .error e → e.isInterrupted = false) :
      Retried read calm a (result, a', s')
  | interrupted (e : IoError) (a' : α) (s' : σ) (again : e.isInterrupted = true)
      (onward : read a' calm = read a calm) : Retried read calm a (.error e, a', s')

/-- A read of a part is a read of the whole. -/
theorem Retried.map {α β : Type} {read : α → σ → Except IoError ByteArray × α × σ}
    {read' : β → σ → Except IoError ByteArray × β × σ} {a : α}
    {x : Except IoError ByteArray × α × σ} (retried : Retried read calm a x) (f : α → β)
    (maps : ∀ a s, read' (f a) s = ((read a s).1, f (read a s).2.1, (read a s).2.2)) :
    Retried read' calm (f a) (x.1, f x.2.1, x.2.2) := by
  cases retried with
  | done result a' s' same final => exact .done result (f a') s' (by rw [maps, same]) final
  | interrupted e a' s' again onward =>
    exact .interrupted e (f a') s' again (by rw [maps, maps, onward])

/-- One read of a view, compared with the same read in the calm state. -/
theorem View.readAt_retried (calms : source.Calms calm) (v : View) (offset length : Nat) (s : σ) :
    (v.readAt source offset length calm).2 = calm ∧
      ((∃ e, (v.readAt source offset length s).1 = .error e ∧ e.isInterrupted = true) ∨
        (v.readAt source offset length s).1 = (v.readAt source offset length calm).1 ∧
          ∀ e, (v.readAt source offset length s).1 = .error e → e.isInterrupted = false) := by
  unfold readAt
  cases subOffset? v.stop offset with
  | none => exact ⟨rfl, .inr ⟨rfl, fun e failed => by cases failed; rfl⟩⟩
  | some room =>
    by_cases nothing : min length room = 0
    · simp only [nothing, if_true]
      exact ⟨trivial, .inr ⟨trivial, fun e failed => by cases failed⟩⟩
    simp only [nothing, if_false]
    have stays := calms.stays offset (min length room)
    have sound := calms.uninterrupted offset (min length room)
    have compared := calms.readAt offset (min length room) s
    rcases here : source.readAt offset (min length room) s with ⟨result, s₁⟩
    rcases there : source.readAt offset (min length room) calm with ⟨settled, s₂⟩
    rw [there] at stays sound
    rw [here, there] at compared
    dsimp only at stays sound compared
    subst stays
    rcases compared with rfl | rfl
    · refine ⟨?_, .inl ⟨_, rfl, rfl⟩⟩
      cases settled <;> rfl
    · cases result with
      | ok bytes => exact ⟨rfl, .inr ⟨rfl, fun e failed => by cases failed⟩⟩
      | error failure =>
        refine ⟨rfl, .inr ⟨rfl, fun e failed => ?_⟩⟩
        cases failed
        cases failure with
        | interrupted => exact absurd rfl sound
        | os code => rfl

/-- What is made of the result of a read does not depend on the state. -/
theorem View.advance_state (v : View) (offset : Nat) (result : Except IoError ByteArray) :
    ∃ result' v', (∀ s, v.advance source offset (result, s) = (result', v', s)) ∧
      ∀ e, result' = .error e → result = .error e ∨ e.isInterrupted = false := by
  cases result with
  | error e => exact ⟨.error e, v, fun _ => rfl, fun e' failed => .inl failed⟩
  | ok bytes =>
    cases moved : addOffset? offset bytes.size with
    | none =>
      refine ⟨.error ⟨.offsetOverflow, some source.label⟩, v, ?_, ?_⟩
      · intro s
        simp only [advance, moved]
      · intro e failed
        cases failed
        exact .inr rfl
    | some pos =>
      refine ⟨.ok bytes, { v with pos := pos }, ?_, ?_⟩
      · intro s
        simp only [advance, moved]
      · intro e failed
        cases failed

theorem View.read_retried (calms : source.Calms calm) (v : View) (length : Nat) (s : σ) :
    Retried (fun (v : View) s => v.read source length s) calm v (v.read source length s) := by
  obtain ⟨stays, compared⟩ := v.readAt_retried calms v.pos length s
  rcases here : v.readAt source v.pos length s with ⟨result, s₁⟩
  rcases there : v.readAt source v.pos length calm with ⟨settled, s₂⟩
  rw [there] at stays
  rw [here, there] at compared
  dsimp only at stays compared
  subst stays
  have read_here : v.read source length s = v.advance source v.pos (result, s₁) := by
    rw [read, here]
  have read_there : v.read source length s₂ = v.advance source v.pos (settled, s₂) := by
    rw [read, there]
  rcases compared with ⟨e, rfl, again⟩ | ⟨rfl, final⟩
  · rw [read_here]
    exact .interrupted e v s₁ again rfl
  · obtain ⟨result', v', moved, cause⟩ := v.advance_state v.pos result
    rw [moved] at read_here read_there
    rw [read_here]
    refine .done result' v' s₁ read_there fun e failed => ?_
    rcases cause e failed with same | other
    · exact final e same
    · exact other

/-! ## Decodings -/

namespace Decoding

variable {δ : Type} {decoder : Decoder δ}

/-- A block is fetched as in the calm state, or nothing has happened. -/
theorem fill_retried (calms : source.Calms calm) (d : Decoding δ) (s : σ) :
    (∃ e s', d.fill source s = (.error e, d, s') ∧ e.isInterrupted = true) ∨
      ∃ result d' s', d.fill source s = (result, d', s') ∧
        d.fill source calm = (result, d', calm) ∧
          ∀ e, result = .error e → e.isInterrupted = false := by
  unfold fill
  by_cases more : d.consumed < d.input.size
  · simp only [more, if_true]
    exact .inr ⟨_, _, s, rfl, rfl, fun e failed => by cases failed⟩
  simp only [more, if_false]
  have compared := d.view.read_retried calms blockSize s
  rcases here : d.view.read source blockSize s with ⟨result, view, s'⟩
  rw [here] at compared
  cases compared with
  | interrupted e view s' again onward =>
    obtain rfl := (View.read_error source here).1
    exact .inl ⟨e, s', rfl, again⟩
  | done result view s' same final =>
    simp only [same]
    cases result with
    | error e =>
      refine .inr ⟨_, _, s', rfl, rfl, fun e' failed => ?_⟩
      cases failed
      exact final e rfl
    | ok block => exact .inr ⟨_, _, s', rfl, rfl, fun e failed => by cases failed⟩

theorem read_retried (calms : source.Calms calm) (d : Decoding δ) (length : Nat) (s : σ) :
    Retried (fun (d : Decoding δ) s => d.read decoder source length s) calm d
      (d.read decoder source length s) := by
  induction d, s using read_induction decoder source length with
  | step d s ih =>
    by_cases nothing : length = 0 ∨ d.isDone
    · rw [read_nothing nothing]
      exact .done _ d s (read_nothing nothing calm) fun e failed => by cases failed
    have calmly := @read_eq δ σ decoder source length d nothing calm
    rw [read_eq nothing]
    rcases fill_retried calms d s with ⟨e, s', here, again⟩ | ⟨result, d₁, s', here, there, final⟩
    · rw [here]
      exact .interrupted e d s' again rfl
    rw [here]
    rw [there] at calmly
    cases result with
    | error e => exact .done _ d₁ s' calmly fun e' failed => by cases failed; exact final e rfl
    | ok ended =>
      dsimp only at calmly ⊢
      cases digested : d₁.digest decoder length ended with
      | inl answered =>
        rw [digested] at calmly
        refine .done _ answered.2 s' calmly fun e failed => ?_
        obtain ⟨error, rfl⟩ := (digest_answered digested).2 e failed
        rfl
      | inr d' =>
        rw [digested] at calmly
        have onward := ih ended d₁ s' d' here digested
        dsimp only at calmly ⊢
        rcases rest : d'.read decoder source length s' with ⟨result, d₂, s₂⟩
        rw [rest] at onward
        cases onward with
        | done result d₂ s₂ same final => exact .done result d₂ s₂ (calmly.trans same) final
        | interrupted e d₂ s₂ again same =>
          exact .interrupted e d₂ s₂ again (same.trans calmly.symm)

end Decoding

/-! ## Member streams -/

namespace MemberStream

variable [Decoders]

/-- One read of a stream, compared with the same read in the calm state. -/
theorem read_retried (calms : source.Calms calm) (stream : MemberStream) (length : Nat) (s : σ) :
    Retried (fun (stream : MemberStream) s => stream.read source length s) calm stream
      (stream.read source length s) := by
  cases stream with
  | stored view => exact (view.read_retried calms length s).map MemberStream.stored fun _ _ => rfl
  | deflate decoding =>
    exact (decoding.read_retried calms length s).map MemberStream.deflate fun _ _ => rfl
  | bzip2 decoding =>
    exact (decoding.read_retried calms length s).map MemberStream.bzip2 fun _ _ => rfl

/-- What is collected and where the stream is left do not depend on the interruptions to come. -/
theorem collect_calm (calms : source.Calms calm) (ask : Nat → Nat) (there : ByteArray)
    (stream : MemberStream) (s : σ) :
    (stream.collect source ask there s).1 = (stream.collect source ask there calm).1 ∧
      (stream.collect source ask there s).2.1 = (stream.collect source ask there calm).2.1 := by
  fun_induction collect source ask there stream s with
  | case1 there stream s nothing =>
    rw [collect_nothing nothing]
    exact ⟨rfl, rfl⟩
  | case2 there stream s wanted bytes stream' s' answer none =>
    have compared := stream.read_retried calms (ask there.size) s
    rw [answer] at compared
    cases compared with
    | done _ _ _ same final =>
      rw [collect_step wanted, same]
      simp only [none, if_true, and_self]
  | case3 there stream s wanted bytes stream' s' answer some ih =>
    have compared := stream.read_retried calms (ask there.size) s
    rw [answer] at compared
    cases compared with
    | done _ _ _ same final =>
      rw [@collect_step σ source _ ask there wanted stream calm, same]
      simp only [some, if_false]
      exact ih
  | case4 there stream s wanted e stream' s' answer again ih =>
    have compared := stream.read_retried calms (ask there.size) s
    rw [answer] at compared
    cases compared with
    | done _ _ _ same final =>
      rw [final e rfl] at again
      cases again
    | interrupted _ _ _ _ onward =>
      rw [@collect_step σ source _ ask there wanted stream' calm] at ih
      rw [@collect_step σ source _ ask there wanted stream calm, ← onward]
      exact ih
  | case5 there stream s wanted e stream' s' answer final =>
    have compared := stream.read_retried calms (ask there.size) s
    rw [answer] at compared
    cases compared with
    | done _ _ _ same _ =>
      rw [collect_step wanted, same]
      simp only [final, if_false, Bool.false_eq_true, and_self]
    | interrupted _ _ _ again onward => exact absurd again final

end MemberStream

end ZipArchive
