import ZipArchive.Action
import ZipArchive.Proofs.Serving

/-!
# Outcomes of actions

An action on a source that serves a content has an outcome of its own: what it results in and what it
logs depend neither on the state of the source nor on what was logged before. `Action.Yields` says
so, and is derived along the action's parts.
-/
namespace ZipArchive

variable {σ α β : Type} {source : Source σ} {content : ByteArray}

/-- What is logged when an error is raised. -/
def ZipError.reports (label : String) (error : ZipError) : Array Event :=
  match error.report? label with
  | some report => #[.raised report]
  | none => #[]

/-- What is logged with a result. -/
def reportsOf (label : String) : Except ZipError α → Array Event
  | .ok _ => #[]
  | .error error => error.reports label

namespace Action

/-! ## Runs -/

theorem run_bind_ok {x : Action σ α} {f : α → Action σ β} {r r' : Run σ} {value : α}
    (here : x.run r = (.ok value, r')) : (x >>= f).run r = (f value).run r' := by
  change (match x.run r with | (a, r') => (ExceptT.bindCont f a : StateM (Run σ) _) r') = _
  rw [here]
  rfl

theorem run_bind_error {x : Action σ α} {f : α → Action σ β} {r r' : Run σ} {error : ZipError}
    (here : x.run r = (.error error, r')) : (x >>= f).run r = (.error error, r') := by
  change (match x.run r with | (a, r') => (ExceptT.bindCont f a : StateM (Run σ) _) r') = _
  rw [here]
  rfl

/-- An action that succeeded has succeeded in its parts. -/
theorem run_bind_inv {x : Action σ α} {f : α → Action σ β} {r r'' : Run σ} {value : β}
    (whole : (x >>= f).run r = (.ok value, r'')) :
    ∃ a r', x.run r = (.ok a, r') ∧ (f a).run r' = (.ok value, r'') := by
  rcases here : x.run r with ⟨e | a, r'⟩
  · rw [run_bind_error here] at whole
    cases whole
  · rw [run_bind_ok here] at whole
    exact ⟨a, r', rfl, whole⟩

theorem run_raise (source : Source σ) (error : ZipError) (r : Run σ) :
    (raise source error : Action σ α).run r =
      (.error error, { r with log := r.log ++ error.reports source.label }) := by
  unfold raise ZipError.reports
  cases error.report? source.label with
  | none => simp only [Array.append_empty]; rfl
  | some report => rw [← Array.push_eq_append]; rfl

/-- A record is read on the state of the source. A record that cannot be read is raised. -/
theorem run_readRecord (source : Source σ) (record : String) (layout : Layout α) (b : Buffered)
    (r : Run σ) :
    (readRecord source record layout b).run r =
      match layout.readWindow source record b r.state with
      | (.ok value, b', s) => (.ok (value, b'), { r with state := s })
      | (.error e, _, s) => (.error e, ⟨s, r.log ++ e.reports source.label⟩) := by
  rcases read : layout.readWindow source record b r.state with ⟨e | value, b', s⟩
  · have raised : (ofExcept source (.error e : Except ZipError α)).run { r with state := s } = _ :=
      run_raise source e { r with state := s }
    refine (@run_bind_ok σ _ _ _ _ r ⟨s, r.log⟩ (.error e, b') ?_).trans
      (run_bind_error raised)
    simp [ExceptT.run, read]
  · refine (@run_bind_ok σ _ _ _ _ r ⟨s, r.log⟩ (.ok value, b') ?_).trans rfl
    simp [ExceptT.run, read]

theorem run_onSource {ε : Type} (read : σ → Except ε α × σ) (r : Run σ) :
    (onSource read).run r = (.ok (read r.state).1, { r with state := (read r.state).2 }) := rfl

/-- An exact read as part of a record. -/
theorem run_readExactAt (source : Source σ) (record : String) (offset length : Nat) (r : Run σ) :
    (readExactAt source record offset length).run r =
      match source.readExactAt offset length r.state with
      | (.ok bytes, s) => (.ok bytes, { r with state := s })
      | (.error e, s) =>
        (.error (.ofRead source.label record e),
          ⟨s, r.log ++ (ZipError.ofRead source.label record e).reports source.label⟩) := by
  unfold readExactAt
  rw [run_bind_ok (run_onSource _ r)]
  rcases source.readExactAt offset length r.state with ⟨e | bytes, s⟩
  · exact run_raise source (.ofRead source.label record e) { r with state := s }
  · rfl

/-! ## Outcomes -/

/-- From whatever state it is run, the action has this result and logs these events. -/
def Yields (x : Action σ α) (result : Except ZipError α) (events : Array Event) : Prop :=
  ∀ r : Run σ, ∃ s, x.run r = (result, ⟨s, r.log ++ events⟩)

theorem Yields.result_eq {x : Action σ α} {result : Except ZipError α} {events : Array Event}
    (hx : x.Yields result events) (r : Run σ) : (x.run r).1 = result := by
  obtain ⟨s, here⟩ := hx r
  rw [here]

theorem Yields.pure (value : α) : (Pure.pure value : Action σ α).Yields (.ok value) #[] :=
  fun r => ⟨r.state, by simp only [Array.append_empty]; rfl⟩

theorem Yields.bind {x : Action σ α} {f : α → Action σ β} {value : α} {result : Except ZipError β}
    {first second : Array Event} (hx : x.Yields (.ok value) first)
    (hf : (f value).Yields result second) : (x >>= f).Yields result (first ++ second) := by
  intro r
  obtain ⟨s, here⟩ := hx r
  obtain ⟨s', there⟩ := hf ⟨s, r.log ++ first⟩
  exact ⟨s', by rw [run_bind_ok here, there, Array.append_assoc]⟩

theorem Yields.bind_error {x : Action σ α} {f : α → Action σ β} {error : ZipError}
    {events : Array Event} (hx : x.Yields (.error error) events) :
    (x >>= f).Yields (.error error) events := by
  intro r
  obtain ⟨s, here⟩ := hx r
  exact ⟨s, run_bind_error here⟩

/-- An action that succeeds and logs nothing leaves the outcome to what follows. -/
theorem Yields.andThen {x : Action σ α} {f : α → Action σ β} {value : α}
    {result : Except ZipError β} {events : Array Event} (hx : x.Yields (.ok value) #[])
    (hf : (f value).Yields result events) : (x >>= f).Yields result events := by
  simpa only [Array.empty_append] using hx.bind hf

theorem log_yields (event : Event) : (log event : Action σ Unit).Yields (.ok ()) #[event] :=
  fun r => ⟨r.state, by rw [← Array.push_eq_append]; rfl⟩

theorem raise_yields (source : Source σ) (error : ZipError) :
    (raise source error : Action σ α).Yields (.error error) (error.reports source.label) :=
  fun r => ⟨r.state, run_raise source error r⟩

theorem pure_yields (source : Source σ) (value : α) :
    (Pure.pure value : Action σ α).Yields (.ok value)
      (reportsOf source.label (.ok value : Except ZipError α)) :=
  Yields.pure value

theorem inRange_yields (source : Source σ) (offset : Nat) :
    (inRange source (some offset)).Yields (.ok offset) #[] := Yields.pure offset

theorem ofExcept_yields (source : Source σ) (value : α) :
    (ofExcept source (.ok value)).Yields (.ok value) #[] := Yields.pure value

theorem readExactAt_yields (serves : source.Serves content) (record : String) {offset length : Nat}
    (inside : offset + length ≤ content.size) :
    (readExactAt source record offset length).Yields (.ok (slice content offset length)) #[] := by
  intro r
  have given := Source.readExactAt_serves serves inside r.state
  rw [run_readExactAt]
  rcases read : source.readExactAt offset length r.state with ⟨result, s⟩
  rw [read] at given
  subst given
  exact ⟨s, by rw [Array.append_empty]⟩

section
variable {record : String} {layout : Layout α} {b : Buffered} {cursor stop : Nat}
  {rest : List UInt8}

/-- A record that stands in the window is read, and the window goes on behind it. -/
theorem run_readRecord_ok (holds : source.Holds content) (reads : b.Reads content cursor stop)
    {value : α}
    (parsed : layout.parse source.label record (span content cursor stop) = (.ok value, rest))
    (r : Run σ) :
    ∃ b' cursor' s, b'.Reads content cursor' stop ∧ rest = span content cursor' stop ∧
      (readRecord source record layout b).run r = (.ok (value, b'), { r with state := s }) := by
  have window := layout.readWindow_serves holds record reads r.state
  rw [parsed] at window
  obtain ⟨b', s, cursor', window, onward, rest_eq⟩ := window
  exact ⟨b', cursor', s, onward, rest_eq, by rw [run_readRecord, window]⟩

/-- A record that does not stand in the window fails as parsing the window does. -/
theorem run_readRecord_error (holds : source.Holds content) (reads : b.Reads content cursor stop)
    {e : ZipError}
    (parsed : layout.parse source.label record (span content cursor stop) = (.error e, rest))
    (r : Run σ) :
    ∃ s, (readRecord source record layout b).run r =
      (.error e, ⟨s, r.log ++ e.reports source.label⟩) := by
  have window := layout.readWindow_serves holds record reads r.state
  rw [parsed] at window
  obtain ⟨b', s, window⟩ := window
  exact ⟨s, by rw [run_readRecord, window]⟩

end

/-- Reading a record goes on behind it in the window, or fails as parsing the window does. -/
theorem readRecord_bind (holds : source.Holds content) (record : String) (layout : Layout α)
    {b : Buffered} {cursor stop : Nat} (reads : b.Reads content cursor stop)
    (f : α × Buffered → Action σ β) {result : Except ZipError β} {events : Array Event}
    (next : match layout.parse source.label record (span content cursor stop) with
      | (.ok value, rest) => ∀ b' cursor', b'.Reads content cursor' stop →
          rest = span content cursor' stop → (f (value, b')).Yields result events
      | (.error e, _) => result = .error e ∧ events = e.reports source.label) :
    (readRecord source record layout b >>= f).Yields result events := by
  intro r
  rcases parsed : layout.parse source.label record (span content cursor stop) with ⟨e | value, rest⟩
  · rw [parsed] at next
    obtain ⟨rfl, rfl⟩ := next
    obtain ⟨s, read⟩ := run_readRecord_error holds reads parsed r
    exact ⟨s, run_bind_error read⟩
  · rw [parsed] at next
    obtain ⟨b', cursor', s, onward, rest_eq, read⟩ := run_readRecord_ok holds reads parsed r
    obtain ⟨s', there⟩ := next b' cursor' onward rest_eq { r with state := s }
    exact ⟨s', (run_bind_ok read).trans there⟩

end Action
end ZipArchive
