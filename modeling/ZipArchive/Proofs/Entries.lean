/-!
# Entries under keys

Views, streams and the nodes of a file tree are kept in lists of entries, each under its key. A new
entry is put in front and takes the place of the older one of its key, so that only the look-up of
this key is changed (`lookup_replaced`).
-/
namespace ZipArchive

variable {κ ρ : Type} [BEq κ] [LawfulBEq κ] [DecidableEq κ]

/-- Taking out the entries of one key makes no difference to another. -/
theorem lookup_filter_ne (entries : List (κ × ρ)) {key other : κ} (different : key ≠ other) :
    (entries.filter (·.1 ≠ other)).lookup key = entries.lookup key := by
  induction entries with
  | nil => rfl
  | cons first rest ih =>
    obtain ⟨here, value⟩ := first
    by_cases same : here = other
    · have apart : (key == here) = false := beq_false_of_ne (same ▸ different)
      rw [List.filter_cons_of_neg (by simpa using same), ih, List.lookup_cons, apart]
    · rw [List.filter_cons_of_pos (by simpa using same), List.lookup_cons, List.lookup_cons, ih]

theorem lookup_replaced (entries : List (κ × ρ)) (key other : κ) (value : ρ) :
    ((key, value) :: entries.filter (·.1 ≠ key)).lookup other =
      if other = key then some value else entries.lookup other := by
  by_cases same : other = key
  · rw [if_pos same, same]
    exact List.lookup_cons_self
  · have apart : (other == key) = false := beq_false_of_ne same
    rw [if_neg same, List.lookup_cons, apart]
    exact lookup_filter_ne entries same

end ZipArchive
