import ZipArchive.Decode.Standard
import ZipArchive.Proofs.DirectoryGrammar
import ZipArchive.Proofs.Extracting
import ZipArchive.Proofs.TrailerGuarantee

/-!
# Limited openings

With a limit, only so many records of the directory are read. What is read then is the front of what
is read without one (`Directory.listed_front`), and what fails then fails without one just so, since
the walk stops at the first record that is wrong. So an archive that is opened with a limit is the
front of the archive that is opened with a greater one (`Archive.load_limited`), and a record that is
wrong shows with those limits alone that lie above it.
-/
namespace ZipArchive

/-- How many records are read at most. There is no greatest number when there is no limit. -/
abbrev Limit : Type := Option Nat

namespace Limit

/-- One limit is as great as another at most. Having no limit is the greatest. -/
def AtMost (limit greater : Limit) : Prop := ∀ m, greater = some m → ∃ n ≤ m, limit = some n

/-- An index that the limit lets through. -/
def Admits (limit : Limit) (index : Nat) : Prop := ∀ n, limit = some n → index < n

/-- As much of a table as the limit lets through. -/
def front {α : Type} (limit : Limit) (table : Array α) : Array α :=
  match limit with
  | some n => table.take n
  | none => table

variable {α : Type} {limit greater : Limit} {index : Nat}

/-- An index that the limit lets through tells the same in the whole table. -/
theorem Admits.getElem?_front (admits : limit.Admits index) (table : Array α) :
    (limit.front table)[index]? = table[index]? := by
  cases limit with
  | none => rfl
  | some n =>
    have inside := admits n rfl
    simp only [front, Array.take_eq_extract, Array.getElem?_extract, Nat.zero_add, Nat.sub_zero]
    by_cases there : index < table.size
    · rw [if_pos (by omega)]
    · rw [if_neg (by omega), Array.getElem?_eq_none (Nat.le_of_not_lt there)]

/-- A table that ends before such an index is let through as a whole. -/
theorem Admits.size_front (admits : limit.Admits index) {table : Array α}
    (beyond : table[index]? = none) : (limit.front table).size = table.size := by
  have ended := Array.getElem?_eq_none_iff.mp beyond
  cases limit with
  | none => rfl
  | some n =>
    have inside := admits n rfl
    simp only [front, Array.take_eq_extract, Array.size_extract]
    omega

end Limit

/-! ## Directories -/

namespace Directory

variable {σ : Type} {source : Source σ} {options : Options} {directory : DirectoryEnd}
  {limit greater : Limit}

theorem recordCount_mono (options : Options) (directory : DirectoryEnd)
    (le : limit.AtMost greater) :
    recordCount { options with limit := limit } directory ≤
      recordCount { options with limit := greater } directory := by
  unfold recordCount
  cases greater with
  | none =>
    cases limit with
    | none => exact Nat.le_refl _
    | some n => exact Nat.min_le_left _ _
  | some m =>
    obtain ⟨n, small, rfl⟩ := le m rfl
    dsimp only
    omega

/-- A row of headers is a row also where fewer of them are looked at. -/
theorem BeginsWith.take {size : Nat} {bytes rest : List UInt8}
    {entries : List (CentralHeader.Stored × CentralHeader)}
    (row : BeginsWith directory size bytes entries rest) (n : Nat) :
    BeginsWith directory size bytes (entries.take n)
      ((entries.drop n).flatMap (·.1.bytes) ++ rest) where
  parts := by
    rw [← List.append_assoc, ← List.flatMap_append, List.take_append_drop]
    exact row.parts
  listable entry among := row.listable entry (List.mem_of_mem_take among)

/-- Fewer headers give the front of what more headers give. -/
theorem listed_front {n m : Nat} (le : n ≤ m) {bytes : List UInt8} {table : Array Member}
    (read : listed source options directory m bytes #[] = .ok table) :
    listed source options directory n bytes #[] = .ok (table.take n) := by
  obtain ⟨entries, rest, row, rfl, rfl⟩ := (listed_ok_iff options).mp read
  refine (listed_ok_iff options).mpr ⟨_, _, row.take n, List.length_take_of_le le, ?_⟩
  ext i h h'
  · simp
  · simp

/-- What is wrong with fewer headers is wrong with more of them, and nothing else is before it. -/
theorem listed_error_mono {n m : Nat} (le : n ≤ m) {bytes : List UInt8} {error : ZipError}
    (failed : listed source options directory n bytes #[] = .error error) :
    listed source options directory m bytes #[] = .error error := by
  obtain ⟨entries, rest, row, some, wrong⟩ := (listed_error_iff options).mp failed
  exact (listed_error_iff options).mpr ⟨entries, rest, row, Nat.lt_of_lt_of_le some le, wrong⟩

theorem listed_size {n : Nat} {bytes : List UInt8} {table : Array Member}
    (read : listed source options directory n bytes #[] = .ok table) : table.size = n := by
  obtain ⟨entries, rest, row, rfl, rfl⟩ := (listed_ok_iff options).mp read
  rw [List.size_toArray, List.length_mapIdx]

/-- So many records as a limit has read are the front that it lets through. -/
theorem take_recordCount {table : Array Member}
    (few : table.size ≤ directory.recordsHere.toNat) :
    table.take (recordCount { options with limit := limit } directory) = limit.front table := by
  cases limit with
  | none =>
    rw [Array.take_eq_extract]
    exact Array.extract_eq_self_of_le few
  | some n =>
    simp only [recordCount, Limit.front, Array.take_eq_extract]
    exact Array.extract_eq_extract_right.mpr (by omega)

/-- What reading a directory comes to with a limit, seen from a greater one. -/
theorem readFrom_limited (source : Source σ) (options : Options) (directory : DirectoryEnd)
    (content : ByteArray) (le : limit.AtMost greater) :
    (∀ table, readFrom source { options with limit := greater } directory content = .ok table →
      readFrom source { options with limit := limit } directory content =
        .ok (limit.front table)) ∧
    ∀ error, readFrom source { options with limit := limit } directory content = .error error →
      readFrom source { options with limit := greater } directory content = .error error := by
  have fewer := recordCount_mono options directory le
  have listed_eq := @listed_options σ source { options with limit := greater }
    { options with limit := limit } rfl directory
  unfold readFrom described
  by_cases in_range : directory.offset.toNat + directory.size.toNat < offsetBound
  · simp only [if_pos in_range, listed_eq]
    refine ⟨fun table read => ?_, fun error failed => listed_error_mono fewer failed⟩
    have size := listed_size read
    have few : table.size ≤ directory.recordsHere.toNat := by
      rw [size]
      exact recordCount_mono options directory (show Limit.AtMost greater none from nofun)
    rw [← take_recordCount few]
    exact listed_front fewer read
  · simp only [if_neg in_range]
    exact ⟨nofun, fun error failed => failed⟩

end Directory

/-! ## Archives -/

namespace Archive

variable {σ : Type} {source : Source σ} {content : ByteArray} {limit greater : Limit} {index : Nat}

/-- The archive whose table is as much of another's as a limit lets through. -/
def front (limit : Limit) (a : Archive) : Archive := ⟨limit.front a.members⟩

theorem member_front (admits : limit.Admits index) (source : Source σ) (a : Archive) :
    (a.front limit).member source index = a.member source index := by
  unfold member
  rw [front, admits.getElem?_front]
  cases beyond : a.members[index]? with
  | some m => rfl
  | none =>
    dsimp only
    rw [admits.size_front beyond]

/-- What is done with a member that the limit lets through is done alike, whatever the state. -/
structure ActsAlike [Decoders] (source : Source σ) (a b : Archive) (index : Nat) : Prop where
  dataRange : a.dataRange source index = b.dataRange source index
  plug : a.plug source index = b.plug source index
  extract : ∀ sink, a.extract source index sink = b.extract source index sink

theorem front_actsAlike [Decoders] (admits : limit.Admits index) (source : Source σ) (a : Archive) :
    ActsAlike source (a.front limit) a index := by
  have member := member_front admits source a
  have plug : (a.front limit).plug source index = a.plug source index := by
    unfold Archive.plug
    rw [member]
  refine ⟨?_, plug, fun sink => ?_⟩
  · unfold Archive.dataRange
    rw [member]
  · unfold Archive.extract Archive.extraction
    rw [plug]

variable (source) (options : Options)

theorem loaded_limited (content : ByteArray) (le : limit.AtMost greater) :
    (∀ a, loaded source { options with limit := greater } content = .ok a →
      loaded source { options with limit := limit } content = .ok (a.front limit)) ∧
    ∀ error, loaded source { options with limit := limit } content = .error error →
      loaded source { options with limit := greater } content = .error error := by
  unfold loaded
  dsimp only
  cases Trailer.located content options.tailWindow with
  | error e => exact ⟨nofun, fun error failed => failed⟩
  | ok trailer =>
    obtain ⟨fronts, fails⟩ :=
      Directory.readFrom_limited source options trailer.directory content le
    simp only [bind_ok]
    constructor
    · intro a opened
      cases read : Directory.readFrom source { options with limit := greater } trailer.directory
        content with
      | error e =>
        rw [read] at opened
        cases opened
      | ok table =>
        rw [read] at opened
        cases opened
        rw [fronts table read]
        rfl
    · intro error failed
      cases read : Directory.readFrom source { options with limit := limit } trailer.directory
        content with
      | error e =>
        rw [read] at failed
        cases failed
        rw [fails error read]
        rfl
      | ok table =>
        rw [read] at failed
        cases failed

variable {source} {options}

/-- A record that is wrong is met if the limit lets its index through, and else it does not show. -/
theorem loaded_offending (size_eq : source.size = content.size) {trailer : Trailer}
    (found : Trailer.located content options.tailWindow = .ok trailer)
    {entries : List (CentralHeader.Stored × CentralHeader)} {rest : List UInt8} {error : ZipError}
    (row : Directory.BeginsWith trailer.directory content.size
      (span content trailer.directory.offset.toNat
        (trailer.directory.offset.toNat + trailer.directory.size.toNat)) entries rest)
    (wrong : Directory.Offends content.size trailer.directory rest error)
    (told : entries.length < trailer.directory.recordsHere.toNat) :
    (limit.Admits entries.length →
      loaded source { options with limit := limit } content = .error error) ∧
    (¬ limit.Admits entries.length →
      ∃ a, loaded source { options with limit := limit } content = .ok a) := by
  have in_range : trailer.directory.offset.toNat + trailer.directory.size.toNat < offsetBound :=
    Nat.lt_succ_of_le (Trailer.located_guaranteed found).in_range
  rw [← size_eq] at row wrong
  unfold loaded
  simp only [found, bind_ok]
  unfold Directory.readFrom
  rw [if_pos in_range]
  unfold Directory.described
  constructor
  · intro admits
    have met : entries.length <
        Directory.recordCount { options with limit := limit } trailer.directory := by
      cases limit with
      | none => exact told
      | some n => exact Nat.lt_min.mpr ⟨told, admits n rfl⟩
    rw [(Directory.listed_error_iff _).mpr ⟨entries, rest, row, met, wrong⟩]
    rfl
  · intro refused
    have short : Directory.recordCount { options with limit := limit } trailer.directory ≤
        entries.length := by
      cases limit with
      | none => exact absurd (nofun : Limit.Admits none entries.length) refused
      | some n =>
        refine Nat.le_trans (Nat.min_le_right _ _) (Nat.le_of_not_lt fun inside => refused ?_)
        rintro _ ⟨⟩
        exact inside
    rw [(Directory.listed_ok_iff _).mpr ⟨_, _, row.take _, List.length_take_of_le short, rfl⟩]
    exact ⟨_, rfl⟩

/-- What is opened with a limit is the front of what is opened with a greater one, and what is done
with the members there is done alike. What fails with a limit fails just so with a greater one. A
record that is wrong shows with just those limits that let its index through. -/
theorem load_limited [Decoders] (serves : source.Serves content) (options : Options)
    {limit greater : Limit} (le : limit.AtMost greater) (r r' : Run σ) :
    let few := ((load source { options with limit := limit }).run r).1
    let many := ((load source { options with limit := greater }).run r').1
    (∀ a, many = .ok a → few = .ok (a.front limit) ∧
      ∀ index, limit.Admits index → ActsAlike source (a.front limit) a index) ∧
    (∀ error, few = .error error → many = .error error) ∧
    ∀ trailer, ((Trailer.locate source options.tailWindow).run r).1 = .ok trailer →
      ∀ entries rest error, Directory.BeginsWith trailer.directory content.size
        (span content trailer.directory.offset.toNat
          (trailer.directory.offset.toNat + trailer.directory.size.toNat)) entries rest →
        Directory.Offends content.size trailer.directory rest error →
        entries.length < trailer.directory.recordsHere.toNat →
          (limit.Admits entries.length → few = .error error) ∧
          (¬ limit.Admits entries.length → ∃ a, few = .ok a) := by
  intro few many
  have few_eq : few = loaded source { options with limit := limit } content :=
    (load_yields _ serves).result_eq r
  have many_eq : many = loaded source { options with limit := greater } content :=
    (load_yields _ serves).result_eq r'
  obtain ⟨fronts, fails⟩ := loaded_limited source options content le
  rw [few_eq, many_eq]
  refine ⟨fun a opened => ⟨fronts a opened, fun index admits => ?_⟩, fails, ?_⟩
  · exact front_actsAlike admits source a
  · intro trailer found entries rest error row wrong told
    rw [Trailer.locate_result serves] at found
    exact loaded_offending serves.size_eq found row wrong told

/-- An archive that tells of two records, with a header for one of them and zeros behind it. -/
def halfListed : ByteArray :=
  (Directory.lonelyHeader.bytes ++ (List.replicate 45 0 ++
    (ClassicEnd.mk 0 0 2 2 92 0 0).encode)).toByteArray

/-- The first record is opened with a limit of one, the second one is wrong, and a limit of none
finds nothing at all. -/
theorem halfListed_limited :
    let source := Source.ofContent "a.zip" halfListed
    (∃ a, ((load source { limit := some 1 }).run ⟨(), #[]⟩).1 = .ok a ∧
      ((load source { limit := some 0 }).run ⟨(), #[]⟩).1 = .ok (a.front (some 0))) ∧
      ((load source {}).run ⟨(), #[]⟩).1 =
        .error (.badSignature CentralHeader.recordName CentralHeader.signature 0) := by
  have size : halfListed.size = 114 := by
    rw [halfListed, List.size_toByteArray]
    rfl
  have serves := Source.ofContent_serves "a.zip" (show halfListed.size < fileOffsetLimit by
    rw [size]
    decide)
  have last : IsGreatest {o | Trailer.Candidate halfListed 1024 o ∧
      Trailer.Consistent halfListed o} 92 := by
    refine ⟨⟨⟨by rw [size]; decide, by rw [size]; decide, by decide +kernel⟩, by decide +kernel⟩, ?_⟩
    rintro o ⟨⟨_, room, _⟩, _⟩
    rw [size] at room
    exact Nat.le_of_add_le_add_right room
  have found : ((Trailer.locate (Source.ofContent "a.zip" halfListed) 1024).run ⟨(), #[]⟩).1 =
      .ok ⟨⟨0, 0, 2, 2, 92, 0⟩, 92, false⟩ := by
    have record : Trailer.recordAt halfListed 92 = ⟨0, 0, 2, 2, 92, 0, 0⟩ := by decide +kernel
    rw [Trailer.locate_result serves, Trailer.located_accepted last, Trailer.completed, record, size]
    rfl
  have row : Directory.BeginsWith ⟨0, 0, 2, 2, 92, 0⟩ halfListed.size (span halfListed 0 (0 + 92))
      [(Directory.lonelyHeader, Directory.lonelyMeaning)] (.replicate 45 0) :=
    ⟨by decide +kernel, List.forall_mem_singleton.mpr
      ⟨⟨rfl, rfl, rfl, rfl, rfl⟩, rfl, by rw [size]; decide⟩⟩
  have wrong : Directory.Offends halfListed.size ⟨0, 0, 2, 2, 92, 0⟩ (.replicate 45 0)
      (.badSignature CentralHeader.recordName CentralHeader.signature 0) :=
    @Directory.Offends.signature _ _ 0 (by decide) (.replicate 41 0)
  have all := load_limited serves {} (show Limit.AtMost none none from nofun) ⟨(), #[]⟩ ⟨(), #[]⟩
  have one := load_limited serves {} (show Limit.AtMost (some 1) none from nofun) ⟨(), #[]⟩
    ⟨(), #[]⟩
  have none := load_limited serves {} (show Limit.AtMost (some 0) (some 1) from
    fun _ one => ⟨0, Nat.zero_le _, rfl⟩) ⟨(), #[]⟩ ⟨(), #[]⟩
  obtain ⟨a, opened⟩ := (one.2.2 _ found _ _ _ row wrong (by decide)).2 fun admits =>
    absurd (admits 1 rfl) (by decide)
  exact ⟨⟨a, opened, (none.1 a opened).1⟩, (all.2.2 _ found _ _ _ row wrong (by decide)).1 nofun⟩

end Archive
end ZipArchive
