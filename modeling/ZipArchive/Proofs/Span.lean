import ZipArchive.LittleEndian
import ZipArchive.Source

/-!
# Spans of a content

The bytes between two offsets of a content, as a list. Records are written and parsed as lists, and
sources serve byte arrays; a span is where the two meet.
-/
namespace ZipArchive

/-- The bytes of `[start, stop)`, as far as the content reaches. -/
def span (content : ByteArray) (start stop : Nat) : List UInt8 :=
  (content.extract start stop).data.toList

variable {content : ByteArray}

theorem toList_slice (content : ByteArray) (offset length : Nat) :
    (slice content offset length).data.toList = span content offset (offset + length) := rfl

theorem span_eq (content : ByteArray) (start stop : Nat) :
    span content start stop = (content.data.toList.drop start).take (stop - start) := by
  simp [span, ByteArray.data_extract, List.extract_eq_take_drop]

theorem length_span (content : ByteArray) (start stop : Nat) :
    (span content start stop).length = min stop content.size - start := by
  simp only [span_eq, List.length_take, List.length_drop, Array.length_toList,
    ByteArray.size_data]
  omega

theorem length_span_of_le {start stop : Nat} (inside : stop ≤ content.size) :
    (span content start stop).length = stop - start := by
  rw [length_span, Nat.min_eq_left inside]

theorem size_slice {offset length : Nat} (inside : offset + length ≤ content.size) :
    (slice content offset length).size = length := by
  simp only [slice, ByteArray.size_extract]
  omega

@[simp] theorem slice_zero (content : ByteArray) (offset : Nat) :
    slice content offset 0 = .empty := ByteArray.extract_same

@[simp] theorem span_self (content : ByteArray) (start : Nat) : span content start start = [] := by
  simp [span_eq]

theorem take_span (content : ByteArray) (start stop n : Nat) :
    (span content start stop).take n = span content start (min (start + n) stop) := by
  rw [span_eq, span_eq, List.take_take]
  congr 1
  omega

theorem drop_span (content : ByteArray) (start stop n : Nat) :
    (span content start stop).drop n = span content (start + n) stop := by
  rw [span_eq, span_eq, List.drop_take, List.drop_drop]
  congr 1
  omega

theorem span_append_span {start middle stop : Nat} (first : start ≤ middle)
    (second : middle ≤ stop) :
    span content start middle ++ span content middle stop = span content start stop := by
  simp only [span, ← ByteArray.toList_data_append, ByteArray.extract_append_extract,
    Nat.min_eq_left first, Nat.max_eq_right second]

theorem slice_append_slice (content : ByteArray) (offset m n : Nat) :
    slice content offset m ++ slice content (offset + m) n = slice content offset (m + n) := by
  simp only [slice, ByteArray.extract_append_extract]
  congr 1 <;> omega

/-- A part of a slice is a slice of the whole. -/
theorem slice_slice {offset length start count : Nat} (inside : start + count ≤ length) :
    slice (slice content offset length) start count = slice content (offset + start) count := by
  simp only [slice, ByteArray.extract_extract]
  congr 1
  omega

/-- A slice of the front of a content stays the same when bytes are put behind it. -/
theorem slice_append_left (behind : ByteArray) {offset length : Nat}
    (inside : offset + length ≤ content.size) :
    slice (content ++ behind) offset length = slice content offset length := by
  have none : behind.extract (offset - content.size) (offset + length - content.size) = .empty := by
    apply ByteArray.extract_eq_empty_iff.mpr
    omega
  rw [slice, slice, ByteArray.extract_append, none, ByteArray.append_empty]

/-- A slice ends where the content ends. -/
theorem slice_min (content : ByteArray) (offset length : Nat) :
    slice content offset (min length (content.size - offset)) = slice content offset length := by
  ext1
  simp only [slice, ByteArray.data_extract]
  exact Array.extract_eq_extract_right.mpr (by rw [ByteArray.size_data]; omega)

/-- Two slices are the same when both end where the content ends. -/
theorem slice_eq_slice {all : ByteArray} {handed count want : Nat}
    (size : (slice all handed count).size = count) (within : count ≤ want)
    (full : want ≤ count ∨ all.size ≤ handed + count) :
    slice all handed want = slice all handed count := by
  have room : (slice all handed count).size ≤ all.size - handed := by
    simp only [slice, ByteArray.size_extract]
    omega
  rw [← slice_min all handed want, ← slice_min all handed count]
  congr 1
  omega

/-- A span may be named by offsets behind the end of the content. -/
theorem span_clamped (content : ByteArray) (start stop : Nat) :
    span content (min start (min stop content.size)) (min stop content.size) =
      span content start stop := by
  by_cases inside : start ≤ min stop content.size
  · have whole : content.data.toList.length = content.size := rfl
    rw [span_eq, span_eq, Nat.min_eq_left inside, List.take_eq_take_iff, List.length_drop]
    omega
  · have nothing : span content start stop = [] := by
      rw [← List.length_eq_zero_iff, length_span]
      omega
    rw [Nat.min_eq_right (Nat.le_of_not_le inside), span_self, nothing]

/-! ## Contents that are written out -/

theorem size_of_toList {bytes : List UInt8} (written : content.data.toList = bytes) :
    content.size = bytes.length := by
  rw [← written]
  rfl

theorem span_of_middle {before middle after : List UInt8}
    (written : content.data.toList = before ++ (middle ++ after)) :
    span content before.length (before.length + middle.length) = middle := by
  rw [span_eq, written, List.drop_left, Nat.add_sub_cancel_left, List.take_left]

/-- A window that is long enough starts with what is written where it starts. -/
theorem span_of_front {before middle after : List UInt8} {n : Nat}
    (written : content.data.toList = before ++ (middle ++ after)) (room : middle.length ≤ n) :
    ∃ rest, span content before.length (before.length + n) = middle ++ rest := by
  rw [span_eq, written, List.drop_left, Nat.add_sub_cancel_left, List.take_append,
    List.take_of_length_le room]
  exact ⟨_, rfl⟩

end ZipArchive
