/-!
# Segments

A path is cut into segments at its separators, both kinds of slash. There is always one segment more
than there are separators, so that empty segments show where separators stand side by side, at the
front or at the end.
-/
namespace ZipArchive.Text

variable {α : Type}

/-- Puts an item in front of a row of segments: a separator opens a new segment, anything else joins
the first one. -/
def joinSegments (isSeparator : α → Bool) (item : α) (segments : List (List α)) : List (List α) :=
  if isSeparator item then [] :: segments
  else
    match segments with
    | [] => [[item]]
    | first :: rest => (item :: first) :: rest

/-- The segments between separators. -/
def segments (isSeparator : α → Bool) (items : List α) : List (List α) :=
  items.foldr (joinSegments isSeparator) [[]]

end ZipArchive.Text
