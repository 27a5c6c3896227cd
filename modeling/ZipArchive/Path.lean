import ZipArchive.Text.Segments

/-!
# Sanitized member paths

A sanitized path starts at a root, has single forward slashes between its segments, and no segment
that means the current or the parent directory. Parent segments are resolved from left to right and
never climb above the root. A slash at the end, which marks a directory, is kept.
-/
namespace ZipArchive.Path

def slash : UInt8 := 0x2f

def backslash : UInt8 := 0x5c

def dot : UInt8 := 0x2e

def isSeparator (b : UInt8) : Bool := b = slash || b = backslash

/-- Takes one more segment onto the stack of those kept so far, the last one on top. -/
def keep (kept : List (List UInt8)) (segment : List UInt8) : List (List UInt8) :=
  if segment = [] ∨ segment = [dot] then kept
  else if segment = [dot, dot] then kept.tail
  else segment :: kept

/-- The segments that are left after resolution, in order. -/
def resolved (raw : List UInt8) : List (List UInt8) :=
  ((Text.segments isSeparator raw).foldl keep []).reverse

/-- The path made of the given segments, each behind a slash. -/
def rooted (segments : List (List UInt8)) : List UInt8 := segments.flatMap (slash :: ·)

/-- The last byte is a separator. -/
def endsInSeparator (raw : List UInt8) : Bool := raw.getLast?.any isSeparator

def sanitize (raw : List UInt8) : List UInt8 :=
  let path := rooted (resolved raw)
  if path.isEmpty || endsInSeparator raw then path ++ [slash] else path

end ZipArchive.Path
