/-!
# Options

How an archive is opened.
-/
namespace ZipArchive

structure Options where
  /-- The most records read from the central directory; all of them when absent. -/
  limit : Option Nat := none
  /-- Whether member paths are sanitized. -/
  sanitizePaths : Bool := false
  /-- How many bytes at the end of the archive are searched for its end record. -/
  tailWindow : Nat := 1024
  deriving DecidableEq, Repr

end ZipArchive
