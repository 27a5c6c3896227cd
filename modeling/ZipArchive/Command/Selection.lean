import ZipArchive.Command.Arguments
import ZipArchive.Text.Glob
import ZipArchive.Text.Segments

/-!
# Selecting members

Members are selected by name. A name that is asked for has to match in full, or, without wildcards,
may be the last part of the member's name. A name that is excluded may also be a piece of it.
-/
namespace ZipArchive.Command

/-- The last part of a path, unless it means the parent directory. Slashes and single dots at the
end do not count. -/
def lastPart (path : String) : Option String :=
  let parts := (Text.segments (· = '/') path.toList).reverse
  match parts.dropWhile fun part => part = [] || part = ['.'] with
  | [] => none
  | part :: _ => if part = ['.', '.'] then none else some (String.ofList part)

/-- The member is one that was asked for. -/
def isAskedFor (asked name : String) : Bool :=
  if Text.hasWildcard asked then Text.globMatches asked name
  else name = asked || (lastPart name).getD "" = asked

/-- The member is one that was excluded. -/
def isExcluded (excluded name : String) : Bool :=
  Text.occursIn excluded.toList name.toList || Text.globMatches excluded name

/-- The member with the given name is to be extracted. -/
def isSelected (files exclude : List String) (name : String) : Bool :=
  (files.isEmpty || files.any (isAskedFor · name)) && !exclude.any (isExcluded · name)

end ZipArchive.Command
