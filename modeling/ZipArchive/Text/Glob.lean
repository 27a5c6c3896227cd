/-!
# Patterns

A pattern matches a whole text. In it, a star stands for any characters, or none, a question mark
for any one character, and every other character for itself.
-/
namespace ZipArchive.Text

/-- Whether a pattern matches, for each suffix of the text, longest first. -/
def suffixMatches : (pattern text : List Char) → List Bool
  | [], text => text.map (fun _ => false) ++ [true]
  | c :: rest, text =>
    let row := suffixMatches rest text
    if c = '*' then (row.foldr (fun here (later, out) => (here || later, (here || later) :: out))
      (false, ([] : List Bool))).2
    else if c = '?' then row.tail ++ [false]
    else List.zipWith (fun found matched => found = c && matched) text row.tail ++ [false]

/-- The pattern matches the text. -/
def globMatches (pattern text : String) : Bool :=
  (suffixMatches pattern.toList text.toList).headD false

/-- The pattern has a star or a question mark. -/
def hasWildcard (pattern : String) : Bool := pattern.toList.any fun c => c = '*' || c = '?'

/-- The piece occurs somewhere in the text. -/
def occursIn (piece : List Char) : (text : List Char) → Bool
  | [] => piece.isEmpty
  | c :: rest => piece.isPrefixOf (c :: rest) || occursIn piece rest

end ZipArchive.Text
