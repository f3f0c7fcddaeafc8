import FurthestMatch.Text.Lines

/-!
# Blocks of lines

A drawing is a list of lines. What encloses it puts leads before its lines; the indentation of the place where it
ends up comes in only when the block becomes a text.
-/

namespace FurthestMatch

/-- Lines from top to bottom. A line may hold a newline of its own, from a text that is drawn as it is. -/
abbrev Block := List Text

namespace Block

def hang (first further : Text) : Block → Block
  | [] => []
  | line :: lines => (first ++ line) :: lines.map (further ++ ·)

def indent (lead : Text) (b : Block) : Block :=
  b.map (lead ++ ·)

def append (suffix : Text) : Block → Block
  | [] => []
  | [line] => [line ++ suffix]
  | line :: lines => line :: append suffix lines

def toText (indentation : Text) (b : Block) : Text :=
  ('\n' :: indentation).intercalate b

end Block

end FurthestMatch
