import FurthestMatch.Text.Cursor

/-!
# Lines and columns

Lines end with a newline and are counted from one, as are the characters of a line.
-/

namespace FurthestMatch

/-- A line and a column, both counted from one. -/
structure Position where
  line : Nat
  column : Nat
deriving DecidableEq, Repr

namespace Text

def endPosition (before : Text) : Position where
  line := before.count '\n' + 1
  column := (before.reverse.takeWhile (· ≠ '\n')).length + 1

/-- The position at a byte offset; an offset beyond the end stands for the end, one inside a character has no
position. -/
def position? (text : Text) (offset : Nat) : Option Position :=
  (splitAt text (min offset (size text))).map fun (before, _) => endPosition before

end Text

end FurthestMatch
