import FurthestMatch.Text.Cursor

/-!
# Lines of a text
-/

namespace FurthestMatch

/-- The pieces of a text between its newlines; a text without newlines is one line. -/
def Text.lines : Text → List Text
  | [] => [[]]
  | c :: rest =>
    if c = '\n' then [] :: lines rest
    else match lines rest with
      | [] => [[c]]
      | line :: more => (c :: line) :: more

end FurthestMatch
