import FurthestMatch.Text.Blank
import FurthestMatch.Text.Cursor

/-!
# Collapsed texts

A report shows a text on one line. Runs of blanks with a newline in them, and runs of six spaces or more, are
collapsed into a placeholder; every other character is kept. A place in the text goes along: a place within a run
becomes the start of its placeholder.
-/

namespace FurthestMatch

namespace Text

inductive Piece where
  | kept (c : Char)
  /-- Blanks that the placeholder stands for. -/
  | run (blanks : Text)
deriving DecidableEq, Repr

/-- The collapsible run at the start of a text: all blanks there when one of them is a newline, or else all
spaces there when they are six or more. No run is empty. -/
def leadingRun (text : Text) : Text :=
  let blanks := text.takeWhile isBlank
  let spaces := text.takeWhile (· = ' ')
  if '\n' ∈ blanks then blanks else if 6 ≤ spaces.length then spaces else []

def pieces : Text → List Piece
  | [] => []
  | c :: rest =>
    let blanks := leadingRun (c :: rest)
    if blanks = [] then .kept c :: pieces rest
    else .run blanks :: pieces (rest.drop (blanks.length - 1))
termination_by text => text.length
decreasing_by all_goals simp only [List.length_cons, List.length_drop]; omega

end Text

/-- A collapsed text with a place in it, counted in characters. -/
structure Collapsed where
  text : Text
  caret : Nat
deriving DecidableEq, Repr

namespace Collapsed

def join (placeholder : Text) : List Text.Piece → Text
  | [] => []
  | .kept c :: pieces => c :: join placeholder pieces
  | .run _ :: pieces => placeholder ++ join placeholder pieces

/-- Characters of the joined text before a byte offset into the pieces. An offset within a run counts up to the
placeholder; one inside a character that is kept has no answer. -/
def caret? (placeholder : Text) : List Text.Piece → (offset : Nat) → Option Nat
  | _, 0 | [], _ => some 0
  | .kept c :: pieces, n + 1 =>
    if c.utf8Size ≤ n + 1 then (caret? placeholder pieces (n + 1 - c.utf8Size)).map (· + 1) else none
  | .run blanks :: pieces, n + 1 =>
    if Text.size blanks ≤ n + 1 then
      (caret? placeholder pieces (n + 1 - Text.size blanks)).map (· + placeholder.length)
    else some 0

def ofText? (placeholder text : Text) (offset : Nat) : Option Collapsed :=
  let pieces := Text.pieces text
  (caret? placeholder pieces (min offset (Text.size text))).map fun caret => ⟨join placeholder pieces, caret⟩

end Collapsed

end FurthestMatch
