import FurthestMatch.Drawing.Block

/-!
# Frames

A box with a label in its upper edge around lines of text.
-/

namespace FurthestMatch

namespace Block

/-- The width of the inside of a frame: the longest line, or the label and four more. -/
def frameWidth (label : Text) (lines : Block) : Nat :=
  max ((lines.map List.length).max?.getD 0) (label.length + 4)

theorem le_frameWidth (label : Text) (lines : Block) :
    label.length + 4 ≤ frameWidth label lines ∧ ∀ line ∈ lines, line.length ≤ frameWidth label lines :=
  ⟨Nat.le_max_right _ _, fun _ h =>
    Nat.le_trans (List.le_max?_getD_of_mem (List.mem_map_of_mem h)) (Nat.le_max_left _ _)⟩

def frameTop (label : Text) (width : Nat) : Text :=
  "┌─[ ".toList ++ label ++ " ]".toList ++ List.replicate (width - label.length - 3) '─' ++ ['┐']

def frameLine (width : Nat) (line : Text) : Text :=
  "| ".toList ++ line ++ List.replicate (width - line.length) ' ' ++ " |".toList

def frameBottom (width : Nat) : Text :=
  '└' :: List.replicate (width + 2) '─' ++ ['┘']

def frame (label : Text) (b : Block) : Block :=
  let lines := b.flatMap Text.lines
  let width := frameWidth label lines
  frameTop label width :: lines.map (frameLine width) ++ [frameBottom width]

end Block

/-- A text in a box with a label; the indentation follows every line break. -/
def Text.framed (content label indentation : Text) : Text :=
  (Block.frame label [content]).toText indentation

end FurthestMatch
