import FurthestMatch.Config
import FurthestMatch.Report.Collapse

/-!
# Excerpts

The excerpt of a report is a piece of the collapsed text around a place in it. Dots mark the ends at which text is
left out. Where text before the place is left out, the excerpt begins after the first placeholder, or with the
first character that is no blank.
-/

namespace FurthestMatch

def Text.afterFirst? (mark : Text) : (text : Text) → Option Text
  | [] => after? mark []
  | c :: rest => (after? mark (c :: rest)).orElse fun _ => afterFirst? mark rest

/-- An excerpt and the column of the place in it, counted from zero. -/
structure Excerpt where
  text : Text
  column : Nat
deriving DecidableEq, Repr

namespace Excerpt

def dots : Text :=
  "...".toList

/-- The text before the place, from where it is cut on, without what is left of a collapsed run or of blanks. -/
def trim (placeholder cut : Text) : Text :=
  (Text.afterFirst? placeholder cut).getD (cut.dropWhile isBlank)

def around (config : Config) (c : Collapsed) : Excerpt :=
  let before := c.text.take c.caret
  let after := c.text.drop c.caret
  let start := before.length - config.excerptLead
  let (lead, before) :=
    if 0 < start then (dots, trim config.collapsePlaceholder (before.drop start)) else ([], before)
  -- the dots are not counted, and what is trimmed makes room after the place
  let width := config.excerptWidth - before.length
  let tail := if width < after.length then dots else []
  ⟨lead ++ before ++ after.take width ++ tail, lead.length + before.length⟩

end Excerpt

end FurthestMatch
