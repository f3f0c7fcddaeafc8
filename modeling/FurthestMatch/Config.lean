import FurthestMatch.Text.Cursor

/-!
# Configuration of drawings and reports
-/

namespace FurthestMatch

structure Config where
  /-- One level of indentation in a drawing. -/
  indentUnit : Text := "    ".toList
  /-- The label of the frame around what is highlighted. -/
  highlightLabel : Text := "Last valid parser".toList
  /-- Characters of the text in the first line of a report. -/
  summaryWidth : Nat := 60
  /-- Characters of the excerpt in all. -/
  excerptWidth : Nat := 60
  /-- Characters of the excerpt before the place of the failure. -/
  excerptLead : Nat := 30
  /-- Stands for a collapsed run of blanks. -/
  collapsePlaceholder : Text := " ... ".toList
deriving DecidableEq, Repr

end FurthestMatch
