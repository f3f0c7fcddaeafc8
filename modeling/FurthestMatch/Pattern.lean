import FurthestMatch.Decimal.Numeral
import FurthestMatch.Pattern.Reader
import FurthestMatch.Value

/-!
# Patterns

A pattern leaf: a regular expression with what its match yields. The text from the current place on is all that a
match sees, so nothing before that place counts for anchors, word edges and looks behind.
-/

namespace FurthestMatch

inductive Conversion where
  | float
  | integer
  | bigInteger
deriving DecidableEq, Repr

/-- The number that a text denotes, `null` when it denotes none. An integer that does not fit in sixty-four bits,
or is none, is read as a float. -/
def Conversion.apply : Conversion → Text → Value
  | .float, t => ((Numeral.float? t).map Value.float).getD .null
  | .integer, t => match Numeral.int64? t with
    | some n => .int n
    | none => ((Numeral.float? t).map Value.float).getD .null
  | .bigInteger, t => ((Numeral.integer? t).map Value.bigInt).getD .null

inductive Capture where
  /-- The text of the match. -/
  | whole
  /-- The text of a group, empty when the group took no part; group zero is the match. -/
  | group (number : Nat)
  /-- The match and then every group, `null` for a group that took no part. -/
  | groups
  /-- The text of the match as a number. -/
  | convert (conversion : Conversion)
deriving DecidableEq, Repr

/-- A pattern leaf. Where the leaf is drawn, `shownAs` stands for the source. -/
structure Pattern where
  source : String
  regex : Regex
  groupCount : Nat
  capture : Capture
  shownAs : Option String := none
  /-- The expression is what the source is read as. -/
  readAs : Pattern.readAnchored source = .ok (regex, groupCount)
deriving DecidableEq, Repr

namespace Pattern

def ofSource (source : String) (capture : Capture) : Except PatternError Pattern :=
  match readAs : readAnchored source with
  | .ok (regex, groupCount) => .ok { source, regex, groupCount, capture, readAs }
  | .error cause => .error cause

def valueOf (text : Text) : Value :=
  .str (String.ofList text)

def groupText? (found : Regex.Found) (number : Nat) : Option Text :=
  if number = 0 then some found.text else found.groups.lookup number

def extract (p : Pattern) (found : Regex.Found) : Value :=
  match p.capture with
  | .whole => valueOf found.text
  | .group number => valueOf ((groupText? found number).getD [])
  | .groups =>
    .list ((List.range (p.groupCount + 1)).map fun n => ((groupText? found n).map valueOf).getD .null)
  | .convert conversion => conversion.apply found.text

/-- The match in a text: what it yields, how far it goes from the start of the text, and what is left. -/
def matchIn (p : Pattern) (text : Text) : Option (Value × Text × Text) :=
  (p.regex.search text).map fun found => (p.extract found, found.skipped ++ found.text, found.rest)

end Pattern

end FurthestMatch
