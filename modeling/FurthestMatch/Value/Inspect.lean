import FurthestMatch.Decimal.Notation
import FurthestMatch.Text.Quoted
import FurthestMatch.Value.Document

/-!
# Values under inspection

The inspected form of a value names its kind. It has two layouts: on one line, and over several lines with every
part on a line of its own, four spaces deeper and followed by a comma.
-/

namespace FurthestMatch

/-- What an inspected form is made of: a word, a word applied to one part, or a bracketed row of parts. -/
inductive Inspected where
  | word (text : Text)
  | applied (name : Text) (part : Inspected)
  | row (parts : List Inspected)
  | table (entries : List (Text × Inspected))

namespace Inspected

mutual
def inline : Inspected → Text
  | .word t => t
  | .applied name part => name ++ '(' :: inline part ++ [')']
  | .row [] => ['[', ']']
  | .row (p :: ps) => '[' :: inline p ++ inlineParts ps
  | .table [] => ['\x7b', '\x7d']
  | .table ((key, p) :: es) => '\x7b' :: key ++ ':' :: ' ' :: inline p ++ inlineEntries es

def inlineParts : List Inspected → Text
  | [] => [']']
  | p :: ps => ',' :: ' ' :: inline p ++ inlineParts ps

def inlineEntries : List (Text × Inspected) → Text
  | [] => ['\x7d']
  | (key, p) :: es => ',' :: ' ' :: key ++ ':' :: ' ' :: inline p ++ inlineEntries es
end

def lineBreak (level : Nat) : Text :=
  '\n' :: List.replicate (4 * level) ' '

mutual
def spread (level : Nat) : Inspected → Text
  | .word t => t
  | .applied name part =>
    name ++ '(' :: lineBreak (level + 1) ++ spread (level + 1) part ++ ',' :: lineBreak level ++ [')']
  | .row [] => ['[', ']']
  | .row (p :: ps) => '[' :: spreadParts level (p :: ps)
  | .table [] => ['\x7b', '\x7d']
  | .table (e :: es) => '\x7b' :: spreadEntries level (e :: es)

def spreadParts (level : Nat) : List Inspected → Text
  | [] => lineBreak level ++ [']']
  | p :: ps => lineBreak (level + 1) ++ spread (level + 1) p ++ ',' :: spreadParts level ps

def spreadEntries (level : Nat) : List (Text × Inspected) → Text
  | [] => lineBreak level ++ ['\x7d']
  | (key, p) :: es =>
    lineBreak (level + 1) ++ key ++ ':' :: ' ' :: spread (level + 1) p ++ ',' :: spreadEntries level es
end

end Inspected

namespace Value

mutual
def inspected : Value → Inspected
  | .null => .word "Null".toList
  | .bool b => .applied "Bool".toList (.word (if b then "true" else "false").toList)
  | .int n => .applied "Int".toList (.word (integerText n))
  | .float x => .applied "Float".toList (.word (Decimal.inspectNotation.write x))
  | .bigInt n => .applied "BigInt".toList (.word (integerText n))
  | .str s => .applied "Str".toList (.word (Quoted.inspect s.toList))
  | .list items => .applied "List".toList (.row (inspectedItems items))
  | .object fields => .applied "Object".toList (.table (inspectedFields fields))

def inspectedItems : List Value → List Inspected
  | [] => []
  | v :: vs => inspected v :: inspectedItems vs

def inspectedFields : List (String × Value) → List (Text × Inspected)
  | [] => []
  | (key, v) :: fields => (Quoted.inspect key.toList, inspected v) :: inspectedFields fields
end

def inspect (v : Value) : Text :=
  v.inspected.inline

def inspectSpread (v : Value) : Text :=
  v.inspected.spread 0

end Value

end FurthestMatch
