import FurthestMatch.Text.Blank
import FurthestMatch.Text.Case
import FurthestMatch.Text.Digit
import FurthestMatch.Text.Word

/-!
# Sets of characters

What one step of a pattern accepts.
-/

namespace FurthestMatch

/-- A set of characters. A range that ignores case holds every character that folds as a member does. -/
inductive CharSet where
  | none
  | range (low high : Char) (ignoreCase : Bool)
  | digit
  | blank
  | word
  | union (a b : CharSet)
  | compl (a : CharSet)
deriving DecidableEq, Repr

namespace CharSet

def contains : CharSet → Char → Bool
  | .none, _ => false
  | .range low high ignoreCase, c =>
    (low ≤ c && c ≤ high) ||
      (ignoreCase && (caseVariants c.toNat).any fun n => low.toNat ≤ n && n ≤ high.toNat)
  | .digit, c => isDigit c
  | .blank, c => isBlank c
  | .word, c => isWord c
  | .union a b, c => contains a c || contains b c
  | .compl a, c => !contains a c

def single (c : Char) (ignoreCase : Bool) : CharSet :=
  .range c c ignoreCase

def all : CharSet :=
  .compl .none

def inline : CharSet :=
  .compl (.single '\n' false)

def inter (a b : CharSet) : CharSet :=
  .compl (.union (.compl a) (.compl b))

def diff (a b : CharSet) : CharSet :=
  inter a (.compl b)

def symmDiff (a b : CharSet) : CharSet :=
  .union (diff a b) (diff b a)

def ofRanges (ranges : List (Char × Char)) (ignoreCase : Bool) : CharSet :=
  ranges.foldr (fun (low, high) acc => .union (.range low high ignoreCase) acc) .none

/-- The classes that have a name, all of them within ASCII. -/
def named : List (String × List (Char × Char)) :=
  [("alnum", [('0', '9'), ('A', 'Z'), ('a', 'z')]), ("alpha", [('A', 'Z'), ('a', 'z')]),
    ("ascii", [('\x00', '\x7f')]), ("blank", [('\t', '\t'), (' ', ' ')]),
    ("cntrl", [('\x00', '\x1f'), ('\x7f', '\x7f')]), ("digit", [('0', '9')]), ("graph", [('!', '~')]),
    ("lower", [('a', 'z')]), ("print", [(' ', '~')]),
    ("punct", [('!', '/'), (':', '@'), ('[', '\x60'), ('\x7b', '~')]), ("space", [('\t', '\r'), (' ', ' ')]),
    ("upper", [('A', 'Z')]), ("word", [('0', '9'), ('A', 'Z'), ('_', '_'), ('a', 'z')]),
    ("xdigit", [('0', '9'), ('A', 'F'), ('a', 'f')])]

end CharSet

end FurthestMatch
