import FurthestMatch.Decimal.Notation
import FurthestMatch.Decimal.Numeral
import FurthestMatch.Text.Lines
import FurthestMatch.Value.Document

/-!
# Values as YAML documents

Lists and objects are written a line an item, nested by two spaces; a list below a key keeps the key's
indentation. A string stands plain unless it would read as something else; otherwise it is quoted, or written line
by line when it has several.
-/

namespace FurthestMatch.Value

namespace BlockStyle

def reservedWords : List Text :=
  ["null", "Null", "NULL", "~", "true", "True", "TRUE", "false", "False", "FALSE", ".inf", ".Inf", ".INF", "+.inf",
    "+.Inf", "+.INF", "-.inf", "-.Inf", "-.INF", ".nan", ".NaN", ".NAN"].map String.toList

def readsAsNumber (text : Text) : Bool :=
  let unsigned := (Numeral.splitSign text).2
  (Numeral.marked? unsigned).isSome || Numeral.isPadded unsigned || (Numeral.float? text).any isFinite

def isIndicator (c : Char) : Bool :=
  "#,[]&*!|>'\"%@`".toList.contains c || c == '\x7b' || c == '\x7d'

/-- Whether a mark that needs a blank beside it has one: a colon before a blank or the end, or a hash after a
blank. -/
def hasMark : Text → Bool
  | [] => false
  | [c] => c == ':'
  | c :: d :: rest => (c == ':' && d == ' ') || (c == ' ' && d == '#') || hasMark (d :: rest)

/-- A first character that starts another construct: an indicator, or `-` or `?` before a blank or the end. -/
def startsConstruct : Text → Bool
  | [] => true
  | c :: rest =>
    isIndicator c || ((c == '-' || c == '?') && match rest with | d :: _ => d == ' ' | [] => true)

def needsQuotes (text : Text) : Bool :=
  reservedWords.contains text || readsAsNumber text || startsConstruct text || hasMark text ||
    text.head? == some ' ' || text.getLast? == some ' ' ||
    "---".toList.isPrefixOf text || "...".toList.isPrefixOf text

def isSpecial (c : Char) : Bool :=
  c.toNat < 0x20 && c ≠ '\n' || 0x7F ≤ c.toNat && c.toNat < 0xA0 || c = '\u2028' || c = '\u2029' ||
    c = '\ufeff' || c = '\ufffe' || c = '\uffff'

def paddedHex (width n : Nat) : Text :=
  let digits := (Nat.toDigits 16 n).map Char.toUpper
  List.replicate (width - digits.length) '0' ++ digits

def escapeLetter? (c : Char) : Option Char :=
  [('\x00', '0'), ('\x07', 'a'), ('\x08', 'b'), ('\t', 't'), ('\n', 'n'), ('\x0b', 'v'), ('\x0c', 'f'), ('\r', 'r'),
    ('\x1b', 'e'), ('"', '"'), ('\\', '\\'), ('\u0085', 'N'), ('\u2028', 'L'), ('\u2029', 'P')].lookup c

def escape (c : Char) : Text :=
  match escapeLetter? c with
  | some letter => ['\\', letter]
  | none =>
    if !isSpecial c then [c]
    else if c.toNat < 0x100 then ['\\', 'x'] ++ paddedHex 2 c.toNat
    else ['\\', 'u'] ++ paddedHex 4 c.toNat

def scalar (text : Text) : Text :=
  if text.any fun c => isSpecial c || c = '\n' then '"' :: text.flatMap escape ++ ['"']
  else if needsQuotes text then '\'' :: text.flatMap (fun c => if c = '\'' then [c, c] else [c]) ++ ['\'']
  else text

/-- Whether a string of several lines can be written line by line: no line ends with a blank. -/
def isLiteral (text : Text) : Bool :=
  !text.any isSpecial && text.contains '\n' && (Text.lines text).all fun line => line.getLast? ≠ some ' '

/-- The head of a string that is written line by line. It says whether the first line starts with a blank, and how
the string ends: without a newline, with one, or with more. -/
def literalHead (text : Text) : Text :=
  let start := if text.head?.any (fun c => c = ' ' || c = '\n') then ['2'] else []
  let ending := match text.reverse with
    | '\n' :: [] | '\n' :: '\n' :: _ => ['+']
    | '\n' :: _ => []
    | _ => ['-']
  '|' :: start ++ ending

def literalLines (text : Text) : List Text :=
  let lines := Text.lines text
  if text.getLast? = some '\n' then lines.dropLast else lines

inductive Piece where
  | inline (text : Text)
  | literal (head : Text) (lines : List Text)
  | list (lines : List Text)
  | object (lines : List Text)

def deeper (lines : List Text) : List Text :=
  lines.map fun line => if line = [] then [] else ' ' :: ' ' :: line

def Piece.afterDash : Piece → List Text
  | .inline t => ['-' :: ' ' :: t]
  | .literal head lines => ('-' :: ' ' :: head) :: deeper lines
  | .list [] | .object [] => []
  | .list (first :: more) | .object (first :: more) => ('-' :: ' ' :: first) :: deeper more

def Piece.afterKey (key : Text) : Piece → List Text
  | .inline t => [scalar key ++ ':' :: ' ' :: t]
  | .literal head lines => (scalar key ++ ':' :: ' ' :: head) :: deeper lines
  -- the dashes of a list stand below its key without a further indentation
  | .list lines => (scalar key ++ [':']) :: lines
  | .object lines => (scalar key ++ [':']) :: deeper lines

def ofText (text : Text) : Piece :=
  if isLiteral text then .literal (literalHead text) (literalLines text) else .inline (scalar text)

mutual
def piece : Value → Piece
  | .null => .inline "null".toList
  | .bool true => .inline "true".toList
  | .bool false => .inline "false".toList
  | .int n => .inline (integerText n)
  | .float x => .inline (Decimal.blockNotation.write x)
  | .bigInt n => .inline (scalar (integerText n))
  | .str s => ofText s.toList
  | .list [] => .inline "[]".toList
  | .list (v :: vs) => .list (itemLines (v :: vs))
  | .object [] => .inline ['\x7b', '\x7d']
  | .object (f :: fs) => .object (fieldLines (f :: fs))

def itemLines : List Value → List Text
  | [] => []
  | v :: vs => (piece v).afterDash ++ itemLines vs

def fieldLines : List (String × Value) → List Text
  | [] => []
  | (key, v) :: fields => (piece v).afterKey key.toList ++ fieldLines fields
end

def Piece.lines : Piece → List Text
  | .inline t => [t]
  | .literal head lines => head :: deeper lines
  | .list lines | .object lines => lines

end BlockStyle

def blockDocument (v : Value) : Text :=
  (BlockStyle.piece v).lines.flatMap (· ++ ['\n'])

end FurthestMatch.Value
