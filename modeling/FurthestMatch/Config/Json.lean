import FurthestMatch.Config.Setting
import FurthestMatch.Decimal.Numeral

/-!
# Configurations in JSON

A JSON text is read into a tree first. Strings are kept as they were escaped, since a string that is passed over
may hold an escape that is no character. The configuration is an object of named settings or an array with the
settings in order.
-/

namespace FurthestMatch

/-- A part of a string: a character, or the code of a `\u` escape, which may be one half of a character. -/
inductive JsonUnit where
  | char (c : Char)
  | code (n : Nat)
deriving DecidableEq, Repr

/-- A JSON text as a tree. A number is kept as it is written. -/
inductive Json where
  | null
  | bool (b : Bool)
  | number (written : Text)
  | str (units : List JsonUnit)
  | array (items : List Json)
  | object (fields : List (List JsonUnit × Json))

namespace JsonUnit

def isLead (n : Nat) : Bool :=
  0xD800 ≤ n && n < 0xDC00

def isTrail (n : Nat) : Bool :=
  0xDC00 ≤ n && n < 0xE000

def toText? : List JsonUnit → Option Text
  | [] => some []
  | .char c :: units => (toText? units).map (c :: ·)
  | .code n :: units =>
    if isTrail n then none
    -- two codes in a row may be the halves of one character
    else if isLead n then match units with
      | .code m :: units =>
        if isTrail m then (toText? units).map (Char.ofNat (0x10000 + 0x400 * (n - 0xD800) + (m - 0xDC00)) :: ·)
        else none
      | _ => none
    else (toText? units).map (Char.ofNat n :: ·)

end JsonUnit

namespace Json

def isSpace (c : Char) : Bool :=
  c = ' ' || c = '\t' || c = '\n' || c = '\r'

def skipSpace (text : Text) : Text :=
  text.dropWhile isSpace

def escaped? : Char → Option Char
  | '"' => some '"'
  | '\\' => some '\\'
  | '/' => some '/'
  | 'b' => some '\x08'
  | 'f' => some '\x0c'
  | 'n' => some '\n'
  | 'r' => some '\r'
  | 't' => some '\t'
  | _ => none

def readString : Text → Option (List JsonUnit × Text)
  | [] => none
  | '"' :: rest => some ([], rest)
  | '\\' :: 'u' :: a :: b :: c :: d :: rest => do
    let n ← Numeral.naturalIn? 16 [a, b, c, d]
    let (units, rest) ← readString rest
    return (.code n :: units, rest)
  | '\\' :: c :: rest => do
    let c ← escaped? c
    let (units, rest) ← readString rest
    return (.char c :: units, rest)
  | c :: rest =>
    if c.toNat < 0x20 then none
    else (readString rest).map fun (units, rest) => (.char c :: units, rest)

def readDigits? (text : Text) : Option (Text × Text) :=
  let digits := text.takeWhile Numeral.isDigit
  if digits = [] then none else some (digits, text.dropWhile Numeral.isDigit)

def readWhole? : Text → Option (Text × Text)
  | '0' :: rest => if rest.head?.any Numeral.isDigit then none else some (['0'], rest)
  | text => readDigits? text

def readFraction? : Text → Option (Text × Text)
  | '.' :: rest => (readDigits? rest).map fun (digits, rest) => ('.' :: digits, rest)
  | text => some ([], text)

def readExponent? : Text → Option (Text × Text)
  | [] => some ([], [])
  | e :: rest =>
    if e = 'e' ∨ e = 'E' then match rest with
      | '+' :: rest => (readDigits? rest).map fun (digits, rest) => (e :: '+' :: digits, rest)
      | '-' :: rest => (readDigits? rest).map fun (digits, rest) => (e :: '-' :: digits, rest)
      | rest => (readDigits? rest).map fun (digits, rest) => (e :: digits, rest)
    else some ([], e :: rest)

def readNumber? (text : Text) : Option (Text × Text) := do
  let (sign, rest) := match text with
    | '-' :: rest => (['-'], rest)
    | rest => ([], rest)
  let (whole, rest) ← readWhole? rest
  let (fraction, rest) ← readFraction? rest
  let (exponent, rest) ← readExponent? rest
  return (sign ++ whole ++ fraction ++ exponent, rest)

def readWord? (word : String) (json : Json) (text : Text) : Option (Json × Text) :=
  (Text.after? word.toList text).map (json, ·)

mutual
/-- A value at the start of a text, and what follows it. The fuel bounds how many values are nested or stand in a
row, and is never used up when there is more of it than text. -/
def readValue : (fuel : Nat) → Text → Option (Json × Text)
  | 0, _ => none
  | fuel + 1, text => match skipSpace text with
    | '"' :: rest => (readString rest).map fun (units, rest) => (.str units, rest)
    | '[' :: rest => match skipSpace rest with
      | ']' :: rest => some (.array [], rest)
      | rest => (readItems fuel rest).map fun (items, rest) => (.array items, rest)
    | '\x7b' :: rest => match skipSpace rest with
      | '\x7d' :: rest => some (.object [], rest)
      | rest => (readFields fuel rest).map fun (fields, rest) => (.object fields, rest)
    | 'n' :: rest => readWord? "ull" .null rest
    | 't' :: rest => readWord? "rue" (.bool true) rest
    | 'f' :: rest => readWord? "alse" (.bool false) rest
    | rest => (readNumber? rest).map fun (written, rest) => (.number written, rest)

def readItems : (fuel : Nat) → Text → Option (List Json × Text)
  | 0, _ => none
  | fuel + 1, text => do
    let (item, rest) ← readValue fuel text
    match skipSpace rest with
    | ']' :: rest => some ([item], rest)
    | ',' :: rest => (readItems fuel rest).map fun (items, rest) => (item :: items, rest)
    | _ => none

def readFields : (fuel : Nat) → Text → Option (List (List JsonUnit × Json) × Text)
  | 0, _ => none
  | fuel + 1, text => do
    let '"' :: rest := skipSpace text | none
    let (key, rest) ← readString rest
    let ':' :: rest := skipSpace rest | none
    let (value, rest) ← readValue fuel rest
    match skipSpace rest with
    | '\x7d' :: rest => some ([(key, value)], rest)
    | ',' :: rest => (readFields fuel rest).map fun (fields, rest) => ((key, value) :: fields, rest)
    | _ => none
end

def ofText? (text : Text) : Option Json := do
  let (json, rest) ← readValue (text.length + 1) text
  if skipSpace rest = [] then some json else none

/-- A value as a setting. A number has to be written in digits alone. -/
def setting : Json → Config.Setting
  | .str units => { text? := JsonUnit.toText? units }
  | .number written => { number? := (Numeral.natural? written).filter (· ≤ Config.maxNumber) }
  | _ => {}

end Json

def Config.ofJson? (text : Text) : Option Config := do
  match ← Json.ofText? text with
  | .object fields =>
    let settings ← fields.mapM fun (key, value) => (JsonUnit.toText? key).map (·, value.setting)
    ofNamed? settings
  | .array items => ofRow? (items.map Json.setting)
  | _ => none

end FurthestMatch
