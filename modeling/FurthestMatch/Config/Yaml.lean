import FurthestMatch.Config.Setting
import FurthestMatch.Decimal.Numeral

/-!
# Configurations in YAML

The part of YAML that configurations are written in: block mappings and sequences by indentation, flow mappings
and sequences in brackets, plain and quoted scalars, and comments. There are no tags, anchors, literal blocks or
directives. The configuration is a mapping of named settings; an empty document gives the defaults.
-/

namespace FurthestMatch

inductive Yaml where
  | scalar (text : Text) (isPlain : Bool)
  | list (items : List Yaml)
  | mapping (fields : List (Yaml × Yaml))

namespace Yaml

def nothing : Yaml :=
  .scalar [] true

def isSpace (c : Char) : Bool :=
  c = ' ' || c = '\t'

def isGap (c : Char) : Bool :=
  isSpace c || c = '\n'

def startsGap (text : Text) : Bool :=
  text.head?.all isGap

/-- The text after gaps and comments, or, inside a comment, after that and what follows it. -/
def skipGaps : (inComment : Bool) → Text → Text
  | _, [] => []
  | true, c :: rest => skipGaps (c ≠ '\n') rest
  | false, c :: rest =>
    if isGap c then skipGaps false rest else if c = '#' then skipGaps true rest else c :: rest

def skip (text : Text) : Text :=
  skipGaps false text

/-- What a gap in a scalar stands for: blanks for themselves, one line break for a space, and further line breaks
for themselves. When the first line break is `escaped` it stands for nothing, nor do the blanks. -/
def foldGap (escaped : Bool) (gap : Text) : Text :=
  match escaped, gap.count '\n' with
  | true, n => List.replicate n '\n'
  | false, 0 => gap
  | false, 1 => [' ']
  | false, n + 2 => List.replicate (n + 1) '\n'

def isIndicator (c : Char) : Bool :=
  "-?:,[]#&*!|>'\"%@`".toList.contains c || c = '\x7b' || c = '\x7d'

def isFlowMark (c : Char) : Bool :=
  c = ',' || c = '[' || c = ']' || c = '\x7b' || c = '\x7d'

def startsPlain (inFlow : Bool) : Text → Bool
  | [] => false
  | c :: rest =>
    !isGap c && (!isIndicator c || (c = '-' && !startsGap rest) ||
      (!inFlow && (c = '?' || c = ':') && !startsGap rest))

/-- Whether a plain scalar ends before a character: a colon with a gap after it, the start of a comment, or in a
flow collection a mark. -/
def endsPlain (inFlow afterGap : Bool) (c : Char) (rest : Text) : Bool :=
  (c = ':' && startsGap rest) || (afterGap && c = '#') || (inFlow && isFlowMark c)

def readPlain (inFlow : Bool) (gap : Text) : Text → Option (Text × Text)
  | [] => some ([], [])
  | c :: rest =>
    if isGap c then readPlain inFlow (c :: gap) rest
    else if endsPlain inFlow (!gap.isEmpty) c rest then some ([], c :: rest)
    -- a colon before a mark ends no key, nor is it a part of the scalar
    else if inFlow && c = ':' && rest.head?.any (fun d => isFlowMark d || d = '?') then none
    else (readPlain inFlow [] rest).map fun (more, rest) => (foldGap false gap.reverse ++ c :: more, rest)

def readSingle (gap : Text) : Text → Option (Text × Text)
  | [] => none
  | '\'' :: '\'' :: rest =>
    (readSingle [] rest).map fun (more, rest) => (foldGap false gap.reverse ++ '\'' :: more, rest)
  | '\'' :: rest => some (foldGap false gap.reverse, rest)
  | c :: rest =>
    if isGap c then readSingle (c :: gap) rest
    else (readSingle [] rest).map fun (more, rest) => (foldGap false gap.reverse ++ c :: more, rest)

def escaped? : Char → Option Char
  | '0' => some '\x00'
  | 'a' => some '\x07'
  | 'b' => some '\x08'
  | 't' | '\t' => some '\t'
  | 'n' => some '\n'
  | 'v' => some '\x0b'
  | 'f' => some '\x0c'
  | 'r' => some '\r'
  | 'e' => some '\x1b'
  | ' ' => some ' '
  | '"' => some '"'
  | '/' => some '/'
  | '\\' => some '\\'
  | 'N' => some '\u0085'
  | '_' => some '\u00a0'
  | 'L' => some '\u2028'
  | 'P' => some '\u2029'
  | _ => none

def codePoint? (digits : Text) : Option Char :=
  (Numeral.naturalIn? 16 digits).bind fun n => if n.isValidChar then some (Char.ofNat n) else none

/-- The rest of a scalar in double quotes after a gap, and what follows the scalar. A line break after a backslash
starts a gap that is `escaped`. -/
def readDouble (escaped : Bool) (gap : Text) : Text → Option (Text × Text)
  | [] => none
  | '"' :: rest => some (foldGap escaped gap.reverse, rest)
  | '\\' :: '\n' :: rest =>
    (readDouble true [] rest).map fun (more, rest) => (foldGap escaped gap.reverse ++ more, rest)
  | '\\' :: 'x' :: a :: b :: rest => more (codePoint? [a, b]) (readDouble false [] rest)
  | '\\' :: 'u' :: a :: b :: c :: d :: rest => more (codePoint? [a, b, c, d]) (readDouble false [] rest)
  | '\\' :: 'U' :: a :: b :: c :: d :: e :: f :: g :: h :: rest =>
    more (codePoint? [a, b, c, d, e, f, g, h]) (readDouble false [] rest)
  | '\\' :: c :: rest => more (escaped? c) (readDouble false [] rest)
  | c :: rest =>
    if isGap c then readDouble escaped (c :: gap) rest else more (some c) (readDouble false [] rest)
where
  /-- The gap, one character, and what comes after it. -/
  more (c? : Option Char) (after? : Option (Text × Text)) : Option (Text × Text) := do
    let c ← c?
    let (text, rest) ← after?
    return (foldGap escaped gap.reverse ++ c :: text, rest)

def readScalar (inFlow : Bool) : Text → Option (Yaml × Text)
  | '"' :: rest => (readDouble false [] rest).map fun (t, rest) => (.scalar t false, rest)
  | '\'' :: rest => (readSingle [] rest).map fun (t, rest) => (.scalar t false, rest)
  | text =>
    if startsPlain inFlow text then (readPlain inFlow [] text).map fun (t, rest) => (.scalar t true, rest) else none

mutual
/-- A node in flow style at the start of a text, and what follows it. The fuel bounds how many nodes are nested or
stand in a row, and is never used up when there is more of it than text. -/
def readFlow : (fuel : Nat) → (inFlow : Bool) → Text → Option (Yaml × Text)
  | 0, _, _ => none
  | fuel + 1, inFlow, text => match text with
    | '[' :: rest => (readItems fuel (skip rest)).map fun (items, rest) => (.list items, rest)
    | '\x7b' :: rest => (readFields fuel (skip rest)).map fun (fields, rest) => (.mapping fields, rest)
    | text => readScalar inFlow text

def readValue : (fuel : Nat) → Text → Option (Yaml × Text)
  | 0, _ => none
  | fuel + 1, text => match text with
    | ',' :: _ | ']' :: _ | '\x7d' :: _ => some (nothing, text)
    | text => readFlow fuel true text

def readEntry : (fuel : Nat) → Text → Option (Yaml × Option Yaml × Text)
  | 0, _ => none
  | fuel + 1, text => do
    let (key, rest) ← match text with
      | ':' :: _ => some (nothing, text)
      | _ => readFlow fuel true text
    match skip rest with
    | ':' :: rest => do
      let (value, rest) ← readValue fuel (skip rest)
      return (key, some value, skip rest)
    | rest => return (key, none, rest)

def readItems : (fuel : Nat) → Text → Option (List Yaml × Text)
  | 0, _ => none
  | fuel + 1, text => match text with
    | ']' :: rest => some ([], rest)
    | text => do
      let (key, value?, rest) ← readEntry fuel text
      -- a key with a value in a row is a mapping of its own
      let item := match value? with
        | some value => .mapping [(key, value)]
        | none => key
      match rest with
      | ']' :: rest => return ([item], rest)
      | ',' :: rest =>
        let (items, rest) ← readItems fuel (skip rest)
        return (item :: items, rest)
      | _ => none

def readFields : (fuel : Nat) → Text → Option (List (Yaml × Yaml) × Text)
  | 0, _ => none
  | fuel + 1, text => match text with
    | '\x7d' :: rest => some ([], rest)
    | text => do
      let (key, value?, rest) ← readEntry fuel text
      let field := (key, value?.getD nothing)
      match rest with
      | '\x7d' :: rest => return ([field], rest)
      | ',' :: rest =>
        let (fields, rest) ← readFields fuel (skip rest)
        return (field :: fields, rest)
      | _ => none
end

def ofFlow? (text : Text) : Option Yaml := do
  let (node, rest) ← readFlow (2 * text.length + 2) false (skip text)
  if skip rest = [] then some node else none

def indentOf (line : Text) : Nat :=
  (line.takeWhile (· = ' ')).length

def isIdle (line : Text) : Bool :=
  (line.dropWhile isSpace).head?.all (· = '#')

def unlines (lines : List Text) : Text :=
  ['\n'].intercalate lines

def readKey (line : Text) : Option (Yaml × Text) := do
  let (key, rest) ← match line with
    | ':' :: _ => some (nothing, line)
    | _ => readScalar false line
  match rest.dropWhile isSpace with
  | ':' :: rest => if startsGap rest then some (key, rest) else none
  | _ => none

def isItem : Text → Bool
  | '-' :: rest => startsGap rest
  | _ => false

/-- The lines that belong to an entry at an indentation: those that are deeper or idle, and the items of a sequence
right below a key. -/
def splitEntry (indent : Nat) (belowKey : Bool) (lines : List Text) : List Text × List Text :=
  lines.span fun line =>
    isIdle line || indent < indentOf line || (belowKey && indent = indentOf line && isItem (line.drop indent))

mutual
/-- The node that lines hold, by indentation. The fuel bounds how many nodes are nested or stand in a row. -/
def ofBlock? : (fuel : Nat) → List Text → Option Yaml
  | 0, _ => none
  | fuel + 1, lines => match lines.dropWhile isIdle with
    | [] => some nothing
    | line :: more =>
      let indent := indentOf line
      if isItem (line.drop indent) then (blockItems fuel indent (line :: more)).map .list
      else if (readKey (line.drop indent)).isSome then (blockFields fuel indent (line :: more)).map .mapping
      else ofFlow? (unlines (line :: more))

def blockItems : (fuel : Nat) → (indent : Nat) → List Text → Option (List Yaml)
  | 0, _, _ => none
  | fuel + 1, indent, lines => match lines.dropWhile isIdle with
    | [] => some []
    | line :: more =>
      if indentOf line = indent ∧ isItem (line.drop indent) then do
        let (inside, after) := splitEntry indent false more
        -- what follows the dash is indented by it
        let first := List.replicate (indent + 1) ' ' ++ line.drop (indent + 1)
        let item ← ofBlock? fuel (first :: inside)
        return item :: (← blockItems fuel indent after)
      else none

def blockFields : (fuel : Nat) → (indent : Nat) → List Text → Option (List (Yaml × Yaml))
  | 0, _, _ => none
  | fuel + 1, indent, lines => match lines.dropWhile isIdle with
    | [] => some []
    | line :: more =>
      if indentOf line = indent then do
        let (key, rest) ← readKey (line.drop indent)
        let (inside, after) := splitEntry indent (isIdle rest) more
        -- a value on the line of its key is in flow style
        let value ← if isIdle rest then ofBlock? fuel inside else ofFlow? (unlines (rest :: inside))
        return (key, value) :: (← blockFields fuel indent after)
      else none
end

def lines : Text → List Text
  | [] => [[]]
  | '\r' :: '\n' :: rest => [] :: lines rest
  | c :: rest =>
    if c = '\n' ∨ c = '\r' then [] :: lines rest
    else match lines rest with
      | [] => [[c]]
      | line :: more => (c :: line) :: more

def afterMark? (mark : String) (line : Text) : Option Text :=
  (Text.after? mark.toList line).filter startsGap

def isAllowed (c : Char) : Bool :=
  c = '\t' || c = '\n' || c = '\r' || c = '\u0085' || (' ' ≤ c && c ≤ '~') ||
    ('\u00a0' ≤ c && c ≠ '\ufeff' && c ≠ '\ufffe' && c ≠ '\uffff')

def document? (lines : List Text) : Option (List Text) :=
  let (content, rest) := lines.span fun line =>
    (afterMark? "---" line).isNone && (afterMark? "..." line).isNone
  if rest.all fun line => isIdle line || (afterMark? "..." line).any isIdle then some content else none

def ofText? (text : Text) : Option Yaml := do
  let text := (Text.after? ['\ufeff'] text).getD text
  if !text.all isAllowed then none
  let lines := lines text
  let fuel := 2 * text.length + 4
  match lines.dropWhile isIdle with
  | [] => some nothing
  | line :: more => match afterMark? "---" line with
    | some rest => do
      let content ← document? more
      if isIdle rest then ofBlock? fuel content else ofFlow? (unlines (rest :: content))
    | none => (document? (line :: more)).bind (ofBlock? fuel)

/-- The number of a plain scalar: digits of base ten without a zero in front, or of another base after its mark. -/
def natural? (text : Text) : Option Nat :=
  let unsigned := (Text.after? ['+'] text).getD text
  (Numeral.marked? unsigned).orElse fun _ =>
    if Numeral.isPadded unsigned then none else Numeral.natural? unsigned

def setting : Yaml → Config.Setting
  | .scalar text isPlain =>
    ⟨some text, if isPlain then (natural? text).filter (· ≤ Config.maxNumber) else none⟩
  | _ => {}

def text? : Yaml → Option Text
  | .scalar text _ => some text
  | _ => none

end Yaml

def Config.ofYaml? (text : Text) : Option Config := do
  match ← Yaml.ofText? text with
  | .scalar [] true => some {}
  | .mapping fields =>
    let settings ← fields.mapM fun (key, value) => key.text?.map (·, value.setting)
    ofNamed? settings
  | _ => none

end FurthestMatch
