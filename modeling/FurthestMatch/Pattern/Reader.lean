import FurthestMatch.Decimal.Numeral
import FurthestMatch.Pattern.Regex

/-!
# Reading patterns

The written form of regular expressions. A pattern is put between `^(?:` and `)` before it is read, so that its
first alternative is tried at the start of a text; the whole is then read like any other pattern.

Some of what matchers with looks and back-references know is not read here but refused:

* `\K`, which moves the start of a match, and `\G`;
* `\p{..}`, `\Z`, `\R`, `\X` and every other letter without a meaning in `readEscape`;
* references by name or relative number, `\k<..>` and `(?P=..)`;
* edges of words on one side, `\<`, `\>` and `\b{..}`;
* the flags `x` and `R`, comments `(?#..)` and conditionals `(?(..)..)`.

What is proved of all patterns that can be read is said of the others only. With `\K`, for one, a pattern of its own
could leave out text at the start of its match.
-/

namespace FurthestMatch

inductive PatternError where
  | unclosedGroup
  | unopenedGroup
  | unclosedClass
  | notInClass
  | reversedRange
  | nothingToRepeat
  | reversedBounds
  | trailingBackslash
  | unknownEscape (c : Char)
  | notACodePoint
  | unknownFlag
  | badGroupName
  | missingGroup (number : Nat)
  | numberedAndNamed
  | unevenLookbehind
  | tooDeep
deriving DecidableEq, Repr

namespace PatternError

def message : PatternError → String
  | .unclosedGroup => "a group is not closed"
  | .unopenedGroup => "a parenthesis closes no group"
  | .unclosedClass => "a class is not closed"
  | .notInClass => "not a character of a class"
  | .reversedRange => "a range ends before it begins"
  | .nothingToRepeat => "nothing to repeat"
  | .reversedBounds => "the greatest count is below the least"
  | .trailingBackslash => "a backslash ends the pattern"
  | .unknownEscape c => s!"no escape is written with {c}"
  | .notACodePoint => "not a code point"
  | .unknownFlag => "unknown flag"
  | .badGroupName => "not the name of a group"
  | .missingGroup n => s!"there is no group {n} so far"
  | .numberedAndNamed => "groups with names are not referred to by number"
  | .unevenLookbehind => "the length of a look behind is not fixed"
  | .tooDeep => "nested too deeply"

end PatternError

namespace Pattern

structure Flags where
  ignoreCase : Bool := false
  dotAll : Bool := false
  multiLine : Bool := false
  swapGreed : Bool := false
deriving DecidableEq, Repr

structure Reading where
  rest : Text
  flags : Flags := {}
  /-- Groups opened so far. -/
  groups : Nat := 0
  named : Bool := false
  numbered : Bool := false
deriving DecidableEq, Repr

abbrev Reader := StateT Reading (Except PatternError)

structure Part where
  regex : Regex
  repeatable : Bool := true
deriving DecidableEq, Repr

namespace Part

def nothing : Part :=
  ⟨.empty, false⟩

def anchor (a : Anchor) : Part :=
  ⟨.anchor a, false⟩

def row : List Part → Part
  | [] => nothing
  | [p] => p
  | p :: ps => ⟨.seq p.regex (row ps).regex, true⟩

def alternatives (first : Part) : List Part → Part
  | [] => first
  | p :: ps => ⟨.alt first.regex (alternatives p ps).regex, true⟩

end Part

def skip (text : String) : Reader Bool := fun st =>
  match Text.after? text.toList st.rest with
  | some rest => .ok (true, { st with rest })
  | none => .ok (false, st)

def next? : Reader (Option Char) := fun st =>
  match st.rest with
  | [] => .ok (none, st)
  | c :: rest => .ok (some c, { st with rest })

def takeUpTo (count : Nat) (kind : Char → Bool) : Reader Text := fun st =>
  let taken := (st.rest.take count).takeWhile kind
  .ok (taken, { st with rest := st.rest.drop taken.length })

def setRest (rest : Text) : Reader Unit := fun st =>
  .ok ((), { st with rest })

def natural? : Reader (Option Nat) := fun st =>
  match st.rest.takeWhile Numeral.isDigit with
  | [] => .ok (none, st)
  | digits => .ok (some (Numeral.ofDigits digits), { st with rest := st.rest.dropWhile Numeral.isDigit })

def charOfHex? (digits : Text) : Option Char := do
  let n ← Numeral.naturalIn? 16 digits
  if n.isValidChar then some (Char.ofNat n) else none

/-- A code point: so many digits in base sixteen, or one to eight of them in braces. -/
def codePoint (digits : Nat) : Reader Char := do
  let isHex (c : Char) : Bool := (Numeral.digit? 16 c).isSome
  let start := (← get).rest
  let taken ← takeUpTo digits isHex
  let digits ←
    if taken.length = digits then pure taken
    else do
      setRest start
      if ← skip "\x7b" then
        let inner ← takeUpTo 8 isHex
        if inner ≠ [] ∧ (← skip "\x7d") then pure inner else throw .notACodePoint
      else throw .notACodePoint
  match charOfHex? digits with
  | some c => pure c
  | none => throw .notACodePoint

inductive Escape where
  | char (c : Char)
  | set (s : CharSet)
  | anchor (a : Anchor)
  | again (number : Nat)

def hexDigits : CharSet :=
  .union (.range '0' '9' false) (.union (.range 'A' 'F' false) (.range 'a' 'f' false))

/-- The escape after a backslash. A letter without a meaning is refused, and any other character stands for
itself. -/
def readEscape (inClass : Bool) : Reader Escape := do
  let start := (← get).rest
  match ← next? with
  | none => throw .trailingBackslash
  | some c =>
    if Numeral.isDigit c then
      setRest start
      return .again ((← natural?).getD 0)
    if !inClass then
      match c with
      | 'A' => return .anchor .textStart
      | 'z' => return .anchor .textEnd
      | 'b' => if ← skip "\x7b" then throw (.unknownEscape 'b') else return .anchor .wordEdge
      | 'B' => return .anchor .noWordEdge
      | '<' | '>' => throw (.unknownEscape c)
      | _ => pure ()
    match c with
    | 'd' => return .set .digit
    | 'D' => return .set (.compl .digit)
    | 's' => return .set .blank
    | 'S' => return .set (.compl .blank)
    | 'w' => return .set .word
    | 'W' => return .set (.compl .word)
    | 'h' => return .set hexDigits
    | 'H' => return .set (.compl hexDigits)
    | 'x' => return .char (← codePoint 2)
    | 'u' => return .char (← codePoint 4)
    | 'U' => return .char (← codePoint 8)
    | 'a' => return .char '\x07'
    | 'b' => return .char '\x08'
    | 'e' => return .char '\x1b'
    | 'f' => return .char '\x0c'
    | 'n' => return .char '\n'
    | 'r' => return .char '\r'
    | 't' => return .char '\t'
    | 'v' => return .char '\x0b'
    | c => if c.isAlpha then throw (.unknownEscape c) else return .char c

def readClassElement : Reader (Char ⊕ CharSet) := do
  match ← next? with
  | none => throw .unclosedClass
  | some '\\' => match ← readEscape true with
    | .char c => return .inl c
    | .set s => return .inr s
    | _ => throw .notInClass
  | some c => return .inl c

def elementSet (ignoreCase : Bool) : Char ⊕ CharSet → CharSet
  | .inl c => .single c ignoreCase
  | .inr s => s

def readNamedClass? (ignoreCase : Bool) : List (String × List (Char × Char)) → Reader (Option CharSet)
  | [] => return none
  | (name, ranges) :: more => do
    let set := CharSet.ofRanges ranges ignoreCase
    if ← skip (":" ++ name ++ ":]") then return some set
    if ← skip (":^" ++ name ++ ":]") then return some (.compl set)
    readNamedClass? ignoreCase more

def readOperation? : Reader (Option (CharSet → CharSet → CharSet)) := do
  if ← skip "&&" then return some .inter
  if ← skip "--" then return some .diff
  if ← skip "~~" then return some .symmDiff
  return none

/-- What stands for itself at the start of a class: hyphens do, and without them a bracket that closes. Inside another
class that bracket leaves one of the two unclosed. -/
def readFirst (nested : Bool) : Reader CharSet := do
  let st ← get
  let self (c : Char) : CharSet := .single c st.flags.ignoreCase
  let hyphens ← takeUpTo st.rest.length (· = '-')
  if hyphens ≠ [] then return hyphens.foldl (fun acc c => .union acc (self c)) .none
  if ← skip "]" then
    if nested then throw .unclosedClass else return self ']'
  else return .none

/-- One member of a class: an element, or a range between two characters. A hyphen stands for itself before the closing
bracket. -/
def readMember : Reader CharSet := do
  let ignoreCase := (← get).flags.ignoreCase
  let low ← readClassElement
  match (← get).rest with
  | ['-'] => throw .unclosedClass
  | '-' :: d :: _ =>
    if d = ']' ∨ d = '-' then return elementSet ignoreCase low
    else do
      let _ ← skip "-"
      match low, ← readClassElement with
      | .inl low, .inl high =>
        if low ≤ high then return .range low high ignoreCase else throw .reversedRange
      | _, _ => throw .notInClass
  | _ => return elementSet ignoreCase low

/-- The members of a class up to its closing bracket. An operation takes all members before it, with what `before`
makes of them, and all those up to the next operation. -/
def readMembers : (fuel : Nat) → (before : CharSet → CharSet) → CharSet → Reader CharSet
  | 0, _, _ => throw .tooDeep
  | fuel + 1, before, acc => do
    if ← skip "]" then return before acc
    if ← skip "[" then
      match ← readNamedClass? (← get).flags.ignoreCase CharSet.named with
      | some set => readMembers fuel before (.union acc set)
      | none => do
        let negated ← skip "^"
        let first ← readFirst true
        let inner ← readMembers fuel id first
        readMembers fuel before (.union acc (if negated then .compl inner else inner))
    else match ← readOperation? with
      | some operation => readMembers fuel (operation (before acc)) .none
      | none => do
        let member ← readMember
        readMembers fuel before (.union acc member)

def readClass : Reader CharSet := do
  let negated ← skip "^"
  let first ← readFirst false
  let inner ← readMembers ((← get).rest.length + 1) id first
  return if negated then .compl inner else inner

/-- The bounds of a count in braces; without them the brace stands for itself and nothing is taken. -/
def readBounds? : Reader (Option (Nat × Option Nat)) := fun st =>
  let bounds : Reader (Option (Nat × Option Nat)) := do
    let least ← natural?
    let comma ← skip ","
    let most ← if comma then natural? else pure none
    if !(← skip "\x7d") then return none
    match least, comma with
    | none, false => return none
    | some n, false => return some (n, some n)
    | least, true => return some (least.getD 0, most)
  match bounds st with
  | .ok (some b, st') => .ok (some b, st')
  | _ => .ok (none, st)

def readCount? : Reader (Option (Nat × Option Nat)) := do
  if ← skip "?" then return some (0, some 1)
  if ← skip "*" then return some (0, none)
  if ← skip "+" then return some (1, none)
  let start := (← get).rest
  if ← skip "\x7b" then
    match ← readBounds? with
    | some b => return some b
    | none => setRest start
  return none

/-- A part with the count that follows it: `?` after the count prefers fewer rounds, `+` keeps the first way. -/
def withCount (part : Part) : Reader Part := do
  match ← readCount? with
  | none => return part
  | some (least, most) =>
    if !part.repeatable then throw .nothingToRepeat
    if most.any (· < least) then throw .reversedBounds
    let fewer ← skip "?"
    let st ← get
    let regex := Regex.times part.regex least most (fewer == st.flags.swapGreed)
    if ← skip "+" then return ⟨.atomic regex, true⟩ else return ⟨regex, true⟩

def readName : Reader Unit := do
  let st ← get
  let name ← takeUpTo st.rest.length isWord
  if name = [] ∨ !(← skip ">") then throw .badGroupName
  modify fun st => { st with named := true }

def readFlags : (fuel : Nat) → (off any : Bool) → Reader Bool
  | 0, _, _ => throw .tooDeep
  | fuel + 1, off, any => do
    match ← next? with
    | some ':' => return true
    | some ')' => if any then return false else throw .unknownFlag
    | some '-' => if off then throw .unknownFlag else readFlags fuel true false
    | some 'i' => modify (fun st => { st with flags.ignoreCase := !off }); readFlags fuel off true
    | some 'm' => modify (fun st => { st with flags.multiLine := !off }); readFlags fuel off true
    | some 's' => modify (fun st => { st with flags.dotAll := !off }); readFlags fuel off true
    | some 'U' => modify (fun st => { st with flags.swapGreed := !off }); readFlags fuel off true
    | some 'u' => if off then throw .unknownFlag else readFlags fuel off true
    | some _ => throw .unknownFlag
    | none => throw .unclosedGroup

def branches : Regex → List Regex
  | .alt a b => branches a ++ branches b
  | r => [r]

/-- A look behind. Its length has to be fixed, at least branch by branch. -/
def lookBehind (positive : Bool) (r : Regex) : Except PatternError Regex :=
  match r.width? with
  | some n => .ok (.look n positive r)
  | none => do
    let looks ← (branches r).mapM fun b => match b.width? with
      | some n => .ok (Regex.look n positive b)
      | none => .error .unevenLookbehind
    match looks with
    | [] => .error .unevenLookbehind
    | first :: more => .ok (more.foldl (fun acc l => if positive then .alt acc l else .seq acc l) first)

mutual
def readAlternatives : (fuel : Nat) → Reader Part
  | 0 => throw .tooDeep
  | fuel + 1 => do
    let first ← readRow fuel []
    let more ← readMore fuel
    let st ← get
    if more.isEmpty && st.named && st.numbered then throw .numberedAndNamed
    return first.alternatives more

def readMore : (fuel : Nat) → Reader (List Part)
  | 0 => throw .tooDeep
  | fuel + 1 => do
    if ← skip "|" then
      let part ← readRow fuel []
      return part :: (← readMore fuel)
    else return []

def readRow : (fuel : Nat) → (done : List Part) → Reader Part
  | 0, _ => throw .tooDeep
  | fuel + 1, done => do
    match (← get).rest with
    | [] | '|' :: _ | ')' :: _ => return Part.row done.reverse
    | _ =>
      let part ← withCount (← readAtom fuel)
      readRow fuel (if part.regex = .empty then done else part :: done)

def readAtom : (fuel : Nat) → Reader Part
  | 0 => throw .tooDeep
  | fuel + 1 => do
    let start ← get
    match ← next? with
    | none => return .nothing
    | some '.' => return ⟨.set (if start.flags.dotAll then .all else .inline), true⟩
    | some '^' => return .anchor (if start.flags.multiLine then .lineStart else .textStart)
    | some '$' => return .anchor (if start.flags.multiLine then .lineEnd else .textEnd)
    | some '(' => readGroup fuel
    | some '[' => return ⟨.set (← readClass), true⟩
    | some '\\' => match ← readEscape false with
      | .char c => return ⟨.set (.single c start.flags.ignoreCase), true⟩
      | .set s => return ⟨.set s, true⟩
      | .anchor a => return .anchor a
      | .again n =>
        if n ≤ start.groups then
          modify fun st => { st with numbered := true }
          return ⟨.again n, true⟩
        else throw (.missingGroup n)
    | some c =>
      if c = '?' ∨ c = '*' ∨ c = '+' then
        -- the count is left to be refused, as it has nothing to repeat
        set start
        return .nothing
      else return ⟨.set (.single c start.flags.ignoreCase), true⟩

def readGroup : (fuel : Nat) → Reader Part
  | 0 => throw .tooDeep
  | fuel + 1 => do
    if ← skip "?=" then
      let r ← readClosed fuel
      return ⟨.look 0 true r.regex, false⟩
    if ← skip "?!" then
      let r ← readClosed fuel
      return ⟨.look 0 false r.regex, false⟩
    if ← skip "?<=" then
      let r ← readClosed fuel
      return ⟨← lookBehind true r.regex, false⟩
    if ← skip "?<!" then
      let r ← readClosed fuel
      return ⟨← lookBehind false r.regex, false⟩
    if ← skip "?>" then
      let r ← readClosed fuel
      return ⟨.atomic r.regex, true⟩
    let isNamed ← if ← skip "?<" then pure true else skip "?P<"
    if isNamed then
      readName
      readNumbered fuel
    else if ← skip "?" then
      let flags := (← get).flags
      if ← readFlags fuel false false then
        let r ← readClosed fuel
        modify fun st => { st with flags }
        return r
      else return .nothing
    else readNumbered fuel

def readNumbered : (fuel : Nat) → Reader Part
  | 0 => throw .tooDeep
  | fuel + 1 => do
    let number := (← get).groups + 1
    modify fun st => { st with groups := number }
    let r ← readClosed fuel
    return ⟨.group number r.regex, true⟩

def readClosed : (fuel : Nat) → Reader Part
  | 0 => throw .tooDeep
  | fuel + 1 => do
    let r ← readAlternatives fuel
    if ← skip ")" then return r else throw .unclosedGroup
end

def read (text : Text) : Except PatternError (Regex × Nat) := do
  let (part, st) ← (readAlternatives (6 * text.length + 6)).run { rest := text }
  if st.rest = [] then return (part.regex, st.groups) else throw .unopenedGroup

@[irreducible] def readAnchored (source : String) : Except PatternError (Regex × Nat) :=
  read ("^(?:".toList ++ source.toList ++ ")".toList)

end Pattern

end FurthestMatch
