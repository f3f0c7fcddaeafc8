import FurthestMatch.Decimal.Binary64
import FurthestMatch.Text.Cursor

/-!
# Reading numerals

Numerals are read from a whole text: floats, integers of sixty-four bits, integers of any size, and naturals in a
base up to sixteen. Only ASCII digits count.
-/

namespace FurthestMatch.Numeral

def isDigit (c : Char) : Bool :=
  '0' ≤ c && c ≤ '9'

def ofDigits (digits : List Char) : Nat :=
  digits.foldl (fun n c => 10 * n + (c.toNat - '0'.toNat)) 0

def natural? (text : Text) : Option Nat :=
  if text ≠ [] ∧ text.all isDigit then some (ofDigits text) else none

def digit? (base : Nat) (c : Char) : Option Nat :=
  let value :=
    if '0' ≤ c ∧ c ≤ '9' then some (c.toNat - '0'.toNat)
    else if 'a' ≤ c ∧ c ≤ 'f' then some (c.toNat - 'a'.toNat + 10)
    else if 'A' ≤ c ∧ c ≤ 'F' then some (c.toNat - 'A'.toNat + 10)
    else none
  value.filter (· < base)

def naturalIn? (base : Nat) (text : Text) : Option Nat :=
  if text = [] then none else text.foldlM (fun n c => (digit? base c).map (base * n + ·)) 0

def marked? : Text → Option Nat
  | '0' :: 'x' :: digits => naturalIn? 16 digits
  | '0' :: 'o' :: digits => naturalIn? 8 digits
  | '0' :: 'b' :: digits => naturalIn? 2 digits
  | _ => none

def isPadded (text : Text) : Bool :=
  text.head? = some '0' && 1 < text.length && text.all isDigit

def splitSign : Text → Bool × Text
  | '-' :: rest => (true, rest)
  | '+' :: rest => (false, rest)
  | text => (false, text)

def negateIf (negative : Bool) (n : Nat) : Int :=
  if negative then -n else n

def int64? (text : Text) : Option Int := do
  let (negative, digits) := splitSign text
  let z := negateIf negative (← natural? digits)
  if -(Nat.pow 2 63 : Int) ≤ z ∧ z < Nat.pow 2 63 then some z else none

/-- An integer of any size: an optional sign, then a digit, then digits and `_` between which nothing is meant. A
minus is not followed by a plus. -/
def integer? (text : Text) : Option Int := do
  let (negative, digits) := splitSign text
  if digits.head? = some '_' then none
  negateIf negative <$> natural? (digits.filter (· ≠ '_'))

/-- The value of a row of digits times a power of ten. Far outside the range of the format the answer is known
without the power. -/
def scale (negative : Bool) (digits : List Char) (exponent : Int) : Float :=
  let significant := digits.dropWhile (· = '0')
  let magnitude := exponent + significant.length
  if significant = [] ∨ magnitude < -400 then Binary64.nearest negative 0 1
  else if 400 < magnitude then Binary64.infinity negative
  else Binary64.nearest negative (ofDigits significant * Nat.pow 10 exponent.toNat) (Nat.pow 10 (-exponent).toNat)

def exponent? : Text → Option Int
  | [] => some 0
  | e :: rest =>
    if e = 'e' ∨ e = 'E' then
      let (negative, digits) := splitSign rest
      negateIf negative <$> natural? digits
    else none

/-- An unsigned float: digits with an optional point, at least one of them, and an optional exponent; or the name
of what is not finite, in any case. -/
def unsignedFloat? (negative : Bool) (text : Text) : Option Float :=
  let name := text.map Char.toLower
  if name = "inf".toList ∨ name = "infinity".toList then some (Binary64.infinity negative)
  else if name = "nan".toList then some Binary64.nan
  else
    let whole := text.takeWhile isDigit
    let rest := text.dropWhile isDigit
    let (fraction, rest) := match rest with
      | '.' :: rest => (rest.takeWhile isDigit, rest.dropWhile isDigit)
      | rest => ([], rest)
    if whole ++ fraction = [] then none
    else (exponent? rest).map fun e => scale negative (whole ++ fraction) (e - fraction.length)

def float? (text : Text) : Option Float :=
  let (negative, rest) := splitSign text
  unsignedFloat? negative rest

end FurthestMatch.Numeral
