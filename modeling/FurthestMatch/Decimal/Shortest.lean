import FurthestMatch.Decimal.Binary64

/-!
# The fewest digits that read back

A binary number is the nearest one for an interval of reals around it. Among the decimals in that interval
`shortest` takes one with the fewest digits, of these the nearest to the number, of two equally near the even one.
The search goes from one digit to seventeen, and on each grid of decimals only the two neighbours of the number
can be nearest.
-/

namespace FurthestMatch.Decimal

/-- A positive decimal: a natural without trailing zeros, times a power of ten. -/
structure Digits where
  digits : Nat
  exponent : Int
deriving DecidableEq, Repr

namespace Digits

def chars (d : Digits) : List Char :=
  Nat.toDigits 10 d.digits

/-- The power of ten that bounds the decimal from above: `0.d₁d₂…` times ten to this power. -/
def point (d : Digits) : Int :=
  d.exponent + d.chars.length

def normalize : (fuel digits : Nat) → (exponent : Int) → Digits
  | 0, digits, exponent => ⟨digits, exponent⟩
  | fuel + 1, digits, exponent =>
    if digits ≠ 0 ∧ digits % 10 = 0 then normalize fuel (digits / 10) (exponent + 1) else ⟨digits, exponent⟩

end Digits

def liftToOne (num den : Nat) : (fuel start : Nat) → Nat
  | 0, j => j
  | fuel + 1, j => if den ≤ num * Nat.pow 10 j then j else liftToOne num den fuel (j + 1)

def leadingExponent (num den : Nat) : Int :=
  if den ≤ num then (Nat.toDigits 10 (num / den)).length - 1
  else -(liftToOne num den 400 1)

/-- The reals that round to one binary number: the number `value`, the ends, all over `den`, and whether the
ends belong to it. -/
structure Interval where
  low : Nat
  value : Nat
  high : Nat
  den : Nat
  closed : Bool

/-- The interval of `mantissa * 2 ^ exponent`: half a unit to either side, a quarter below a power of two. -/
def Interval.around (mantissa : Nat) (exponent : Int) : Interval :=
  let scale := Nat.pow 2 (exponent - 2).toNat
  -- in quarters of a unit, so that all ends are naturals
  let below := if mantissa = Nat.pow 2 52 ∧ -1074 < exponent then 1 else 2
  { low := (4 * mantissa - below) * scale
    value := 4 * mantissa * scale
    high := (4 * mantissa + 2) * scale
    den := Nat.pow 2 (2 - exponent).toNat
    closed := mantissa % 2 = 0 }

def Interval.onGrid? (i : Interval) (exponent : Int) : Option Nat :=
  let up := Nat.pow 10 (-exponent).toNat
  let unit := i.den * Nat.pow 10 exponent.toNat
  let inside (n : Nat) : Bool :=
    if i.closed then i.low * up ≤ n * unit && n * unit ≤ i.high * up
    else i.low * up < n * unit && n * unit < i.high * up
  let n := i.value * up / unit
  let short := i.value * up - n * unit
  let long := (n + 1) * unit - i.value * up
  -- no other number of the grid can be nearer to the value
  match inside n && n != 0, inside (n + 1) with
  | true, true => some (if short < long then n else if long < short then n + 1 else n + n % 2)
  | true, false => some n
  | false, true => some (n + 1)
  | false, false => none

def Interval.search (i : Interval) : (fuel : Nat) → (exponent : Int) → Digits
  | 0, exponent => ⟨i.value / i.den, exponent⟩
  | fuel + 1, exponent =>
    match i.onGrid? exponent with
    | some n => Digits.normalize 20 n exponent
    | none => i.search fuel (exponent - 1)

def shortest (mantissa : Nat) (exponent : Int) : Digits :=
  let i := Interval.around mantissa exponent
  i.search 18 (leadingExponent i.value i.den)

end FurthestMatch.Decimal
