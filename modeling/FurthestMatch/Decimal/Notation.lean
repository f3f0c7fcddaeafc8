import FurthestMatch.Decimal.Shortest
import FurthestMatch.Text.Cursor

/-!
# Written numbers

A notation says which numbers are written with a plain point and how the others show their exponent. Three are
used: in documents, in block documents and in inspection.
-/

namespace FurthestMatch.Decimal

/-- How a float is written. A number `0.d₁d₂… * 10 ^ p` stands without an exponent when `p` is above `above` and at
most `most`. -/
structure Notation where
  above : Int
  most : Int
  plusSign : Bool
  nan : Text
  infinity : Text
  negativeInfinity : Text

namespace Notation

/-- Numbers without an exponent always show a digit on either side of the point. -/
def plain (digits : List Char) (point : Int) : List Char :=
  if point ≤ 0 then ['0', '.'] ++ List.replicate (-point).toNat '0' ++ digits
  else
    let whole := point.toNat
    if digits.length ≤ whole then digits ++ List.replicate (whole - digits.length) '0' ++ ['.', '0']
    else digits.take whole ++ ['.'] ++ digits.drop whole

def scientific (n : Notation) (digits : List Char) (point : Int) : List Char :=
  let exponent := point - 1
  let mantissa := match digits with
    | [] => []
    | [d] => [d]
    | d :: more => d :: '.' :: more
  let sign := if exponent < 0 then ['-'] else if n.plusSign then ['+'] else []
  mantissa ++ ['e'] ++ sign ++ Nat.toDigits 10 exponent.natAbs

def write (n : Notation) (x : Float) : List Char :=
  match Binary64.decode x with
  | .nan => n.nan
  | .infinite false => n.infinity
  | .infinite true => n.negativeInfinity
  | .finite negative mantissa exponent =>
    let body :=
      if mantissa = 0 then ['0', '.', '0']
      else
        let d := shortest mantissa exponent
        if n.above < d.point ∧ d.point ≤ n.most then plain d.chars d.point else n.scientific d.chars d.point
    if negative then '-' :: body else body

end Notation

def documentNotation : Notation where
  above := -5
  most := 16
  plusSign := true
  nan := "null".toList
  infinity := "null".toList
  negativeInfinity := "null".toList

def blockNotation : Notation where
  above := -5
  most := 16
  plusSign := false
  nan := ".nan".toList
  infinity := ".inf".toList
  negativeInfinity := "-.inf".toList

def inspectNotation : Notation where
  above := -4
  most := 16
  plusSign := false
  nan := "NaN".toList
  infinity := "inf".toList
  negativeInfinity := "-inf".toList

end FurthestMatch.Decimal
