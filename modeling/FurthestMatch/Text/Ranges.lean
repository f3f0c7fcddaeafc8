/-!
# Sets of characters as ranges

A property of characters is a list of inclusive ranges of code points in increasing order.
-/

namespace FurthestMatch

abbrev Ranges := List (Nat × Nat)

def Ranges.contains (ranges : Ranges) (n : Nat) : Bool :=
  ranges.any fun (low, high) => low ≤ n && n ≤ high

end FurthestMatch
