import FurthestMatch.Decimal.Binary64
import FurthestMatch.Text.Cursor

/-!
# Values

What a match yields: text, a number, or a list or object of values. Leaves yield text or numbers, sequences and
repetitions yield lists, and mappers may build anything else.
-/

namespace FurthestMatch

/-- A value. An `int` is meant to fit in sixty-four bits; a `bigInt` has any size. The fields of an object stand in
increasing order of their keys, each key once. -/
inductive Value where
  | null
  | bool (b : Bool)
  | int (n : Int)
  | float (x : Float)
  | bigInt (n : Int)
  | str (s : String)
  | list (items : List Value)
  | object (fields : List (String × Value))
deriving Inhabited

namespace Value

def empty : Value :=
  .str ""

def text? : Value → Option String
  | .str s => some s
  | _ => none

def list? : Value → Option (List Value)
  | .list items => some items
  | _ => none

def fields? : Value → Option (List (String × Value))
  | .object fields => some fields
  | _ => none

def float? : Value → Option Float
  | .float x => some x
  | .int n => some (Binary64.ofInt n)
  | _ => none

def int? : Value → Option Int
  | .int n => some n
  | _ => none

def items : Value → List Value
  | .list items => items
  | v => [v]

def nth (v : Value) (index : Nat) : Value :=
  match v with
  | .list items => items[index]?.getD .null
  | _ => .null

def insertField (key : String) (value : Value) : List (String × Value) → List (String × Value)
  | [] => [(key, value)]
  | (k, v) :: rest =>
    if key < k then (key, value) :: (k, v) :: rest
    else if key = k then (key, value) :: rest
    else (k, v) :: insertField key value rest

/-- The object with the given fields; of fields with one key the last counts. -/
def ofFields (fields : List (String × Value)) : Value :=
  .object (fields.foldl (fun acc (k, v) => insertField k v acc) [])

/-- The object of a list of pairs; a pair whose first item is not a string is left out. -/
def ofPairs (pairs : List Value) : Value :=
  ofFields (pairs.filterMap fun pair => (pair.nth 0).text?.map fun key => (key, pair.nth 1))

mutual
/-- Equality by kind and content. Floats compare as numbers: no NaN equals itself, and the two zeros are equal. -/
def equal : Value → Value → Bool
  | .null, .null => true
  | .bool a, .bool b => a == b
  | .int a, .int b => a == b
  | .float a, .float b => a == b
  | .bigInt a, .bigInt b => a == b
  | .str a, .str b => a == b
  | .list a, .list b => equalItems a b
  | .object a, .object b => equalFields a b
  | _, _ => false

def equalItems : List Value → List Value → Bool
  | [], [] => true
  | a :: as, b :: bs => equal a b && equalItems as bs
  | _, _ => false

def equalFields : List (String × Value) → List (String × Value) → Bool
  | [], [] => true
  | (k, a) :: as, (l, b) :: bs => k == l && equal a b && equalFields as bs
  | _, _ => false
end

end Value

end FurthestMatch
