import FurthestMatch.Decimal.Notation
import FurthestMatch.Text.Quoted
import FurthestMatch.Value

/-!
# Values as JSON documents

A value has two written forms. `Value.display` goes through the document that stands for the value and writes it
on one line; `Value.pretty` writes the value directly, an item or field a line. In both a big integer is a string
of digits and a float that is not finite is `null`.
-/

namespace FurthestMatch

inductive Document where
  | null
  | bool (b : Bool)
  | int (n : Int)
  | float (x : Float)
  | str (s : String)
  | array (items : List Document)
  | object (fields : List (String × Document))

def integerText (n : Int) : Text :=
  if n < 0 then '-' :: Nat.toDigits 10 n.natAbs else Nat.toDigits 10 n.natAbs

namespace Document

mutual
def compact : Document → Text
  | .null => "null".toList
  | .bool true => "true".toList
  | .bool false => "false".toList
  | .int n => integerText n
  | .float x => Decimal.documentNotation.write x
  | .str s => Quoted.document s.toList
  | .array [] => "[]".toList
  | .array (item :: items) => '[' :: compact item ++ compactItems items
  | .object [] => ['\x7b', '\x7d']
  | .object ((key, value) :: fields) =>
    '\x7b' :: Quoted.document key.toList ++ ':' :: compact value ++ compactFields fields

def compactItems : List Document → Text
  | [] => [']']
  | item :: items => ',' :: compact item ++ compactItems items

def compactFields : List (String × Document) → Text
  | [] => ['\x7d']
  | (key, value) :: fields => ',' :: Quoted.document key.toList ++ ':' :: compact value ++ compactFields fields
end

end Document

namespace Value

def isFinite (x : Float) : Bool :=
  match Binary64.decode x with
  | .finite .. => true
  | _ => false

mutual
def toDocument : Value → Document
  | .null => .null
  | .bool b => .bool b
  | .int n => .int n
  | .float x => if isFinite x then .float x else .null
  | .bigInt n => .str (String.ofList (integerText n))
  | .str s => .str s
  | .list items => .array (toDocuments items)
  | .object fields => .object (toDocumentFields fields)

def toDocuments : List Value → List Document
  | [] => []
  | v :: vs => toDocument v :: toDocuments vs

def toDocumentFields : List (String × Value) → List (String × Document)
  | [] => []
  | (key, v) :: fields => (key, toDocument v) :: toDocumentFields fields
end

def display (v : Value) : Text :=
  match v with
  | .bigInt n => integerText n
  | v => v.toDocument.compact

def lineBreak (level : Nat) : Text :=
  '\n' :: List.replicate (2 * level) ' '

mutual
def prettyAt (level : Nat) : Value → Text
  | .null => "null".toList
  | .bool true => "true".toList
  | .bool false => "false".toList
  | .int n => integerText n
  | .float x => Decimal.documentNotation.write x
  | .bigInt n => Quoted.document (integerText n)
  | .str s => Quoted.document s.toList
  | .list [] => "[]".toList
  | .list (item :: items) =>
    '[' :: lineBreak (level + 1) ++ prettyAt (level + 1) item ++ prettyItems level items
  | .object [] => ['\x7b', '\x7d']
  | .object ((key, value) :: fields) =>
    '\x7b' :: lineBreak (level + 1) ++ Quoted.document key.toList ++ ':' :: ' ' :: prettyAt (level + 1) value ++
      prettyFields level fields

def prettyItems (level : Nat) : List Value → Text
  | [] => lineBreak level ++ [']']
  | item :: items => ',' :: lineBreak (level + 1) ++ prettyAt (level + 1) item ++ prettyItems level items

def prettyFields (level : Nat) : List (String × Value) → Text
  | [] => lineBreak level ++ ['\x7d']
  | (key, value) :: fields =>
    ',' :: lineBreak (level + 1) ++ Quoted.document key.toList ++ ':' :: ' ' :: prettyAt (level + 1) value ++
      prettyFields level fields
end

def pretty (v : Value) : Text :=
  prettyAt 0 v

/-- A list joined to one text, item by item at every depth; any other value is left as it is. -/
def join : Value → Value
  | .list items => .str (String.ofList (joinItems items))
  | v => v
where
  /-- The text of an item: its joined text, or how it is displayed. -/
  joinItem : Value → Text
    | .list items => joinItems items
    | .str s => s.toList
    | v => v.display
  joinItems : List Value → Text
    | [] => []
    | v :: vs => joinItem v ++ joinItems vs

end Value

end FurthestMatch
