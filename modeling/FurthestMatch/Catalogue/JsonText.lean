import FurthestMatch.Grammar.Leaf

/-!
# JSON texts

The grammar of JSON values: strings as they are written, numbers with an optional exponent, objects, arrays and
the three words, with blanks inside the brackets and around separators.
-/

namespace FurthestMatch.JsonText

def pairOf (parts : Value) : Value :=
  .list [parts.nth 0, parts.nth 2]

def objectOf (parts : Value) : Value :=
  Value.ofPairs (parts.nth 1).items

def separator : Recipe :=
  .knownPattern r"\s*,\s*"

def pair (value : NodeId) : Recipe :=
  .map (.sequence [Leaf.doubleQuoted.recipe, .knownPattern r"\s*:\s*", .node value]) pairOf

def object (pair separator : NodeId) : Recipe :=
  .named (.map (.sequence [.knownPattern "\\\x7b\\s*", .sepBy pair separator 0 false,
    .sequence [Leaf.whitespaceOpt.recipe, .literal "\x7d"]]) objectOf) "Object"

def array (value separator : NodeId) : Recipe :=
  .named (.map (.sequence [.knownPattern r"\[\s*", .sepBy value separator 0 false, .knownPattern r"\s*\]"])
    (·.nth 1)) "Array"

def json (value separator pair : NodeId) : Recipe :=
  .named (.choice [Leaf.doubleQuoted.recipe, Leaf.exponential.recipe, object pair separator, array value separator,
    .map (.literal "true") fun _ => .bool true,
    .map (.literal "false") fun _ => .bool false,
    .map (.literal "null") fun _ => .null]) "Json"

def grammar : Graph.Planting NodeId :=
  Graph.growRec fun value => do
    let separator ← Graph.grow separator
    let pair ← Graph.grow (pair value)
    Graph.grow (json value separator pair)

end FurthestMatch.JsonText
