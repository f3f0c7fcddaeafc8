import FurthestMatch.Grammar.Node
import FurthestMatch.Value.Document

/-!
# Recipes

A recipe describes new nodes on top of the nodes of a graph. It is how grammars are written down, and what a
continuation answers while a text is read.
-/

namespace FurthestMatch

/-- A description of new nodes. Every constructor but `node` stands for a node of its own. A recipe is a tree: it has no
reference for a part to come back to the whole. Rules that refer to themselves are planted by `Graph.growRec`, and what
a continuation answers can refer to them by their numbers, but cannot describe new ones. -/
inductive Recipe where
  /-- A node that is there already. -/
  | node (id : NodeId)
  | literal (text : String)
  | pattern (leaf : Pattern)
  | always
  | never
  | sequence (items : List Recipe)
  | choice (options : List Recipe)
  | times (child : Recipe) (least : Nat) (most : Option Nat)
  | map (child : Recipe) (mapper : Value → Value)
  /-- A map by a mapper that is there already. -/
  | mapBy (child : Recipe) (mapper : MapperId)
  /-- The continuation is given the value of the child's match, the whole text, and the place after the match. -/
  | chain (child : Recipe) (next : Value → Text → Cursor → Recipe)
  /-- A chain by a continuation that is there already. -/
  | chainBy (child : Recipe) (next : ContinuationId)
  | look (child : Recipe) (polarity : Polarity)
  | named (child : Recipe) (label : String)

abbrev Continuation := Value → Text → Cursor → Recipe

namespace Recipe

def lookaround (child : Recipe) (kind : Lookaround) : Except BuildError Recipe := do
  return .look child (← kind.polarity)

def ofPattern (source : String) (capture : Capture) : Except BuildError Recipe :=
  match Pattern.ofSource source capture with
  | .ok leaf => .ok (.pattern leaf)
  | .error cause => .error (.invalidPattern source cause)

def knownPattern (source : String) : Recipe :=
  match ofPattern source .whole with
  | .ok recipe => recipe
  | .error _ => .never

def bounded (child : Recipe) (least : Nat) (most : Option Nat) : Except BuildError Recipe :=
  match most with
  | some m => if m < least then .error (.invalidBounds least m) else .ok (.times child least most)
  | none => .ok (.times child least none)

def many (child : Recipe) : Recipe :=
  .times child 0 none

def atLeast (child : Recipe) (least : Nat) : Recipe :=
  .times child least none

def atMost (child : Recipe) (most : Nat) : Recipe :=
  .times child 0 (some most)

def opt (child : Recipe) : Recipe :=
  .choice [child, .always]

def assert (child : Recipe) (accepts : Value → Bool) : Recipe :=
  .chain child fun value _ _ => if accepts value then .map .always fun _ => value else .never

def join (child : Recipe) : Recipe :=
  .map child Value.join

def gather (pair : Value) : Value :=
  match pair.items with
  | [] => .list [.null]
  | [first] => .list [first]
  | first :: rest :: _ => .list (first :: rest.items)

/-- The item, and then separators each with one more item: at least `least` items in all, or one. With `trailing`
one more separator may end the row; with a least number of zero there may be no item. -/
def sepBy (item separator : NodeId) (least : Nat) (trailing : Bool) : Recipe :=
  let rest := atLeast (.map (.sequence [.node separator, .node item]) (·.nth 1)) (max least 1 - 1)
  let row := Recipe.map (.sequence [.node item, rest]) gather
  let row := if trailing then .map (.sequence [row, opt (.node separator)]) (·.nth 0) else row
  if least = 0 then .choice [row, .map .always fun _ => .list []] else row

def before (child space : Recipe) : Recipe :=
  .map (.sequence [child, space]) (·.nth 0)

end Recipe

end FurthestMatch
