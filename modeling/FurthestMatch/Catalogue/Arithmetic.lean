import FurthestMatch.Grammar.Leaf

/-!
# Arithmetic

Expressions of numbers, parentheses and five binary operators. The grammar yields a row of numbers and operator
symbols, and the row is reduced with a stack of numbers and a stack of operators: an operator waits until one
comes that does not bind more tightly.
-/

namespace FurthestMatch.Arithmetic

inductive Operator where
  | power
  | times
  | divide
  | plus
  | minus
deriving DecidableEq, Repr

namespace Operator

def all : List Operator :=
  [.power, .times, .divide, .plus, .minus]

def symbol : Operator → String
  | .power => "^"
  | .times => "*"
  | .divide => "/"
  | .plus => "+"
  | .minus => "-"

def precedence : Operator → Nat
  | .power => 20
  | .times | .divide => 10
  | .plus | .minus => 0

def isRightAssociative : Operator → Bool
  | .power => true
  | _ => false

def ofSymbol? (symbol : String) : Option Operator :=
  all.find? (·.symbol == symbol)

def apply : Operator → Float → Float → Float
  | .power, a, b => Float.pow a b
  | .times, a, b => a * b
  | .divide, a, b => a / b
  | .plus, a, b => a + b
  | .minus, a, b => a - b

/-- Whether an operator on the stack is applied before the next one is put there. -/
def precedes (top next : Operator) : Bool :=
  next.precedence < top.precedence || (top.precedence == next.precedence && !next.isRightAssociative)

end Operator

inductive Entry (α : Type) where
  | number (n : α)
  | operator (op : Operator)
deriving DecidableEq, Repr

structure Stacks (α : Type) where
  numbers : List α
  operators : List Operator
deriving DecidableEq, Repr

namespace Stacks

variable {α : Type}

/-- The numbers after an operator is applied to the two latest; fewer than two are lost. -/
def applyTo (apply : Operator → α → α → α) (op : Operator) : List α → List α
  | b :: a :: numbers => apply op a b :: numbers
  | _ => []

def settle (apply : Operator → α → α → α) (next : Operator) : List Operator → List α → Stacks α
  | [], numbers => ⟨numbers, []⟩
  | top :: operators, numbers =>
    if top.precedes next then settle apply next operators (applyTo apply top numbers)
    else ⟨numbers, top :: operators⟩

def push (apply : Operator → α → α → α) (s : Stacks α) : Entry α → Stacks α
  | .number n => { s with numbers := n :: s.numbers }
  | .operator op =>
    let s := settle apply op s.operators s.numbers
    { s with operators := op :: s.operators }

def finish? (apply : Operator → α → α → α) (s : Stacks α) : Option α :=
  (s.operators.foldl (fun numbers op => applyTo apply op numbers) s.numbers).head?

end Stacks

def reduce? {α : Type} (apply : Operator → α → α → α) (entries : List (Entry α)) : Option α :=
  (entries.foldl (Stacks.push apply) ⟨[], []⟩).finish? apply

/-- A value as an entry: a number, or the symbol of an operator. Any other value is none. -/
def entry? (v : Value) : Option (Entry Float) :=
  match v.float? with
  | some x => some (.number x)
  | none => (v.text?.bind Operator.ofSymbol?).map .operator

def evaluate (entries : List Value) : Value :=
  ((reduce? Operator.apply (entries.filterMap entry?)).map Value.float).getD .null

def flatten (lists : Value) : Value :=
  .list (lists.items.flatMap Value.items)

def rowValue (entries : Value) : Value :=
  evaluate entries.items

def space : Recipe :=
  Leaf.whitespaceOpt.recipe

def number : Recipe :=
  .map Leaf.number.recipe fun n => .list [n]

def group (inner : NodeId) : Recipe :=
  .map (.sequence [.literal "(", space, .node inner, space, .literal ")"])
    fun parts => .list [rowValue (parts.nth 2)]

def term (inner : NodeId) : Recipe :=
  .choice [number, group inner]

def operator : Recipe :=
  .choice (Operator.all.map fun op => .literal op.symbol)

def operation (inner : NodeId) : Recipe :=
  .map (.sequence [space, operator, space, .node inner]) fun parts => .list (parts.nth 1 :: (parts.nth 3).items)

def row (inner term : NodeId) : Recipe :=
  .choice [.map (.sequence [.node term, .map ((operation inner).atLeast 1) flatten]) flatten, .node term]

def fragment : Graph.Planting NodeId :=
  Graph.growRec fun inner => do
    let term ← Graph.grow (term inner)
    Graph.grow (row inner term)

def grammar : Graph.Planting NodeId := do
  let row ← fragment
  Graph.grow (.map (.node row) rowValue)

end FurthestMatch.Arithmetic
