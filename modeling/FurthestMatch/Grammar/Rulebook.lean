import FurthestMatch.Grammar.Graph
import FurthestMatch.Grammar.Walk

/-!
# Rulebooks

A rulebook holds a graph, names for some of its nodes, and what its references are tied to. A reference is tied
when it is first followed, to the node that has the name at that time, and keeps that node for good; naming
another node later does not change it.
-/

namespace FurthestMatch

/-- A graph with named nodes and tied references. Of several entries for a name or reference the first counts. -/
structure Rulebook where
  graph : Graph := {}
  rules : List (String × NodeId) := []
  tied : List (NodeId × NodeId) := []

namespace Rulebook

def node (b : Rulebook) (id : NodeId) : Node :=
  b.graph.node id

def rule? (b : Rulebook) (name : String) : Option NodeId :=
  b.rules.lookup name

def define (b : Rulebook) (name : String) (id : NodeId) : Rulebook :=
  { b with rules := (name, id) :: b.rules }

def plant (b : Rulebook) (recipe : Recipe) : NodeId × Rulebook :=
  let (id, graph) := b.graph.plant recipe
  (id, { b with graph })

/-- Whether a reference is tied; `none` for a node that is no reference. -/
def isTied? (b : Rulebook) (id : NodeId) : Option Bool :=
  match b.node id with
  | .deferred _ => some (b.tied.lookup id).isSome
  | _ => none

def lookTarget (b : Rulebook) : Target → NodeId
  | .rule name absent => (b.rule? name).getD absent
  | .node id => id

/-- The node that a reference stands for: the one it is tied to, or else the one it would be tied to now. -/
def target (b : Rulebook) (id : NodeId) (target : Target) : NodeId :=
  (b.tied.lookup id).getD (b.lookTarget target)

def tie (b : Rulebook) (id : NodeId) : Rulebook :=
  match b.node id, b.tied.lookup id with
  | .deferred target, none => { b with tied := (id, b.lookTarget target) :: b.tied }
  | _, _ => b

def settle {α : Type} (b : Rulebook) (w : Walk α) : Except Halt α × Rulebook :=
  (w.result, w.followed.foldl tie b)

def resolveFrom (b : Rulebook) : (fuel : Nat) → NodeId → Walk NodeId
  | 0, _ => .halt .exhausted
  | fuel + 1, id => match b.node id with
    | .named child _ => b.resolveFrom fuel child
    | .deferred target => do
      .follow id
      b.resolveFrom fuel (b.target id target)
    | _ => pure id

/-- The node that is matched where a node stands: the first below it that is no name or reference. -/
def resolve (b : Rulebook) (id : NodeId) : Walk NodeId :=
  b.resolveFrom (b.graph.size + 1) id

def dereferenceFrom (b : Rulebook) : (fuel : Nat) → NodeId → Walk NodeId
  | 0, _ => .halt .exhausted
  | fuel + 1, id => match b.node id with
    | .deferred target => do
      .follow id
      b.dereferenceFrom fuel (b.target id target)
    | _ => pure id

def dereference (b : Rulebook) (id : NodeId) : Walk NodeId :=
  b.dereferenceFrom (b.graph.size + 1) id

end Rulebook

end FurthestMatch
