import FurthestMatch.Grammar.Rulebook

/-!
# Occurrences

An occurrence is a place of a node in a grammar: the node, the slot that it fills in its parent, and the parent's
own occurrence. A path lists these steps, innermost first. A node that fills two slots has two occurrences, and
so has one that is below two parents.
-/

namespace FurthestMatch

structure Step where
  node : NodeId
  slot : Nat
deriving DecidableEq, Repr

/-- The steps from an occurrence out to the root, which has slot zero. -/
abbrev Path := List Step

namespace Path

def root (id : NodeId) : Path :=
  [⟨id, 0⟩]

def child (parent : Path) (id : NodeId) (slot : Nat) : Path :=
  ⟨id, slot⟩ :: parent

end Path

namespace Rulebook

def inspectStep (b : Rulebook) (step : Step) : Text :=
  (b.node step.node).inspect ++ '[' :: Nat.toDigits 10 step.slot ++ [']']

def inspectPath (b : Rulebook) (path : Path) : Text :=
  (" <- ".toList).intercalate (path.map b.inspectStep)

def steps (b : Rulebook) : Path → Walk (List Step)
  | [] => pure []
  | step :: path => do
    let node ← b.resolve step.node
    return ⟨node, step.slot⟩ :: (← b.steps path)

def isMatchedAt (b : Rulebook) (id : NodeId) : Path → Walk Bool
  | [] => pure false
  | step :: path => do
    if (← b.resolve step.node) = id then return true
    b.isMatchedAt id path

/-- Whether a node is matched at an occurrence around the one of a path. -/
def isEnclosed (b : Rulebook) (path : Path) (id : NodeId) : Walk Bool :=
  b.isMatchedAt id path.tail

end Rulebook

end FurthestMatch
