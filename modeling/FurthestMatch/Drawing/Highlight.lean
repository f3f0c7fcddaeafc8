import FurthestMatch.Grammar.Occurrence

/-!
# Highlighted occurrences

What is framed in a drawing is a node, wherever it stands, or one occurrence that a match came upon. A match
descends into a recursive rule again and again where a drawing shows it once, so the steps of the match are folded
first: when a node stands in them more than once, the steps from its inner place to its outermost are left out.
The drawn steps are then compared with the folded ones from the innermost outwards. They may differ in up to two
steps of single-child nodes at a time.
-/

namespace FurthestMatch

inductive Highlight where
  | node (id : NodeId)
  | path (path : Path)
deriving DecidableEq, Repr

def lastAt? (id : NodeId) : List Step → Option (Step × List Step)
  | [] => none
  | step :: outside => (lastAt? id outside).orElse fun _ => if step.node = id then some (step, outside) else none

theorem length_of_lastAt? {id : NodeId} {steps : List Step} {found : Step × List Step}
    (h : lastAt? id steps = some found) : found.2.length < steps.length := by
  induction steps with
  | nil => simp [lastAt?] at h
  | cons step outside ih =>
    simp only [lastAt?] at h
    cases hl : lastAt? id outside with
    | some f =>
      simp only [hl, Option.orElse_some, Option.some.injEq] at h
      have := ih (hl.trans (congrArg some h))
      simp only [List.length_cons]
      omega
    | none =>
      simp only [hl, Option.orElse_none] at h
      split at h
      · cases h
        simp
      · cases h

/-- Steps, innermost first, without those between two places of a node. The outermost place is kept. -/
def foldRecursion : List Step → List Step
  | [] => []
  | step :: outside =>
    match h : lastAt? step.node outside with
    | some found =>
      have := length_of_lastAt? h
      found.1 :: foldRecursion found.2
    | none => step :: foldRecursion outside
termination_by steps => steps.length
decreasing_by all_goals simp only [List.length_cons]; omega

namespace Rulebook

/-- Whether the first drawn step agrees with the first step of a match. The outermost drawn step agrees when the
nodes do: where a rule is drawn on its own its slot is not known. -/
def aligned : (drawn reached : List Step) → Bool
  | [d], r :: _ => d.node == r.node
  | d :: _, r :: _ => d == r
  | _, _ => false

/-- Steps without `count` first ones of single-child nodes, when the last of them fills the given slot and steps
are left. -/
def skipWrappers? (b : Rulebook) (slot : Nat) : (count : Nat) → List Step → Option (List Step)
  | 0, _ => none
  | 1, s :: s' :: outside =>
    if (b.node s.node).wrapped?.isSome ∧ s.slot = slot then some (s' :: outside) else none
  | count + 1, s :: outside =>
    if (b.node s.node).wrapped?.isSome then skipWrappers? b slot count outside else none
  | _, [] => none

/-- Both rows of steps after the least number of steps skipped on one side that makes them agree again. The steps
just inside are `inDrawn` and `inReached`. -/
def realign? (b : Rulebook) (inDrawn inReached : Step) (drawn reached : List Step) :
    Option (List Step × List Step) :=
  let skipDrawn (count : Nat) := (b.skipWrappers? inReached.slot count drawn).map fun d => (d, reached)
  let skipReached (count : Nat) := (b.skipWrappers? inDrawn.slot count reached).map fun r => (drawn, r)
  [some (drawn, reached), skipDrawn 1, skipReached 1, skipDrawn 2, skipReached 2].findSome? fun
    | some (d, r) => if aligned d r then some (d, r) else none
    | none => none

def agree (b : Rulebook) : (fuel : Nat) → (inDrawn inReached : Step) → (drawn reached : List Step) → Bool
  -- the steps of the match that are left lead out of the drawing
  | _, _, _, [], _ => true
  | _, _, _, _ :: _, [] => false
  | 0, _, _, _ :: _, _ :: _ => false
  | fuel + 1, inDrawn, inReached, drawn@(_ :: _), reached@(_ :: _) =>
    match b.realign? inDrawn inReached drawn reached with
    | some (d :: drawn, r :: reached) => b.agree fuel d r drawn reached
    | _ => false

/-- Whether a drawn occurrence is the one that the folded steps of a match stand for. The innermost steps have to
agree as they are, and every further step takes one drawn step at least. -/
def matchesOccurrence (b : Rulebook) (drawn reached : List Step) : Bool :=
  aligned drawn reached &&
    match drawn, reached with
    | d :: drawn, r :: reached => b.agree drawn.length d r drawn reached
    | _, _ => false

end Rulebook

inductive Spot where
  | node (id : NodeId)
  | occurrence (steps : List Step)
deriving DecidableEq, Repr

namespace Rulebook

def spot (b : Rulebook) : Highlight → Walk Spot
  | .node id => do return .node (← b.dereference id)
  | .path path => do return .occurrence (foldRecursion (← b.steps path))

def claims (b : Rulebook) (id : NodeId) (path : Path) : Spot → Walk Bool
  | .node target => pure (target == id)
  | .occurrence reached => do
    let drawn ← b.steps path
    return drawn.head?.any (·.node == id) && b.matchesOccurrence drawn reached

def claimsNamed (id : NodeId) : Spot → Bool
  | .node target => target == id
  | .occurrence _ => false

end Rulebook

end FurthestMatch
