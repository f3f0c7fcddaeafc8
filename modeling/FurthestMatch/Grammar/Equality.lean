import FurthestMatch.Grammar.Occurrence

/-!
# Equality of grammars

Two nodes are equal when they would match alike: the same kind and data, and children pairwise equal. Mappers and
continuations are equal when they are the same. A pair of nodes that is being compared, or has been, counts as
equal from then on, so that recursive rules can be compared.
-/

namespace FurthestMatch

namespace Rulebook

abbrev Assumed := List (NodeId × NodeId)

abbrev Comparison := Assumed → NodeId → NodeId → Walk (Bool × Assumed)

def compareAll (compare : Comparison) : Assumed → List NodeId → List NodeId → Walk (Bool × Assumed)
  | assumed, [], [] => pure (true, assumed)
  | assumed, a :: as, b :: bs => do
    match ← compare assumed a b with
    | (true, assumed) => compareAll compare assumed as bs
    | (false, assumed) => return (false, assumed)
  | assumed, _, _ => pure (false, assumed)

def compareNodes (r : Rulebook) (compare : Comparison) (assumed : Assumed) (a b : NodeId) :
    Walk (Bool × Assumed) :=
  match r.node a, r.node b with
  | .literal s, .literal t => pure (s == t, assumed)
  | .pattern p, .pattern q => pure (p.source == q.source && p.capture == q.capture, assumed)
  | .always, .always | .never, .never => pure (true, assumed)
  | .sequence as, .sequence bs | .choice as, .choice bs =>
    if as.length = bs.length then compareAll compare assumed as bs else pure (false, assumed)
  | .times c least most, .times d least' most' =>
    if least = least' ∧ most = most' then compare assumed c d else pure (false, assumed)
  | .map c m, .map d m' => if m = m' then compare assumed c d else pure (false, assumed)
  | .chain c k, .chain d k' => if k = k' then compare assumed c d else pure (false, assumed)
  | .look c p, .look d q => if p = q then compare assumed c d else pure (false, assumed)
  | .deferred s, .deferred t => do
    .follow a
    .follow b
    compare assumed (r.target a s) (r.target b t)
  | .named c x, .named d y => if x = y then compare assumed c d else pure (false, assumed)
  | _, _ => pure (false, assumed)

/-- The node that is compared in place of another: a strict comparison takes names and references as they are, any
other looks through them. -/
def taken (r : Rulebook) (strict : Bool) (id : NodeId) : Walk NodeId :=
  if strict then pure id else r.resolve id

def compare (r : Rulebook) (strict : Bool) : (fuel : Nat) → Comparison
  | 0, _, _, _ => .halt .exhausted
  | fuel + 1, assumed, a, b => do
    let a ← r.taken strict a
    let b ← r.taken strict b
    if a = b ∨ (a, b) ∈ assumed then return (true, assumed)
    -- the pair is assumed while its children are compared, and stays so
    else r.compareNodes (r.compare strict fuel) ((a, b) :: assumed) a b

def equalWithin (r : Rulebook) (depth : Nat) (strict : Bool) (a b : NodeId) : Walk Bool := do
  return (← r.compare strict depth [] a b).1

/-- Whether two grammars are equal. A comparison is never nested deeper than there are pairs of nodes. -/
def equal (r : Rulebook) (strict : Bool) (a b : NodeId) : Walk Bool :=
  r.equalWithin (r.graph.size * r.graph.size + 1) strict a b

end Rulebook

end FurthestMatch
