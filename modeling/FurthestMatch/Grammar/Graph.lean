import FurthestMatch.Grammar.Recipe

/-!
# Graphs

The nodes of all grammars stand in one graph, which only grows: a node once planted keeps its number and its
children. Mappers and continuations are kept beside the nodes, so that nodes can be compared.
-/

namespace FurthestMatch

structure Graph where
  nodes : Array Node := #[]
  mappers : Array (Value → Value) := #[]
  continuations : Array Continuation := #[]

namespace Graph

def size (g : Graph) : Nat :=
  g.nodes.size

/-- The node with a number; a number without a node matches nothing. -/
def node (g : Graph) (id : NodeId) : Node :=
  g.nodes[id]?.getD .never

def mapper (g : Graph) (id : MapperId) : Value → Value :=
  g.mappers[id]?.getD fun v => v

def continuation (g : Graph) (id : ContinuationId) : Continuation :=
  g.continuations[id]?.getD fun _ _ _ => .never

def add (g : Graph) (node : Node) : NodeId × Graph :=
  (g.nodes.size, { g with nodes := g.nodes.push node })

def addMapper (g : Graph) (mapper : Value → Value) : MapperId × Graph :=
  (g.mappers.size, { g with mappers := g.mappers.push mapper })

def addContinuation (g : Graph) (next : Continuation) : ContinuationId × Graph :=
  (g.continuations.size, { g with continuations := g.continuations.push next })

mutual
def plant (g : Graph) : Recipe → NodeId × Graph
  | .node id => (id, g)
  | .literal text => g.add (.literal text)
  | .pattern leaf => g.add (.pattern leaf)
  | .always => g.add .always
  | .never => g.add .never
  | .sequence items => let (ids, g) := plantAll g items; g.add (.sequence ids)
  | .choice options => let (ids, g) := plantAll g options; g.add (.choice ids)
  | .times child least most => let (id, g) := plant g child; g.add (.times id least most)
  | .map child mapper =>
    let (id, g) := plant g child
    let (m, g) := g.addMapper mapper
    g.add (.map id m)
  | .mapBy child mapper => let (id, g) := plant g child; g.add (.map id mapper)
  | .chain child next =>
    let (id, g) := plant g child
    let (k, g) := g.addContinuation next
    g.add (.chain id k)
  | .chainBy child next => let (id, g) := plant g child; g.add (.chain id next)
  | .look child polarity => let (id, g) := plant g child; g.add (.look id polarity)
  | .named child label => let (id, g) := plant g child; g.add (.named id label)

def plantAll (g : Graph) : List Recipe → List NodeId × Graph
  | [] => ([], g)
  | r :: rs =>
    let (id, g) := plant g r
    let (ids, g) := plantAll g rs
    (id :: ids, g)
end

/-- A reference to the rule with a name, with a node of its own for when there is no such rule. -/
def refer (g : Graph) (name : String) : NodeId × Graph :=
  let (absent, g) := g.add .never
  g.add (.deferred (.rule name absent))

abbrev Planting := StateM Graph

def grow (recipe : Recipe) : Planting NodeId := fun g =>
  g.plant recipe

/-- A recursive rule: what builds it is given a reference to the node that it builds. -/
def growRec (rule : NodeId → Planting NodeId) : Planting NodeId := fun g =>
  -- a reference to itself until the rule is there
  let (self, g) := g.add (.deferred (.node g.nodes.size))
  let (id, g) := rule self g
  (id, { g with nodes := g.nodes.setIfInBounds self (.deferred (.node id)) })

end Graph

end FurthestMatch
