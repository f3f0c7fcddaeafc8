import FurthestMatch.Drawing.Highlight
import FurthestMatch.Drawing.Outline

/-!
# Drawing a grammar

A grammar is drawn as a tree of lines. A rule that stands inside itself is drawn once and marked below; a name
becomes a frame; what is highlighted is framed under the label of the configuration. The walk over the grammar
answers an outline, and the outline is laid out.
-/

namespace FurthestMatch

def quoteLiteral (text : Text) : Text :=
  '"' :: text.flatMap (fun c => if c = '"' then ['\\', '"'] else if c = '\n' then ['\\', 'n'] else [c]) ++ ['"']

def countSuffix (least : Nat) (most : Option Nat) : Text :=
  match least, most with
  | 0, some 1 => ['?']
  | 0, none => ['*']
  | 1, none => ['+']
  | n, none => ['\x7b'] ++ Nat.toDigits 10 n ++ [',', '\x7d']
  | n, some m =>
    if n = m then ['\x7b'] ++ Nat.toDigits 10 n ++ ['\x7d']
    else ['\x7b'] ++ Nat.toDigits 10 n ++ [','] ++ Nat.toDigits 10 m ++ ['\x7d']

namespace Rulebook

variable (b : Rulebook)

def optional? (options : List NodeId) : Walk (Option NodeId) :=
  match options with
  | [first, second] => do
    return if b.node (← b.resolve second) = .always then some first else none
  | _ => pure none

def isBare (path : Path) (option : NodeId) : Walk Bool := do
  let below ← b.resolve option
  match b.node below with
  | .literal _ => pure true
  | _ => b.isEnclosed (path.child option 0) below

/-- How a node at an occurrence is laid out, and the children that are drawn inside it. Names and references have
no shape of their own and are drawn as what they stand for. -/
def shape (id : NodeId) (path : Path) : Walk (Shape × List NodeId) :=
  match b.node id with
  | .literal text => pure (.line (quoteLiteral text.toList), [])
  | .pattern leaf => pure (.line (match leaf.shownAs with
    | some name => name.toList
    | none => '/' :: leaf.source.toList ++ ['/']), [])
  | .always => pure (.line "<SUCCESS>".toList, [])
  | .never => pure (.line "<FAILURE>".toList, [])
  | .sequence items => pure (.sequence, items)
  | .choice options => do
    match ← b.optional? options with
    | some option => return (.optional (← b.isBare path option), [option])
    | none => return (.choice, options)
  | .times child least most => pure (.suffixed (countSuffix least most), [child])
  | .map child _ => pure (.suffixed " -> map<f()>".toList, [child])
  | .chain child _ => pure (.suffixed " => chained<f()>".toList, [child])
  | .look child polarity => pure (.look polarity, [child])
  | .deferred _ | .named .. => pure (.line [], [])

def isClaimed (id : NodeId) (path : Path) : Option Spot → Walk Bool
  | some spot => b.claims id path spot
  | none => pure false

/-- Whether a node is framed at an occurrence, and what is to be framed inside it. For a map that is to be framed
its child is, so that the mark of the map stays outside. -/
def framing (spot : Option Spot) (id : NodeId) (path : Path) : Walk (Bool × Option Spot) := do
  match ← b.isClaimed id path spot, b.node id with
  | false, _ => return (false, spot)
  | true, .map child _ => return (false, some (.node (← b.dereference child)))
  | true, _ => return (true, none)

def outlineAll (outline : NodeId → Path → Walk Outline) (path : Path) :
    (children : List NodeId) → (slot : Nat) → Walk (List Outline)
  | [], _ => pure []
  | child :: children, slot => do
    let first ← outline child (path.child child slot)
    return first :: (← outlineAll outline path children (slot + 1))

def outline : (fuel : Nat) → Option Spot → NodeId → Path → Walk Outline
  | 0, _, _, _ => .halt .exhausted
  | fuel + 1, spot, id, path => match b.node id with
    | .deferred target => do
      .follow id
      outline fuel spot (b.target id target) path
    | .named child label => do
      -- a name that is framed has nothing else framed in it
      let framed := spot.any (claimsNamed id)
      return .named path framed label.toList (← outline fuel (if framed then none else spot) child path)
    | _ => do
      if ← b.isEnclosed path id then return .marker path
      let (framed, inside) ← b.framing spot id path
      let (shape, children) ← b.shape id path
      return .node path framed shape (← outlineAll (outline fuel inside) path children 0)

/-- Deeper than any drawing: no node is drawn inside itself, and names and references lie between two nodes. -/
def drawLimit : Nat :=
  (b.graph.size + 2) * (b.graph.size + 2)

def spot? : Option Highlight → Walk (Option Spot)
  | some highlight => do return some (← b.spot highlight)
  | none => pure none

def sketchWithin (depth : Nat) (root : NodeId) (highlight : Option Highlight) : Walk Outline := do
  b.outline depth (← b.spot? highlight) root (Path.root root)

def sketch (root : NodeId) (highlight : Option Highlight) : Walk Outline :=
  b.sketchWithin b.drawLimit root highlight

/-- The drawing as a text. The indentation stands after every line break, and with `newline` one line break comes
first. -/
def render (config : Config) (root : NodeId) (indentation : Text) (newline : Bool) (highlight : Option Highlight) :
    Walk Text := do
  let text := ((← b.sketch root highlight).block config).toText indentation
  return if newline then '\n' :: indentation ++ text else text

end Rulebook

end FurthestMatch
