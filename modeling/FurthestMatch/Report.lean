import FurthestMatch.Drawing.Tree
import FurthestMatch.Grammar.Evaluation
import FurthestMatch.Report.Excerpt
import FurthestMatch.Text.Position

/-!
# Parsing with reports

A grammar parses a text when it matches the whole of it. A parse that fails is reported at the furthest place that
any leaf reached: the text on one line, an excerpt around the place with a caret below it, and, when asked for, the
drawing of the grammar with the occurrence of that leaf in a frame.
-/

namespace FurthestMatch

structure Failure where
  message : Text
  /-- The furthest byte offset that a leaf reached. -/
  offset : Nat
  position : Position
deriving DecidableEq, Repr

namespace Failure

def textPart (config : Config) (text : Text) (offset : Nat) (position : Position) (collapsed : Collapsed) : Text :=
  let excerpt := Excerpt.around config collapsed
  "Could not parse: ".toList ++ collapsed.text.take config.summaryWidth ++ "\n\nInput: ".toList ++ excerpt.text ++
    '\n' :: List.replicate (7 + excerpt.column) ' ' ++
    s!"^ From here (line: {position.line}, column: {position.column}, offset: {offset})".toList ++
    (if offset = Text.size text then ", end of string".toList else []) ++ ['\n']

def headline (best : Option Furthest) : Text :=
  if best.isSome then "Last valid parser matched:".toList else "No parser matched:".toList

end Failure

namespace Rulebook

/-- Deeper than a match is ever nested. At one place of the text every node is entered once at most, and so is
each of the few nodes that a continuation plants for a node. -/
def matchLimit (b : Rulebook) (text : Text) : Nat :=
  8 * (b.graph.size + 1) * (text.length + 2)

def matchWithin (b : Rulebook) (depth : Nat) (id : NodeId) (text : Text) (offset : Nat) : Walk Outcome :=
  b.matchNode text depth id (Path.root id) (Cursor.ofOffset text offset)

def matchFrom (b : Rulebook) (id : NodeId) (text : Text) (offset : Nat) : Walk Outcome :=
  b.matchWithin (b.matchLimit text) id text offset

/-- Matches a grammar with the whole of a text, nested no deeper than `depth`. A match of less fails where it
ends. -/
def runWithin (b : Rulebook) (depth : Nat) (id : NodeId) (text : Text) : Walk Outcome := do
  let o ← b.matchWithin depth id text 0
  return if o.succeeded ∧ o.cursor.offset ≠ Text.size text then o.failAt o.cursor else o

def run (b : Rulebook) (id : NodeId) (text : Text) : Walk Outcome :=
  b.runWithin (b.matchLimit text) id text

def drawingPart (b : Rulebook) (config : Config) (id : NodeId) (best : Option Furthest) (withDrawing : Bool) :
    Walk Text :=
  if withDrawing then do
    let drawn ← b.render config id config.indentUnit true (best.map fun f => .path f.path)
    return '\n' :: Failure.headline best ++ drawn ++ ['\n']
  else pure []

def failure (b : Rulebook) (config : Config) (id : NodeId) (text : Text) (withDrawing : Bool) (o : Outcome) :
    Walk Failure := do
  let offset := o.reach
  match Collapsed.ofText? config.collapsePlaceholder text offset, Text.position? text offset with
  | some collapsed, some position =>
    let shown := Failure.textPart config text offset position collapsed
    return ⟨shown ++ (← b.drawingPart config id o.best withDrawing), offset, position⟩
  | _, _ => .halt .misaligned

def parseWithin (b : Rulebook) (depth : Nat) (config : Config) (id : NodeId) (text : Text) (withDrawing : Bool) :
    Walk (Except Failure Value) := do
  let o ← b.runWithin depth id text
  match o.value with
  | some value => return .ok value
  | none => return .error (← b.failure config id text withDrawing o)

def parse (b : Rulebook) (config : Config) (id : NodeId) (text : Text) (withDrawing : Bool) :
    Walk (Except Failure Value) :=
  b.parseWithin (b.matchLimit text) config id text withDrawing

end Rulebook

end FurthestMatch
