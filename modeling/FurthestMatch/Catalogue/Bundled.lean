import FurthestMatch.Catalogue.Arithmetic
import FurthestMatch.Catalogue.JsonText
import FurthestMatch.Grammar.Rulebook

/-!
# The bundled grammars

One graph holds the ready leaves and after them the grammars of JSON values and of arithmetic.
-/

namespace FurthestMatch.Bundled

def planted : (NodeId × NodeId) × Graph :=
  let (json, graph) := JsonText.grammar Graph.leaves
  let (math, graph) := Arithmetic.grammar graph
  ((json, math), graph)

def json : NodeId :=
  planted.1.1

def math : NodeId :=
  planted.1.2

/-- The rulebook with no rules of its own in which the bundled grammars stand. -/
def rulebook : Rulebook where
  graph := planted.2

end FurthestMatch.Bundled
