import FurthestMatch.Pattern
import FurthestMatch.Text.Quoted

/-!
# Nodes of a grammar

A grammar is a graph of nodes, and a node names its children by their numbers in the graph. The number is the
identity of a node: one node below several parents is one rule, however it is reached, and two nodes of the same
shape are two rules.
-/

namespace FurthestMatch

abbrev NodeId := Nat

/-- The number of a mapper in its graph; equal numbers mean the same mapper. -/
abbrev MapperId := Nat

abbrev ContinuationId := Nat

inductive Polarity where
  | positive
  | negative
deriving DecidableEq, Repr

namespace Polarity

def symbol : Polarity → String
  | .positive => "?="
  | .negative => "?!"

def name : Polarity → String
  | .positive => "Positive"
  | .negative => "Negative"

def wantsMatch : Polarity → Bool
  | .positive => true
  | .negative => false

end Polarity

inductive Lookaround where
  | positiveAhead
  | negativeAhead
  | positiveBehind
  | negativeBehind
deriving DecidableEq, Repr

inductive BuildError where
  | invalidBounds (least most : Nat)
  | unsupportedLookbehind (kind : Lookaround)
  | invalidPattern (source : String) (cause : PatternError)
deriving DecidableEq, Repr

namespace Lookaround

def symbol : Lookaround → String
  | .positiveAhead => "?="
  | .negativeAhead => "?!"
  | .positiveBehind => "?<="
  | .negativeBehind => "?<!"

def polarity : Lookaround → Except BuildError Polarity
  | .positiveAhead => .ok .positive
  | .negativeAhead => .ok .negative
  | kind => .error (.unsupportedLookbehind kind)

end Lookaround

namespace BuildError

def headline : BuildError → String
  | .invalidBounds least most => s!"Min is greater than max (min: {least}, max: {most})"
  | .unsupportedLookbehind kind => s!"Lookbehind ({kind.symbol}) is not implemented yet"
  | .invalidPattern source _ => s!"Invalid pattern /{source}/: "

def message : BuildError → String
  | .invalidPattern source cause => (invalidPattern source cause).headline ++ cause.message
  | error => error.headline

end BuildError

/-- What a reference stands for: the rule with a name at the time it is first followed, or `absent` when there is
none; or a node once and for all. -/
inductive Target where
  | rule (name : String) (absent : NodeId)
  | node (id : NodeId)
deriving DecidableEq, Repr

inductive Node where
  /-- A text as it is. -/
  | literal (text : String)
  | pattern (leaf : Pattern)
  /-- Matches no characters, always. -/
  | always
  | never
  | sequence (items : List NodeId)
  /-- The first option that matches. -/
  | choice (options : List NodeId)
  /-- As many matches of the child as there are, within bounds. -/
  | times (child : NodeId) (least : Nat) (most : Option Nat)
  /-- The child's match with another value. -/
  | map (child : NodeId) (mapper : MapperId)
  /-- The child's match and then a match of what the continuation builds from it. -/
  | chain (child : NodeId) (next : ContinuationId)
  /-- Whether the child matches here, reading nothing. -/
  | look (child : NodeId) (polarity : Polarity)
  /-- A reference, followed when it is reached. -/
  | deferred (target : Target)
  /-- The child, with a name for where it is drawn. -/
  | named (child : NodeId) (label : String)
deriving DecidableEq, Repr

namespace Node

def kind : Node → String
  | .literal _ => "Literal"
  | .pattern _ => "Pattern"
  | .always => "Always"
  | .never => "Never"
  | .sequence _ => "Sequence"
  | .choice _ => "Choice"
  | .times .. => "Repeat"
  | .map .. => "Map"
  | .chain .. => "Chain"
  | .look .. => "Lookahead"
  | .deferred _ => "Deferred"
  | .named .. => "Named"

/-- Names and references hand on the place where they stand and are no step of their own. -/
def isTransparent : Node → Bool
  | .named .. | .deferred _ => true
  | _ => false

def wrapped? : Node → Option NodeId
  | .map child _ | .chain child _ | .look child _ | .times child .. => some child
  | _ => none

def inspect : Node → Text
  | .literal text => "Literal(".toList ++ Quoted.inspect text.toList ++ [')']
  | .pattern leaf => "Pattern(/".toList ++ leaf.source.toList ++ "/)".toList
  | .named _ label => "Named(".toList ++ Quoted.inspect label.toList ++ [')']
  | .times _ least none => s!"Repeat({least}, None)".toList
  | .times _ least (some most) => s!"Repeat({least}, Some({most}))".toList
  | node => node.kind.toList

end Node

end FurthestMatch
