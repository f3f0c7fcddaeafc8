import FurthestMatch.Grammar.Outcome

/-!
# Matching a grammar

`Rulebook.matchNode` matches a node at a place of a text. The children of a sequence or choice are matched at the
occurrences of their slots, every round of a repetition at slot zero, and so is the child of every other node; the
second stage of a chain has slot one. Names and references hand on their own occurrence.

How the outcomes of children make up the outcome of a node is said once for each kind of node, with the matching
of the children as a parameter.
-/

namespace FurthestMatch

abbrev Matcher := NodeId → Path → Cursor → Walk Outcome

namespace Outcome

def ofLeaf (path : Path) (cursor : Cursor) (read : Text → Option (Value × Text × Text)) : Walk Outcome :=
  match cursor.rest with
  | none => .halt .misaligned
  | some text => match read text with
    | some (value, passed, rest) => pure (.matched value (cursor.advance passed rest) path)
    | none => pure (.failed cursor)

/-- The items of a sequence one after the other, from a slot on, after `values` have been matched. The sequence
fails with its first item that fails, at the place before that item. -/
def ofSequence (run : Matcher) (path : Path) :
    (items : List NodeId) → (slot : Nat) → (values : List Value) → Cursor → Option Furthest → Walk Outcome
  | [], _, values, cursor, best => pure ⟨some (.list values.reverse), cursor, best⟩
  | item :: items, slot, values, cursor, best => do
    let o ← run item (path.child item slot) cursor
    let best := Furthest.merge best o.best
    match o.value with
    | none => return ⟨none, cursor, best⟩
    | some value => ofSequence run path items (slot + 1) (value :: values) o.cursor best

def ofChoice (run : Matcher) (path : Path) (cursor : Cursor) :
    (options : List NodeId) → (slot : Nat) → Option Furthest → Walk Outcome
  | [], _, best => pure ⟨none, cursor, best⟩
  | option :: options, slot, best => do
    let o ← run option (path.child option slot) cursor
    let best := Furthest.merge best o.best
    if o.succeeded then return { o with best } else ofChoice run path cursor options (slot + 1) best

def endRounds (least : Nat) (start : Cursor) (values : List Value) (cursor : Cursor) (best : Option Furthest) :
    Outcome :=
  if values.length < least then ⟨none, start, best⟩ else ⟨some (.list values.reverse), cursor, best⟩

/-- Rounds of a repetition, after `values` have been matched. They end with the greatest number, with a round that
fails, and with a round that reads nothing once there are enough. Every other round reads text or is one of the
least number, so `fuel` above both together is never used up. -/
def ofRounds (round : Cursor → Walk Outcome) (least : Nat) (most : Option Nat) (start : Cursor) :
    (fuel : Nat) → (values : List Value) → Cursor → Option Furthest → Walk Outcome
  | 0, _, _, _ => .halt .exhausted
  | fuel + 1, values, cursor, best =>
    if most.any (· ≤ values.length) then pure (endRounds least start values cursor best)
    else do
      let o ← round cursor
      let best := Furthest.merge best o.best
      match o.value with
      | none => return endRounds least start values cursor best
      | some value =>
        let values := value :: values
        if o.cursor.offset ≤ cursor.offset ∧ least ≤ values.length then
          return endRounds least start values o.cursor best
        else ofRounds round least most start fuel values o.cursor best

def roundLimit (least : Nat) (cursor : Cursor) : Nat :=
  least + (cursor.rest.getD []).length + 2

/-- The outcome of a chain. What its second stage reached has no occurrence in the grammar and counts as reached
by the chain, when it went further than the first stage. -/
def ofStages (path : Path) (first second : Outcome) : Outcome :=
  if first.reach < second.reach then { second with best := some ⟨second.reach, path⟩ }
  else { second with best := first.best }

def ofLook (polarity : Polarity) (cursor : Cursor) (o : Outcome) : Outcome :=
  let best := Furthest.merge none o.best
  if o.succeeded == polarity.wantsMatch then ⟨some .empty, cursor, best⟩ else ⟨none, cursor, best⟩

end Outcome

namespace Rulebook

def readLiteral (literal : String) (text : Text) : Option (Value × Text × Text) :=
  (Text.after? literal.toList text).map fun rest => (.str literal, literal.toList, rest)

def matchNode (text : Text) : (fuel : Nat) → (b : Rulebook) → Matcher
  | 0, _, _, _, _ => .halt .exhausted
  | fuel + 1, b, id, path, cursor => match b.node id with
    | .literal literal => Outcome.ofLeaf path cursor (readLiteral literal)
    | .pattern leaf => Outcome.ofLeaf path cursor leaf.matchIn
    | .always => pure (.matched .empty cursor path)
    | .never => pure (.failed cursor)
    | .sequence items => Outcome.ofSequence (b.matchNode text fuel) path items 0 [] cursor none
    | .choice options => Outcome.ofChoice (b.matchNode text fuel) path cursor options 0 none
    | .times child least most =>
      Outcome.ofRounds (b.matchNode text fuel child (path.child child 0)) least most cursor
        (Outcome.roundLimit least cursor) [] cursor none
    | .map child mapper => do
      let o ← b.matchNode text fuel child (path.child child 0) cursor
      return { o with value := o.value.map (b.graph.mapper mapper) }
    | .chain child next => do
      let first ← b.matchNode text fuel child (path.child child 0) cursor
      match first.value with
      | none => return first
      | some value =>
        -- the second stage stands in a rulebook of its own, which is dropped after the match
        let (stage, b) := b.plant (b.graph.continuation next value text first.cursor)
        let second ← b.matchNode text fuel stage (path.child stage 1) first.cursor
        return Outcome.ofStages path first second
    | .look child polarity => do
      let o ← b.matchNode text fuel child (path.child child 0) cursor
      return Outcome.ofLook polarity cursor o
    | .deferred target => do
      .follow id
      b.matchNode text fuel (b.target id target) path cursor
    | .named child _ => b.matchNode text fuel child path cursor

end Rulebook

end FurthestMatch
