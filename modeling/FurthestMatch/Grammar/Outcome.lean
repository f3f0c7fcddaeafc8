import FurthestMatch.Grammar.Occurrence

/-!
# Outcomes

What matching a node at a place comes to: on success a value, in any case the place reached, and the leaf match
that went furthest among all that were tried, whether or not they became part of the result.
-/

namespace FurthestMatch

/-- A leaf match: the offset it reached, and the leaf's occurrence. -/
structure Furthest where
  offset : Nat
  path : Path
deriving DecidableEq, Repr

/-- The result of matching a node. The cursor is the end of the match, or the place reached before failing. The type
carries two facts: a node has matched exactly if there is a value, and the offset that the furthest leaf match reached
is zero when no such match is kept. -/
structure Outcome where
  value : Option Value
  cursor : Cursor
  best : Option Furthest

namespace Furthest

def reach : Option Furthest → Nat
  | some f => f.offset
  | none => 0

/-- The one that went further; of two that went equally far the earlier. -/
def merge (earlier later : Option Furthest) : Option Furthest :=
  if reach earlier < reach later then later else earlier

end Furthest

namespace Outcome

def matched (value : Value) (cursor : Cursor) (path : Path) : Outcome :=
  ⟨some value, cursor, some ⟨cursor.offset, path⟩⟩

def failed (cursor : Cursor) : Outcome :=
  ⟨none, cursor, none⟩

def succeeded (o : Outcome) : Bool :=
  o.value.isSome

def reach (o : Outcome) : Nat :=
  Furthest.reach o.best

def valueOrNull (o : Outcome) : Value :=
  o.value.getD .null

def failAt (o : Outcome) (cursor : Cursor) : Outcome :=
  { o with value := none, cursor }

end Outcome

end FurthestMatch
