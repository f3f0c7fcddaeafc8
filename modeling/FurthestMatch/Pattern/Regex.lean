import FurthestMatch.Pattern.CharSet
import FurthestMatch.Text.Cursor

/-!
# Regular expressions and how they match

An expression is tried at a place of a text by backtracking: of two ways to go on the first is taken, and the
second only when no way to finish follows the first. `Regex.run` takes what is to follow as a function, so the
answer of a whole match is the answer of the first way that works out.
-/

namespace FurthestMatch

inductive Anchor where
  | textStart
  | textEnd
  | lineStart
  | lineEnd
  | wordEdge
  | noWordEdge
deriving DecidableEq, Repr

inductive Regex where
  | empty
  | set (s : CharSet)
  | anchor (a : Anchor)
  | seq (a b : Regex)
  | alt (a b : Regex)
  /-- `least` rounds or more, up to `most`; more rounds first when greedy, fewer first otherwise. -/
  | times (r : Regex) (least : Nat) (most : Option Nat) (greedy : Bool)
  /-- The text of the match of `r` is kept under the number. -/
  | group (number : Nat) (r : Regex)
  /-- The text kept under the number, again. -/
  | again (number : Nat)
  /-- The first way of `r` only. -/
  | atomic (r : Regex)
  /-- Whether `r` matches `back` characters earlier, without moving. -/
  | look (back : Nat) (positive : Bool) (r : Regex)
deriving DecidableEq, Repr

/-- How far a match has come: the characters behind it, last first, those ahead, and the texts of the groups,
latest first. -/
structure Progress where
  behind : Text
  ahead : Text
  groups : List (Nat × Text)
deriving DecidableEq, Repr

namespace Progress

def since (now earlier : Progress) : Text :=
  earlier.ahead.take (earlier.ahead.length - now.ahead.length)

def keep (p : Progress) (number : Nat) (text : Text) : Progress :=
  { p with groups := (number, text) :: p.groups }

def pass? (p : Progress) (text : Text) : Option Progress :=
  (Text.after? text p.ahead).map fun rest => { p with behind := text.reverse ++ p.behind, ahead := rest }

def back? (p : Progress) : Nat → Option Progress
  | 0 => some p
  | n + 1 => match p.behind with
    | [] => none
    | c :: behind => back? { p with behind := behind, ahead := c :: p.ahead } n

def atWordEdge (p : Progress) : Bool :=
  (p.behind.head?.any isWord) != (p.ahead.head?.any isWord)

end Progress

/-- Whether a place satisfies an anchor. Newlines count for the line anchors only. -/
def Anchor.holds (p : Progress) : Anchor → Bool
  | .textStart => p.behind.isEmpty
  | .textEnd => p.ahead.isEmpty
  | .lineStart => p.behind.isEmpty || p.behind.head? == some '\n'
  | .lineEnd => p.ahead.isEmpty || p.ahead.head? == some '\n'
  | .wordEdge => p.atWordEdge
  | .noWordEdge => !p.atWordEdge

namespace Regex

/-- A step of matching: what is to follow, and the place, to the answer of the first way that works out. -/
abbrev Matching (α : Type) := (Progress → Option α) → Progress → Option α

def firstOf {α : Type} (greedy : Bool) (more done : Unit → Option α) : Option α :=
  if greedy then (more ()).orElse done else (done ()).orElse more

def exactly {α : Type} (body : Matching α) : Nat → Matching α
  | 0, k, p => k p
  | n + 1, k, p => body (exactly body n k) p

def upTo {α : Type} (body : Matching α) (greedy : Bool) : Nat → Matching α
  | 0, k, p => k p
  | n + 1, k, p => firstOf greedy (fun _ => body (upTo body greedy n k) p) (fun _ => k p)

/-- Further rounds after one that read text, any number of them, each of which has to read text as well. It
shortens the text ahead, so `fuel` above that text's length is never used up. -/
def further {α : Type} (body : Matching α) (greedy : Bool) : (fuel : Nat) → Matching α
  | 0, k, p => k p
  | fuel + 1, k, p =>
    firstOf greedy
      (fun _ => body (fun p' => if p'.ahead.length < p.ahead.length then further body greedy fuel k p' else none) p)
      (fun _ => k p)

/-- One round or more. When the first reads nothing it is the last. -/
def oneOrMore {α : Type} (body : Matching α) (greedy : Bool) : Matching α := fun k p =>
  body (fun p' =>
    if p'.ahead.length < p.ahead.length then further body greedy p.ahead.length k p' else k p') p

def atLeast {α : Type} (body : Matching α) (greedy : Bool) : Nat → Matching α
  | 0, k, p => firstOf greedy (fun _ => oneOrMore body greedy k p) (fun _ => k p)
  | n + 1, k, p => exactly body n (oneOrMore body greedy k) p

def run : Regex → {α : Type} → Matching α
  | .empty, _, k, p => k p
  | .set s, _, k, p => match p.ahead with
    | [] => none
    | c :: rest => if s.contains c then k { p with behind := c :: p.behind, ahead := rest } else none
  | .anchor a, _, k, p => if a.holds p then k p else none
  | .seq a b, _, k, p => run a (fun p' => run b k p') p
  | .alt a b, _, k, p => (run a k p).orElse fun _ => run b k p
  | .times r least (some most) greedy, _, k, p =>
    exactly (fun k p => run r k p) least (upTo (fun k p => run r k p) greedy (most - least) k) p
  | .times r least none greedy, _, k, p => atLeast (fun k p => run r k p) greedy least k p
  | .group number r, _, k, p => run r (fun p' => k (p'.keep number (p'.since p))) p
  | .again number, _, k, p => (p.groups.lookup number).bind fun text => (p.pass? text).bind k
  | .atomic r, _, k, p => (run r some p).bind k
  | .look back positive r, _, k, p =>
    let found := (p.back? back).bind fun p' => run r some p'
    match positive, found with
    | true, some p' => k { p with groups := p'.groups }
    | true, none => none
    | false, some _ => none
    | false, none => k p

structure Found where
  skipped : Text
  text : Text
  rest : Text
  groups : List (Nat × Text)
deriving DecidableEq, Repr

def matchAt (r : Regex) (behind ahead : Text) : Option Found :=
  let start : Progress := ⟨behind, ahead, []⟩
  (run r some start).map fun p => ⟨behind.reverse, p.since start, p.ahead, p.groups⟩

def searchFrom (r : Regex) : (behind ahead : Text) → Option Found
  | behind, [] => matchAt r behind []
  | behind, c :: rest => (matchAt r behind (c :: rest)).orElse fun _ => searchFrom r (c :: behind) rest

def search (r : Regex) (text : Text) : Option Found :=
  searchFrom r [] text

def width? : Regex → Option Nat
  | .empty | .anchor _ | .look .. => some 0
  | .set _ => some 1
  | .seq a b => do return (← width? a) + (← width? b)
  | .alt a b => do
    let m ← width? a
    if (← width? b) = m then some m else none
  | .times r least most _ => do
    let m ← width? r
    if most = some least then some (m * least) else none
  | .group _ r | .atomic r => width? r
  | .again _ => none

end Regex

end FurthestMatch
