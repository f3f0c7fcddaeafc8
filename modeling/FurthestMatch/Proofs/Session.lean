import FurthestMatch.Grammar.Equality
import FurthestMatch.Proofs.Growth
import FurthestMatch.Report

/-!
# Sessions

A session is a row of operations on a rulebook: grammars are built, names are given to them, and walks tie the
references that they follow. Whatever the operations are, no node changes, and a reference that was tied stays tied to
the node it was tied to first.
-/

namespace FurthestMatch

/-- What can be done with a rulebook. Walks are taken at any depth and over any grammar. -/
inductive Operation where
  | build (recipe : Recipe)
  | buildRec (rule : NodeId → Recipe)
  | refer (name : String)
  | keepMapper (mapper : Value → Value)
  | keepContinuation (next : Continuation)
  | define (name : String) (id : NodeId)
  | run (depth : Nat) (id : NodeId) (text : Text)
  | matchFrom (depth : Nat) (id : NodeId) (text : Text) (offset : Nat)
  | parse (depth : Nat) (config : Config) (id : NodeId) (text : Text) (withDrawing : Bool)
  | render (config : Config) (id : NodeId) (indentation : Text) (newline : Bool) (highlight : Option Highlight)
  | steps (path : Path)
  | encloses (path : Path) (id : NodeId)
  | equal (strict : Bool) (x y : NodeId)
  | resolve (id : NodeId)
  | dereference (id : NodeId)

namespace Rulebook

variable {b b' b'' : Rulebook}

def perform (b : Rulebook) : Operation → Rulebook
  | .build recipe => (b.plant recipe).2
  | .buildRec rule => { b with graph := (Graph.growRec (fun self => Graph.grow (rule self)) b.graph).2 }
  | .refer name => { b with graph := (b.graph.refer name).2 }
  | .keepMapper mapper => { b with graph := (b.graph.addMapper mapper).2 }
  | .keepContinuation next => { b with graph := (b.graph.addContinuation next).2 }
  | .define name id => b.define name id
  | .run depth id text => (b.settle (b.runWithin depth id text)).2
  | .matchFrom depth id text offset => (b.settle (b.matchWithin depth id text offset)).2
  | .parse depth config id text withDrawing => (b.settle (b.parseWithin depth config id text withDrawing)).2
  | .render config id indentation newline highlight =>
    (b.settle (b.render config id indentation newline highlight)).2
  | .steps path => (b.settle (b.steps path)).2
  | .encloses path id => (b.settle (b.isEnclosed path id)).2
  | .equal strict x y => (b.settle (b.equal strict x y)).2
  | .resolve id => (b.settle (b.resolve id)).2
  | .dereference id => (b.settle (b.dereference id)).2

def performAll (b : Rulebook) (operations : List Operation) : Rulebook :=
  operations.foldl perform b

/-- The nodes of the first rulebook are nodes of the second, what was tied is tied to the same node, and no reference
comes to be tied twice. -/
structure Continues (b b' : Rulebook) : Prop where
  graph : b.graph.GrowsTo b'.graph
  tied : ∀ {id target}, b.tied.lookup id = some target → b'.tied.lookup id = some target
  once : (b.tied.map Prod.fst).Nodup → (b'.tied.map Prod.fst).Nodup

namespace Continues

theorem refl (b : Rulebook) : b.Continues b :=
  ⟨.refl _, id, id⟩

theorem trans (h : b.Continues b') (h' : b'.Continues b'') : b.Continues b'' :=
  ⟨h.graph.trans h'.graph, fun ht => h'.tied (h.tied ht), fun ho => h'.once (h.once ho)⟩

theorem of_graph {g : Graph} (h : b.graph.GrowsTo g) : b.Continues { b with graph := g } :=
  ⟨h, id, id⟩

/-- A tied reference goes on to stand for the node that it is tied to, whatever its name stands for by then. -/
theorem target_eq (h : b.Continues b') {id last : NodeId} (ht : b.tied.lookup id = some last) (target : Target) :
    b'.target id target = last := by
  rw [Rulebook.target, h.tied ht]
  rfl

end Continues

/-! ## One step -/

theorem plant_eq (b : Rulebook) (recipe : Recipe) :
    b.plant recipe = ((b.graph.plant recipe).1, { b with graph := (b.graph.plant recipe).2 }) := rfl

theorem lookup_cons_of_lookup {id x t : NodeId} {entries : List (NodeId × NodeId)} (hn : entries.lookup x = none)
    {last : NodeId} (h : entries.lookup id = some last) : ((x, t) :: entries).lookup id = some last := by
  have hne : (id == x) = false := by
    rw [beq_eq_false_iff_ne]
    rintro rfl
    cases hn.symm.trans h
  rw [List.lookup_cons, hne]
  exact h

theorem not_mem_of_lookup {x : NodeId} {entries : List (NodeId × NodeId)} (hn : entries.lookup x = none) :
    x ∉ entries.map Prod.fst := by
  intro hm
  obtain ⟨p, hp, rfl⟩ := List.mem_map.mp hm
  have hne := List.lookup_eq_none_iff.mp hn p hp
  simp at hne

theorem continues_tie (b : Rulebook) (id : NodeId) : b.Continues (b.tie id) := by
  unfold tie
  split
  · rename_i hn
    exact ⟨.refl _, fun h => lookup_cons_of_lookup hn h, fun h => List.nodup_cons.mpr ⟨not_mem_of_lookup hn, h⟩⟩
  · exact .refl b

theorem node_tie (b : Rulebook) (x id : NodeId) : (b.tie x).node id = b.node id := by
  unfold tie
  split <;> rfl

/-- Tying a reference changes nothing about what references stand for. -/
theorem target_tie {id : NodeId} {target : Target} (hn : b.node id = .deferred target) (x : NodeId) :
    (b.tie x).target id target = b.target id target := by
  unfold tie
  split
  · rename_i t hx hl
    by_cases he : id = x
    · subst he
      cases hn.symm.trans hx
      simp [Rulebook.target, hl]
    · have hb : (id == x) = false := beq_eq_false_iff_ne.mpr he
      simp [Rulebook.target, List.lookup_cons, hb, lookTarget, rule?]
  · rfl

theorem lookup_tie {id : NodeId} {target : Target} (hn : b.node id = .deferred target) :
    (b.tie id).tied.lookup id = some (b.target id target) := by
  unfold tie
  cases hl : b.tied.lookup id with
  | some last => simp [hn, hl, Rulebook.target]
  | none => simp [hn, hl, Rulebook.target]

theorem continues_foldl_tie (ids : List NodeId) : ∀ b : Rulebook, b.Continues (ids.foldl tie b) := by
  induction ids with
  | nil => exact .refl
  | cons id ids ih => exact fun b => (continues_tie b id).trans (ih _)

theorem continues_settle {α : Type} (w : Walk α) : b.Continues (b.settle w).2 :=
  continues_foldl_tie _ _

/-- After a walk every reference that it followed is tied to what it stood for in the walk. -/
theorem lookup_foldl_tie {id : NodeId} {target : Target} : ∀ {ids : List NodeId} {b : Rulebook},
    b.node id = .deferred target → id ∈ ids → (ids.foldl tie b).tied.lookup id = some (b.target id target)
  | x :: ids, b, hn, hm => by
    by_cases he : id = x
    · subst he
      exact (continues_foldl_tie ids _).tied (lookup_tie hn)
    · have hm' : id ∈ ids := (List.mem_cons.mp hm).resolve_left he
      rw [← target_tie hn x]
      exact lookup_foldl_tie ((node_tie b x id).trans hn) hm'

theorem continues_perform (b : Rulebook) : ∀ operation : Operation, b.Continues (b.perform operation)
  | .build recipe => .of_graph (Graph.growsTo_plant _ recipe)
  | .buildRec rule => .of_graph (Graph.growsTo_growRec (fun id g => Graph.growsTo_plant g (rule id)) _)
  | .refer name => .of_graph (Graph.growsTo_refer _ name)
  | .keepMapper mapper => .of_graph (.addMapper _ mapper)
  | .keepContinuation next => .of_graph (.addContinuation _ next)
  | .define _ _ => ⟨.refl _, id, id⟩
  | .run .. | .matchFrom .. | .parse .. | .render .. | .steps .. | .encloses .. | .equal .. | .resolve ..
  | .dereference .. => continues_settle _

/-! ## A whole session -/

theorem continues_performAll (operations : List Operation) : ∀ b : Rulebook, b.Continues (b.performAll operations) := by
  induction operations with
  | nil => exact .refl
  | cons operation operations ih => exact fun b => (continues_perform b operation).trans (ih _)

end Rulebook

end FurthestMatch
