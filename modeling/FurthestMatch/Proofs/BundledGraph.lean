import FurthestMatch.Catalogue.Bundled
import FurthestMatch.Proofs.Decision
import FurthestMatch.Proofs.Growth

/-!
# The graph of the bundled grammars

The graph holds the ready leaves at their numbers and, planted after them, every recipe of the two grammars. What is
read of the grammars elsewhere is read off these recipes, and not off the numbers at which their nodes happen to stand.
-/

namespace FurthestMatch

namespace Graph

/-! ## Recursive rules that plant other recipes first -/

variable {g g' : Graph} {first : NodeId}

theorem bind_grow (p : Planting NodeId) (r : NodeId → Recipe) (g : Graph) :
    (p >>= fun a => grow (r a)) g = (p g).2.plant (r (p g).1) :=
  rfl

theorem holds_before (r : Recipe) (hf : first ≤ g.size) (hg : (g.plant r).2.GrowsTo g') :
    g'.Holds first r (g.plant r).1 ∧ first ≤ (g.plant r).2.size :=
  ⟨(holds_plant r hf).mono hg, Nat.le_trans hf (growsTo_plant g r).size_le⟩

theorem succ_le_size_add (n : Node) : g.size + 1 ≤ (g.add n).2.size := by
  simp [add, size]

section
variable (r₁ : NodeId → Recipe) (r₂ : NodeId → NodeId → Recipe)

theorem growsTo_rule₂ (self : NodeId) (g : Graph) : g.GrowsTo ((do
    let a ← grow (r₁ self)
    grow (r₂ self a) : Planting NodeId) g).2 :=
  (growsTo_plant g (r₁ self)).trans (growsTo_plant (g.plant (r₁ self)).2 (r₂ self (g.plant (r₁ self)).1))

/-- A rule of two recipes: the graph holds both, and a reference to the second. -/
theorem holds_rule₂ (g : Graph) :
    let built := growRec (fun self => do
      let a ← grow (r₁ self)
      grow (r₂ self a)) g
    g.GrowsTo built.2 ∧ built.2.nodes[g.size]? = some (.deferred (.node built.1)) ∧
      ∃ first a, built.2.Holds first (r₁ g.size) a ∧ built.2.Holds first (r₂ g.size a) built.1 := by
  obtain ⟨hself, hagrees⟩ := holds_growRec (growsTo_rule₂ r₁ r₂) (g := g) rfl
  have ⟨h₁, hl⟩ := holds_before (r₁ g.size) (succ_le_size_add (g := g) (.deferred (.node g.size)))
    (growsTo_plant _ (r₂ g.size (plant (g.add (.deferred (.node g.size))).2 (r₁ g.size)).1))
  have h₂ := holds_plant (r₂ g.size (plant (g.add (.deferred (.node g.size))).2 (r₁ g.size)).1) hl
  exact ⟨growsTo_growRec (growsTo_rule₂ r₁ r₂) g, hself, g.size + 1, _, h₁.of_agrees hagrees, h₂.of_agrees hagrees⟩

end

section
variable (r₁ : Recipe) (r₂ : NodeId → Recipe) (r₃ : NodeId → NodeId → NodeId → Recipe)

theorem growsTo_rule₃ (self : NodeId) (g : Graph) : g.GrowsTo ((do
    let a ← grow r₁
    let b ← grow (r₂ self)
    grow (r₃ self a b) : Planting NodeId) g).2 :=
  (growsTo_plant g r₁).trans (growsTo_rule₂ r₂ (fun self b => r₃ self (g.plant r₁).1 b) self (g.plant r₁).2)

theorem holds_rule₃ (g : Graph) :
    let built := growRec (fun self => do
      let a ← grow r₁
      let b ← grow (r₂ self)
      grow (r₃ self a b)) g
    g.GrowsTo built.2 ∧ built.2.nodes[g.size]? = some (.deferred (.node built.1)) ∧
      ∃ first a b, built.2.Holds first r₁ a ∧ built.2.Holds first (r₂ g.size) b ∧
        built.2.Holds first (r₃ g.size a b) built.1 := by
  obtain ⟨hself, hagrees⟩ := holds_growRec (growsTo_rule₃ r₁ r₂ r₃) (g := g) rfl
  let g₀ := (g.add (.deferred (.node g.size))).2
  let p₁ := g₀.plant r₁
  let p₂ := p₁.2.plant (r₂ g.size)
  have hl : g.size + 1 ≤ g₀.size := succ_le_size_add _
  have hg := growsTo_plant p₂.2 (r₃ g.size p₁.1 p₂.1)
  have ⟨h₁, hl₁⟩ := holds_before r₁ hl ((growsTo_plant p₁.2 (r₂ g.size)).trans hg)
  have ⟨h₂, hl₂⟩ := holds_before (r₂ g.size) hl₁ hg
  have h₃ := holds_plant (r₃ g.size p₁.1 p₂.1) hl₂
  exact ⟨growsTo_growRec (growsTo_rule₃ r₁ r₂ r₃) g, hself, g.size + 1, _, _, h₁.of_agrees hagrees,
    h₂.of_agrees hagrees, h₃.of_agrees hagrees⟩

end

end Graph

/-! ## The two grammars -/

namespace JsonText

def Planted (g : Graph) (self root : NodeId) : Prop :=
  g.nodes[self]? = some (.deferred (.node root)) ∧ ∃ first comma field, g.Holds first separator comma ∧
    g.Holds first (pair self) field ∧ g.Holds first (json self comma field) root

theorem planted_grammar (g : Graph) : g.GrowsTo (grammar g).2 ∧ Planted (grammar g).2 g.size (grammar g).1 := by
  have h := Graph.holds_rule₃ separator pair json g
  unfold grammar Planted
  exact h

theorem Planted.mono {g g' : Graph} {self root : NodeId} (h : Planted g self root) (hg : g.GrowsTo g') :
    Planted g' self root := by
  obtain ⟨hself, first, comma, field, hc, hf, hr⟩ := h
  exact ⟨hg.nodes hself, first, comma, field, Graph.Holds.mono hg hc, Graph.Holds.mono hg hf, Graph.Holds.mono hg hr⟩

end JsonText

namespace Arithmetic

def Planted (g : Graph) (self inner root : NodeId) : Prop :=
  g.nodes[self]? = some (.deferred (.node inner)) ∧
    (∃ first operand, g.Holds first (term self) operand ∧ g.Holds first (row self operand) inner) ∧
    ∃ first, g.Holds first (.map (.node inner) rowValue) root

theorem fragment_eq (g : Graph) : fragment g = Graph.growRec (fun self => do
    let operand ← Graph.grow (term self)
    Graph.grow (row self operand)) g := by
  unfold fragment
  exact rfl

theorem grammar_eq (g : Graph) : grammar g = (fragment g).2.plant (.map (.node (fragment g).1) rowValue) := by
  unfold grammar
  exact Graph.bind_grow fragment (fun row => .map (.node row) rowValue) g

theorem planted_grammar (g : Graph) : g.GrowsTo (grammar g).2 ∧
    ∃ inner, Planted (grammar g).2 g.size inner (grammar g).1 := by
  have h := Graph.holds_rule₂ term row g
  rw [← fragment_eq] at h
  rw [grammar_eq]
  obtain ⟨hg, hself, first, operand, ho, hr⟩ := h
  generalize fragment g = built at *
  have hlast := Graph.growsTo_plant built.2 (.map (.node built.1) rowValue)
  have hroot := Graph.holds_plant (.map (.node built.1) rowValue) (Nat.zero_le built.2.size)
  exact ⟨hg.trans hlast, built.1, hlast.nodes hself, ⟨first, operand, ho.mono hlast, hr.mono hlast⟩, 0, hroot⟩

end Arithmetic

/-! ## The rulebook -/

namespace Bundled

def withJson : Graph :=
  (JsonText.grammar Graph.leaves).2

theorem planted_eq : planted = ((json, math), (Arithmetic.grammar withJson).2) := by
  unfold json math planted withJson
  obtain ⟨json, graph⟩ := JsonText.grammar Graph.leaves
  dsimp only
  obtain ⟨math, graph⟩ := Arithmetic.grammar graph
  rfl

theorem json_eq : json = (JsonText.grammar Graph.leaves).1 := by
  unfold json planted
  obtain ⟨json, graph⟩ := JsonText.grammar Graph.leaves
  dsimp only
  obtain ⟨math, graph⟩ := Arithmetic.grammar graph
  rfl

theorem math_eq : math = (Arithmetic.grammar withJson).1 := by
  unfold math planted withJson
  obtain ⟨json, graph⟩ := JsonText.grammar Graph.leaves
  dsimp only
  obtain ⟨math, graph⟩ := Arithmetic.grammar graph
  rfl

theorem graph_eq : rulebook.graph = (Arithmetic.grammar withJson).2 :=
  congrArg Prod.snd planted_eq

theorem growsTo_graph : withJson.GrowsTo rulebook.graph := by
  rw [graph_eq]
  exact (Arithmetic.planted_grammar withJson).1

theorem planted_json : JsonText.Planted rulebook.graph Graph.leaves.size json := by
  rw [json_eq]
  exact (JsonText.planted_grammar Graph.leaves).2.mono growsTo_graph

theorem planted_math : ∃ inner, Arithmetic.Planted rulebook.graph withJson.size inner math := by
  rw [graph_eq, math_eq]
  exact (Arithmetic.planted_grammar withJson).2

theorem growsTo_leaves : Graph.leaves.GrowsTo rulebook.graph :=
  (JsonText.planted_grammar Graph.leaves).1.trans growsTo_graph

theorem node_leaf (leaf : Leaf) : rulebook.node leaf.id = leaf.node := by
  rw [Rulebook.node, Graph.node, growsTo_leaves.nodes (Graph.nodes_leaves leaf)]
  rfl

theorem size_pos : 0 < rulebook.graph.size := by
  have hl : Graph.leaves.size = 17 := rfl
  have hs := growsTo_leaves.size_le
  omega

/-- How far a node is from one that is matched itself. -/
def rank (id : NodeId) : Nat :=
  match rulebook.node id with
  | .deferred _ => 2
  | .named .. => 1
  | _ => 0

/-- References lead to nodes other than references, and names to nodes that are neither. -/
theorem grounded (root : NodeId) : rulebook.Grounded root := by
  refine (Rulebook.loopFree_of_rank rank (fun id next h => ?_) root).grounded
  have hall : (List.range rulebook.graph.size).all (fun id => (rulebook.inner? id).all fun next => rank next < rank id) =
      true := by decide +kernel
  have hid : id < rulebook.graph.size := by
    by_contra hn
    have hnode : rulebook.node id = .never := by
      rw [Rulebook.node, Graph.node, Array.getElem?_eq_none (Nat.le_of_not_lt hn)]
      rfl
    rw [Rulebook.inner?, hnode] at h
    cases h
  have hrank := List.all_eq_true.mp hall id (List.mem_range.mpr hid)
  rw [h] at hrank
  simpa using hrank

end Bundled

end FurthestMatch
