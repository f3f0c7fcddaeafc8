import FurthestMatch.Grammar.Graph
import Mathlib.Data.List.Forall2

/-!
# Graphs only grow

A node once planted keeps its number, its kind and its children, and so do mappers and continuations. What a recipe
has been planted as can therefore be read off any later graph.
-/

namespace FurthestMatch

namespace Graph

variable {g g' g'' : Graph}

structure GrowsTo (g g' : Graph) : Prop where
  nodes : ∀ {id : Nat} {n}, g.nodes[id]? = some n → g'.nodes[id]? = some n
  mappers : ∀ {m : Nat} {f}, g.mappers[m]? = some f → g'.mappers[m]? = some f
  continuations : ∀ {k : Nat} {f}, g.continuations[k]? = some f → g'.continuations[k]? = some f

theorem getElem?_push_of_some {α : Type} {xs : Array α} {i : Nat} {a : α} (h : xs[i]? = some a) (x : α) :
    (xs.push x)[i]? = some a := by
  obtain ⟨hi, rfl⟩ := Array.getElem?_eq_some_iff.mp h
  exact Array.getElem?_push_lt hi

theorem size_le_of_getElem? {α : Type} {xs ys : Array α} (h : ∀ {i : Nat} {a}, xs[i]? = some a → ys[i]? = some a) :
    xs.size ≤ ys.size := by
  by_contra hl
  have hlt : ys.size < xs.size := Nat.lt_of_not_le hl
  have hy := h (Array.getElem?_eq_getElem hlt)
  rw [Array.getElem?_eq_none (Nat.le_refl _)] at hy
  cases hy

namespace GrowsTo

theorem refl (g : Graph) : g.GrowsTo g :=
  ⟨id, id, id⟩

theorem trans (h : g.GrowsTo g') (h' : g'.GrowsTo g'') : g.GrowsTo g'' :=
  ⟨fun hn => h'.nodes (h.nodes hn), fun hm => h'.mappers (h.mappers hm), fun hk => h'.continuations (h.continuations hk)⟩

theorem add (g : Graph) (n : Node) : g.GrowsTo (g.add n).2 :=
  ⟨fun h => getElem?_push_of_some h n, id, id⟩

theorem addMapper (g : Graph) (f : Value → Value) : g.GrowsTo (g.addMapper f).2 :=
  ⟨id, fun h => getElem?_push_of_some h f, id⟩

theorem addContinuation (g : Graph) (next : Continuation) : g.GrowsTo (g.addContinuation next).2 :=
  ⟨id, id, fun h => getElem?_push_of_some h next⟩

theorem size_le (h : g.GrowsTo g') : g.size ≤ g'.size :=
  size_le_of_getElem? h.nodes

theorem node_eq (h : g.GrowsTo g') {id : NodeId} (hid : id < g.size) : g'.node id = g.node id := by
  have hn : g.nodes[id]? = some g.nodes[id] := Array.getElem?_eq_getElem hid
  rw [node, node, hn, h.nodes hn]

theorem mapper_eq (h : g.GrowsTo g') {m : MapperId} (hm : m < g.mappers.size) : g'.mapper m = g.mapper m := by
  have hf : g.mappers[m]? = some g.mappers[m] := Array.getElem?_eq_getElem hm
  rw [mapper, mapper, hf, h.mappers hf]

theorem continuation_eq (h : g.GrowsTo g') {k : ContinuationId} (hk : k < g.continuations.size) :
    g'.continuation k = g.continuation k := by
  have hf : g.continuations[k]? = some g.continuations[k] := Array.getElem?_eq_getElem hk
  rw [continuation, continuation, hf, h.continuations hf]

end GrowsTo

mutual
theorem growsTo_plant (g : Graph) : ∀ r : Recipe, g.GrowsTo (g.plant r).2
  | .node _ => .refl g
  | .literal _ | .pattern _ | .always | .never => .add g _
  | .sequence items => (growsTo_plantAll g items).trans (.add _ _)
  | .choice options => (growsTo_plantAll g options).trans (.add _ _)
  | .times child _ _ => (growsTo_plant g child).trans (.add _ _)
  | .map child mapper => (growsTo_plant g child).trans ((GrowsTo.addMapper _ mapper).trans (.add _ _))
  | .mapBy child _ => (growsTo_plant g child).trans (.add _ _)
  | .chain child next => (growsTo_plant g child).trans ((GrowsTo.addContinuation _ next).trans (.add _ _))
  | .chainBy child _ => (growsTo_plant g child).trans (.add _ _)
  | .look child _ => (growsTo_plant g child).trans (.add _ _)
  | .named child _ => (growsTo_plant g child).trans (.add _ _)

theorem growsTo_plantAll (g : Graph) : ∀ rs : List Recipe, g.GrowsTo (g.plantAll rs).2
  | [] => .refl g
  | r :: rs => (growsTo_plant g r).trans (growsTo_plantAll _ rs)
end

theorem growsTo_refer (g : Graph) (name : String) : g.GrowsTo (g.refer name).2 :=
  (GrowsTo.add g .never).trans (.add _ _)

/-- A rule that refers to itself changes no node but the reference that is made for it. -/
theorem growsTo_growRec {rule : NodeId → Planting NodeId} (h : ∀ id (g : Graph), g.GrowsTo (rule id g).2)
    (g : Graph) :
    g.GrowsTo (growRec rule g).2 := by
  have hg := (GrowsTo.add g (.deferred (.node g.nodes.size))).trans (h g.nodes.size _)
  refine ⟨fun {id n} hn => ?_, hg.mappers, hg.continuations⟩
  have hid : g.nodes.size ≠ id := by
    rintro rfl
    rw [Array.getElem?_eq_none (Nat.le_refl _)] at hn
    cases hn
  exact (Array.getElem?_setIfInBounds_ne hid).trans (hg.nodes hn)

/-! ## What a recipe has been planted as -/

def Has (g : Graph) (first : NodeId) (n : Node) (id : NodeId) : Prop :=
  first ≤ id ∧ g.nodes[id]? = some n

mutual
/-- The graph holds what a recipe describes at a node. The nodes of the recipe's own have numbers from `first` on. -/
def Holds (g : Graph) (first : NodeId) : Recipe → NodeId → Prop
  | .node id, x => x = id
  | .literal text, x => g.Has first (.literal text) x
  | .pattern leaf, x => g.Has first (.pattern leaf) x
  | .always, x => g.Has first .always x
  | .never, x => g.Has first .never x
  | .sequence items, x => ∃ ids, g.HoldsAll first items ids ∧ g.Has first (.sequence ids) x
  | .choice options, x => ∃ ids, g.HoldsAll first options ids ∧ g.Has first (.choice ids) x
  | .times child least most, x => ∃ id, g.Holds first child id ∧ g.Has first (.times id least most) x
  | .map child mapper, x => ∃ id m, g.Holds first child id ∧ g.mappers[m]? = some mapper ∧ g.Has first (.map id m) x
  | .mapBy child mapper, x => ∃ id, g.Holds first child id ∧ g.Has first (.map id mapper) x
  | .chain child next, x =>
    ∃ id k, g.Holds first child id ∧ g.continuations[k]? = some next ∧ g.Has first (.chain id k) x
  | .chainBy child next, x => ∃ id, g.Holds first child id ∧ g.Has first (.chain id next) x
  | .look child polarity, x => ∃ id, g.Holds first child id ∧ g.Has first (.look id polarity) x
  | .named child label, x => ∃ id, g.Holds first child id ∧ g.Has first (.named id label) x

def HoldsAll (g : Graph) (first : NodeId) : List Recipe → List NodeId → Prop
  | [], [] => True
  | r :: rs, x :: xs => g.Holds first r x ∧ g.HoldsAll first rs xs
  | _, _ => False
end

variable {first : NodeId}

theorem Has.node_eq {n : Node} {x : NodeId} (h : g.Has first n x) : g.node x = n := by
  rw [node, h.2]
  rfl

structure AgreesFrom (first : NodeId) (g g' : Graph) : Prop where
  nodes : ∀ {id : Nat} {n}, first ≤ id → g.nodes[id]? = some n → g'.nodes[id]? = some n
  mappers : ∀ {m : Nat} {f}, g.mappers[m]? = some f → g'.mappers[m]? = some f
  continuations : ∀ {k : Nat} {f}, g.continuations[k]? = some f → g'.continuations[k]? = some f

theorem GrowsTo.agreesFrom (h : g.GrowsTo g') (first : NodeId) : AgreesFrom first g g' :=
  ⟨fun _ => h.nodes, h.mappers, h.continuations⟩

theorem Has.mono {n : Node} {x : NodeId} (h : g.Has first n x) (hg : AgreesFrom first g g') : g'.Has first n x :=
  ⟨h.1, hg.nodes h.1 h.2⟩

theorem has_add {n : Node} (hf : first ≤ g.size) : (g.add n).2.Has first n (g.add n).1 :=
  ⟨hf, Array.getElem?_push_size⟩

mutual
theorem Holds.of_agrees (hg : AgreesFrom first g g') : ∀ {r : Recipe} {x : NodeId}, g.Holds first r x → g'.Holds first r x
  | .node _, _, h => h
  | .literal _, _, h | .pattern _, _, h | .always, _, h | .never, _, h => Has.mono h hg
  | .sequence _, _, ⟨ids, hr, h⟩ | .choice _, _, ⟨ids, hr, h⟩ => ⟨ids, HoldsAll.of_agrees hg hr, h.mono hg⟩
  | .times .., _, ⟨id, hr, h⟩ | .mapBy .., _, ⟨id, hr, h⟩ | .chainBy .., _, ⟨id, hr, h⟩ | .look .., _, ⟨id, hr, h⟩
  | .named .., _, ⟨id, hr, h⟩ => ⟨id, Holds.of_agrees hg hr, h.mono hg⟩
  | .map .., _, ⟨id, m, hr, hm, h⟩ => ⟨id, m, Holds.of_agrees hg hr, hg.mappers hm, h.mono hg⟩
  | .chain .., _, ⟨id, k, hr, hk, h⟩ => ⟨id, k, Holds.of_agrees hg hr, hg.continuations hk, h.mono hg⟩

theorem HoldsAll.of_agrees (hg : AgreesFrom first g g') : ∀ {rs : List Recipe} {xs : List NodeId},
    g.HoldsAll first rs xs → g'.HoldsAll first rs xs
  | [], [], h => h
  | _ :: _, _ :: _, ⟨h, hs⟩ => ⟨Holds.of_agrees hg h, HoldsAll.of_agrees hg hs⟩
end

theorem Holds.mono (hg : g.GrowsTo g') {r : Recipe} {x : NodeId} (h : g.Holds first r x) : g'.Holds first r x :=
  h.of_agrees (hg.agreesFrom first)

theorem HoldsAll.mono (hg : g.GrowsTo g') {rs : List Recipe} {xs : List NodeId} (h : g.HoldsAll first rs xs) :
    g'.HoldsAll first rs xs :=
  h.of_agrees (hg.agreesFrom first)

mutual
/-- A graph holds what has just been planted in it. -/
theorem holds_plant : ∀ (r : Recipe) {g : Graph}, first ≤ g.size → (g.plant r).2.Holds first r (g.plant r).1
  | .node _, _, _ => rfl
  | .literal _, _, hf | .pattern _, _, hf | .always, _, hf | .never, _, hf => has_add hf
  | .sequence items, g, hf | .choice items, g, hf =>
    have hl := Nat.le_trans hf (growsTo_plantAll g items).size_le
    ⟨_, HoldsAll.mono (.add _ _) (holds_plantAll items hf), has_add hl⟩
  | .times child _ _, g, hf | .mapBy child _, g, hf | .chainBy child _, g, hf | .look child _, g, hf
  | .named child _, g, hf =>
    have hl := Nat.le_trans hf (growsTo_plant g child).size_le
    ⟨_, Holds.mono (.add _ _) (holds_plant child hf), has_add hl⟩
  | .map child mapper, g, hf =>
    have hl := Nat.le_trans hf (growsTo_plant g child).size_le
    ⟨_, _, Holds.mono ((GrowsTo.addMapper _ mapper).trans (.add _ _)) (holds_plant child hf), Array.getElem?_push_size,
      has_add hl⟩
  | .chain child next, g, hf =>
    have hl := Nat.le_trans hf (growsTo_plant g child).size_le
    ⟨_, _, Holds.mono ((GrowsTo.addContinuation _ next).trans (.add _ _)) (holds_plant child hf),
      Array.getElem?_push_size, has_add hl⟩

theorem holds_plantAll : ∀ (rs : List Recipe) {g : Graph}, first ≤ g.size →
    (g.plantAll rs).2.HoldsAll first rs (g.plantAll rs).1
  | [], _, _ => trivial
  | r :: rs, g, hf =>
    have hl := Nat.le_trans hf (growsTo_plant g r).size_le
    ⟨Holds.mono (growsTo_plantAll _ rs) (holds_plant r hf), holds_plantAll rs hl⟩
end

/-- A rule that refers to itself: the reference stands for the rule, and all that the rule is made of is there. -/
theorem holds_growRec {rule : NodeId → Planting NodeId} (h : ∀ id (g : Graph), g.GrowsTo (rule id g).2) {g : Graph}
    {built : NodeId × Graph} (hbuilt : rule g.size (g.add (.deferred (.node g.size))).2 = built) :
    (growRec rule g).2.nodes[g.size]? = some (.deferred (.node built.1)) ∧
      AgreesFrom (g.size + 1) built.2 (growRec rule g).2 := by
  subst hbuilt
  have hlt : g.size < (rule g.size (g.add (.deferred (.node g.size))).2).2.nodes.size := by
    have hl := (h g.size (g.add (.deferred (.node g.size))).2).size_le
    simp only [size, add, Array.size_push] at hl ⊢
    omega
  refine ⟨Array.getElem?_setIfInBounds_self_of_lt hlt, fun {id n} hid hn => ?_, id, id⟩
  have hne : g.size ≠ id := Nat.ne_of_lt hid
  exact (Array.getElem?_setIfInBounds_ne hne).trans hn

end Graph

end FurthestMatch
