import FurthestMatch.Proofs.Decision
import FurthestMatch.Proofs.Framing

/-!
# Where a drawing stops

A drawing goes down from child to child and is cut where a node would be drawn inside itself, and nowhere else. So no
two nodes are the same on any way down, and the ways are no longer than there are nodes. What stands twice, but not
inside itself, is drawn twice.
-/

namespace FurthestMatch

/-! ## The places of an outline -/

namespace Outline

def path : Outline → Path
  | .marker path | .named path .. | .node path .. => path

def core : Outline → Outline
  | .named _ _ _ inner => inner.core
  | out => out

def labels : Outline → List Text
  | .named _ _ label inner => label :: inner.labels
  | _ => []

/-- An outline draws an occurrence, and what is drawn there is an outline of its own. -/
inductive Draws : Outline → Outline → Prop
  | self (out) : Draws out out
  | child {out path framed shape parts part last} (hc : out.core = .node path framed shape parts) (hm : part ∈ parts)
      (h : Draws part last) : Draws out last

end Outline

namespace Rulebook

variable {b : Rulebook} {root : NodeId}

inductive Labels (b : Rulebook) : NodeId → NodeId → List Text → Prop
  | refl (id) : Labels b id id []
  | named {id child label last labels} (hn : b.node id = .named child label) (h : Labels b child last labels) :
      Labels b id last (label.toList :: labels)
  | deferred {id target last labels} (hn : b.node id = .deferred target)
      (h : Labels b (b.target id target) last labels) : Labels b id last labels

theorem Labels.leads {id last : NodeId} {labels : List Text} (h : b.Labels id last labels) : b.Leads id last := by
  induction h with
  | refl => exact .refl _
  | named hn _ ih => exact .step (inner?_named hn) ih
  | deferred hn _ ih => exact .step (inner?_deferred hn) ih

/-- An occurrence of a drawing. Its node `s` and the nodes of the occurrences around it are those that are drawn, with
names and references followed. It is cut exactly when its node is drawn further out. Otherwise its children are drawn,
all of them but an option that amounts to no characters. -/
structure CutAtRepeats (b : Rulebook) (root : NodeId) (part : Outline) (s : Step) (outside : List Step) : Prop where
  descent : b.Descent root part.path (s :: outside)
  labels : ∃ id path, part.path = ⟨id, s.slot⟩ :: path ∧ b.Labels id s.node part.labels
  distinct : (outside.map Step.node).Nodup
  cut : (∃ place, part.core = .marker place) ↔ s.node ∈ outside.map Step.node
  full : s.node ∉ outside.map Step.node → ∃ framed shape children parts,
    part.core = .node part.path framed shape parts ∧ (b.shape s.node part.path).result = .ok (shape, children) ∧
      parts.map Outline.path = children.mapIdx (fun slot child => part.path.child child slot) ∧
      (children = (b.node s.node).children ∨
        ∃ first second, children = [first] ∧ (b.node s.node).children = [first, second] ∧ b.Hides s.node 1)

/-! ## What is drawn at an occurrence -/

/-- Names become boxes, and references are followed, up to a node that is drawn itself. -/
theorem core_of_outline : ∀ {fuel : Nat} {spot : Option Spot} {id : NodeId} {path : Path} {out : Outline},
    (b.outline fuel spot id path).result = .ok out → ∃ last fuel' spot', b.Labels id last out.labels ∧
      b.inner? last = none ∧ out.path = path ∧ b.Drawn fuel' spot' last path out.core
  | 0, _, _, _, _, h => nomatch h
  | fuel + 1, spot, id, path, out, h => by
    cases hn : b.node id with
    | deferred target =>
      simp only [outline, hn] at h
      obtain ⟨_, -, h⟩ := Walk.result_bind_eq_ok.mp h
      obtain ⟨last, fuel', spot', hl, hrest⟩ := core_of_outline h
      exact ⟨last, fuel', spot', .deferred hn hl, hrest⟩
    | named child label =>
      simp only [outline, hn] at h
      obtain ⟨inner, ho, h⟩ := Walk.result_bind_eq_ok.mp h
      cases h
      obtain ⟨last, fuel', spot', hl, hi, -, hd⟩ := core_of_outline ho
      exact ⟨last, fuel', spot', .named hn hl, hi, rfl, hd⟩
    | _ =>
      have hi : b.inner? id = none := by rw [inner?, hn]
      have hd := drawn_of_outline h
      refine ⟨id, fuel, spot, ?_⟩
      cases hd with
      | deferred hi' | named hi' => cases hi.symm.trans hi'
      | marker _ he => exact ⟨.refl id, hi, rfl, .marker hi he⟩
      | node _ he hf hs ho => exact ⟨.refl id, hi, rfl, .node hi he hf hs ho⟩

theorem part_of_outlineAll {outline : NodeId → Path → Walk Outline} {path : Path} : ∀ {children : List NodeId}
    {slot : Nat} {parts : List Outline}, (outlineAll outline path children slot).result = .ok parts →
      parts.length = children.length ∧ ∀ i child part, children[i]? = some child → parts[i]? = some part →
        (outline child (path.child child (slot + i))).result = .ok part
  | [], _, _, h => by
    cases h
    exact ⟨rfl, by simp⟩
  | child :: children, slot, parts, h => by
    obtain ⟨first, h₁, h⟩ := Walk.result_bind_eq_ok.mp h
    obtain ⟨others, h₂, h⟩ := Walk.result_bind_eq_ok.mp h
    cases h
    obtain ⟨hl, ho⟩ := part_of_outlineAll h₂
    refine ⟨by simp [hl], fun i c part hc hp => ?_⟩
    cases i with
    | zero =>
      cases hc
      cases hp
      exact h₁
    | succ i =>
      rw [show slot + (i + 1) = slot + 1 + i by omega]
      exact ho i c part hc hp

theorem path_of_outlineAll {fuel : Nat} {spot : Option Spot} {path : Path} {children : List NodeId}
    {parts : List Outline} (h : (outlineAll (b.outline fuel spot) path children 0).result = .ok parts) :
    parts.map Outline.path = children.mapIdx (fun slot child => path.child child slot) := by
  obtain ⟨hl, hp⟩ := part_of_outlineAll h
  refine List.ext_getElem (by simp [hl]) fun i h₁ h₂ => ?_
  rw [List.length_map] at h₁
  rw [List.length_mapIdx] at h₂
  obtain ⟨_, _, _, _, _, he, _⟩ :=
    core_of_outline (hp i _ _ (List.getElem?_eq_getElem h₂) (List.getElem?_eq_getElem h₁))
  simp [he]

section
variable {fuel : Nat} {spot : Option Spot} {id : NodeId} {path : Path} {s : Step} {outside : List Step}
  {out : Outline} (ho : (b.outline fuel spot id path).result = .ok out) (hd : b.Descent root path (s :: outside))
  (hr : b.Resolves id s.node)
include ho hd hr

/-- The mark is drawn of a node that stands further out, and the children of any other. -/
theorem core_of_descent : s.node ∈ outside.map Step.node ∧ out.core = .marker path ∨
    s.node ∉ outside.map Step.node ∧ ∃ fuel' inside framed shape children parts,
      out.core = .node path framed shape parts ∧ (b.shape s.node path).result = .ok (shape, children) ∧
        (outlineAll (b.outline fuel' inside) path children 0).result = .ok parts := by
  obtain ⟨last, fuel', spot', hl, hi, -, hcore⟩ := core_of_outline ho
  obtain rfl := hr.unique ⟨hl.leads, hi⟩
  generalize out.core = core at hcore
  cases hcore with
  | deferred hi' | named hi' => cases hi.symm.trans hi'
  | marker _ he => exact .inl ⟨(isEnclosed_eq hd he).mp rfl, rfl⟩
  | node _ he _ hs ho =>
    exact .inr ⟨fun hm => Bool.false_ne_true ((isEnclosed_eq hd he).mpr hm), _, _, _, _, _, _, rfl, hs, ho⟩

variable (hn : (outside.map Step.node).Nodup)
include hn

theorem cutAtRepeats_of_outline (hp : ∃ outer, path = ⟨id, s.slot⟩ :: outer) :
    b.CutAtRepeats root out s outside := by
  obtain ⟨last, _, _, hl, hi, he, -⟩ := core_of_outline ho
  obtain rfl := hr.unique ⟨hl.leads, hi⟩
  obtain ⟨outer, rfl⟩ := hp
  refine ⟨he ▸ hd, ⟨id, outer, he, hl⟩, hn, ?cut, ?full⟩
  all_goals rcases core_of_descent ho hd hr with ⟨hm, hc⟩ | ⟨hm, _, _, _, _, _, _, hc, hs, hparts⟩
  · exact ⟨fun _ => hm, fun _ => ⟨_, hc⟩⟩
  · refine ⟨fun ⟨_, h⟩ => ?_, fun h => absurd h hm⟩
    cases hc.symm.trans h
  · exact fun h => absurd hm h
  · exact fun _ => ⟨_, _, _, _, he ▸ hc, he ▸ hs, he ▸ path_of_outlineAll hparts, children_of_shape hs⟩

theorem outline_of_part {place : Path} {framed : Bool} {shape : Shape} {parts : List Outline} {part : Outline}
    (hc : out.core = .node place framed shape parts) (hm : part ∈ parts) :
    ∃ fuel' spot' child last slot, (b.outline fuel' spot' child (path.child child slot)).result = .ok part ∧
      b.Descent root (path.child child slot) (⟨last, slot⟩ :: s :: outside) ∧ b.Resolves child last ∧
        ((s :: outside).map Step.node).Nodup := by
  rcases core_of_descent ho hd hr with ⟨-, he⟩ | ⟨hfresh, fuel', inside, _, _, children, _, he, hs, hparts⟩
  · cases hc.symm.trans he
  · cases hc.symm.trans he
    obtain ⟨i, hi, rfl⟩ := List.getElem_of_mem hm
    obtain ⟨hl, hpart⟩ := part_of_outlineAll hparts
    have hchild := List.getElem?_eq_getElem (hl ▸ hi)
    have ho' := hpart i _ _ hchild (List.getElem?_eq_getElem hi)
    rw [Nat.zero_add] at ho'
    obtain ⟨last, hlast⟩ := resolves_of_outline ho'
    exact ⟨fuel', inside, _, last, i, ho', hd.child (child_of_drawn hs hchild) hlast, hlast,
      List.nodup_cons.mpr ⟨hfresh, hn⟩⟩

end

theorem cutAtRepeats_of_draws {out part : Outline} (h : out.Draws part) : ∀ {fuel : Nat} {spot : Option Spot}
    {id : NodeId} {path : Path} {s : Step} {outside : List Step},
    (b.outline fuel spot id path).result = .ok out → b.Descent root path (s :: outside) → b.Resolves id s.node →
      (outside.map Step.node).Nodup → (∃ outer, path = ⟨id, s.slot⟩ :: outer) →
        ∃ s' outside', b.CutAtRepeats root part s' outside' := by
  induction h with
  | self out => exact fun ho hd hr hn hp => ⟨_, _, cutAtRepeats_of_outline ho hd hr hn hp⟩
  | child hc hm _ ih =>
    intro fuel spot id path s outside ho hd hr hn _
    obtain ⟨_, _, child, last, slot, ho', hd', hr', hn'⟩ := outline_of_part ho hd hr hn hc hm
    exact ih ho' hd' hr' hn' ⟨path, rfl⟩

theorem answers_spot? (h : ∀ id, (b.resolve id).Answers) : ∀ highlight : Option Highlight,
    (b.spot? highlight).Answers
  | none => .pure _
  | some (.node id) => .bind (.bind (answers_dereferenceFrom (h id)) fun _ _ => .pure _) fun _ _ => .pure _
  | some (.path _) => .bind (.bind (stopsFor_steps (fun id (_ : True) => h id) fun _ _ => trivial)
      fun _ _ => .pure _) fun _ _ => .pure _

theorem result_render (b : Rulebook) (config : Config) (root : NodeId) (indentation : Text) (newline : Bool)
    (highlight : Option Highlight) : (b.render config root indentation newline highlight).result =
      (b.sketch root highlight).result.map fun out =>
        (if newline then '\n' :: indentation else []) ++ (out.block config).toText indentation := by
  rw [render, Walk.result_bind]
  cases (b.sketch root highlight).result with
  | error => rfl
  | ok => cases newline <;> rfl

end Rulebook

open Rulebook

/-- A grammar without loops of names and references is drawn, whatever is highlighted in it. The drawing is that of an
outline that is cut exactly where a node stands inside itself: see `CutAtRepeats`. -/
theorem drawing_is_cut_at_repeats {b : Rulebook} (h : ∀ id, b.LoopFree id) (config : Config) (root : NodeId)
    (indentation : Text) (newline : Bool) (highlight : Option Highlight) :
    ∃ out, (b.sketch root highlight).result = .ok out ∧
      (b.render config root indentation newline highlight).result =
        .ok ((if newline then '\n' :: indentation else []) ++ (out.block config).toText indentation) ∧
      out.path = Path.root root ∧
      ∀ part, out.Draws part → ∃ s outside, b.CutAtRepeats root part s outside := by
  have hresolve (id : NodeId) : (b.resolve id).Answers := (h id).grounded id .root
  obtain ⟨out, hout⟩ := (answers_sketch (h root).grounded (answers_spot? hresolve highlight)).answers
  obtain ⟨spot, -, ho⟩ := Walk.result_bind_eq_ok.mp hout
  obtain ⟨last, hl⟩ := (hresolve root).answers
  have hr := resolves_of_resolve hl
  obtain ⟨_, _, _, _, _, hp, _⟩ := core_of_outline ho
  refine ⟨out, hout, ?_, hp, fun part hpart =>
    cutAtRepeats_of_draws hpart ho (.root hr) hr List.nodup_nil ⟨[], rfl⟩⟩
  rw [result_render, hout]
  rfl

def rings : Rulebook where
  graph := { nodes := #[.literal "a", .deferred (.node 2), .named 3 "ring", .sequence [0, 1, 0]] }

theorem loopFree_rings : ∀ root, rings.LoopFree root := by
  refine loopFree_of_rank (fun id => [0, 2, 1].getD id 0) fun id next hi => ?_
  match id, hi with
  | 1, hi | 2, hi => cases hi; decide
  | 0, hi | 3, hi | _ + 4, hi => cases hi

theorem cut_of_rings : ∃ out part s outside, (rings.sketch 2 (some (.node 0))).result = .ok out ∧ out.Draws part ∧
    rings.CutAtRepeats 2 part s outside ∧ part.labels = ["ring".toList] ∧ s.node ∈ outside.map Step.node := by
  obtain ⟨out, hout, -, -, hcut⟩ := drawing_is_cut_at_repeats loopFree_rings {} 2 [' '] true (some (.node 0))
  cases hout.symm.trans rfl
  obtain ⟨s, outside, hs⟩ := hcut _ (.child rfl (.tail _ (.head _)) (.self _))
  exact ⟨_, _, s, outside, hout, .child rfl (.tail _ (.head _)) (.self _), hs, rfl, hs.cut.mp ⟨_, rfl⟩⟩

end FurthestMatch
