import FurthestMatch.Drawing.Tree
import FurthestMatch.Proofs.Halting
import FurthestMatch.Proofs.Resolution

/-!
# Drawings come to an end

No node is drawn inside itself, so a drawing is nested no deeper than there are nodes, with the names and references
between two of them. It fails only where names and references lead to each other for ever, and it never needs the
text of a match.
-/

namespace FurthestMatch

namespace Rulebook

variable {b : Rulebook} {root : NodeId}

/-- What an optional choice is told by. -/
theorem optional?_eq_ok {options : List NodeId} {option? : Option NodeId}
    (h : (b.optional? options).result = .ok option?) : option? = none ∨
      ∃ first second last, options = [first, second] ∧ option? = some first ∧ b.Resolves second last ∧
        b.node last = .always := by
  unfold optional? at h
  split at h
  · rename_i first second
    obtain ⟨last, hl, h⟩ := Walk.result_bind_eq_ok.mp h
    split at h
    · rename_i ha
      cases h
      exact .inr ⟨first, second, last, rfl, rfl, resolves_of_resolve hl, ha⟩
    · cases h
      exact .inl rfl
  · cases h
    exact .inl rfl

/-! ## What a drawing asks at an occurrence

Everything that is asked about an occurrence comes down to following names and references from the nodes around it
and just below it. -/

section
variable {why : Halt → Prop} {near : NodeId → Prop} (hr : ∀ id, near id → (b.resolve id).StopsFor why)
  (hd : ∀ id, near id → (b.dereference id).StopsFor why)
  (hc : ∀ id child, near id → child ∈ (b.node id).children → near child)

theorem stopsFor_steps (hr : ∀ id, near id → (b.resolve id).StopsFor why) : ∀ {path : Path},
    (∀ s ∈ path, near s.node) → (b.steps path).StopsFor why
  | [], _ => .pure _
  | step :: _, h => .bind (hr _ (h step List.mem_cons_self)) fun _ _ =>
    .bind (stopsFor_steps hr fun s hm => h s (List.mem_cons_of_mem _ hm)) fun _ _ => .pure _

theorem stopsFor_isMatchedAt (hr : ∀ id, near id → (b.resolve id).StopsFor why) (id : NodeId) : ∀ {path : Path},
    (∀ s ∈ path, near s.node) → (b.isMatchedAt id path).StopsFor why
  | [], _ => .pure _
  | step :: path, h => by
    refine .bind (hr _ (h step List.mem_cons_self)) fun _ _ => ?_
    split
    · exact .pure _
    · exact stopsFor_isMatchedAt hr id fun s hm => h s (List.mem_cons_of_mem _ hm)

theorem stopsFor_isEnclosed (hr : ∀ id, near id → (b.resolve id).StopsFor why) (id : NodeId) {path : Path}
    (h : ∀ s ∈ path, near s.node) : (b.isEnclosed path id).StopsFor why :=
  stopsFor_isMatchedAt hr id fun s hm => h s (List.mem_of_mem_tail hm)

include hr hc

theorem stopsFor_shape {id : NodeId} (hi : near id) {path : Path} (h : ∀ s ∈ path, near s.node) :
    (b.shape id path).StopsFor why := by
  rw [shape]
  split
  case h_6 options hn =>
    have hin (option : NodeId) (ho : option ∈ options) : near option := hc id option hi (by rw [hn]; exact ho)
    refine .bind ?_ fun option ho => ?_
    · unfold optional?
      split
      · exact .bind (hr _ (hin _ (by simp))) fun _ _ => .pure _
      · exact .pure _
    · split
      · rename_i first
        have hf : near first := by
          obtain he | ⟨_, _, _, rfl, he, -⟩ := optional?_eq_ok ho
          · cases he
          · cases he
            exact hin first List.mem_cons_self
        refine .bind (.bind (hr first hf) fun below _ => ?_) fun _ _ => .pure _
        split
        · exact .pure _
        · exact stopsFor_isMatchedAt hr below h
      · exact .pure _
  all_goals exact .pure _

include hd

theorem stopsFor_framing (spot : Option Spot) {id : NodeId} (hi : near id) {path : Path}
    (h : ∀ s ∈ path, near s.node) : (b.framing spot id path).StopsFor why := by
  refine .bind ?_ fun claimed _ => ?_
  · match spot with
    | none | some (.node _) => exact .pure _
    | some (.occurrence _) => exact .bind (stopsFor_steps hr h) fun _ _ => .pure _
  · split
    · exact .pure _
    · rename_i hn _
      exact .bind (hd _ (hc id _ hi (by rw [hn]; exact List.mem_singleton_self _))) fun _ _ => .pure _
    · exact .pure _

end

/-! ## Which children are drawn -/

section
variable {id : NodeId} {path : Path} {shape : Shape} {children : List NodeId}
  (h : (b.shape id path).result = .ok (shape, children))
include h

theorem children_of_shape : children = (b.node id).children ∨
    ∃ first second, children = [first] ∧ (b.node id).children = [first, second] ∧ b.Hides id 1 := by
  unfold Rulebook.shape at h
  split at h
  case h_6 options hn =>
    obtain ⟨option?, ho, h⟩ := Walk.result_bind_eq_ok.mp h
    rw [hn]
    obtain rfl | ⟨first, second, last, rfl, rfl, hl, ha⟩ := optional?_eq_ok ho
    · cases h
      exact .inl rfl
    · obtain ⟨bare, -, h⟩ := Walk.result_bind_eq_ok.mp h
      cases h
      exact .inr ⟨first, second, rfl, rfl, rfl, first, second, last, hn, hl, ha⟩
  all_goals
    rename_i hn
    cases h
    rw [hn]
    exact .inl rfl

theorem child_of_drawn {slot : Nat} {child : NodeId} (hc : children[slot]? = some child) :
    (b.node id).children[slot]? = some child := by
  rcases children_of_shape h with rfl | ⟨first, second, rfl, hn, -⟩
  · exact hc
  · cases slot with
    | zero => rw [hn]; exact hc
    | succ => cases hc

theorem drawn_of_child {slot : Nat} {child : NodeId} (hc : (b.node id).children[slot]? = some child)
    (hs : ¬b.Hides id slot) : children[slot]? = some child := by
  rcases children_of_shape h with rfl | ⟨first, second, rfl, hn, hh⟩
  · exact hc
  · rw [hn] at hc
    match slot with
    | 0 => exact hc
    | 1 => exact absurd hh hs
    | _ + 2 => cases hc

end

/-! ## No text is needed -/

theorem aligned_resolveFrom : ∀ (fuel : Nat) (id : NodeId), (b.resolveFrom fuel id).Aligned
  | 0, _ => Walk.Aligned.exhausted
  | fuel + 1, id => by
    rw [resolveFrom]
    split
    · exact aligned_resolveFrom fuel _
    · exact .bind (.follow _) fun _ _ => aligned_resolveFrom fuel _
    · exact .pure _

theorem aligned_dereferenceFrom : ∀ (fuel : Nat) (id : NodeId), (b.dereferenceFrom fuel id).Aligned
  | 0, _ => Walk.Aligned.exhausted
  | fuel + 1, id => by
    rw [dereferenceFrom]
    split
    · exact .bind (.follow _) fun _ _ => aligned_dereferenceFrom fuel _
    · exact .pure _

theorem stopsFor_outlineAll {why : Halt → Prop} {outline : NodeId → Path → Walk Outline} {path : Path} :
    ∀ {children : List NodeId} {slot : Nat},
      (∀ i child, children[i]? = some child → (outline child (path.child child (slot + i))).StopsFor why) →
        (outlineAll outline path children slot).StopsFor why
  | [], _, _ => .pure _
  | _ :: _, slot, h => .bind (h 0 _ rfl) fun _ _ =>
    .bind (stopsFor_outlineAll fun i c hc => by
      rw [show slot + 1 + i = slot + (i + 1) by omega]
      exact h (i + 1) c hc) fun _ _ => .pure _

theorem aligned_outline : ∀ (fuel : Nat) (spot : Option Spot) (id : NodeId) (path : Path),
    (b.outline fuel spot id path).Aligned
  | 0, _, _, _ => Walk.Aligned.exhausted
  | fuel + 1, spot, id, path => by
    have hr (id : NodeId) (_ : True) : (b.resolve id).Aligned := aligned_resolveFrom _ id
    have hd (id : NodeId) (_ : True) : (b.dereference id).Aligned := aligned_dereferenceFrom _ id
    have hp : ∀ s ∈ path, True := fun _ _ => trivial
    rw [outline]
    split
    · exact .bind (.follow _) fun _ _ => aligned_outline fuel _ _ _
    · exact .bind (aligned_outline fuel _ _ _) fun _ _ => .pure _
    · refine .bind (stopsFor_isEnclosed hr id hp) fun enclosed _ => ?_
      split
      · exact .pure _
      · refine .bind (stopsFor_framing hr hd (fun _ _ _ _ => trivial) spot trivial hp) fun framing _ =>
          .bind (stopsFor_shape hr (fun _ _ _ _ => trivial) trivial hp) fun shape _ => ?_
        exact .bind (stopsFor_outlineAll fun _ _ _ => aligned_outline fuel _ _ _) fun _ _ => .pure _

theorem aligned_spot? : ∀ highlight : Option Highlight, (b.spot? highlight).Aligned
  | none => .pure _
  | some (.node _) => .bind (.bind (aligned_dereferenceFrom _ _) fun _ _ => .pure _) fun _ _ => .pure _
  | some (.path _) => .bind (.bind (stopsFor_steps (fun id (_ : True) => aligned_resolveFrom _ id)
      fun _ _ => trivial) fun _ _ => .pure _) fun _ _ => .pure _

theorem aligned_render (b : Rulebook) (config : Config) (root : NodeId) (indentation : Text) (newline : Bool)
    (highlight : Option Highlight) : (b.render config root indentation newline highlight).Aligned :=
  .bind (.bind (aligned_spot? highlight) fun _ _ => aligned_outline _ _ _ _) fun _ _ => .pure _

/-! ## Drawings of grounded grammars -/

inductive Inside (b : Rulebook) (root : NodeId) : NodeId → Prop
  | root : Inside b root root
  | inner {id next} (h : Inside b root id) (hi : b.inner? id = some next) : Inside b root next
  | child {id child} (h : Inside b root id) (hc : child ∈ (b.node id).children) : Inside b root child

/-- All names and references of a grammar lead to a node of another kind. -/
def Grounded (b : Rulebook) (root : NodeId) : Prop :=
  ∀ id, b.Inside root id → (b.resolve id).Answers

theorem Inside.leads {id last : NodeId} (h : b.Inside root id) (hl : b.Leads id last) : b.Inside root last := by
  induction hl with
  | refl => exact h
  | step hi _ ih => exact ih (h.inner hi)

theorem Descent.inside {path : Path} {steps : List Step} (h : Descent b root path steps) :
    (∀ s ∈ path, b.Inside root s.node) ∧ ∀ s ∈ steps, b.Inside root s.node := by
  induction h with
  | root hr =>
    refine ⟨fun s hs => ?_, fun s hs => ?_⟩
    · cases List.mem_singleton.mp hs
      exact .root
    · cases List.mem_singleton.mp hs
      exact Inside.root.leads hr.leads
  | child _ hc hr ih =>
    obtain ⟨hp, hs⟩ := ih
    have hin := (hs _ List.mem_cons_self).child (List.mem_of_getElem? hc)
    refine ⟨fun s hm => ?_, fun s hm => ?_⟩
    · rcases List.mem_cons.mp hm with rfl | hm
      · exact hin
      · exact hp s hm
    · rcases List.mem_cons.mp hm with rfl | hm
      · exact hin.leads hr.leads
      · exact hs s hm

theorem answers_dereferenceFrom : ∀ {fuel : Nat} {id : NodeId}, (b.resolveFrom fuel id).Answers →
    (b.dereferenceFrom fuel id).Answers
  | 0, _, h => absurd rfl (h _)
  | fuel + 1, id, h => by
    obtain ⟨last, h⟩ := h.answers
    rw [resolveFrom] at h
    rw [dereferenceFrom]
    split
    · rename_i hn
      rw [hn] at h
      obtain ⟨_, -, h⟩ := Walk.result_bind_eq_ok.mp h
      exact .bind (.follow _) fun _ _ => answers_dereferenceFrom (.of_ok h)
    · exact .pure _

theorem lt_size_of_children {id : NodeId} (h : (b.node id).children ≠ []) : id < b.graph.size := by
  refine Decidable.byContradiction fun hl => h ?_
  rw [node, Graph.node, Array.getElem?_eq_none (Nat.le_of_not_lt hl)]
  rfl

/-- Around an occurrence without repeated nodes there are no more nodes than there are at all. -/
theorem Trail.length_le_size {s : Step} {outside : List Step} (h : Trail b root (s :: outside))
    (hn : (outside.map Step.node).Nodup) : outside.length ≤ b.graph.size := by
  have hs : outside.map Step.node ⊆ List.range b.graph.size := by
    intro id hid
    obtain ⟨t, ht, rfl⟩ := List.mem_map.mp hid
    exact List.mem_range.mpr (lt_size_of_children (h.children_ne_nil t ht))
  have hl := List.Nodup.length_le_of_subset hn hs
  rwa [List.length_map, List.length_range] at hl

/-- Enough depth for an occurrence: a drawing that is nested in it once has a node less to draw, and follows the
names and references to the next one. -/
def depthAt (b : Rulebook) (outside : List Step) (links : Nat) : Nat :=
  (b.graph.size + 1 - outside.length) * (b.graph.size + 2) + links

theorem lt_depthAt_cons {s : Step} {outside : List Step} {links : Nat} (h : outside.length ≤ b.graph.size)
    (hl : 0 < links) : b.depthAt (s :: outside) (b.graph.size + 1) < b.depthAt outside links := by
  have hs : b.graph.size + 1 - outside.length = (b.graph.size + 1 - (s :: outside).length) + 1 := by
    rw [List.length_cons]
    omega
  rw [depthAt, depthAt, hs, Nat.add_mul]
  omega

theorem answers_outline (hg : b.Grounded root) : ∀ {fuel : Nat} {spot : Option Spot} {id : NodeId} {path : Path}
    {s : Step} {outside : List Step} {links : Nat}, b.depthAt outside links ≤ fuel → b.Inside root id →
      Descent b root path (s :: outside) → (b.resolveFrom links id).result = .ok s.node →
        (outside.map Step.node).Nodup → (b.outline fuel spot id path).Answers
  | _, _, _, _, _, _, 0, _, _, _, hr, _ => nomatch hr
  | 0, _, _, _, _, _, links + 1, hf, _, _, _, _ => absurd hf (Nat.not_succ_le_zero _)
  | fuel + 1, spot, id, path, s, outside, links + 1, hf, hi, hd, hr, hn => by
    have hl : b.depthAt outside links ≤ fuel := Nat.le_of_succ_le_succ hf
    have hs := resolves_of_resolveFrom hr
    rw [resolveFrom] at hr
    rw [outline]
    split
    · rename_i hb
      rw [hb] at hr
      obtain ⟨_, -, hr⟩ := Walk.result_bind_eq_ok.mp hr
      exact .bind (.follow _) fun _ _ => answers_outline hg hl (hi.inner (inner?_deferred hb)) hd hr hn
    · rename_i hb
      rw [hb] at hr
      exact .bind (answers_outline hg hl (hi.inner (inner?_named hb)) hd hr hn) fun _ _ => .pure _
    · rename_i hnd hnn
      obtain rfl : s.node = id := hs.leads.eq_of_ends (inner?_eq_none hnn hnd)
      have hp := hd.inside.1
      refine .bind (stopsFor_isEnclosed hg s.node hp) fun enclosed he => ?_
      split
      · exact .pure _
      · rename_i hb
        have hn' : ((s :: outside).map Step.node).Nodup :=
          List.nodup_cons.mpr ⟨fun hm => hb ((isEnclosed_eq hd he).mpr hm), hn⟩
        have hg' (id : NodeId) (h : b.Inside root id) : (b.dereference id).Answers := answers_dereferenceFrom (hg id h)
        have hc : ∀ id child, b.Inside root id → child ∈ (b.node id).children → b.Inside root child := fun _ _ => .child
        refine .bind (stopsFor_framing hg hg' hc spot hi hp) fun framing _ => .bind (stopsFor_shape hg hc hi hp)
          fun shape hshape => .bind (stopsFor_outlineAll fun i child hdrawn => ?_) fun _ _ => .pure _
        rw [Nat.zero_add]
        have hchild := child_of_drawn hshape hdrawn
        have hin := hi.child (List.mem_of_getElem? hchild)
        obtain ⟨last, hlast⟩ := (hg child hin).answers
        have hr' := resolves_of_resolve hlast
        have hdepth : b.depthAt (s :: outside) (b.graph.size + 1) < b.depthAt outside (links + 1) :=
          lt_depthAt_cons (hd.trail.length_le_size hn) (Nat.succ_pos links)
        exact answers_outline hg (Nat.le_of_lt_succ (Nat.lt_of_lt_of_le hdepth hf)) hin (hd.child hchild hr') hlast hn'

/-- A grounded grammar is drawn within the limit, whatever is highlighted in it. -/
theorem answers_sketch (hg : b.Grounded root) {highlight : Option Highlight} (h : (b.spot? highlight).Answers) :
    (b.sketch root highlight).Answers := by
  obtain ⟨last, hl⟩ := (hg root .root).answers
  have hd : Descent b root (Path.root root) [⟨last, 0⟩] := .root (resolves_of_resolve hl)
  have hlimit : b.depthAt [] (b.graph.size + 1) ≤ b.drawLimit := by
    rw [depthAt, drawLimit, Nat.add_mul b.graph.size 2, List.length_nil, Nat.sub_zero, Nat.add_mul b.graph.size 1]
    omega
  exact .bind h fun spot _ => answers_outline hg hlimit .root hd hl List.nodup_nil

end Rulebook

end FurthestMatch
