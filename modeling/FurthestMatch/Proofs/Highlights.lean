import FurthestMatch.Proofs.Markers

/-!
# Highlighted nodes

A drawing with a node highlighted is the drawing without, with a frame wherever the node is drawn. A map hands the
highlight down to its child, and so does the map that this may be, so that the marks of maps stay outside the frame. A
node that is drawn is only marked further in, so no frame stands inside another.
-/

namespace FurthestMatch

/-! ## Where a node is drawn -/

namespace Rulebook

def StandsAt (b : Rulebook) (id : NodeId) (path : Path) : Prop :=
  ∃ step outer, path = step :: outer ∧ b.Resolves step.node id

def MapsAt (b : Rulebook) (path : Path) : Prop :=
  ∃ id child mapper, b.StandsAt id path ∧ b.node id = .map child mapper

def Shows (b : Rulebook) (id : NodeId) (out : Outline) : Prop :=
  ∃ part path framed shape parts, out.Draws part ∧ part.core = .node path framed shape parts ∧ b.StandsAt id path

end Rulebook

namespace Outline

mutual
def unframed : Outline → Outline
  | .marker path => .marker path
  | .named path _ label inner => .named path false label inner.unframed
  | .node path _ shape parts => .node path false shape (unframedAll parts)

def unframedAll : List Outline → List Outline
  | [] => []
  | part :: parts => part.unframed :: unframedAll parts
end

mutual
theorem unframed_eq : ∀ {out : Outline}, out.framed = [] → out.unframed = out
  | .marker _, _ => rfl
  | .named _ framed _ inner, h => by
    obtain ⟨hf, hi⟩ := List.append_eq_nil_iff.mp h
    cases framed with
    | false => rw [unframed, unframed_eq hi]
    | true => cases hf
  | .node _ framed _ parts, h => by
    obtain ⟨hf, hp⟩ := List.append_eq_nil_iff.mp h
    cases framed with
    | false => rw [unframed, unframedAll_eq hp]
    | true => cases hf

theorem unframedAll_eq : ∀ {parts : List Outline}, framedAll parts = [] → unframedAll parts = parts
  | [], _ => rfl
  | part :: parts, h => by
    obtain ⟨hp, hps⟩ := List.append_eq_nil_iff.mp h
    rw [unframedAll, unframed_eq hp, unframedAll_eq hps]
end

/-- A frame around an outline. When a map is drawn there the frame goes around what is drawn below the map. -/
inductive Boxed (b : Rulebook) : Outline → Outline → Prop
  | named {path label inner} : Boxed b (.named path false label inner) (.named path true label inner)
  | node {path shape parts} (hm : ¬b.MapsAt path) : Boxed b (.node path false shape parts) (.node path true shape parts)
  | map {path shape part part'} (hm : b.MapsAt path) (h : Boxed b part part') :
      Boxed b (.node path false shape [part]) (.node path false shape [part'])

/-- There is nothing but the mark of a rule, or maps of it. -/
inductive EndsInMark (b : Rulebook) : Outline → Prop
  | marker {path} : EndsInMark b (.marker path)
  | map {path shape part} (hm : b.MapsAt path) (h : EndsInMark b part) : EndsInMark b (.node path false shape [part])

/-- What becomes of a drawing without frames when a node is highlighted: there is a frame wherever the node is drawn, and
none elsewhere. For a map of a mark it is left open whether there is one. -/
inductive Highlights (b : Rulebook) (id : NodeId) : Outline → Outline → Prop
  | marker {path} : Highlights b id (.marker path) (.marker path)
  | named {path label inner inner'} (h : Highlights b id inner inner') :
      Highlights b id (.named path false label inner) (.named path false label inner')
  | elsewhere {path shape parts parts'} (hn : ¬b.StandsAt id path) (h : List.Forall₂ (Highlights b id) parts parts') :
      Highlights b id (.node path false shape parts) (.node path false shape parts')
  | here {path shape parts out} (hn : b.StandsAt id path) (hp : ∀ part ∈ parts, ¬b.Shows id part)
      (h : Boxed b (.node path false shape parts) out) : Highlights b id (.node path false shape parts) out
  | mark {path shape parts out} (hn : b.StandsAt id path) (hp : ∀ part ∈ parts, ¬b.Shows id part)
      (h : EndsInMark b (.node path false shape parts)) (hu : out.unframed = .node path false shape parts)
      (hf : out.framed.length ≤ 1) : Highlights b id (.node path false shape parts) out

end Outline

open Outline

namespace Rulebook

variable {b : Rulebook} {root : NodeId}

theorem Descent.standsAt_iff {path : Path} {s : Step} {outside : List Step} {id : NodeId}
    (h : b.Descent root path (s :: outside)) : b.StandsAt id path ↔ s.node = id := by
  have hs : ∃ step outer, path = step :: outer ∧ b.Resolves step.node s.node := by
    cases h with
    | root hr => exact ⟨_, _, rfl, hr⟩
    | child _ _ hr => exact ⟨_, _, rfl, hr⟩
  obtain ⟨step, outer, rfl, hr⟩ := hs
  constructor
  · rintro ⟨_, _, he, hr'⟩
    cases he
    exact hr.unique hr'
  · rintro rfl
    exact ⟨step, outer, rfl, hr⟩

theorem Descent.mapsAt_iff {path : Path} {s : Step} {outside : List Step} (h : b.Descent root path (s :: outside)) :
    b.MapsAt path ↔ ∃ child mapper, b.node s.node = .map child mapper := by
  constructor
  · rintro ⟨id, child, mapper, hs, hn⟩
    exact ⟨child, mapper, h.standsAt_iff.mp hs ▸ hn⟩
  · rintro ⟨child, mapper, hn⟩
    exact ⟨s.node, child, mapper, h.standsAt_iff.mpr rfl, hn⟩

/-! ## What is framed at an occurrence -/

section
variable {id : NodeId} {path : Path} {framed : Bool} {inside : Option Spot}

theorem framing_none (h : (b.framing none id path).result = .ok (framed, inside)) : framed = false ∧ inside = none := by
  obtain ⟨_, hc, hf⟩ := Walk.result_bind_eq_ok.mp h
  cases hc
  cases hf
  exact ⟨rfl, rfl⟩

theorem framing_elsewhere {target : NodeId} (ht : target ≠ id)
    (h : (b.framing (some (.node target)) id path).result = .ok (framed, inside)) :
    framed = false ∧ inside = some (.node target) := by
  obtain ⟨_, hc, hf⟩ := Walk.result_bind_eq_ok.mp h
  cases hc
  rw [beq_eq_false_iff_ne.mpr ht] at hf
  cases hf
  exact ⟨rfl, rfl⟩

theorem framing_here (h : (b.framing (some (.node id)) id path).result = .ok (framed, inside)) :
    (∃ child mapper target, b.node id = .map child mapper ∧ (b.dereference child).result = .ok target ∧
      framed = false ∧ inside = some (.node target)) ∨
    (∀ child mapper, b.node id ≠ .map child mapper) ∧ framed = true ∧ inside = none := by
  obtain ⟨_, hc, hf⟩ := Walk.result_bind_eq_ok.mp h
  cases hc
  rw [beq_self_eq_true] at hf
  split at hf
  · contradiction
  · rename_i child mapper _ hn
    obtain ⟨target, ht, hf⟩ := Walk.result_bind_eq_ok.mp hf
    cases hf
    exact .inl ⟨child, mapper, target, hn, ht, rfl, rfl⟩
  · rename_i hm
    cases hf
    exact .inr ⟨fun child mapper hn => hm child mapper hn, rfl, rfl⟩

end

theorem dereferenceFrom_eq_ok {fuel : Nat} {id last : NodeId} (h : (b.dereferenceFrom fuel id).result = .ok last) :
    (∃ target fuel', b.node id = .deferred target ∧ (b.dereferenceFrom fuel' (b.target id target)).result = .ok last) ∨
      (∀ target, b.node id ≠ .deferred target) ∧ last = id := by
  cases fuel with
  | zero => cases h
  | succ fuel =>
    rw [dereferenceFrom] at h
    split at h
    · rename_i target hn
      obtain ⟨_, -, h⟩ := Walk.result_bind_eq_ok.mp h
      exact .inl ⟨target, fuel, hn, h⟩
    · rename_i hn
      cases h
      exact .inr ⟨hn, rfl⟩

theorem dereferenceFrom_of_ends {id : NodeId} (h : b.inner? id = none) (fuel : Nat) :
    (b.dereferenceFrom (fuel + 1) id).result = .ok id := by
  rw [dereferenceFrom]
  split
  · rename_i hn
    cases h.symm.trans (inner?_deferred hn)
  · rfl

/-! ## Two drawings of an occurrence -/

inductive DrawnTwice (b : Rulebook) (fuel fuel' : Nat) (spot spot' : Option Spot) (id : NodeId) (path : Path) :
    Outline → Outline → Prop
  | deferred {target out out'} (hn : b.node id = .deferred target)
      (h : (b.outline fuel spot (b.target id target) path).result = .ok out)
      (h' : (b.outline fuel' spot' (b.target id target) path).result = .ok out') :
      DrawnTwice b fuel fuel' spot spot' id path out out'
  | named {child label inner inner'} (hn : b.node id = .named child label)
      (h : (b.outline fuel (if spot.any (claimsNamed id) then none else spot) child path).result = .ok inner)
      (h' : (b.outline fuel' (if spot'.any (claimsNamed id) then none else spot') child path).result = .ok inner') :
      DrawnTwice b fuel fuel' spot spot' id path (.named path (spot.any (claimsNamed id)) label.toList inner)
        (.named path (spot'.any (claimsNamed id)) label.toList inner')
  | marker (hi : b.inner? id = none) : DrawnTwice b fuel fuel' spot spot' id path (.marker path) (.marker path)
  | node {framed inside framed' inside' shape children parts parts'} (hi : b.inner? id = none)
      (he : (b.isEnclosed path id).result = .ok false)
      (hf : (b.framing spot id path).result = .ok (framed, inside))
      (hf' : (b.framing spot' id path).result = .ok (framed', inside'))
      (hs : (b.shape id path).result = .ok (shape, children))
      (h : (outlineAll (b.outline fuel inside) path children 0).result = .ok parts)
      (h' : (outlineAll (b.outline fuel' inside') path children 0).result = .ok parts') :
      DrawnTwice b fuel fuel' spot spot' id path (.node path framed shape parts) (.node path framed' shape parts')

theorem drawnTwice_of_outline {fuel fuel' : Nat} {spot spot' : Option Spot} {id : NodeId} {path : Path}
    {out out' : Outline} (h : (b.outline (fuel + 1) spot id path).result = .ok out)
    (h' : (b.outline (fuel' + 1) spot' id path).result = .ok out') :
    b.DrawnTwice fuel fuel' spot spot' id path out out' := by
  cases hn : b.node id with
  | deferred target =>
    simp only [outline, hn] at h h'
    obtain ⟨_, -, h⟩ := Walk.result_bind_eq_ok.mp h
    obtain ⟨_, -, h'⟩ := Walk.result_bind_eq_ok.mp h'
    exact .deferred hn h h'
  | named child label =>
    simp only [outline, hn] at h h'
    obtain ⟨inner, ho, h⟩ := Walk.result_bind_eq_ok.mp h
    obtain ⟨inner', ho', h'⟩ := Walk.result_bind_eq_ok.mp h'
    cases h
    cases h'
    exact .named hn ho ho'
  | _ =>
    have hi : b.inner? id = none := by rw [inner?, hn]
    cases drawn_of_outline h with
    | deferred hi' | named hi' => cases hi.symm.trans hi'
    | marker _ he =>
      cases drawn_of_outline h' with
      | deferred hi' | named hi' => cases hi.symm.trans hi'
      | marker => exact .marker hi
      | node _ he' => cases he.symm.trans he'
    | node _ he hf hs ho =>
      cases drawn_of_outline h' with
      | deferred hi' | named hi' => cases hi.symm.trans hi'
      | marker _ he' => cases he.symm.trans he'
      | node _ _ hf' hs' ho' =>
        cases hs.symm.trans hs'
        exact .node hi he hf hf' hs ho ho'

theorem forall₂_outlineAll {R : Outline → Outline → Prop} {outline outline' : NodeId → Path → Walk Outline}
    {path : Path} : ∀ {children : List NodeId} {slot : Nat} {parts parts' : List Outline},
    (outlineAll outline path children slot).result = .ok parts →
      (outlineAll outline' path children slot).result = .ok parts' →
        (∀ i child part part', children[i]? = some child →
          (outline child (path.child child (slot + i))).result = .ok part →
            (outline' child (path.child child (slot + i))).result = .ok part' → R part part') →
          List.Forall₂ R parts parts'
  | [], _, _, _, h, h', _ => by
    cases h
    cases h'
    exact .nil
  | child :: children, slot, parts, parts', h, h', hR => by
    obtain ⟨first, h₁, h⟩ := Walk.result_bind_eq_ok.mp h
    obtain ⟨others, h₂, h⟩ := Walk.result_bind_eq_ok.mp h
    obtain ⟨first', h₁', h'⟩ := Walk.result_bind_eq_ok.mp h'
    obtain ⟨others', h₂', h'⟩ := Walk.result_bind_eq_ok.mp h'
    cases h
    cases h'
    refine .cons (hR 0 child first first' rfl h₁ h₁') (forall₂_outlineAll h₂ h₂' fun i c part part' hc ho ho' => ?_)
    rw [show slot + 1 + i = slot + (i + 1) by omega] at ho ho'
    exact hR (i + 1) c part part' hc ho ho'

theorem outlineAll_unique {outline outline' : NodeId → Path → Walk Outline} {path : Path} {children : List NodeId}
    {parts parts' : List Outline} (h : (outlineAll outline path children 0).result = .ok parts)
    (h' : (outlineAll outline' path children 0).result = .ok parts')
    (hu : ∀ child path part part', (outline child path).result = .ok part →
      (outline' child path).result = .ok part' → part = part') : parts = parts' := by
  have hp : List.Forall₂ Eq parts parts' := forall₂_outlineAll h h' fun _ _ _ _ _ ho ho' => hu _ _ _ _ ho ho'
  rwa [List.forall₂_eq_eq_eq] at hp

theorem outlineAll_singleton {outline : NodeId → Path → Walk Outline} {path : Path} {child : NodeId}
    {parts : List Outline} (h : (outlineAll outline path [child] 0).result = .ok parts) :
    ∃ part, parts = [part] ∧ (outline child (path.child child 0)).result = .ok part := by
  obtain ⟨part, hp, h⟩ := Walk.result_bind_eq_ok.mp h
  cases h
  exact ⟨part, rfl, hp⟩

/-- A drawing does not depend on the depth that it is allowed. -/
theorem outline_unique : ∀ {fuel fuel' : Nat} {spot : Option Spot} {id : NodeId} {path : Path} {out out' : Outline},
    (b.outline fuel spot id path).result = .ok out → (b.outline fuel' spot id path).result = .ok out' → out = out'
  | 0, _, _, _, _, _, _, h, _ => nomatch h
  | _ + 1, 0, _, _, _, _, _, _, h' => nomatch h'
  | fuel + 1, fuel' + 1, spot, id, path, out, out', h, h' => by
    cases drawnTwice_of_outline h h' with
    | deferred _ ho ho' => exact outline_unique ho ho'
    | named _ ho ho' => rw [outline_unique ho ho']
    | marker => rfl
    | node _ _ hf hf' _ ho ho' =>
      cases hf.symm.trans hf'
      rw [outlineAll_unique ho ho' fun _ _ _ _ => outline_unique]

/-! ## A frame handed down -/

theorem boxed_or_endsInMark : ∀ {fuel fuel' links : Nat} {id target : NodeId} {path : Path} {s : Step}
    {outside : List Step} {plain out : Outline}, (b.outline fuel none id path).result = .ok plain →
      (b.outline fuel' (some (.node target)) id path).result = .ok out →
        (b.dereferenceFrom links id).result = .ok target → b.Descent root path (s :: outside) →
          b.Resolves id s.node → Boxed b plain out ∨ EndsInMark b plain ∧ out = plain
  | 0, _, _, _, _, _, _, _, _, _, h, _, _, _, _ => nomatch h
  | _ + 1, 0, _, _, _, _, _, _, _, _, _, h', _, _, _ => nomatch h'
  | fuel + 1, fuel' + 1, links, id, target, path, s, outside, plain, out, h, h', ht, hd, hr => by
    -- the highlight goes down a chain of maps, until there is something else to be framed or a mark
    cases drawnTwice_of_outline h h' with
    | deferred hn ho ho' =>
      obtain ⟨_, links, hn', ht⟩ | ⟨hn', -⟩ := dereferenceFrom_eq_ok ht
      · cases hn.symm.trans hn'
        exact boxed_or_endsInMark ho ho' ht hd (hr.after (.step (inner?_deferred hn) (.refl _)))
      · exact absurd hn (hn' _)
    | named hn ho ho' =>
      obtain ⟨_, _, hn', -⟩ | ⟨-, rfl⟩ := dereferenceFrom_eq_ok ht
      · cases hn.symm.trans hn'
      · have hc : (some (Spot.node target)).any (claimsNamed target) = true := beq_self_eq_true target
        rw [hc] at ho' ⊢
        rw [outline_unique ho' ho]
        exact .inl .named
    | marker => exact .inr ⟨.marker, rfl⟩
    | @node framed inside framed' inside' shape children parts parts' hi he hf hf' hs ho ho' =>
      obtain rfl := hr.leads.eq_of_ends hi
      obtain ⟨_, _, hn', -⟩ | ⟨-, rfl⟩ := dereferenceFrom_eq_ok ht
      · rw [inner?, hn'] at hi
        cases hi
      obtain ⟨rfl, rfl⟩ := framing_none hf
      obtain ⟨child, mapper, target, hn, ht, rfl, rfl⟩ | ⟨hm, rfl, rfl⟩ := framing_here hf'
      · have hmap : b.MapsAt path := hd.mapsAt_iff.mpr ⟨child, mapper, hn⟩
        simp only [Rulebook.shape, hn] at hs
        cases hs
        obtain ⟨part, rfl, hp⟩ := outlineAll_singleton ho
        obtain ⟨part', rfl, hp'⟩ := outlineAll_singleton ho'
        obtain ⟨last, hl⟩ := resolves_of_outline hp
        have hd' : b.Descent root (path.child child 0) (⟨last, 0⟩ :: s :: outside) := hd.child (by rw [hn]; rfl) hl
        rcases boxed_or_endsInMark hp hp' ht hd' hl with h | ⟨h, rfl⟩
        · exact .inl (.map hmap h)
        · exact .inr ⟨.map hmap h, rfl⟩
      · obtain rfl := outlineAll_unique ho ho' fun _ _ _ _ => outline_unique
        refine .inl (.node fun h => ?_)
        obtain ⟨child, mapper, hn⟩ := hd.mapsAt_iff.mp h
        exact hm child mapper hn

/-- Where a node is drawn it is not drawn again further in. -/
theorem not_shows_of_mem {out : Outline} {target : NodeId} {fuel : Nat} {spot : Option Spot} {id : NodeId} {path : Path}
    {s : Step} {outside : List Step} (ho : (b.outline fuel spot id path).result = .ok out)
    (hd : b.Descent root path (s :: outside)) (hr : b.Resolves id s.node) (hn : (outside.map Step.node).Nodup)
    (ht : target ∈ outside.map Step.node) : ¬b.Shows target out := by
  rintro ⟨part, place, framed, shape, parts, hpart, hcore, hs⟩
  induction hpart generalizing fuel spot id path s outside with
  | self out =>
    rcases core_of_descent ho hd hr with ⟨-, hc⟩ | ⟨hm, _, _, _, _, _, _, hc, -⟩
    · cases hc.symm.trans hcore
    · cases hc.symm.trans hcore
      rw [hd.standsAt_iff.mp hs] at hm
      exact hm ht
  | child hc hm _ ih =>
    obtain ⟨_, _, child, last, slot, ho', hd', hr', hn'⟩ := outline_of_part ho hd hr hn hc hm
    exact ih ho' hd' hr' hn' (List.mem_cons_of_mem _ ht) hcore

theorem not_shows_of_parts {fuel : Nat} {spot : Option Spot} {path : Path} {s : Step} {outside : List Step}
    {framed : Bool} {shape : Shape} {parts : List Outline} {id : NodeId}
    (ho : (b.outline fuel spot id path).result = .ok (.node path framed shape parts))
    (hd : b.Descent root path (s :: outside)) (hr : b.Resolves id s.node) (hn : (outside.map Step.node).Nodup) :
    ∀ part ∈ parts, ¬b.Shows s.node part := by
  intro part hm
  obtain ⟨_, _, child, last, slot, ho', hd', hr', hn'⟩ := outline_of_part ho hd hr hn rfl hm
  exact not_shows_of_mem ho' hd' hr' hn' List.mem_cons_self

theorem highlights_of_outline {target : NodeId} (ht : b.inner? target = none) : ∀ {fuel fuel' : Nat} {id : NodeId}
    {path : Path} {s : Step} {outside : List Step} {plain out : Outline},
    (b.outline fuel none id path).result = .ok plain →
      (b.outline fuel' (some (.node target)) id path).result = .ok out → b.Descent root path (s :: outside) →
        b.Resolves id s.node → (outside.map Step.node).Nodup → Highlights b target plain out
  | 0, _, _, _, _, _, _, _, h, _, _, _, _ => nomatch h
  | _ + 1, 0, _, _, _, _, _, _, _, h', _, _, _ => nomatch h'
  | fuel + 1, fuel' + 1, id, path, s, outside, plain, out, h, h', hd, hr, hn => by
    cases drawnTwice_of_outline h h' with
    | deferred hb ho ho' =>
      exact highlights_of_outline ht ho ho' hd (hr.after (.step (inner?_deferred hb) (.refl _))) hn
    | named hb ho ho' =>
      have hi := inner?_named hb
      have hne : target ≠ id := fun he => by
        rw [he, hi] at ht
        cases ht
      have hc : (some (Spot.node target)).any (claimsNamed id) = false := beq_eq_false_iff_ne.mpr hne
      rw [hc] at ho' ⊢
      exact .named (highlights_of_outline ht ho ho' hd (hr.after (.step hi (.refl _))) hn)
    | marker => exact .marker
    | @node framed inside framed' inside' shape children parts parts' hi he hf hf' hs ho ho' =>
      obtain rfl := hr.leads.eq_of_ends hi
      obtain ⟨rfl, rfl⟩ := framing_none hf
      -- below the node itself it cannot be drawn again, and elsewhere the highlight goes on to the children
      by_cases heq : target = s.node
      · subst heq
        have hstands := hd.standsAt_iff.mpr rfl
        have hparts := not_shows_of_parts h hd hr hn
        rcases boxed_or_endsInMark h h' (dereferenceFrom_of_ends ht 0) hd hr with hbox | ⟨hmark, hout⟩
        · exact .here hstands hparts hbox
        · have hnone := framed_of_none h
          rw [hout]
          exact .mark hstands hparts hmark (unframed_eq hnone) (by rw [hnone]; exact Nat.zero_le 1)
      · obtain ⟨rfl, rfl⟩ := framing_elsewhere heq hf'
        have hfresh : s.node ∉ outside.map Step.node := fun hm =>
          Bool.false_ne_true ((isEnclosed_eq hd he).mpr hm)
        refine .elsewhere (fun hs => heq (hd.standsAt_iff.mp hs).symm) (forall₂_outlineAll ho ho' ?_)
        intro i child part part' hc ho ho'
        rw [Nat.zero_add] at ho ho'
        obtain ⟨last, hl⟩ := resolves_of_outline ho
        exact highlights_of_outline ht ho ho' (hd.child (child_of_drawn hs hc) hl) hl
          (List.nodup_cons.mpr ⟨hfresh, hn⟩)

end Rulebook

open Rulebook

/-- When a node is highlighted, or a reference to it, there is a frame wherever the node is drawn, none elsewhere, and
nothing else changes. Both drawings come about when every node below the root has an end. -/
theorem highlighted_node_is_framed {b : Rulebook} {root id target : NodeId}
    (hid : (b.dereference id).result = .ok target) (ht : b.inner? target = none) :
    (∀ depth depth' plain out, (b.sketchWithin depth root none).result = .ok plain →
      (b.sketchWithin depth' root (some (.node id))).result = .ok out → Highlights b target plain out) ∧
    (b.Grounded root → ∃ plain out, (b.sketch root none).result = .ok plain ∧
      (b.sketch root (some (.node id))).result = .ok out) := by
  constructor
  · intro depth depth' plain out h h'
    obtain ⟨_, hs, h⟩ := Walk.result_bind_eq_ok.mp h
    cases hs
    obtain ⟨_, hs', h'⟩ := Walk.result_bind_eq_ok.mp h'
    obtain ⟨_, hspot, he⟩ := Walk.result_bind_eq_ok.mp hs'
    cases he
    obtain ⟨_, hl, he⟩ := Walk.result_bind_eq_ok.mp hspot
    cases hid.symm.trans hl
    cases he
    obtain ⟨last, hr⟩ := resolves_of_outline h
    exact highlights_of_outline ht h h' (.root hr) hr List.nodup_nil
  · intro hg
    have hnone : (b.spot? none).Answers := .pure _
    have hspot : (b.spot? (some (.node id))).Answers :=
      .bind (.bind (.of_ok hid) fun _ _ => .pure _) fun _ _ => .pure _
    obtain ⟨plain, hp⟩ := (answers_sketch hg hnone).answers
    obtain ⟨out, ho⟩ := (answers_sketch hg hspot).answers
    exact ⟨plain, out, hp, ho⟩

def mapped : Rulebook where
  graph := {
    nodes := #[.literal "a", .map 0 0, .map 1 0, .deferred (.node 6), .map 3 0, .deferred (.node 2), .sequence [2, 4, 5]]
    mappers := #[id] }

theorem grounded_mapped : mapped.Grounded 6 := by
  intro id _
  match id with
  | 0 | 1 | 2 | 3 | 4 | 5 | 6 | _ + 7 => exact .of_ok rfl

theorem frames_of_mapped : ∃ plain out, (mapped.sketch 6 none).result = .ok plain ∧
    (mapped.sketch 6 (some (.node 5))).result = .ok out ∧ Highlights mapped 2 plain out ∧
    out.framed = [[⟨0, 0⟩, ⟨1, 0⟩, ⟨2, 0⟩, ⟨6, 0⟩], [⟨0, 0⟩, ⟨1, 0⟩, ⟨5, 2⟩, ⟨6, 0⟩]] := by
  obtain ⟨hframed, hdrawn⟩ := @highlighted_node_is_framed mapped 6 5 2 rfl rfl
  obtain ⟨plain, out, hp, ho⟩ := hdrawn grounded_mapped
  have h := hframed _ _ plain out hp ho
  cases ho.symm.trans rfl
  exact ⟨plain, _, hp, ho, h, rfl⟩

/-- The map inside the highlighted one stands in no frame with its mark, and there is none at all around the reference
back to the whole. -/
theorem inner_map_of_mapped_is_not_framed : ∃ plain part out out', (mapped.sketch 6 none).result = .ok plain ∧
    (mapped.sketch 6 (some (.node 2))).result = .ok out ∧ (mapped.sketch 6 (some (.node 4))).result = .ok out' ∧
    mapped.node 2 = .map 1 0 ∧
    plain.Draws (.node [⟨2, 0⟩, ⟨6, 0⟩] false (.suffixed " -> map<f()>".toList) [part]) ∧
    part.path = [⟨1, 0⟩, ⟨2, 0⟩, ⟨6, 0⟩] ∧ part.path ∉ out.framed ∧
    mapped.Shows 4 plain ∧ out'.framed = [] := by
  refine ⟨_, _, _, _, rfl, rfl, rfl, rfl, .child rfl (.head _) (.self _), rfl, by decide, ?_, rfl⟩
  exact ⟨_, _, _, _, _, .child rfl (.tail _ (.head _)) (.self _), rfl, ⟨4, 1⟩, _, rfl, .refl rfl⟩

end FurthestMatch
