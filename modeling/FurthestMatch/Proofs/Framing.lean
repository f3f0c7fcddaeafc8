import FurthestMatch.Proofs.Drawable
import FurthestMatch.Proofs.Folding
import FurthestMatch.Proofs.Surfacing
import FurthestMatch.Report

/-!
# Which occurrence is framed

A drawing goes down every trail without repeated nodes, except into the hidden option of a choice. With the folded
steps of a match to be framed, it frames the one occurrence that has these steps and no other.
-/

namespace FurthestMatch

namespace Rulebook

variable {b : Rulebook} {root : NodeId}

/-! ## What is claimed -/

section
variable {path : Path} {s : Step} {outside target : List Step} (hd : Descent b root path (s :: outside))
  (hn : ((s :: outside).map Step.node).Nodup) (ht : Trail b root target) (hn' : (target.map Step.node).Nodup)
include hd hn ht hn'

omit hn ht hn' in
theorem steps_of_framing {id : NodeId} {framing : Bool × Option Spot}
    (h : (b.framing (some (.occurrence target)) id path).result = .ok framing) :
    (b.steps path).result = .ok (s :: outside) := by
  obtain ⟨_, hc, -⟩ := Walk.result_bind_eq_ok.mp h
  obtain ⟨drawn, hs, -⟩ := Walk.result_bind_eq_ok.mp hc
  rw [hs, hd.steps_eq hs]

theorem isClaimed_eq {r : Bool} (h : (b.isClaimed s.node path (some (.occurrence target))).result = .ok r) :
    r = true ↔ s :: outside = target := by
  obtain ⟨drawn, hs, h⟩ := Walk.result_bind_eq_ok.mp h
  cases hd.steps_eq hs
  cases h
  rw [← matchesOccurrence_iff hd.trail hn ht hn']
  simp

variable {framed : Bool} {inside : Option Spot}
  (h : (b.framing (some (.occurrence target)) s.node path).result = .ok (framed, inside))
include h

theorem framing_of_eq (he : s :: outside = target) (hm : ∀ child mapper, b.node s.node ≠ .map child mapper) :
    framed = true ∧ inside = none := by
  obtain ⟨r, hr, h⟩ := Walk.result_bind_eq_ok.mp h
  have hr := (isClaimed_eq hd hn ht hn' hr).mpr he
  subst hr
  split at h
  · contradiction
  · exact absurd ‹_› (hm _ _)
  · cases h
    exact ⟨rfl, rfl⟩

theorem framing_of_ne (he : s :: outside ≠ target) : framed = false ∧ inside = some (.occurrence target) := by
  obtain ⟨r, hr, h⟩ := Walk.result_bind_eq_ok.mp h
  have hr : r = false := (Bool.not_eq_true _).mp fun hb => he ((isClaimed_eq hd hn ht hn' hr).mp hb)
  subst hr
  cases h
  exact ⟨rfl, rfl⟩

end

/-! ## Frames among children -/

section
variable {outline : NodeId → Path → Walk Outline} {path : Path}

theorem framedAll_eq_nil : ∀ {children : List NodeId} {slot : Nat} {outs : List Outline},
    (outlineAll outline path children slot).result = .ok outs →
      (∀ i child out, children[i]? = some child → (outline child (path.child child (slot + i))).result = .ok out →
        out.framed = []) → Outline.framedAll outs = []
  | [], _, _, h, _ => by cases h; rfl
  | child :: children, slot, outs, h, hf => by
    obtain ⟨first, h₁, h⟩ := Walk.result_bind_eq_ok.mp h
    obtain ⟨others, h₂, h⟩ := Walk.result_bind_eq_ok.mp h
    cases h
    rw [Outline.framedAll, hf 0 child first rfl h₁, framedAll_eq_nil h₂, List.nil_append]
    intro i c out hc ho
    exact hf (i + 1) c out hc (by rw [Nat.add_comm i, ← Nat.add_assoc]; exact ho)

theorem framedAll_of_slot : ∀ {children : List NodeId} {slot : Nat} {outs : List Outline} {k : Nat} {child : NodeId},
    (outlineAll outline path children slot).result = .ok outs → children[k]? = some child →
      (∀ i c out, i ≠ k → children[i]? = some c → (outline c (path.child c (slot + i))).result = .ok out →
        out.framed = []) →
      ∃ out, (outline child (path.child child (slot + k))).result = .ok out ∧ Outline.framedAll outs = out.framed
  | [], _, _, _, _, _, hk, _ => nomatch hk
  | c :: children, slot, outs, k, child, h, hk, hf => by
    obtain ⟨first, h₁, h⟩ := Walk.result_bind_eq_ok.mp h
    obtain ⟨others, h₂, h⟩ := Walk.result_bind_eq_ok.mp h
    cases h
    rw [Outline.framedAll]
    have shift (i : Nat) : slot + (i + 1) = slot + 1 + i := by omega
    cases k with
    | zero =>
      cases hk
      refine ⟨first, h₁, ?_⟩
      rw [framedAll_eq_nil h₂, List.append_nil]
      intro i c out hc ho
      exact hf (i + 1) c out (Nat.succ_ne_zero i) hc (shift i ▸ ho)
    | succ k =>
      obtain ⟨out, ho, he⟩ := framedAll_of_slot h₂ hk fun i c out hi hc ho =>
        hf (i + 1) c out (fun h => hi (Nat.succ.inj h)) hc (shift i ▸ ho)
      refine ⟨out, shift k ▸ ho, ?_⟩
      rw [hf 0 c first (Nat.succ_ne_zero k).symm rfl h₁, List.nil_append, he]

end

/-! ## Frames in a drawing -/

inductive Drawn (b : Rulebook) (fuel : Nat) (spot : Option Spot) (id : NodeId) (path : Path) : Outline → Prop
  | deferred {next out} (hi : b.inner? id = some next) (h : (b.outline fuel spot next path).result = .ok out) :
      Drawn b fuel spot id path out
  | named {next out label} (hi : b.inner? id = some next)
      (h : (b.outline fuel (if spot.any (claimsNamed id) then none else spot) next path).result = .ok out) :
      Drawn b fuel spot id path (.named path (spot.any (claimsNamed id)) label out)
  | marker (hi : b.inner? id = none) (he : (b.isEnclosed path id).result = .ok true) :
      Drawn b fuel spot id path (.marker path)
  | node {framed inside shape children outs} (hi : b.inner? id = none)
      (he : (b.isEnclosed path id).result = .ok false)
      (hf : (b.framing spot id path).result = .ok (framed, inside))
      (hs : (b.shape id path).result = .ok (shape, children))
      (h : (outlineAll (b.outline fuel inside) path children 0).result = .ok outs) :
      Drawn b fuel spot id path (.node path framed shape outs)

theorem drawn_of_outline {fuel : Nat} {spot : Option Spot} {id : NodeId} {path : Path} {out : Outline}
    (h : (b.outline (fuel + 1) spot id path).result = .ok out) : Drawn b fuel spot id path out := by
  rw [outline] at h
  split at h
  · rename_i hn
    obtain ⟨_, -, h⟩ := Walk.result_bind_eq_ok.mp h
    exact .deferred (inner?_deferred hn) h
  · rename_i hn
    obtain ⟨_, ho, h⟩ := Walk.result_bind_eq_ok.mp h
    cases h
    exact .named (inner?_named hn) ho
  · rename_i hd hr
    have hi : b.inner? id = none := inner?_eq_none hr hd
    obtain ⟨enclosed, he, h⟩ := Walk.result_bind_eq_ok.mp h
    split at h
    · rename_i hb
      cases h
      exact .marker hi (hb ▸ he)
    · rename_i hb
      obtain ⟨⟨framed, inside⟩, hf, h⟩ := Walk.result_bind_eq_ok.mp h
      obtain ⟨⟨shape, children⟩, hs, h⟩ := Walk.result_bind_eq_ok.mp h
      obtain ⟨outs, ho, h⟩ := Walk.result_bind_eq_ok.mp h
      cases h
      rw [(Bool.not_eq_true _).mp hb] at he
      exact .node hi he hf hs ho

theorem resolves_of_outline : ∀ {fuel : Nat} {spot : Option Spot} {id : NodeId} {path : Path} {out : Outline},
    (b.outline fuel spot id path).result = .ok out → ∃ last, b.Resolves id last
  | 0, _, _, _, _, h => nomatch h
  | fuel + 1, spot, id, path, out, h => by
    cases drawn_of_outline h with
    | deferred hi ho | named hi ho =>
      obtain ⟨last, hr⟩ := resolves_of_outline ho
      exact ⟨last, .of_leads (.step hi (.refl _)) hr⟩
    | marker hi | node hi => exact ⟨id, .refl hi⟩

theorem framed_of_none : ∀ {fuel : Nat} {id : NodeId} {path : Path} {out : Outline},
    (b.outline fuel none id path).result = .ok out → out.framed = []
  | 0, _, _, _, h => nomatch h
  | fuel + 1, id, path, out, h => by
    cases drawn_of_outline h with
    | deferred _ ho => exact framed_of_none ho
    | named _ ho =>
      rw [ite_self] at ho
      have hf := framed_of_none ho
      exact hf
    | marker => rfl
    | node _ _ hf _ ho =>
      obtain ⟨_, hc, hf⟩ := Walk.result_bind_eq_ok.mp hf
      cases hc
      cases hf
      exact framedAll_eq_nil ho fun _ _ _ _ ho => framed_of_none ho

/-- Steps that can be framed: a trail without repeated nodes that ends in no map and goes into no hidden option. -/
structure Frameable (b : Rulebook) (root : NodeId) (target : List Step) : Prop where
  trail : Trail b root target
  nodup : (target.map Step.node).Nodup
  not_map : ∀ s outside child mapper, target = s :: outside → b.node s.node ≠ .map child mapper
  not_hidden : ∀ inside s t outside, target = inside ++ s :: t :: outside → ¬b.Hides t.node s.slot

/-- What is framed below an occurrence with some steps: the one to be framed when it lies there, or else nothing. -/
structure Frames (b : Rulebook) (target steps : List Step) (framed : List Path) : Prop where
  nothing : ¬steps <:+ target → framed = []
  one : steps <:+ target → ∃ place, framed = [place] ∧ (b.steps place).result = .ok target

theorem exists_step_of_suffix {steps target : List Step} (h : steps <:+ target) (hne : steps ≠ target) :
    ∃ inside t, target = inside ++ t :: steps := by
  obtain ⟨init, rfl⟩ := h
  rcases List.eq_nil_or_concat init with rfl | ⟨inside, t, rfl⟩
  · exact absurd rfl hne
  · exact ⟨inside, t, by simp⟩

/-- One child at most lies on the way to the occurrence to be framed, and it is drawn. -/
theorem Frameable.frames_of_children {target : List Step} (ht : b.Frameable root target)
    {outline : NodeId → Path → Walk Outline} {path : Path} {shape : Shape} {children : List NodeId}
    {outs : List Outline} {s : Step} {outside : List Step} (hs : (b.shape s.node path).result = .ok (shape, children))
    (ho : (outlineAll outline path children 0).result = .ok outs) (hne : s :: outside ≠ target)
    (below : ∀ i child out, children[i]? = some child → (outline child (path.child child (0 + i))).result = .ok out →
      ∃ last, b.Fills last i s.node ∧ b.Frames target (⟨last, i⟩ :: s :: outside) out.framed) :
    b.Frames target (s :: outside) (Outline.framedAll outs) := by
  constructor
  · intro hsuf
    refine framedAll_eq_nil ho fun i child out hc ho => ?_
    obtain ⟨last, -, hf⟩ := below i child out hc ho
    exact hf.nothing fun h => hsuf ((List.suffix_cons _ _).trans h)
  · intro hsuf
    obtain ⟨inside, t, rfl⟩ := exists_step_of_suffix hsuf hne
    have hfill := ht.trail.of_append.fills
    obtain ⟨child, hc, hl⟩ := hfill
    have hdrawn := drawn_of_child hs hc (ht.not_hidden inside t s outside rfl)
    have hother (i : Nat) (c : NodeId) (out : Outline) (hi : i ≠ t.slot) (hc : children[i]? = some c)
        (ho : (outline c (path.child c (0 + i))).result = .ok out) : out.framed = [] := by
      obtain ⟨last, -, hf⟩ := below i c out hc ho
      refine hf.nothing fun ⟨inside', he⟩ => hi ?_
      have ht := (List.append_inj' he rfl).2
      cases ht
      rfl
    obtain ⟨out, ho, hout⟩ := framedAll_of_slot ho hdrawn hother
    obtain ⟨last, hlast, hf⟩ := below t.slot child out hdrawn ho
    rw [Fills.unique hlast ⟨child, hc, hl⟩] at hf
    obtain ⟨place, hp, hd⟩ := hf.one ⟨inside, rfl⟩
    exact ⟨place, hout.trans hp, hd⟩

/-- Below an occurrence on the way to the one to be framed that one is framed; elsewhere nothing is. -/
theorem framed_of_occurrence {target : List Step} (ht : b.Frameable root target) : ∀ {fuel : Nat} {id : NodeId}
    {path : Path} {out : Outline} {s : Step} {outside : List Step},
    (b.outline fuel (some (.occurrence target)) id path).result = .ok out → Descent b root path (s :: outside) →
      b.Resolves id s.node → (outside.map Step.node).Nodup → b.Frames target (s :: outside) out.framed
  | 0, _, _, _, _, _, h, _, _, _ => nomatch h
  | fuel + 1, id, path, out, s, outside, h, hd, hr, hn => by
    cases drawn_of_outline h with
    | deferred hi ho => exact framed_of_occurrence ht ho hd (hr.after (.step hi (.refl _))) hn
    | @named next out _ hi ho =>
      have ho : (b.outline fuel (some (.occurrence target)) next path).result = .ok out := ho
      have hf := framed_of_occurrence ht ho hd (hr.after (.step hi (.refl _))) hn
      exact hf
    | marker hi he =>
      -- the node stands further out, so its steps repeat it and do not lie on the way
      refine ⟨fun _ => rfl, fun hs => ?_⟩
      have hm := (isEnclosed_eq hd he).mp rfl
      have hn' := (hs.map Step.node).sublist.nodup ht.nodup
      rw [← hr.leads.eq_of_ends hi] at hm
      exact absurd hm (List.nodup_cons.mp hn').1
    | @node framed inside shape children outs hi he hf hs ho =>
      obtain rfl := hr.leads.eq_of_ends hi
      have hn' : ((s :: outside).map Step.node).Nodup :=
        List.nodup_cons.mpr ⟨fun hm => Bool.false_ne_true ((isEnclosed_eq hd he).mpr hm), hn⟩
      by_cases heq : s :: outside = target
      · obtain ⟨rfl, rfl⟩ := framing_of_eq hd hn' ht.trail ht.nodup hf heq
          (fun child mapper => ht.not_map s outside child mapper heq.symm)
        refine ⟨fun hs => absurd (heq ▸ List.suffix_refl _) hs, fun _ => ⟨path, ?_, heq ▸ steps_of_framing hd hf⟩⟩
        rw [Outline.framed, framedAll_eq_nil ho fun _ _ _ _ ho => framed_of_none ho]
        rfl
      · obtain ⟨rfl, rfl⟩ := framing_of_ne hd hn' ht.trail ht.nodup hf heq
        refine ht.frames_of_children hs ho heq fun i child out hc ho => ?_
        obtain ⟨last, hl⟩ := resolves_of_outline ho
        rw [Nat.zero_add] at ho
        have hc := child_of_drawn hs hc
        exact ⟨last, ⟨child, hc, hl⟩, framed_of_occurrence ht ho (hd.child hc hl) hl hn'⟩

/-! ## What is framed for a match -/

theorem Hides.always_of_fills {id parent : NodeId} {slot : Nat} (h : b.Hides parent slot)
    (hf : b.Fills id slot parent) : b.node id = .always := by
  obtain ⟨rfl, first, second, last, hn, hl, ha⟩ := h
  obtain ⟨child, hc, hr⟩ := hf
  rw [hn] at hc
  cases hc
  rw [hr.unique hl]
  exact ha

/-- The folded steps of a match can be framed. Its leaf would be all that could be hidden, and is not. -/
theorem frameable_foldRecursion {s : Step} {outside : List Step} (h : Trail b root (s :: outside))
    (hf : b.IsFirm s.node) (hh : ¬b.EndsHidden (s :: outside)) : b.Frameable root (foldRecursion (s :: outside)) := by
  obtain ⟨_, _, s', outside', he, hfold, hs, h'⟩ := h.foldRecursion
  cases he
  refine ⟨hfold ▸ h', nodup_foldRecursion _, ?_, ?_⟩
  · intro t rest child mapper ht
    cases hfold.symm.trans ht
    rw [hs]
    intro hm
    rcases hf.2 with hc | ⟨child, next, hc⟩
    · rw [hm] at hc
      cases hc
    · cases hm.symm.trans hc
  · intro inside t u rest ht hw
    have htrail : Trail b root (inside ++ t :: u :: rest) := ht ▸ hfold ▸ h'
    have ha : b.node t.node = .always := hw.always_of_fills htrail.of_append.fills
    have hnone : (b.node t.node).children = [] := by
      rw [ha]
      rfl
    cases inside with
    | cons v inside =>
      -- something stands below the leaf
      exact htrail.children_ne_nil t (List.mem_append_right _ List.mem_cons_self) hnone
    | nil =>
      cases hfold.symm.trans ht
      have hl := h.lastAt?_eq_none (hs ▸ hnone)
      have hfold' := (foldRecursion_of_none hl).symm.trans ht
      cases outside with
      | nil => rw [foldRecursion] at hfold'; cases hfold'
      | cons v outside =>
        obtain ⟨_, _, v', rest', he, hfold'', hv, -⟩ := h.tail.foldRecursion
        cases he
        rw [hfold''] at hfold'
        cases hfold'
        exact hh ⟨s, v, outside, rfl, hv ▸ hw⟩

theorem descent_of_runWithin {depth : Nat} {text : Text} {o : Outcome}
    (h : (b.runWithin depth root text).result = .ok o) {f : Furthest} (hf : o.best = some f) :
    ∃ steps, Descent b root f.path steps ∧ b.Frameable root (foldRecursion steps) := by
  obtain ⟨o', h', h⟩ := Walk.result_bind_eq_ok.mp h
  have hf' : o'.best = some f := by
    split at h
    · cases h; exact hf
    · cases h; exact hf
  obtain ⟨leaves, c⟩ := course_of_matchNode h'
  have hs := c.yields hf'
  obtain ⟨last, hl⟩ := hs.resolves
  obtain ⟨s, outside, hd, hfirm, hh⟩ := hs.descent (s := ⟨last, 0⟩) hl (.root hl) (by rintro ⟨_, _, _, h, -⟩; cases h)
  refine ⟨s :: outside, hd, frameable_foldRecursion hd.trail hfirm fun hw => ?_⟩
  obtain ⟨hpos, heq⟩ := hh hw
  rw [heq] at hpos
  exact absurd hpos (Nat.lt_irrefl 0)

theorem answers_sketch_of_runWithin {depth : Nat} {text : Text} {o : Outcome}
    (h : (b.runWithin depth root text).result = .ok o) (hg : b.Grounded root) :
    (b.sketch root (o.best.map fun f => .path f.path)).Answers := by
  cases hb : o.best with
  | none => exact answers_sketch hg (.pure _)
  | some f =>
    obtain ⟨steps, hd, -⟩ := descent_of_runWithin h hb
    exact answers_sketch hg (.bind (.bind (stopsFor_steps hg hd.inside.1) fun _ _ => .pure _) fun _ _ => .pure _)

end Rulebook

open Rulebook

/-- The drawing of a grammar for a run of it frames one occurrence: the one that has the folded steps of the
furthest leaf match. It frames nothing when no leaf matched. When all names and references of the grammar lead
somewhere the drawing exists. -/
theorem one_occurrence_is_framed {b : Rulebook} {depth : Nat} {id : NodeId} {text : Text} {o : Outcome}
    (h : (b.runWithin depth id text).result = .ok o) :
    (∀ depth' out, (b.sketchWithin depth' id (o.best.map fun f => .path f.path)).result = .ok out →
      match o.best with
      | none => out.framed = []
      | some f => ∃ steps place, (b.steps f.path).result = .ok steps ∧ out.framed = [place] ∧
        (b.steps place).result = .ok (foldRecursion steps)) ∧
    (b.Grounded id → ∃ out, (b.sketch id (o.best.map fun f => .path f.path)).result = .ok out) := by
  refine ⟨fun depth' out hout => ?_, fun hg => (answers_sketch_of_runWithin h hg).answers⟩
  obtain ⟨spot, hs, hout⟩ := Walk.result_bind_eq_ok.mp hout
  cases hb : o.best with
  | none =>
    rw [hb] at hs
    cases hs
    exact framed_of_none hout
  | some f =>
    rw [hb] at hs
    obtain ⟨steps, hd, ht⟩ := descent_of_runWithin h hb
    obtain ⟨spot', hs', he⟩ := Walk.result_bind_eq_ok.mp hs
    cases he
    obtain ⟨steps', hst, he⟩ := Walk.result_bind_eq_ok.mp hs'
    cases he
    cases hd.steps_eq hst
    obtain ⟨inside, last, hl, he⟩ := ht.trail.ends_with_root
    have hframed := (framed_of_occurrence ht hout (.root hl) hl List.nodup_nil).one ⟨inside, he.symm⟩
    obtain ⟨place, hp, hsteps⟩ := hframed
    exact ⟨steps, place, hst, hp, hsteps⟩

def nested : Rulebook where
  graph := { nodes := #[.literal "a", .deferred (.node 3), .sequence [0, 1], .choice [2, 4], .literal "b"] }

theorem grounded_nested : nested.Grounded 3 := by
  intro id _
  match id with
  | 0 | 1 | 2 | 3 | 4 => exact .of_ok rfl
  | _ + 5 => exact .of_ok rfl

theorem one_frame_for_nested : ∃ out place,
    (nested.sketch 3 (some (.path [⟨0, 0⟩, ⟨2, 0⟩, ⟨1, 1⟩, ⟨2, 0⟩, ⟨3, 0⟩]))).result = .ok out ∧
      out.framed = [place] ∧ (nested.steps place).result = .ok [⟨0, 0⟩, ⟨2, 0⟩, ⟨3, 0⟩] := by
  have hrun : (nested.runWithin 12 3 ['a', 'a', 'c']).result = .ok ⟨none, ⟨0, some ['a', 'a', 'c']⟩,
      some ⟨2, [⟨0, 0⟩, ⟨2, 0⟩, ⟨1, 1⟩, ⟨2, 0⟩, ⟨3, 0⟩]⟩⟩ := by rfl
  obtain ⟨hone, hdraw⟩ := one_occurrence_is_framed hrun
  obtain ⟨out, hout⟩ := hdraw grounded_nested
  obtain ⟨steps, place, hs, hp, ho⟩ := hone _ out hout
  have hsteps : steps = [⟨0, 0⟩, ⟨2, 0⟩, ⟨3, 1⟩, ⟨2, 0⟩, ⟨3, 0⟩] := Except.ok.inj (hs.symm.trans rfl)
  refine ⟨out, place, hout, hp, ho.trans ?_⟩
  simp [hsteps, foldRecursion, lastAt?]

end FurthestMatch
