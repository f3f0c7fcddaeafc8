import FurthestMatch.Proofs.Places
import FurthestMatch.Proofs.Resolution

/-!
# Where the furthest match comes from

The occurrence that a match keeps lies below the one that was matched, by way of children that the grammar has, and
the node there is a leaf or a chain. Whatever moved the match on before has to be outdone by it, so it is never the
way out of a choice that reads nothing.
-/

namespace FurthestMatch

namespace Rulebook

variable {b : Rulebook} {root : NodeId}

/-- What may be kept for a node itself: it has neither children nor a node below it, or is a chain. -/
def IsFirm (b : Rulebook) (id : NodeId) : Prop :=
  b.inner? id = none ∧ ((b.node id).children = [] ∨ ∃ child next, b.node id = .chain child next)

/-- A leaf match comes up from a node that is matched at an occurrence and a place. A child is matched there or
further on, and then at a place that the leaf match has left behind. -/
inductive Surfaces (b : Rulebook) : NodeId → Path → Cursor → Furthest → Prop
  | own {id path start f} (hn : b.IsFirm id) (hp : f.path = path) (ha : b.node id = .always → f.offset = start.offset) :
      Surfaces b id path start f
  | inner {id next path start f} (hn : b.inner? id = some next) (h : Surfaces b next path start f) :
      Surfaces b id path start f
  | child {id path start child slot place f} (hc : (b.node id).children[slot]? = some child)
      (hp : place = start ∨ place.offset < f.offset) (hf : (∃ options, b.node id = .choice options) → 0 < f.offset)
      (h : Surfaces b child (path.child child slot) place f) : Surfaces b id path start f

end Rulebook

open Rulebook

/-! ## From a course to where its match comes from -/

theorem Furthest.merge_eq_some {best best' : Option Furthest} {f : Furthest} (h : merge best best' = some f) :
    best = some f ∨ best' = some f ∧ reach best < f.offset := by
  unfold merge at h
  split at h
  · rename_i hl
    rw [h] at hl
    exact .inr ⟨h, hl⟩
  · exact .inl h

theorem Furthest.KeepsUp.eq_or_lt {start cursor : Cursor} {best : Option Furthest} {f : Furthest}
    (h : KeepsUp start cursor best) (hf : reach best < f.offset) : cursor = start ∨ cursor.offset < f.offset :=
  h.imp_right fun h => Nat.lt_of_le_of_lt h hf

def Task.Yields (b : Rulebook) (path : Path) (cursor : Cursor) (f : Furthest) : Task → Prop
  | .node id => b.Surfaces id path cursor f
  | .items ids slot _ best => ∀ start, Furthest.KeepsUp start cursor best → best = some f ∨
      ∃ i child place, ids[i]? = some child ∧ (place = start ∨ place.offset < f.offset) ∧
        b.Surfaces child (path.child child (slot + i)) place f
  | .options ids slot best => best = some f ∨
      ∃ i child, ids[i]? = some child ∧ 0 < f.offset ∧ b.Surfaces child (path.child child (slot + i)) cursor f
  | .rounds child _ _ _ _ best => ∀ start, Furthest.KeepsUp start cursor best → best = some f ∨
      ∃ place, (place = start ∨ place.offset < f.offset) ∧ b.Surfaces child (path.child child 0) place f

section
variable {b : Rulebook} {path : Path} {cursor : Cursor} {f : Furthest}

theorem Node.children_of_wrapped {n : Node} {child : NodeId} (h : n.wrapped? = some child) :
    n.children = [child] := by
  cases n <;> cases h <;> rfl

theorem surfaces_of_wrapped {id child : NodeId} (hw : (b.node id).wrapped? = some child)
    (h : b.Surfaces child (path.child child 0) cursor f) : b.Surfaces id path cursor f := by
  refine .child (by rw [Node.children_of_wrapped hw]; rfl) (.inl rfl) ?_ h
  rintro ⟨options, hn⟩
  rw [hn] at hw
  cases hw

theorem isFirm_of_reader? {id : NodeId} {read : Text → Option (Value × Text × Text)}
    (h : (b.node id).reader? = some read) : b.IsFirm id ∧ b.node id ≠ .always := by
  rw [IsFirm, inner?]
  cases hn : b.node id <;> rw [hn] at h <;> cases h <;> refine ⟨⟨rfl, .inl rfl⟩, fun ha => ?_⟩ <;> cases ha

end

/-- What a match keeps comes up from the node that was matched. -/
theorem Course.yields {text : Text} {b : Rulebook} {task : Task} {path : Path} {cursor : Cursor} {o : Outcome}
    {leaves : List Furthest} (h : Course text b task path cursor o leaves) :
    ∀ {f : Furthest}, o.best = some f → task.Yields b path cursor f := by
  induction h with
  | hit hn hc hr =>
    rintro f ⟨⟩
    exact .own (isFirm_of_reader? hn).1 rfl fun ha => absurd ha (isFirm_of_reader? hn).2
  | miss | never => exact fun hf => nomatch hf
  | always hn =>
    rintro f ⟨⟩
    exact .own (by rw [IsFirm, inner?, hn]; exact ⟨rfl, .inl rfl⟩) rfl fun _ => rfl
  | sequence hn _ ih =>
    intro f hf
    rcases ih hf _ (.refl _ _) with he | ⟨i, child, place, hc, hp, hs⟩
    · cases he
    · refine .child (by rw [hn]; exact hc) hp ?_ (Nat.zero_add i ▸ hs)
      rintro ⟨options, hn'⟩
      cases hn.symm.trans hn'
  | choice hn _ ih =>
    intro f hf
    rcases ih hf with he | ⟨i, child, hc, hp, hs⟩
    · cases he
    · exact .child (by rw [hn]; exact hc) (.inl rfl) (fun _ => hp) (Nat.zero_add i ▸ hs)
  | times hn _ ih =>
    intro f hf
    rcases ih hf _ (.refl _ _) with he | ⟨place, hp, hs⟩
    · cases he
    · refine .child (by rw [hn]; rfl) hp ?_ hs
      rintro ⟨options, hn'⟩
      cases hn.symm.trans hn'
  | itemsDone => exact fun hf _ _ => .inl hf
  | optionsDone => exact fun hf => .inl hf
  | itemsFail _ _ ih =>
    intro f hf start hk
    rcases Furthest.merge_eq_some hf with hb | ⟨ho, hl⟩
    · exact .inl hb
    · exact .inr ⟨0, _, _, rfl, hk.eq_or_lt hl, ih ho⟩
  | itemsNext h _ _ ih ih' =>
    intro f hf start hk
    rcases ih' hf start (hk.next (h.keepsUp (.refl _ _) (.refl _ _))) with hb | ⟨i, child, place, hc, hp, hs⟩
    · rcases Furthest.merge_eq_some hb with hb | ⟨ho, hl⟩
      · exact .inl hb
      · exact .inr ⟨0, _, _, rfl, hk.eq_or_lt hl, ih ho⟩
    · exact .inr ⟨i + 1, child, place, hc, hp, by rw [Nat.add_comm i, ← Nat.add_assoc]; exact hs⟩
  | optionsTake _ _ ih =>
    intro f hf
    rcases Furthest.merge_eq_some hf with hb | ⟨ho, hl⟩
    · exact .inl hb
    · exact .inr ⟨0, _, rfl, Nat.zero_lt_of_lt hl, ih ho⟩
  | optionsNext _ _ _ ih ih' =>
    intro f hf
    rcases ih' hf with hb | ⟨i, child, hc, hp, hs⟩
    · rcases Furthest.merge_eq_some hb with hb | ⟨ho, hl⟩
      · exact .inl hb
      · exact .inr ⟨0, _, rfl, Nat.zero_lt_of_lt hl, ih ho⟩
    · exact .inr ⟨i + 1, child, hc, hp, by rw [Nat.add_comm i, ← Nat.add_assoc]; exact hs⟩
  | roundsFull => exact fun hf _ _ => .inl (by rw [Outcome.best_endRounds] at hf; exact hf)
  | roundsFail _ _ _ ih | roundsStop _ _ _ _ ih =>
    intro f hf start hk
    rw [Outcome.best_endRounds] at hf
    rcases Furthest.merge_eq_some hf with hb | ⟨ho, hl⟩
    · exact .inl hb
    · exact .inr ⟨_, hk.eq_or_lt hl, ih ho⟩
  | roundsNext _ h _ _ _ ih ih' =>
    intro f hf start hk
    rcases ih' hf start (hk.next (h.keepsUp (.refl _ _) (.refl _ _))) with hb | hs
    · rcases Furthest.merge_eq_some hb with hb | ⟨ho, hl⟩
      · exact .inl hb
      · exact .inr ⟨_, hk.eq_or_lt hl, ih ho⟩
    · exact .inr hs
  | map hn _ ih | chainFail hn _ _ ih => exact fun hf => surfaces_of_wrapped (by rw [hn]; rfl) (ih hf)
  | chain hn _ _ _ _ ih =>
    intro f hf
    rw [Outcome.best_ofStages] at hf
    rcases Furthest.merge_eq_some hf with hb | ⟨ho, -⟩
    · exact surfaces_of_wrapped (by rw [hn]; rfl) (ih hb)
    · obtain ⟨g, -, rfl⟩ := Option.map_eq_some_iff.mp ho
      refine .own (by rw [IsFirm, inner?, hn]; exact ⟨rfl, .inr ⟨_, _, rfl⟩⟩) rfl fun ha => ?_
      cases hn.symm.trans ha
  | look hn _ ih =>
    intro f hf
    rw [Outcome.best_ofLook] at hf
    rcases Furthest.merge_eq_some hf with hb | ⟨ho, -⟩
    · cases hb
    · exact surfaces_of_wrapped (by rw [hn]; rfl) (ih ho)
  | deferred hn _ ih => exact fun hf => .inner (inner?_deferred hn) (ih hf)
  | named hn _ ih => exact fun hf => .inner (inner?_named hn) (ih hf)

/-! ## The way down to it -/

namespace Rulebook

variable {b : Rulebook} {root : NodeId}

theorem inner?_of_children {id child : NodeId} {slot : Nat} (h : (b.node id).children[slot]? = some child) :
    b.inner? id = none := by
  rw [inner?]
  cases hn : b.node id <;> first | rfl | (rw [hn] at h; cases h)

theorem Surfaces.resolves {id : NodeId} {path : Path} {start : Cursor} {f : Furthest} (h : b.Surfaces id path start f) :
    ∃ last, b.Resolves id last := by
  induction h with
  | own hn => exact ⟨_, .refl hn.1⟩
  | inner hi _ ih =>
    obtain ⟨last, hr⟩ := ih
    exact ⟨last, .of_leads (.step hi (.refl _)) hr⟩
  | child hc => exact ⟨_, .refl (inner?_of_children hc)⟩

def EndsHidden (b : Rulebook) (steps : List Step) : Prop :=
  ∃ s t outside, steps = s :: t :: outside ∧ b.Hides t.node s.slot

/-- What comes up from an occurrence of a grammar lies on a descent further down, ends in a leaf or a chain, and
comes out of a hidden slot only from a place where it adds nothing. -/
theorem Surfaces.descent {id : NodeId} {path : Path} {start : Cursor} {f : Furthest} (h : b.Surfaces id path start f) :
    ∀ {s : Step} {outside : List Step}, b.Resolves id s.node → Descent b root path (s :: outside) →
      (b.EndsHidden (s :: outside) → 0 < f.offset) →
        ∃ s' outside', Descent b root f.path (s' :: outside') ∧ b.IsFirm s'.node ∧
          (b.EndsHidden (s' :: outside') → 0 < f.offset ∧ f.offset = start.offset) := by
  induction h with
  | own hn hp ha =>
    intro s outside hr hd hh
    have he := hr.leads.eq_of_ends hn.1
    rw [← hp] at hd
    refine ⟨s, outside, hd, he ▸ hn, fun hw => ⟨hh hw, ha ?_⟩⟩
    obtain ⟨s, t, outside, hs, rfl', first, second, last, ht, hl, hlast⟩ := hw
    cases hs
    obtain ⟨child, hc, hr'⟩ := hd.trail.fills
    rw [ht, rfl'] at hc
    cases hc
    rw [← he, hr'.unique hl]
    exact hlast
  | inner hi _ ih => exact fun hr hd hh => ih (hr.after (.step hi (.refl _))) hd hh
  | @child id path start child slot place f hc hp hf h ih =>
    intro s outside hr hd _
    have he := hr.leads.eq_of_ends (inner?_of_children hc)
    obtain ⟨last, hl⟩ := h.resolves
    have hd' := hd.child (he ▸ hc) hl
    have hh : b.EndsHidden (⟨last, slot⟩ :: s :: outside) → 0 < f.offset := by
      rintro ⟨_, _, _, hs, -, first, second, _, hn, -⟩
      cases hs
      exact hf ⟨_, he ▸ hn⟩
    obtain ⟨s', outside', hd'', hn, hw⟩ := ih hl hd' hh
    refine ⟨s', outside', hd'', hn, fun hw' => ⟨(hw hw').1, ?_⟩⟩
    have hw := (hw hw').2
    rcases hp with rfl | hp
    · exact hw
    · omega

end Rulebook

end FurthestMatch
