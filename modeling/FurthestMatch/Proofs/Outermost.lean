import FurthestMatch.Drawing.Highlight
import FurthestMatch.Proofs.Resolution
import Mathlib.Data.List.Chain
import Mathlib.Data.List.Nodup

/-!
# Outermost places

Folding goes from the innermost step of a row to the outermost one at the same node, leaves out what is between, and
goes on from the step outside it. As a relation between rows it has one case for every round: the round keeps a step
whose node does not stand further out. So no node stands twice in what is left, the ends of the row and the order of
its steps stay, and a descent into a graph is left a descent.
-/

namespace FurthestMatch

/-! ## Rounds -/

theorem lastAt?_eq_none {id : NodeId} : ∀ {steps : List Step}, lastAt? id steps = none → id ∉ steps.map Step.node
  | [], _ => List.not_mem_nil
  | step :: outside, h => by
    rw [lastAt?] at h
    cases hl : lastAt? id outside with
    | some _ => rw [hl] at h; cases h
    | none =>
      rw [hl, Option.orElse_none] at h
      split at h
      · cases h
      · rename_i hs
        rw [List.map_cons, List.mem_cons, not_or]
        exact ⟨Ne.symm hs, lastAt?_eq_none hl⟩

theorem lastAt?_eq_some {id : NodeId} : ∀ {steps : List Step} {found : Step × List Step},
    lastAt? id steps = some found → found.1.node = id ∧ id ∉ found.2.map Step.node ∧
      ∃ inside, steps = inside ++ found.1 :: found.2
  | step :: outside, found, h => by
    rw [lastAt?] at h
    cases hl : lastAt? id outside with
    | some _ =>
      rw [hl] at h
      cases h
      obtain ⟨hn, ho, inside, rfl⟩ := lastAt?_eq_some hl
      exact ⟨hn, ho, step :: inside, rfl⟩
    | none =>
      rw [hl, Option.orElse_none] at h
      split at h
      · rename_i hs
        cases h
        exact ⟨hs, lastAt?_eq_none hl, [], rfl⟩
      · cases h

theorem foldRecursion_of_some {step : Step} {outside : List Step} {found : Step × List Step}
    (h : lastAt? step.node outside = some found) :
    foldRecursion (step :: outside) = found.1 :: foldRecursion found.2 := by
  rw [foldRecursion]
  split
  · rename_i h'
    cases h.symm.trans h'
    rfl
  · rename_i h'
    cases h.symm.trans h'

theorem foldRecursion_of_none {step : Step} {outside : List Step} (h : lastAt? step.node outside = none) :
    foldRecursion (step :: outside) = step :: foldRecursion outside := by
  rw [foldRecursion]
  split
  · rename_i h'
    cases h.symm.trans h'
  · rfl

/-- A row with what is left of it: from the innermost step to the outermost one at its node, and on from there. -/
inductive Folds : List Step → List Step → Prop
  | nil : Folds [] []
  | round {inside s outside folded} (hi : ∀ first ∈ inside.head?, first.node = s.node)
      (ho : s.node ∉ outside.map Step.node) (h : Folds outside folded) : Folds (inside ++ s :: outside) (s :: folded)

theorem folds_foldRecursion (steps : List Step) : Folds steps (foldRecursion steps) := by
  induction steps using foldRecursion.induct with
  | case1 => rw [foldRecursion]; exact .nil
  | case2 step outside found hl _ ih =>
    obtain ⟨hn, ho, inside, rfl⟩ := lastAt?_eq_some hl
    rw [foldRecursion_of_some hl, ← List.cons_append]
    exact .round (by simp [hn]) (hn ▸ ho) ih
  | case3 step outside hl ih =>
    rw [foldRecursion_of_none hl, ← List.nil_append (step :: outside)]
    exact .round (by simp) (lastAt?_eq_none hl) ih

/-! ## What a round keeps -/

/-- A step is the outermost one at its node. -/
def IsOutermost (s : Step) (steps : List Step) : Prop :=
  ∃ inside outside, steps = inside ++ s :: outside ∧ s.node ∉ outside.map Step.node

/-- Every step fills its slot of the next one's node, in a graph given by what fills the slots of its nodes. -/
def Descends (fills : NodeId → Nat → NodeId → Prop) (steps : List Step) : Prop :=
  steps.IsChain fun s t => fills s.node s.slot t.node

namespace Folds

variable {steps folded : List Step}

theorem head?_eq (h : Folds steps folded) : folded.head?.map Step.node = steps.head?.map Step.node := by
  cases h with
  | nil => rfl
  | @round inside s _ _ hi =>
    cases inside with
    | nil => rfl
    | cons first => exact congrArg some (hi first rfl).symm

theorem getLast?_eq (h : Folds steps folded) : folded.getLast? = steps.getLast? := by
  induction h with
  | nil => rfl
  | round _ _ _ ih => rw [List.getLast?_append_cons, List.getLast?_cons, List.getLast?_cons, ih]

theorem sublist (h : Folds steps folded) : folded.Sublist steps := by
  induction h with
  | nil => exact .slnil
  | @round inside s _ _ _ _ _ ih => exact (ih.cons_cons s).trans (List.sublist_append_right inside _)

theorem nodup (h : Folds steps folded) : (folded.map Step.node).Nodup := by
  induction h with
  | nil => exact List.nodup_nil
  | round _ ho h ih => exact List.nodup_cons.mpr ⟨fun hm => ho ((h.sublist.map _).subset hm), ih⟩

theorem isOutermost (h : Folds steps folded) : ∀ s ∈ folded, IsOutermost s steps := by
  induction h with
  | nil => nofun
  | @round inside s outside _ _ ho _ ih =>
    intro t ht
    rcases List.mem_cons.mp ht with rfl | ht
    · exact ⟨inside, outside, rfl, ho⟩
    · obtain ⟨inside', outside', he, ho'⟩ := ih t ht
      exact ⟨inside ++ s :: inside', outside', by rw [he]; simp, ho'⟩

/-- Nothing is left out of a row in which no node stands twice. -/
theorem eq_of_nodup (h : Folds steps folded) (hn : (steps.map Step.node).Nodup) : folded = steps := by
  induction h with
  | nil => rfl
  | @round inside s outside _ hi _ _ ih =>
    rw [List.map_append, List.map_cons, List.nodup_append'] at hn
    obtain ⟨-, ho, hd⟩ := hn
    cases inside with
    | nil => rw [ih (List.nodup_cons.mp ho).2, List.nil_append]
    | cons first inside =>
      refine absurd ?_ (hd List.mem_cons_self)
      rw [hi first rfl]
      exact List.mem_cons_self

/-- Only the node of the step outside matters to what fills its slot, and folding does not change that node. -/
theorem descends {fills : NodeId → Nat → NodeId → Prop} (h : Folds steps folded) (hd : Descends fills steps) :
    Descends fills folded := by
  induction h with
  | nil => exact .nil
  | @round inside s outside folded _ _ h ih =>
    obtain ⟨hs, hd⟩ := List.isChain_cons.mp (List.IsChain.right_of_append hd)
    refine List.isChain_cons.mpr ⟨fun t ht => ?_, ih hd⟩
    obtain ⟨t', ht', he⟩ : ∃ t', outside.head? = some t' ∧ t'.node = t.node := by
      have hhead := h.head?_eq
      rw [ht] at hhead
      exact Option.map_eq_some_iff.mp hhead.symm
    rw [← he]
    exact hs t' ht'

end Folds

theorem nodup_foldRecursion (steps : List Step) : ((foldRecursion steps).map Step.node).Nodup :=
  (folds_foldRecursion steps).nodup

/-- Folding leaves the outermost steps at their nodes, each node once and in their order, from a step at the node of the
innermost one to the outermost one itself, and folding again changes nothing. A descent into any graph is left a descent
into that graph. -/
theorem folding_keeps_outermost_places (steps : List Step) :
    ((foldRecursion steps).map Step.node).Nodup ∧
    (foldRecursion steps).head?.map Step.node = steps.head?.map Step.node ∧
    (foldRecursion steps).getLast? = steps.getLast? ∧
    (∀ s ∈ foldRecursion steps, IsOutermost s steps) ∧
    (foldRecursion steps).Sublist steps ∧
    foldRecursion (foldRecursion steps) = foldRecursion steps ∧
    ∀ fills, Descends fills steps → Descends fills (foldRecursion steps) := by
  have h := folds_foldRecursion steps
  exact ⟨h.nodup, h.head?_eq, h.getLast?_eq, h.isOutermost, h.sublist,
    (folds_foldRecursion _).eq_of_nodup h.nodup, fun _ => h.descends⟩

def pairs : Rulebook where
  graph := { nodes := #[.literal "1", .choice [0, 2], .sequence [1, 3], .choice [2, 1]] }

/-- Values, pairs and rows stand in one another again and again; of the pairs nothing is left. -/
theorem outermost_places_of_pairs :
    foldRecursion [⟨0, 0⟩, ⟨1, 0⟩, ⟨2, 1⟩, ⟨1, 1⟩, ⟨3, 1⟩, ⟨2, 0⟩, ⟨3, 0⟩] = [⟨0, 0⟩, ⟨1, 1⟩, ⟨3, 0⟩] ∧
    IsOutermost ⟨1, 1⟩ [⟨0, 0⟩, ⟨1, 0⟩, ⟨2, 1⟩, ⟨1, 1⟩, ⟨3, 1⟩, ⟨2, 0⟩, ⟨3, 0⟩] ∧
    Descends pairs.Fills [⟨0, 0⟩, ⟨1, 1⟩, ⟨3, 0⟩] := by
  have hf : foldRecursion [⟨0, 0⟩, ⟨1, 0⟩, ⟨2, 1⟩, ⟨1, 1⟩, ⟨3, 1⟩, ⟨2, 0⟩, ⟨3, 0⟩] = [⟨0, 0⟩, ⟨1, 1⟩, ⟨3, 0⟩] := by
    simp [foldRecursion, lastAt?]
  have fills {s t : Step} (hc : (pairs.node t.node).children[s.slot]? = some s.node)
      (hi : pairs.inner? s.node = none) : pairs.Fills s.node s.slot t.node := ⟨_, hc, .refl hi⟩
  obtain ⟨-, -, -, houter, -, -, hdescends⟩ :=
    folding_keeps_outermost_places [⟨0, 0⟩, ⟨1, 0⟩, ⟨2, 1⟩, ⟨1, 1⟩, ⟨3, 1⟩, ⟨2, 0⟩, ⟨3, 0⟩]
  rw [hf] at houter hdescends
  refine ⟨hf, houter ⟨1, 1⟩ (by simp), hdescends pairs.Fills ?_⟩
  exact .cons_cons (fills rfl rfl) (.cons_cons (fills rfl rfl) (.cons_cons (fills rfl rfl) (.cons_cons (fills rfl rfl)
    (.cons_cons (fills rfl rfl) (.cons_cons (fills rfl rfl) (.singleton _))))))

end FurthestMatch
