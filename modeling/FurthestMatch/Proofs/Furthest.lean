import FurthestMatch.Proofs.Course

/-!
# The furthest match of a leaf

A match keeps one leaf match of all that happen on the way, and merges it anew at every kind of node. Merging is
associative, so what is kept in the end is what merging the leaf matches one by one gives: the first among those
that went furthest.
-/

namespace FurthestMatch

namespace Furthest

variable {a b c : Option Furthest}

@[simp] theorem merge_none_right (a : Option Furthest) : merge a none = a :=
  if_neg (Nat.not_lt_zero _)

theorem reach_merge (a b : Option Furthest) : reach (merge a b) = max (reach a) (reach b) := by
  unfold merge
  split <;> omega

theorem merge_assoc (a b c : Option Furthest) : merge (merge a b) c = merge a (merge b c) := by
  by_cases hab : reach a < reach b
  · rw [show merge a b = b from if_pos hab]
    exact (if_pos (by rw [reach_merge]; omega)).symm
  · rw [show merge a b = a from if_neg hab]
    by_cases hbc : reach b < reach c
    · rw [show merge b c = c from if_pos hbc]
    · rw [show merge b c = b from if_neg hbc, show merge a b = a from if_neg hab]
      exact if_neg (by omega)

/-- What is merged in counts only with what it makes of nothing. -/
theorem merge_congr_right (h : merge none b = merge none c) (a : Option Furthest) : merge a b = merge a c := by
  have h' : merge a (merge none b) = merge a (merge none c) := congrArg _ h
  rwa [← merge_assoc, ← merge_assoc, merge_none_right] at h'

/-- A match put down to another occurrence. -/
def putDownTo (path : Path) (f : Furthest) : Furthest :=
  ⟨f.offset, path⟩

theorem reach_putDownTo (path : Path) (a : Option Furthest) : reach (a.map (putDownTo path)) = reach a := by
  cases a <;> rfl

theorem merge_putDownTo (path : Path) (a b : Option Furthest) :
    merge (a.map (putDownTo path)) (b.map (putDownTo path)) = (merge a b).map (putDownTo path) := by
  simp only [merge, reach_putDownTo]
  split <;> rfl

def ofLeaves (leaves : List Furthest) : Option Furthest :=
  leaves.foldl (fun best leaf => merge best (some leaf)) none

theorem foldl_merge (leaves : List Furthest) (best : Option Furthest) :
    leaves.foldl (fun best leaf => merge best (some leaf)) best = merge best (ofLeaves leaves) := by
  induction leaves generalizing best with
  | nil => exact (merge_none_right best).symm
  | cons leaf leaves ih =>
    rw [ofLeaves, List.foldl_cons, List.foldl_cons, ih, ih (merge none (some leaf)), ← merge_assoc, ← merge_assoc,
      merge_none_right]

theorem ofLeaves_append (leaves leaves' : List Furthest) :
    ofLeaves (leaves ++ leaves') = merge (ofLeaves leaves) (ofLeaves leaves') := by
  rw [ofLeaves, List.foldl_append, foldl_merge]
  rfl

theorem merge_none_ofLeaves (leaves : List Furthest) : merge none (ofLeaves leaves) = ofLeaves leaves :=
  (foldl_merge leaves none).symm

theorem ofLeaves_putDownTo (path : Path) (leaves : List Furthest) :
    ofLeaves (leaves.map (putDownTo path)) = (ofLeaves leaves).map (putDownTo path) := by
  induction leaves with
  | nil => rfl
  | cons leaf leaves ih =>
    rw [← List.singleton_append, ofLeaves_append, List.map_append, ofLeaves_append, ih, ← merge_putDownTo]
    congr 1
    exact merge_putDownTo path none (some leaf)

theorem reach_ofLeaves (leaves : List Furthest) : reach (ofLeaves leaves) = (leaves.map (·.offset)).foldl max 0 := by
  suffices ∀ best, reach (leaves.foldl (fun best leaf => merge best (some leaf)) best) =
      (leaves.map (·.offset)).foldl max (reach best) from this none
  induction leaves with
  | nil => exact fun _ => rfl
  | cons leaf leaves ih =>
    intro best
    rw [List.foldl_cons, ih, reach_merge]
    rfl

theorem ofLeaves_cons (leaf : Furthest) (leaves : List Furthest) :
    ofLeaves (leaf :: leaves) = merge (merge none (some leaf)) (ofLeaves leaves) :=
  foldl_merge leaves _

/-- What is kept of leaf matches is the first one that went as far as any. -/
theorem ofLeaves_eq_find? : ∀ (leaves : List Furthest), 0 < reach (ofLeaves leaves) →
    ofLeaves leaves = leaves.find? fun leaf => leaf.offset = reach (ofLeaves leaves)
  | [], h => absurd h (Nat.lt_irrefl _)
  | leaf :: leaves, h => by
    have hleaf : reach (merge none (some leaf)) = leaf.offset := by
      rw [reach_merge]
      exact Nat.zero_max _
    have hr : reach (ofLeaves (leaf :: leaves)) = max leaf.offset (reach (ofLeaves leaves)) := by
      rw [ofLeaves_cons, reach_merge, hleaf]
    by_cases hl : leaf.offset < reach (ofLeaves leaves)
    · have hm : ofLeaves (leaf :: leaves) = ofLeaves leaves := by
        rw [ofLeaves_cons]
        exact if_pos (by rw [hleaf]; exact hl)
      rw [hm, List.find?_cons_of_neg (by simpa using Nat.ne_of_lt hl)]
      exact ofLeaves_eq_find? leaves (by omega)
    · have hm : ofLeaves (leaf :: leaves) = merge none (some leaf) := by
        rw [ofLeaves_cons]
        exact if_neg (by rw [hleaf]; exact hl)
      rw [hm, hleaf, List.find?_cons_of_pos (by simp)]
      exact if_pos (by rw [hm, hleaf] at h; exact h)

end Furthest

/-! ## What a match keeps -/

def Task.best : Task → Option Furthest
  | .node _ => none
  | .items _ _ _ best | .options _ _ best | .rounds _ _ _ _ _ best => best

theorem Outcome.best_endRounds (least : Nat) (start : Cursor) (values : List Value) (cursor : Cursor)
    (best : Option Furthest) : (Outcome.endRounds least start values cursor best).best = best := by
  unfold Outcome.endRounds
  split <;> rfl

theorem Outcome.best_ofLook (polarity : Polarity) (cursor : Cursor) (o : Outcome) :
    (Outcome.ofLook polarity cursor o).best = Furthest.merge none o.best := by
  unfold Outcome.ofLook
  dsimp only
  split <;> rfl

theorem Outcome.best_ofStages (path : Path) (first second : Outcome) :
    (Outcome.ofStages path first second).best =
      Furthest.merge first.best (second.best.map (Furthest.putDownTo path)) := by
  rw [Outcome.ofStages, Furthest.merge, Furthest.reach_putDownTo]
  change (if first.reach < second.reach then _ else _ : Outcome).best = if first.reach < second.reach then _ else _
  split
  · rename_i h
    cases hb : second.best with
    | none => simp only [Outcome.reach, hb, Furthest.reach] at h; omega
    | some f => simp only [Outcome.reach, hb, Furthest.reach, Furthest.putDownTo, Option.map_some]
  · rfl

section
open Furthest
variable {id : NodeId} {o : Outcome} {leaves leaves' : List Furthest} {best best' : Option Furthest}
  (h : merge none o.best = merge none (merge (Task.node id).best (ofLeaves leaves)))
include h

theorem merge_best_of_child (best : Option Furthest) : merge best o.best = merge best (ofLeaves leaves) :=
  merge_congr_right (h.trans (congrArg _ (merge_none_ofLeaves leaves))) best

theorem merge_best_of_next
    (h' : merge none best' = merge none (merge (merge best o.best) (ofLeaves leaves'))) :
    merge none best' = merge none (merge best (ofLeaves (leaves ++ leaves'))) := by
  rw [h', merge_best_of_child h, merge_assoc, ofLeaves_append]

theorem merge_none_putDownTo (path : Path) : merge none (o.best.map (putDownTo path)) =
    merge none (ofLeaves (leaves.map (putDownTo path))) := by
  rw [ofLeaves_putDownTo]
  calc merge none (o.best.map (putDownTo path))
      = (merge none o.best).map (putDownTo path) := merge_putDownTo path none _
    _ = (merge none (ofLeaves leaves)).map (putDownTo path) := congrArg _ (merge_best_of_child h none)
    _ = merge none ((ofLeaves leaves).map (putDownTo path)) := (merge_putDownTo path none _).symm

end

/-- Every task merges its leaf matches, in their order, into what was kept before. -/
theorem Course.merge_none_best {text : Text} {b : Rulebook} {task : Task} {path : Path} {cursor : Cursor}
    {o : Outcome} {leaves : List Furthest} (h : Course text b task path cursor o leaves) :
    Furthest.merge none o.best = Furthest.merge none (Furthest.merge task.best (Furthest.ofLeaves leaves)) := by
  induction h with
  | miss | never => rfl
  | hit | always =>
    show Furthest.merge none _ = Furthest.merge none (Furthest.merge none (Furthest.ofLeaves _))
    rw [Furthest.merge_none_ofLeaves, Furthest.merge_none_ofLeaves]
    rfl
  | sequence _ _ ih | choice _ _ ih | times _ _ ih | map _ _ ih | chainFail _ _ _ ih | deferred _ _ ih
  | named _ _ ih => exact ih
  | itemsDone | optionsDone => exact (congrArg _ (Furthest.merge_none_right _)).symm
  | itemsFail _ _ ih | optionsTake _ _ ih => exact congrArg _ (merge_best_of_child ih _)
  | itemsNext _ _ _ ih ih' | optionsNext _ _ _ ih ih' => exact merge_best_of_next ih ih'
  | roundsFull =>
    rw [Outcome.best_endRounds]
    exact (congrArg _ (Furthest.merge_none_right _)).symm
  | roundsFail _ _ _ ih | roundsStop _ _ _ _ ih =>
    rw [Outcome.best_endRounds]
    exact congrArg _ (merge_best_of_child ih _)
  | roundsNext _ _ _ _ _ ih ih' => exact merge_best_of_next ih ih'
  | chain _ _ _ _ _ ih ih' =>
    rename_i path _ _ _ first _ leaves _ _ second leaves' _ _ _ _ _
    rw [Outcome.best_ofStages]
    refine merge_best_of_next ih ?_
    rw [Furthest.merge_congr_right (merge_none_putDownTo ih' path)]
    show _ = Furthest.merge none (Furthest.merge (Furthest.merge none first.best) _)
    rw [Furthest.merge_assoc none first.best, ← Furthest.merge_assoc none none]
    rfl
  | look _ _ ih =>
    rw [Outcome.best_ofLook]
    exact congrArg _ (merge_best_of_child ih none)

section
variable {text : Text} {b : Rulebook} {id : NodeId} {path : Path} {cursor : Cursor} {o : Outcome}
  {leaves : List Furthest} (c : Course text b (.node id) path cursor o leaves)
include c

theorem Course.merge_none_best_eq_ofLeaves : Furthest.merge none o.best = Furthest.ofLeaves leaves :=
  (merge_best_of_child c.merge_none_best none).trans (Furthest.merge_none_ofLeaves leaves)

theorem Course.reach_eq_reach_ofLeaves : o.reach = Furthest.reach (Furthest.ofLeaves leaves) := by
  rw [← c.merge_none_best_eq_ofLeaves, Furthest.reach_merge]
  exact (Nat.zero_max _).symm

theorem Course.best_eq_ofLeaves (h : 0 < o.reach) : o.best = Furthest.ofLeaves leaves := by
  rw [← c.merge_none_best_eq_ofLeaves]
  exact (if_pos h).symm

end

/-- The leaf matches of a match make up one list, in the order in which they happen, and what the match keeps is the
first of the list that went furthest. -/
theorem best_is_first_furthest {text : Text} {depth : Nat} {b : Rulebook} {id : NodeId} {path : Path}
    {cursor : Cursor} {o : Outcome} (h : (b.matchNode text depth id path cursor).result = .ok o) :
    ∃ leaves, (∀ o' ls, Course text b (.node id) path cursor o' ls ↔ o' = o ∧ ls = leaves) ∧
      o.reach = (leaves.map (·.offset)).foldl max 0 ∧
      (0 < o.reach → o.best = leaves.find? fun leaf => leaf.offset = o.reach) := by
  obtain ⟨leaves, c⟩ := course_of_matchNode h
  have hr := c.reach_eq_reach_ofLeaves
  refine ⟨leaves, fun o' ls => ⟨fun c' => c.unique c', ?_⟩, hr.trans (Furthest.reach_ofLeaves leaves), fun hp => ?_⟩
  · rintro ⟨rfl, rfl⟩
    exact c
  · rw [hr, c.best_eq_ofLeaves hp]
    exact Furthest.ofLeaves_eq_find? leaves (hr ▸ hp)

def twoTries : Rulebook where
  graph := { nodes := #[.literal "a", .never, .sequence [0, 1], .look 0 .positive, .choice [2, 3]] }

theorem first_furthest_of_twoTries : ∃ leaves,
    Course ['a'] twoTries (.node 4) (Path.root 4) (Cursor.start ['a'])
      ⟨some .empty, Cursor.start ['a'], some ⟨1, [⟨0, 0⟩, ⟨2, 0⟩, ⟨4, 0⟩]⟩⟩ leaves ∧
    1 = (leaves.map (·.offset)).foldl max 0 ∧
    some ⟨1, [⟨0, 0⟩, ⟨2, 0⟩, ⟨4, 0⟩]⟩ = leaves.find? fun leaf => leaf.offset = 1 := by
  have h : (twoTries.matchNode ['a'] 3 4 (Path.root 4) (Cursor.start ['a'])).result =
      .ok ⟨some .empty, Cursor.start ['a'], some ⟨1, [⟨0, 0⟩, ⟨2, 0⟩, ⟨4, 0⟩]⟩⟩ := by rfl
  obtain ⟨leaves, hc, hr, hb⟩ := best_is_first_furthest h
  exact ⟨leaves, (hc _ _).mpr ⟨rfl, rfl⟩, hr, hb (by decide)⟩

end FurthestMatch
