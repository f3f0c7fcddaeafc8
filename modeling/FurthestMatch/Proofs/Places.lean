import FurthestMatch.Proofs.Furthest
import FurthestMatch.Proofs.Halting

/-!
# Places of a text

A match that is begun at a place of a text only comes to places of it: no offset on the way lies beyond the end or
inside a character. The end of a match is where it began or no further than the furthest leaf match.
-/

namespace FurthestMatch

def Text.IsBoundary (text : Text) (offset : Nat) : Prop :=
  ∃ before after, text = before ++ after ∧ size before = offset

def Cursor.Within (text : Text) (c : Cursor) : Prop :=
  ∃ before after, text = before ++ after ∧ c = ⟨Text.size before, some after⟩

theorem Text.IsBoundary.le_size {text : Text} {offset : Nat} (h : text.IsBoundary offset) : offset ≤ size text := by
  obtain ⟨before, after, rfl, rfl⟩ := h
  rw [size_append]
  exact Nat.le_add_right _ _

theorem Text.isBoundary_zero (text : Text) : text.IsBoundary 0 :=
  ⟨[], text, rfl, rfl⟩

namespace Cursor.Within

variable {text : Text} {c d : Cursor}

theorem ofOffset {offset : Nat} (h : text.IsBoundary offset) : (Cursor.ofOffset text offset).Within text := by
  obtain ⟨before, after, rfl, rfl⟩ := h
  exact ⟨before, after, rfl, by rw [Cursor.ofOffset, Text.splitAt_append]; rfl⟩

theorem isBoundary (h : c.Within text) : text.IsBoundary c.offset := by
  obtain ⟨before, after, ht, rfl⟩ := h
  exact ⟨before, after, ht, rfl⟩

theorem eq_ofOffset (h : c.Within text) : c = Cursor.ofOffset text c.offset := by
  obtain ⟨before, after, rfl, rfl⟩ := h
  rw [Cursor.ofOffset, Text.splitAt_append]
  rfl

theorem rest_ne_none (h : c.Within text) : c.rest ≠ none := by
  obtain ⟨before, after, -, rfl⟩ := h
  exact Option.some_ne_none after

theorem reaches (h : c.Within text) (hr : c.Reaches d) : d.Within text := by
  rcases hr with rfl | ⟨passed, rest, hc, rfl⟩
  · exact h
  · obtain ⟨before, after, rfl, rfl⟩ := h
    cases hc
    exact ⟨before ++ passed, rest, by rw [List.append_assoc], by rw [advance, Text.size_append]⟩

end Cursor.Within

/-! ## No text is needed where there is none -/

section
variable {text : Text} {run : Matcher} {path : Path}
  (ha : ∀ {id path cursor}, cursor.Within text → (run id path cursor).Aligned)
  (hr : ∀ {id path cursor o}, (run id path cursor).result = .ok o → cursor.Reaches o.cursor)
include ha

theorem Outcome.aligned_ofChoice {cursor : Cursor} (hc : cursor.Within text) : ∀ (options : List NodeId) (slot : Nat)
    (best : Option Furthest), (Outcome.ofChoice run path cursor options slot best).Aligned
  | [], _, _ => .pure _
  | option :: options, slot, best => by
    refine .bind (ha hc) fun o _ => ?_
    dsimp only
    split
    · exact .pure _
    · exact aligned_ofChoice hc options _ _

include hr

theorem Outcome.aligned_ofSequence : ∀ (items : List NodeId) (slot : Nat) (values : List Value) {cursor : Cursor}
    (best : Option Furthest), cursor.Within text →
      (Outcome.ofSequence run path items slot values cursor best).Aligned
  | [], _, _, _, _, _ => .pure _
  | item :: items, slot, values, cursor, best, hc => by
    refine .bind (ha hc) fun o ho => ?_
    dsimp only
    split
    · exact .pure _
    · exact aligned_ofSequence items _ _ _ (hc.reaches (hr ho))

end

theorem Outcome.aligned_ofRounds {text : Text} {round : Cursor → Walk Outcome}
    (ha : ∀ {cursor}, cursor.Within text → (round cursor).Aligned)
    (hr : ∀ {cursor o}, (round cursor).result = .ok o → cursor.Reaches o.cursor) {least : Nat} {most : Option Nat}
    {start : Cursor} : ∀ (fuel : Nat) (values : List Value) {cursor : Cursor} (best : Option Furthest),
      cursor.Within text → (Outcome.ofRounds round least most start fuel values cursor best).Aligned
  | 0, _, _, _, _ => Walk.Aligned.exhausted
  | fuel + 1, values, cursor, best, hc => by
    rw [Outcome.ofRounds]
    split
    · exact .pure _
    · refine .bind (ha hc) fun o ho => ?_
      dsimp only
      split
      · exact .pure _
      · split
        · exact .pure _
        · exact aligned_ofRounds ha hr fuel _ _ (hc.reaches (hr ho))

theorem Outcome.aligned_ofLeaf {text : Text} {path : Path} {cursor : Cursor} (hc : cursor.Within text)
    (read : Text → Option (Value × Text × Text)) : (Outcome.ofLeaf path cursor read).Aligned := by
  rw [Outcome.ofLeaf]
  split
  · exact absurd ‹_› hc.rest_ne_none
  · split <;> exact .pure _

theorem reaches_of_matchNode {text : Text} {depth : Nat} {b : Rulebook} {id : NodeId} {path : Path} {cursor : Cursor}
    {o : Outcome} (h : (b.matchNode text depth id path cursor).result = .ok o) : cursor.Reaches o.cursor := by
  obtain ⟨_, c⟩ := course_of_matchNode h
  exact c.reaches

/-- A match at a place of a text always has a text to go on with. -/
theorem aligned_matchNode {text : Text} : ∀ (depth : Nat) {b : Rulebook} {id : NodeId} {path : Path} {cursor : Cursor},
    cursor.Within text → (b.matchNode text depth id path cursor).Aligned
  | 0, _, _, _, _, _ => Walk.Aligned.exhausted
  | depth + 1, b, id, path, cursor, hc => by
    have ha : ∀ {id path cursor}, cursor.Within text → (b.matchNode text depth id path cursor).Aligned :=
      aligned_matchNode depth
    cases hn : b.node id with
    | literal | pattern => simp only [Rulebook.matchNode, hn]; exact Outcome.aligned_ofLeaf hc _
    | always | never => simp only [Rulebook.matchNode, hn]; exact .pure _
    | sequence => simp only [Rulebook.matchNode, hn]; exact Outcome.aligned_ofSequence ha reaches_of_matchNode _ _ _ _ hc
    | choice => simp only [Rulebook.matchNode, hn]; exact Outcome.aligned_ofChoice ha hc _ _ _
    | times => simp only [Rulebook.matchNode, hn]; exact Outcome.aligned_ofRounds ha reaches_of_matchNode _ _ _ hc
    | map | look => simp only [Rulebook.matchNode, hn]; exact .bind (ha hc) fun _ _ => .pure _
    | chain =>
      simp only [Rulebook.matchNode, hn]
      refine .bind (ha hc) fun first h => ?_
      split
      · exact .pure _
      · exact .bind (aligned_matchNode depth (hc.reaches (reaches_of_matchNode h))) fun _ _ => .pure _
    | deferred => simp only [Rulebook.matchNode, hn]; exact .bind (.follow _) fun _ _ => ha hc
    | named => simp only [Rulebook.matchNode, hn]; exact ha hc

/-! ## What an outcome says about places -/

/-- A leaf match that is kept reached a place of the text, at an offset or after it. -/
def Furthest.KeptFrom (text : Text) (position : Nat) (best : Option Furthest) : Prop :=
  ∀ f, best = some f → position ≤ f.offset ∧ text.IsBoundary f.offset

namespace Furthest.KeptFrom

variable {text : Text} {position : Nat} {best best' : Option Furthest}

theorem none : KeptFrom text position none :=
  fun _ h => nomatch h

theorem merge (h : KeptFrom text position best) (h' : KeptFrom text position best') :
    KeptFrom text position (Furthest.merge best best') := by
  unfold Furthest.merge
  split
  · exact h'
  · exact h

theorem putDownTo (h : KeptFrom text position best) (path : Path) :
    KeptFrom text position (best.map (Furthest.putDownTo path)) := by
  intro f hf
  obtain ⟨g, hg, rfl⟩ := Option.map_eq_some_iff.mp hf
  exact h g hg

theorem of_within {c : Cursor} (hc : c.Within text) (hp : position ≤ c.offset) (path : Path) :
    KeptFrom text position (some ⟨c.offset, path⟩) := by
  rintro _ ⟨⟩
  exact ⟨hp, hc.isBoundary⟩

end Furthest.KeptFrom

open Furthest in
theorem Course.keptFrom {text : Text} {b : Rulebook} {task : Task} {path : Path} {cursor : Cursor} {o : Outcome}
    {leaves : List Furthest} (h : Course text b task path cursor o leaves) (hc : cursor.Within text) :
    ∀ {position : Nat}, position ≤ cursor.offset → KeptFrom text position task.best → KeptFrom text position o.best := by
  induction h with
  | miss | never => exact fun _ _ => .none
  | hit hn hr hv =>
    intro position hp _
    have hr' := Cursor.reaches_of_read hn hr hv
    exact .of_within (hc.reaches hr') (Nat.le_trans hp hr'.le) _
  | always => exact fun hp _ => .of_within hc hp _
  | sequence _ _ ih | choice _ _ ih | times _ _ ih | map _ _ ih | chainFail _ _ _ ih | deferred _ _ ih
  | named _ _ ih => exact fun hp _ => ih hc hp .none
  | itemsDone | optionsDone => exact fun _ h => h
  | itemsFail _ _ ih | optionsTake _ _ ih => exact fun hp h => h.merge (ih hc hp .none)
  | itemsNext h _ _ ih ih' =>
    exact fun hp hb => ih' (hc.reaches h.reaches) (Nat.le_trans hp h.reaches.le) (hb.merge (ih hc hp .none))
  | optionsNext _ _ _ ih ih' => exact fun hp hb => ih' hc hp (hb.merge (ih hc hp .none))
  | roundsFull => exact fun _ hb => by rw [Outcome.best_endRounds]; exact hb
  | roundsFail _ _ _ ih | roundsStop _ _ _ _ ih =>
    exact fun hp hb => by rw [Outcome.best_endRounds]; exact hb.merge (ih hc hp .none)
  | roundsNext _ h _ _ _ ih ih' =>
    exact fun hp hb => ih' (hc.reaches h.reaches) (Nat.le_trans hp h.reaches.le) (hb.merge (ih hc hp .none))
  | chain _ h _ _ _ ih ih' =>
    intro position hp _
    rw [Outcome.best_ofStages]
    exact (ih hc hp .none).merge ((ih' (hc.reaches h.reaches) (Nat.le_trans hp h.reaches.le) .none).putDownTo _)
  | look _ _ ih =>
    intro position hp _
    rw [Outcome.best_ofLook]
    exact KeptFrom.none.merge (ih hc hp .none)

/-- A place is where a match began, or the furthest leaf match went as far. -/
def Furthest.KeepsUp (start cursor : Cursor) (best : Option Furthest) : Prop :=
  cursor = start ∨ cursor.offset ≤ reach best

namespace Furthest.KeepsUp

variable {start cursor : Cursor} {best : Option Furthest}

theorem refl (start : Cursor) (best : Option Furthest) : KeepsUp start start best :=
  .inl rfl

theorem merge (h : KeepsUp start cursor best) (best' : Option Furthest) :
    KeepsUp start cursor (Furthest.merge best best') :=
  h.imp_right fun h => by rw [reach_merge]; omega

theorem next {cursor' : Cursor} {best' : Option Furthest} (h : KeepsUp start cursor best)
    (h' : KeepsUp cursor cursor' best') : KeepsUp start cursor' (Furthest.merge best best') := by
  rcases h' with rfl | h'
  · exact h.merge best'
  · exact .inr (by rw [reach_merge]; omega)

theorem endRounds (h : KeepsUp start cursor best) (least : Nat) (values : List Value) {first : Cursor}
    (hs : KeepsUp start first best) :
    KeepsUp start (Outcome.endRounds least first values cursor best).cursor best := by
  unfold Outcome.endRounds
  split
  · exact hs
  · exact h

end Furthest.KeepsUp

open Furthest in
/-- The furthest leaf match keeps up with the places of a match. -/
theorem Course.keepsUp {text : Text} {b : Rulebook} {task : Task} {path : Path} {cursor : Cursor} {o : Outcome}
    {leaves : List Furthest} (h : Course text b task path cursor o leaves) : ∀ {start : Cursor},
    KeepsUp start cursor task.best → KeepsUp start (task.origin cursor) task.best → KeepsUp start o.cursor o.best := by
  induction h with
  | miss | never | itemsDone | optionsDone => exact fun h _ => h
  | hit | always => exact fun _ _ => .inr (Nat.le_refl _)
  | sequence _ _ ih | choice _ _ ih | times _ _ ih | map _ _ ih | chainFail _ _ _ ih | deferred _ _ ih
  | named _ _ ih => exact ih
  | itemsFail => exact fun h _ => h.merge _
  | optionsTake _ _ ih => exact fun h _ => h.next (ih (.refl _ _) (.refl _ _))
  | itemsNext _ _ _ ih ih' =>
    intro start h _
    have hn := h.next (ih (.refl _ _) (.refl _ _))
    exact ih' hn hn
  | optionsNext _ _ _ _ ih' => exact fun h _ => ih' (h.merge _) (h.merge _)
  | roundsFull =>
    intro start h hs
    rw [Outcome.best_endRounds]
    exact h.endRounds _ _ hs
  | roundsFail =>
    intro start h hs
    rw [Outcome.best_endRounds]
    exact (h.merge _).endRounds _ _ (hs.merge _)
  | roundsStop _ _ _ _ ih =>
    intro start h hs
    rw [Outcome.best_endRounds]
    exact (h.next (ih (.refl _ _) (.refl _ _))).endRounds _ _ (hs.merge _)
  | roundsNext _ _ _ _ _ ih ih' => exact fun h hs => ih' (h.next (ih (.refl _ _) (.refl _ _))) (hs.merge _)
  | chain _ _ _ _ _ ih ih' =>
    intro start h hs
    rw [Outcome.best_ofStages, Outcome.cursor_ofStages]
    have h' := (ih h hs).next (ih' (.refl _ _) (.refl _ _))
    simp only [KeepsUp, reach_merge, reach_putDownTo] at h' ⊢
    exact h'
  | look =>
    intro start h _
    rw [Outcome.best_ofLook, Outcome.cursor_ofLook]
    rcases h with rfl | h
    · exact .refl _ _
    · exact .inr (Nat.le_trans h (Nat.zero_le _))

end FurthestMatch
