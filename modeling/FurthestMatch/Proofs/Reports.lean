import FurthestMatch.Proofs.Framing

/-!
# Reports of failed matches

The place that a report shows is a place of the text, since a leaf reached it. Collapsing takes every such place
along, no other part of a report needs the text, and the drawing of the grammar comes to an end.
-/

namespace FurthestMatch

/-! ## Places of a collapsed text -/

namespace Text

def Piece.text : Piece → Text
  | .kept c => [c]
  | .run blanks => blanks

theorem IsBoundary.of_append {s t : Text} {offset : Nat} (h : (s ++ t).IsBoundary offset) (hs : size s ≤ offset) :
    t.IsBoundary (offset - size s) := by
  obtain ⟨before, after, ht, rfl⟩ := h
  rcases List.append_eq_append_iff.mp ht with ⟨u, rfl, rfl⟩ | ⟨u, rfl, rfl⟩
  · exact ⟨u, after, rfl, by rw [size_append]; omega⟩
  · rw [size_append] at hs
    have hu : u = [] := size_eq_zero_iff.mp (by omega)
    subst hu
    rw [size_append]
    exact ⟨[], t, rfl, by simp only [size]; omega⟩

theorem IsBoundary.utf8Size_le {c : Char} {t : Text} {offset : Nat} (h : IsBoundary (c :: t) (offset + 1)) :
    c.utf8Size ≤ offset + 1 := by
  obtain ⟨before, after, ht, hs⟩ := h
  cases before with
  | nil => cases hs
  | cons d before =>
    cases ht
    simp only [size] at hs
    omega

theorem leadingRun_isPrefix (text : Text) : leadingRun text <+: text := by
  unfold leadingRun
  dsimp only
  split
  · exact List.takeWhile_prefix _
  · split
    · exact List.takeWhile_prefix _
    · exact List.nil_prefix

theorem flatMap_pieces (text : Text) : (pieces text).flatMap Piece.text = text := by
  induction text using pieces.induct with
  | case1 => rw [pieces]; rfl
  | case2 c rest blanks hb ih =>
    rw [pieces, if_pos hb, List.flatMap_cons, ih]
    rfl
  | case3 c rest blanks hb ih =>
    have ha : blanks ++ (c :: rest).drop blanks.length = c :: rest :=
      List.prefix_iff_eq_append.mp (leadingRun_isPrefix (c :: rest))
    obtain ⟨n, hn⟩ : ∃ n, blanks.length = n + 1 := ⟨blanks.length - 1, by have := List.length_pos_iff.mpr hb; omega⟩
    rw [pieces, if_neg hb, List.flatMap_cons, ih]
    show blanks ++ rest.drop (blanks.length - 1) = c :: rest
    rw [hn] at ha ⊢
    exact ha

theorem position?_isSome {text : Text} {offset : Nat} (h : text.IsBoundary offset) :
    (position? text offset).isSome = true := by
  have hs := h.le_size
  obtain ⟨before, after, rfl, rfl⟩ := h
  rw [position?, Nat.min_eq_left hs, splitAt_append]
  rfl

end Text

theorem Collapsed.caret?_isSome (placeholder : Text) : ∀ (pieces : List Text.Piece) (offset : Nat),
    Text.IsBoundary (pieces.flatMap Text.Piece.text) offset → (caret? placeholder pieces offset).isSome = true
  | [], offset, _ => by cases offset <;> rfl
  | _ :: _, 0, _ => by rw [caret?]; rfl
  | .kept c :: pieces, n + 1, h => by
    rw [List.flatMap_cons] at h
    have hc : c.utf8Size ≤ n + 1 := h.utf8Size_le
    rw [caret?, if_pos hc, Option.isSome_map]
    exact caret?_isSome placeholder pieces _ (h.of_append hc)
  | .run blanks :: pieces, n + 1, h => by
    rw [caret?]
    split
    · rename_i hb
      rw [Option.isSome_map]
      exact caret?_isSome placeholder pieces _ (Text.IsBoundary.of_append h hb)
    · rfl

theorem Collapsed.ofText?_isSome (placeholder : Text) {text : Text} {offset : Nat} (h : text.IsBoundary offset) :
    (ofText? placeholder text offset).isSome = true := by
  rw [ofText?, Nat.min_eq_left h.le_size, Option.isSome_map]
  exact caret?_isSome placeholder _ _ (by rw [Text.flatMap_pieces]; exact h)

/-! ## Safe outcomes -/

/-- What holds of every outcome of a match from an offset on: where it ends and what the furthest leaf match reached
are places of the text, at the offset or after it, and the second is the later of the two unless nothing was read. -/
structure Outcome.Safe (text : Text) (position : Nat) (o : Outcome) : Prop where
  value_iff : o.succeeded = true ↔ ∃ value, o.value = some value
  position_le : position ≤ o.cursor.offset
  cursor_le : o.cursor.offset ≤ Text.size text
  cursor_boundary : text.IsBoundary o.cursor.offset
  cursor_rest : o.cursor = Cursor.ofOffset text o.cursor.offset
  reach_le : o.reach ≤ Text.size text
  reach_boundary : text.IsBoundary o.reach
  reach_of_none : o.best = none → o.reach = 0
  position_le_reach : ∀ f, o.best = some f → position ≤ o.reach
  keeps_up : o.cursor.offset = position ∨ o.cursor.offset ≤ o.reach

theorem Furthest.KeptFrom.reach_boundary {text : Text} {position : Nat} {best : Option Furthest}
    (h : KeptFrom text position best) : text.IsBoundary (reach best) := by
  cases best with
  | none => exact text.isBoundary_zero
  | some f => exact (h f rfl).2

theorem safe_of_matchNode {text : Text} {position depth : Nat} {b : Rulebook} {id : NodeId} {path : Path} {o : Outcome}
    (hp : text.IsBoundary position)
    (h : (b.matchNode text depth id path (Cursor.ofOffset text position)).result = .ok o) :
    o.Safe text position := by
  obtain ⟨leaves, c⟩ := course_of_matchNode h
  have hc : (Cursor.ofOffset text position).Within text := .ofOffset hp
  have hd : o.cursor.Within text := hc.reaches c.reaches
  have hk : Furthest.KeptFrom text position o.best := c.keptFrom hc (Nat.le_refl _) .none
  have hr : text.IsBoundary o.reach := hk.reach_boundary
  refine ⟨Option.isSome_iff_exists, c.reaches.le, hd.isBoundary.le_size, hd.isBoundary, hd.eq_ofOffset, hr.le_size, hr,
    fun hb => congrArg Furthest.reach hb, fun f hf => ?_, ?_⟩
  · rw [Outcome.reach, hf]
    exact (hk f hf).1
  · exact (c.keepsUp (.refl _ _) (.refl _ _)).imp_left (congrArg Cursor.offset)

section
variable {text : Text} {depth : Nat} {b : Rulebook} {id : NodeId}

theorem aligned_runWithin : (b.runWithin depth id text).Aligned :=
  .bind (aligned_matchNode depth (.ofOffset text.isBoundary_zero)) fun _ _ => .pure _

/-- A run ends as the match from the start of the text does, and succeeds with the whole text only. -/
theorem safe_of_runWithin {o : Outcome} (h : (b.runWithin depth id text).result = .ok o) :
    o.Safe text 0 ∧ (o.succeeded = true → o.cursor.offset = Text.size text) := by
  obtain ⟨o', h', h⟩ := Walk.result_bind_eq_ok.mp h
  have hs := safe_of_matchNode text.isBoundary_zero h'
  split at h
  · cases h
    exact ⟨{ hs with value_iff := Option.isSome_iff_exists }, fun hf => nomatch hf⟩
  · rename_i hw
    cases h
    exact ⟨hs, fun hv => Decidable.byContradiction fun he => hw ⟨hv, he⟩⟩

theorem failure_eq {o : Outcome} (h : text.IsBoundary o.reach) (config : Config) (withDrawing : Bool) :
    ∃ shown position, b.failure config id text withDrawing o = (do
      return ⟨shown ++ (← b.drawingPart config id o.best withDrawing), o.reach, position⟩) := by
  obtain ⟨collapsed, hc⟩ := Option.isSome_iff_exists.mp (Collapsed.ofText?_isSome config.collapsePlaceholder h)
  obtain ⟨position, hp⟩ := Option.isSome_iff_exists.mp (Text.position?_isSome h)
  refine ⟨Failure.textPart config text o.reach position collapsed, position, ?_⟩
  simp only [Rulebook.failure, hc, hp]

theorem aligned_parseWithin (config : Config) (withDrawing : Bool) :
    (b.parseWithin depth config id text withDrawing).Aligned := by
  refine .bind aligned_runWithin fun o h => ?_
  split
  · exact .pure _
  · obtain ⟨shown, position, hf⟩ := failure_eq (safe_of_runWithin h).1.reach_boundary config withDrawing
    rw [hf]
    refine .bind (.bind ?_ fun _ _ => .pure _) fun _ _ => .pure _
    unfold Rulebook.drawingPart
    split
    · exact .bind (b.aligned_render _ _ _ _ _) fun _ _ => .pure _
    · exact .pure _

/-- A report is made of every failed run, when its drawing comes to an end or is not asked for. -/
theorem answers_parseWithin {o : Outcome} (h : (b.runWithin depth id text).result = .ok o) (config : Config)
    {withDrawing : Bool} (hg : withDrawing = true → b.Grounded id) :
    (b.parseWithin depth config id text withDrawing).Answers := by
  refine .bind (.of_ok h) fun o' h' => ?_
  cases h.symm.trans h'
  split
  · exact .pure _
  · obtain ⟨shown, position, hf⟩ := failure_eq (safe_of_runWithin h).1.reach_boundary config withDrawing
    rw [hf]
    refine .bind (.bind ?_ fun _ _ => .pure _) fun _ _ => .pure _
    unfold Rulebook.drawingPart
    split
    · rename_i hw
      exact .bind (.bind (b.answers_sketch_of_runWithin h (hg hw)) fun _ _ => .pure _) fun _ _ => .pure _
    · exact .pure _

end

/-- A match from a place of a text never lacks the text that it needs, and its outcome is safe. A run succeeds with
the whole text only, and its furthest leaf match keeps up with it. Its report can be made under every configuration:
it asks for places of the text only, every frame in it is wide enough, and it is finished unless the names and
references that it has to draw lead nowhere. -/
theorem cursors_are_safe {text : Text} {position : Nat} (h : text.IsBoundary position) :
    (∀ (b : Rulebook) depth id path,
      (b.matchNode text depth id path (Cursor.ofOffset text position)).result ≠ .error .misaligned ∧
      ∀ o, (b.matchNode text depth id path (Cursor.ofOffset text position)).result = .ok o → o.Safe text position) ∧
    (∀ (b : Rulebook) depth id o, (b.runWithin depth id text).result = .ok o →
      (o.succeeded = true → o.cursor.offset = Text.size text) ∧ o.cursor.offset ≤ o.reach ∧
      ∀ config withDrawing, (withDrawing = true → b.Grounded id) →
        ∃ answer, (b.parseWithin depth config id text withDrawing).result = .ok answer) ∧
    (∀ (b : Rulebook) depth config id withDrawing,
      (b.parseWithin depth config id text withDrawing).result ≠ .error .misaligned) ∧
    ∀ label lines, label.length + 3 ≤ Block.frameWidth label lines ∧
      ∀ line ∈ lines, line.length ≤ Block.frameWidth label lines := by
  refine ⟨fun b depth id path => ⟨(aligned_matchNode depth (.ofOffset h)).ne, fun o ho => safe_of_matchNode h ho⟩,
    fun b depth id o ho => ?_, fun b depth config id withDrawing => (aligned_parseWithin config withDrawing).ne,
    fun label lines => ⟨?_, (Block.le_frameWidth label lines).2⟩⟩
  · obtain ⟨hs, hw⟩ := safe_of_runWithin ho
    refine ⟨hw, ?_, fun config withDrawing hg => (answers_parseWithin ho config hg).answers⟩
    rcases hs.keeps_up with h | h
    · rw [h]
      exact Nat.zero_le _
    · exact h
  · have := (Block.le_frameWidth label lines).1
    omega

/-- Between the two characters of a text, the first of which takes two bytes. -/
theorem safe_between_characters : Text.IsBoundary ['é', 'b'] 2 ∧
    (⟨some (.str "b"), ⟨3, some []⟩, some ⟨3, [⟨0, 0⟩]⟩⟩ : Outcome).Safe ['é', 'b'] 2 := by
  have hb : Text.IsBoundary ['é', 'b'] 2 := ⟨['é'], ['b'], rfl, rfl⟩
  let b : Rulebook := { graph := { nodes := #[.literal "b"] } }
  exact ⟨hb, ((cursors_are_safe hb).1 b 1 0 (Path.root 0)).2 _ rfl⟩

end FurthestMatch
