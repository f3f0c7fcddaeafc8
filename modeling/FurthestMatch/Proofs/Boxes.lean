import FurthestMatch.Drawing.Outline
import FurthestMatch.Proofs.Layout
import Mathlib.Data.List.Infix
import Mathlib.Order.Bounds.Basic

/-!
# Boxes

The inside of a box is as wide as its longest line and as its label needs, so no edge or line is filled up with less
than nothing and every row of the box has the same number of characters. What fills a line up stands after it: with
the lengths of the lines the content can be read off the box again. The content may be a box itself.
-/

namespace FurthestMatch

namespace Block

variable {label line row : Text} {lines : Block} {width : Nat}

/-! ## Widths -/

/-- The inside of a box is as wide as the longest line, or as the label and four more. -/
theorem isGreatest_frameWidth (label : Text) (lines : Block) :
    IsGreatest {n | n = label.length + 4 ∨ ∃ line ∈ lines, n = line.length} (frameWidth label lines) := by
  constructor
  · unfold frameWidth
    cases hm : (lines.map List.length).max? with
    | none => exact .inl (Nat.zero_max _)
    | some longest =>
      obtain ⟨line, hl, rfl⟩ := List.mem_map.mp (List.max?_mem hm)
      rcases Nat.le_total line.length (label.length + 4) with h | h
      · exact .inl (Nat.max_eq_right h)
      · exact .inr ⟨line, hl, Nat.max_eq_left h⟩
  · rintro _ (rfl | ⟨line, hl, rfl⟩)
    · exact (le_frameWidth label lines).1
    · exact (le_frameWidth label lines).2 line hl

theorem length_frameTop (h : label.length + 3 ≤ width) : (frameTop label width).length = width + 4 := by
  have hl : "┌─[ ".toList.length = 4 := by decide
  have hr : " ]".toList.length = 2 := by decide
  -- unfolding the edge by its equation would evaluate the text
  change ("┌─[ ".toList ++ label ++ " ]".toList ++ List.replicate _ '─' ++ ['┐']).length = width + 4
  simp only [List.length_append, List.length_replicate, List.length_singleton, hl, hr]
  omega

theorem length_frameLine (h : line.length ≤ width) : (frameLine width line).length = width + 4 := by
  have hl : "| ".toList.length = 2 := by decide
  have hr : " |".toList.length = 2 := by decide
  simp only [frameLine, List.length_append, List.length_replicate, hl, hr]
  omega

theorem length_frameBottom (width : Nat) : (frameBottom width).length = width + 4 := by
  simp [frameBottom]

theorem length_of_mem_frame {b : Block} (h : row ∈ frame label b) :
    row.length = frameWidth label (b.flatMap Text.lines) + 4 := by
  obtain ⟨hlabel, hlines⟩ := le_frameWidth label (b.flatMap Text.lines)
  simp only [frame, List.cons_append, List.mem_cons, List.mem_append, List.mem_map, List.not_mem_nil, or_false] at h
  rcases h with rfl | ⟨line, hl, rfl⟩ | rfl
  · exact length_frameTop (by omega)
  · exact length_frameLine (hlines line hl)
  · exact length_frameBottom _

/-! ## What is in a box -/

def withoutEdges? (row : Text) : Option Text :=
  (row.dropPrefix? "| ".toList).bind (·.dropSuffix? " |".toList)

def inside? (lengths : List Nat) (box : Block) : Option Block :=
  (box.tail.dropLast.mapM withoutEdges?).map (List.zipWith (fun n line => line.take n) lengths)

theorem withoutEdges?_frameLine (width : Nat) (line : Text) :
    withoutEdges? (frameLine width line) = some (line ++ List.replicate (width - line.length) ' ') := by
  have hleft (inner : Text) : ("| ".toList ++ inner).dropPrefix? "| ".toList = some inner :=
    List.dropPrefix?_eq_some_iff.mpr ⟨_, rfl, BEq.rfl⟩
  have hright (inner : Text) : (inner ++ " |".toList).dropSuffix? " |".toList = some inner :=
    List.dropSuffix?_eq_some_iff.mpr ⟨_, rfl, BEq.rfl⟩
  rw [withoutEdges?, frameLine, List.append_assoc, List.append_assoc, hleft, Option.bind_some, ← List.append_assoc,
    hright]

theorem inside?_frame (label : Text) (b : Block) :
    inside? ((b.flatMap Text.lines).map List.length) (frame label b) = some (b.flatMap Text.lines) := by
  have hrows (width : Nat) (lines : Block) : (lines.map (frameLine width)).mapM withoutEdges? =
      some (lines.map fun line => line ++ List.replicate (width - line.length) ' ') := by
    have hrow : withoutEdges? ∘ frameLine width = fun line => some (line ++ List.replicate (width - line.length) ' ') :=
      funext (withoutEdges?_frameLine width)
    rw [List.mapM_map, hrow]
    exact List.mapM_pure
  have hcut (width : Nat) (lines : Block) : List.zipWith (fun n line => line.take n) (lines.map List.length)
      (lines.map fun line => line ++ List.replicate (width - line.length) ' ') = lines := by
    simp [List.zipWith_map, List.zipWith_self]
  rw [inside?, frame, List.cons_append, List.tail_cons, List.dropLast_concat, hrows, Option.map_some, hcut]

/-! ## Boxes as texts -/

theorem lines_toText_of_unbroken {b : Block} (h : b.Unbroken) (hne : b ≠ []) : (toText [] b).lines = b := by
  rw [lines_toText hne, List.flatMap_congr fun line hl => Text.lines_of_unbroken (h line hl), List.flatMap_singleton']

theorem toText_lines (t : Text) : toText [] t.lines = t := by
  induction t with
  | nil => rfl
  | cons c t ih =>
    obtain ⟨line, more, ht⟩ := Text.exists_lines_eq t
    rw [ht] at ih
    by_cases hc : c = '\n'
    · rw [hc, Text.lines, if_pos rfl, ht, toText_cons, flatMap_eq (List.cons_ne_nil _ _), ih]
      rfl
    · rw [Text.lines_cons hc ht, toText_cons, List.cons_append, ← toText_cons, ih]

end Block

theorem Text.lines_framed {label : Text} (h : '\n' ∉ label) (content : Text) :
    (content.framed label []).lines = Block.frame label [content] :=
  Block.lines_toText_of_unbroken (.frame h _) (by simp [Block.frame])

/-- The text in a box, its lines cut to their lengths. -/
def Text.unframed? (lengths : List Nat) (box : Text) : Option Text :=
  (Block.inside? lengths box.lines).map (Block.toText [])

/-- A rectangle around a content that can be read off it again. The upper edge is filled up beside the label, and each
line behind its end, so that the inside has the width of the frame. -/
structure IsBox (label content box : Text) : Prop where
  /-- The upper edge takes three characters of the inside beside the label. -/
  label_fits : label.length + 3 ≤ Block.frameWidth label content.lines
  lines_fit : ∀ line ∈ content.lines, line.length ≤ Block.frameWidth label content.lines
  height : box.lines.length = content.lines.length + 2
  width : ∃ width, IsGreatest {n | n = label.length + 4 ∨ ∃ line ∈ content.lines, n = line.length} width ∧
    ∀ row ∈ box.lines, row.length = width + 4
  lossless : box.unframed? (content.lines.map List.length) = some content

theorem isBox_framed {label : Text} (h : '\n' ∉ label) (content : Text) :
    IsBox label content (content.framed label []) := by
  have hlines := Text.lines_framed h content
  have hsplit : [content].flatMap Text.lines = content.lines := List.flatMap_singleton ..
  obtain ⟨hlabel, hfit⟩ := Block.le_frameWidth label content.lines
  refine ⟨by omega, hfit, ?_, ⟨_, Block.isGreatest_frameWidth .., fun row hr => ?_⟩, ?_⟩
  · simp [hlines, Block.frame]
  · rw [hlines] at hr
    rw [Block.length_of_mem_frame hr, hsplit]
  · have hinside := Block.inside?_frame label [content]
    rw [hsplit] at hinside
    rw [Text.unframed?, hlines, hinside, Option.map_some, Block.toText_lines]

/-- A box around any content is a rectangle from which the content can be read off, and so is a box around a box. What
is drawn of a highlighted name is a box around what is drawn of the name. -/
theorem boxes_are_rectangular_and_lossless {label : Text} {config : Config} (hl : '\n' ∉ label)
    (hh : '\n' ∉ config.highlightLabel) :
    (∀ content : Text, IsBox label content (content.framed label []) ∧
      IsBox config.highlightLabel (content.framed label [])
        ((content.framed label []).framed config.highlightLabel [])) ∧
    ∀ path inner, IsBox config.highlightLabel (((Outline.named path false label inner).block config).toText [])
      (((Outline.named path true label inner).block config).toText []) := by
  refine ⟨fun content => ⟨isBox_framed hl content, isBox_framed hh _⟩, fun path inner => ?_⟩
  have hne : (Outline.named path false label inner).block config ≠ [] := by
    simp [Outline.block, Outline.highlight, Block.frame]
  have hframed : (Outline.named path true label inner).block config =
      Block.frame config.highlightLabel ((Outline.named path false label inner).block config) := by
    simp [Outline.block, Outline.highlight]
  rw [hframed, Block.toText_frame hne]
  exact isBox_framed hh _

theorem nested_boxes_of_accent : '\n' ∉ ['x'] ∧ '\n' ∉ ({} : Config).highlightLabel ∧
    ∃ box outer : Text, box = Text.framed ['é', '\n'] ['x'] [] ∧ outer = box.framed ({} : Config).highlightLabel [] ∧
      outer.unframed? [9, 9, 9, 9] = some box ∧ box.unframed? [1, 0] = some ['é', '\n'] := by
  have hl : '\n' ∉ ['x'] := by decide
  have hh : '\n' ∉ ({} : Config).highlightLabel := by decide
  obtain ⟨hbox, houter⟩ := (boxes_are_rectangular_and_lossless hl hh).1 ['é', '\n']
  refine ⟨hl, hh, _, _, rfl, rfl, ?_, hbox.lossless⟩
  have hlengths : (Text.framed ['é', '\n'] ['x'] []).lines.map List.length = [9, 9, 9, 9] := by decide
  exact hlengths ▸ houter.lossless

example : Text.framed ['é', '\n'] ['x'] [] = "┌─[ x ]─┐\n| é     |\n|       |\n└───────┘".toList := by decide

end FurthestMatch
