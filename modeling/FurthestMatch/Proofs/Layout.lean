import FurthestMatch.Drawing.Frame

/-!
# Lines and layout

A block of lines becomes a text by putting a newline and the indentation between its lines. What is put before the
lines of a block goes into the indentation; a box measures the lines of the text. When no line is broken inside, the
indented text is the text without indentation, with the indentation after each of its newlines.
-/

namespace FurthestMatch

/-! ## Lines of a text -/

namespace Text

variable {s t line indentation : Text}

def indented (indentation t : Text) : Text :=
  t.flatMap fun c => if c = '\n' then c :: indentation else [c]

theorem indented_append (indentation s t : Text) :
    indented indentation (s ++ t) = indented indentation s ++ indented indentation t :=
  List.flatMap_append

theorem indented_newline (indentation t : Text) :
    indented indentation ('\n' :: t) = '\n' :: (indentation ++ indented indentation t) := by
  simp [indented]

theorem indented_of_unbroken (h : '\n' ∉ t) : indented indentation t = t := by
  induction t with
  | nil => rfl
  | cons c t ih =>
    obtain ⟨hc, ht⟩ := List.ne_and_not_mem_of_not_mem_cons h
    rw [indented, List.flatMap_cons, if_neg hc.symm]
    exact congrArg (c :: ·) (ih ht)

theorem unbroken_digits (n : Nat) : '\n' ∉ Nat.toDigits 10 n := by
  intro h
  exact absurd (Nat.isDigit_of_mem_toDigits (by decide) (by decide) h) (by decide)

theorem lines_ne_nil (t : Text) : lines t ≠ [] := by
  cases t with
  | nil => simp [lines]
  | cons c t =>
    rw [lines]
    split
    · simp
    · split <;> simp

theorem exists_lines_eq (t : Text) : ∃ line more, lines t = line :: more :=
  List.exists_cons_of_ne_nil (lines_ne_nil t)

theorem lines_cons {c : Char} {more : List Text} (hc : c ≠ '\n') (h : lines t = line :: more) :
    lines (c :: t) = (c :: line) :: more := by
  rw [lines, if_neg hc, h]

theorem lines_append_newline (s t : Text) : lines (s ++ '\n' :: t) = lines s ++ lines t := by
  induction s with
  | nil => simp [lines]
  | cons c s ih =>
    by_cases hc : c = '\n'
    · simp [lines, hc, ih]
    · obtain ⟨line, more, hs⟩ := exists_lines_eq s
      have ht : lines (s ++ '\n' :: t) = line :: (more ++ lines t) := by rw [ih, hs, List.cons_append]
      rw [lines_cons hc hs, List.cons_append, lines_cons hc ht, List.cons_append]

theorem lines_append_of_unbroken {more : List Text} (hs : '\n' ∉ s) (h : lines t = line :: more) :
    lines (s ++ t) = (s ++ line) :: more := by
  induction s with
  | nil => exact h
  | cons c s ih =>
    obtain ⟨hc, hs⟩ := List.ne_and_not_mem_of_not_mem_cons hs
    exact lines_cons hc.symm (ih hs)

theorem lines_of_unbroken (h : '\n' ∉ t) : lines t = [t] := by
  simpa using lines_append_of_unbroken h (t := []) rfl

theorem lines_of_line (h : '\n' ∉ line) (t : Text) : lines (line ++ '\n' :: t) = line :: lines t := by
  rw [lines_append_newline, lines_of_unbroken h]
  rfl

theorem not_mem_of_mem_lines (h : line ∈ lines t) : '\n' ∉ line := by
  induction t generalizing line with
  | nil => simp_all [lines]
  | cons c t ih =>
    by_cases hc : c = '\n'
    · simp only [lines, hc, if_pos, List.mem_cons] at h
      rcases h with rfl | h
      · simp
      · exact ih h
    · obtain ⟨first, more, ht⟩ := exists_lines_eq t
      rw [lines_cons hc ht, List.mem_cons] at h
      rcases h with rfl | h
      · simp [Ne.symm hc, show '\n' ∉ first from ih (by simp [ht])]
      · exact ih (by simp [ht, h])

theorem lines_indented (hi : '\n' ∉ indentation) (t : Text) :
    lines (indented indentation t) = Block.hang [] indentation (lines t) := by
  induction t with
  | nil => rfl
  | cons c t ih =>
    obtain ⟨line, more, ht⟩ := exists_lines_eq t
    rw [ht, Block.hang, List.nil_append] at ih
    by_cases hc : c = '\n'
    · rw [hc, indented_newline, lines, if_pos rfl, lines_append_of_unbroken hi ih, lines, if_pos rfl, ht]
      rfl
    · have hcons : indented indentation (c :: t) = c :: indented indentation t := by simp [indented, hc]
      rw [hcons, lines_cons hc ih, lines_cons hc ht]
      rfl

end Text

/-! ## Blocks as texts -/

namespace Block

variable {b : Block} {indentation : Text}

theorem toText_cons (indentation line : Text) (lines : Block) :
    toText indentation (line :: lines) = line ++ lines.flatMap fun l => '\n' :: (indentation ++ l) := by
  induction lines generalizing line with
  | nil => simp [toText]
  | cons next lines ih =>
    have h := ih next
    rw [toText] at h ⊢
    rw [List.intercalate_cons_cons, h]
    simp

theorem flatMap_eq (h : b ≠ []) :
    b.flatMap (fun l => '\n' :: (indentation ++ l)) = '\n' :: (indentation ++ toText indentation b) := by
  obtain ⟨line, lines, rfl⟩ := List.exists_cons_of_ne_nil h
  simp [toText_cons]

theorem hang_ne_nil (h : b ≠ []) (first further : Text) : hang first further b ≠ [] := by
  cases b with
  | nil => exact h
  | cons => simp [hang]

theorem toText_hang (h : b ≠ []) (first further : Text) :
    toText indentation (hang first further b) = first ++ toText (indentation ++ further) b := by
  obtain ⟨line, lines, rfl⟩ := List.exists_cons_of_ne_nil h
  simp [hang, toText_cons, List.flatMap_map]

theorem flatMap_hang (h : b ≠ []) (indentation first further : Text) :
    (hang first further b).flatMap (fun l => '\n' :: (indentation ++ l)) =
      '\n' :: (indentation ++ first ++ toText (indentation ++ further) b) := by
  rw [flatMap_eq (hang_ne_nil h _ _), toText_hang h, List.append_assoc]

theorem indent_eq_hang (lead : Text) (b : Block) : indent lead b = hang lead lead b := by
  cases b with
  | nil => rfl
  | cons => rfl

theorem append_ne_nil (h : b ≠ []) (suffix : Text) : append suffix b ≠ [] := by
  match b with
  | [] => exact h
  | [_] | _ :: _ :: _ => simp [append]

theorem toText_append (h : b ≠ []) (suffix : Text) :
    toText indentation (append suffix b) = toText indentation b ++ suffix := by
  induction b with
  | nil => exact absurd rfl h
  | cons line lines ih =>
    cases lines with
    | nil => simp [append, toText]
    | cons next lines =>
      have hn : next :: lines ≠ [] := by simp
      rw [append, toText_cons, toText_cons, flatMap_eq (append_ne_nil hn _), flatMap_eq hn, ih hn]
      · simp
      · simp

theorem lines_toText (h : b ≠ []) : Text.lines (toText [] b) = b.flatMap Text.lines := by
  induction b with
  | nil => exact absurd rfl h
  | cons line lines ih =>
    cases lines with
    | nil => simp [toText]
    | cons next lines =>
      rw [toText_cons, flatMap_eq (by simp), List.nil_append, Text.lines_append_newline, ih (by simp)]
      rfl

theorem toText_frame (h : b ≠ []) (label : Text) :
    toText indentation (frame label b) = Text.framed (toText [] b) label indentation := by
  rw [Text.framed, frame, frame, ← lines_toText h, List.flatMap_singleton]

def Unbroken (b : Block) : Prop :=
  ∀ line ∈ b, '\n' ∉ line

theorem indented_toText (h : b.Unbroken) (indentation : Text) :
    Text.indented indentation (toText [] b) = toText indentation b := by
  induction b with
  | nil => rfl
  | cons line lines ih =>
    have hl : Text.indented indentation line = line := Text.indented_of_unbroken (h line (by simp))
    cases lines with
    | nil => simpa [toText] using hl
    | cons next lines =>
      have hn := ih fun l hm => h l (List.mem_cons_of_mem _ hm)
      rw [toText_cons, toText_cons, flatMap_eq (by simp), flatMap_eq (by simp), List.nil_append,
        Text.indented_append, Text.indented_newline, hl, hn]

namespace Unbroken

variable {b b' : Block} {first further label suffix : Text}

theorem hang (h : b.Unbroken) (hf : '\n' ∉ first) (hf' : '\n' ∉ further) :
    (Block.hang first further b).Unbroken := by
  intro line hl
  cases b with
  | nil => cases hl
  | cons head lines =>
    simp only [Block.hang, List.mem_cons, List.mem_map] at hl
    rcases hl with rfl | ⟨l, hm, rfl⟩
    · simp [hf, h head]
    · simp [hf', h l (List.mem_cons_of_mem _ hm)]

theorem indent (h : b.Unbroken) (hf : '\n' ∉ first) : (Block.indent first b).Unbroken := by
  rw [indent_eq_hang]
  exact h.hang hf hf

theorem append (h : b.Unbroken) (hs : '\n' ∉ suffix) : (Block.append suffix b).Unbroken := by
  induction b with
  | nil => exact h
  | cons line lines ih =>
    obtain ⟨hl, hlines⟩ := List.forall_mem_cons.mp h
    cases lines with
    | nil => simp [Block.append, Unbroken, hl, hs]
    | cons => exact List.forall_mem_cons.mpr ⟨hl, ih hlines⟩

theorem frame (hl : '\n' ∉ label) (b : Block) : (Block.frame label b).Unbroken := by
  intro line hm
  simp only [Block.frame, List.cons_append, List.mem_cons, List.mem_append, List.mem_map, List.mem_flatMap,
    List.not_mem_nil, or_false] at hm
  rcases hm with rfl | ⟨l, ⟨_, _, hm⟩, rfl⟩ | rfl
  · -- unfolding the edge by its equation would evaluate the text
    change '\n' ∉ "┌─[ ".toList ++ label ++ " ]".toList ++ List.replicate _ '─' ++ ['┐']
    simp [hl]
  · simp [frameLine, Text.not_mem_of_mem_lines hm]
  · simp [frameBottom]

theorem between (hf : '\n' ∉ first) (h : b.Unbroken) : Unbroken (first :: b ++ [['>']]) := by
  intro line hm
  simp only [List.cons_append, List.mem_cons, List.mem_append, List.not_mem_nil, or_false] at hm
  rcases hm with rfl | hm | rfl
  · exact hf
  · exact h line hm
  · decide

theorem flatMap {α : Type} {f : α → Block} {l : List α} (h : ∀ a ∈ l, (f a).Unbroken) : Unbroken (l.flatMap f) := by
  intro line hm
  obtain ⟨a, ha, hm⟩ := List.mem_flatMap.mp hm
  exact h a ha line hm

end Unbroken

end Block

end FurthestMatch
