import FurthestMatch.Proofs.Places
import FurthestMatch.Text.Position

/-!
# Positions of places

What stands before a place is some lines, each with its newline, and the start of the line that the place is on. Their
numbers are the position of the place, so a later place has a later position, and the place is found again from its
position by passing the lines first and then the characters.
-/

namespace FurthestMatch

/-- A position on an earlier line, or further to the left on the same. -/
instance : LT Position where
  lt p q := p.line < q.line ∨ p.line = q.line ∧ p.column < q.column

namespace Text

variable {text before after passed : Text}

def afterLines? : (lines : Nat) → Text → Option Text
  | 0, text => some text
  | _ + 1, [] => none
  | lines + 1, c :: rest => if c = '\n' then afterLines? lines rest else afterLines? (lines + 1) rest

/-- The byte offset of a position: the lines before its line are passed, and then characters of that line, which has to
be as long. -/
def offsetAt? (text : Text) (p : Position) : Option Nat := do
  let rest ← afterLines? (p.line - 1) text
  let row := rest.take (p.column - 1)
  if row.length = p.column - 1 ∧ '\n' ∉ row then some (size text - size rest + size row) else none

/-! ## The line that a place is on -/

theorem afterLines?_append : ∀ {front : Text} (rest : Text), (∀ c ∈ front.getLast?, c = '\n') →
    afterLines? (front.count '\n') (front ++ rest) = some rest
  | [], rest, _ => by rw [List.count_nil, afterLines?, List.nil_append]
  | c :: front, rest, h => by
    have hfront : ∀ d ∈ front.getLast?, d = '\n' := fun d hd =>
      h d (by simp [List.getLast?_cons, Option.mem_def.mp hd])
    by_cases hc : c = '\n'
    · rw [hc, List.count_cons_self, List.cons_append, afterLines?, if_pos rfl]
      exact afterLines?_append rest hfront
    · -- a line that has begun ends in what is left
      have hmem : '\n' ∈ front := by
        cases hlast : front.getLast? with
        | none =>
          rw [List.getLast?_eq_none_iff.mp hlast] at h
          exact absurd (h c rfl) hc
        | some d =>
          rw [← hfront d hlast]
          exact List.mem_of_getLast? hlast
      have hpos := List.count_pos_iff.mpr hmem
      obtain ⟨n, hn⟩ : ∃ n, front.count '\n' = n + 1 := ⟨_, (Nat.sub_add_cancel hpos).symm⟩
      have ih := afterLines?_append rest hfront
      rw [hn] at ih
      rw [List.count_cons_of_ne hc, hn, List.cons_append, afterLines?, if_neg hc]
      exact ih

theorem exists_row (before : Text) : ∃ front row, before = front ++ row ∧ (∀ c ∈ front.getLast?, c = '\n') ∧
    '\n' ∉ row ∧ endPosition before = ⟨front.count '\n' + 1, row.length + 1⟩ := by
  let row := (before.reverse.takeWhile (· ≠ '\n')).reverse
  let front := (before.reverse.dropWhile (· ≠ '\n')).reverse
  have hsplit : before = front ++ row := by
    rw [← List.reverse_append, List.takeWhile_append_dropWhile, List.reverse_reverse]
  have hrow : '\n' ∉ row := by
    intro h
    have hne := List.all_takeWhile (p := (· ≠ '\n')) (l := before.reverse)
    simpa using List.all_eq_true.mp hne _ (List.mem_reverse.mp h)
  refine ⟨front, row, hsplit, fun c hc => ?_, hrow, ?_⟩
  · rw [List.getLast?_reverse] at hc
    have hhead := List.head?_dropWhile_not (· ≠ '\n') before.reverse
    rw [Option.mem_def.mp hc] at hhead
    simpa using hhead
  · have hcount : before.count '\n' = front.count '\n' := by
      rw [hsplit, List.count_append, List.count_eq_zero.mpr hrow, Nat.add_zero]
    rw [endPosition, hcount, List.length_reverse]

theorem position?_append (before after : Text) :
    position? (before ++ after) (size before) = some (endPosition before) := by
  have hle : size before ≤ size (before ++ after) := by
    rw [size_append]
    exact Nat.le_add_right _ _
  rw [position?, Nat.min_eq_left hle, splitAt_append]
  rfl

theorem offsetAt?_endPosition (before after : Text) :
    offsetAt? (before ++ after) (endPosition before) = some (size before) := by
  obtain ⟨front, row, rfl, hfront, hrow, hend⟩ := exists_row before
  have hlines : afterLines? (front.count '\n') (front ++ (row ++ after)) = some (row ++ after) :=
    afterLines?_append _ hfront
  rw [hend, offsetAt?, List.append_assoc, Nat.add_sub_cancel, hlines]
  simp [hrow, size_append]

theorem endPosition_lt (h : passed ≠ []) : endPosition before < endPosition (before ++ passed) := by
  by_cases hn : '\n' ∈ passed
  · have hpos := List.count_pos_iff.mpr hn
    refine .inl ?_
    simp only [endPosition, List.count_append]
    omega
  · have hrow : (before ++ passed).reverse.takeWhile (· ≠ '\n') =
        passed.reverse ++ before.reverse.takeWhile (· ≠ '\n') := by
      rw [List.reverse_append, List.takeWhile_append_of_pos]
      intro c hc
      have hne : c ≠ '\n' := fun he => hn (by rwa [← he, ← List.mem_reverse])
      simpa using hne
    have hpos := List.length_pos_iff.mpr h
    refine .inr ⟨?_, ?_⟩
    · simp only [endPosition, List.count_append, List.count_eq_zero.mpr hn, Nat.add_zero]
    · simp only [endPosition, hrow, List.length_append, List.length_reverse]
      omega

end Text

/-- The position of a place leads back to it, over whole lines and then over characters of one line, and every later
place has a later position. -/
theorem position_identifies_place {text : Text} {offset : Nat} (h : text.IsBoundary offset) :
    ∃ p, text.position? offset = some p ∧ text.offsetAt? p = some offset ∧
      ∀ later, text.IsBoundary later → offset < later → ∃ q, text.position? later = some q ∧ p < q := by
  obtain ⟨before, after, rfl, rfl⟩ := h
  refine ⟨_, Text.position?_append before after, Text.offsetAt?_endPosition before after, ?_⟩
  rintro _ ⟨before', after', ht, rfl⟩ hlt
  obtain ⟨passed, rfl, rfl⟩ | ⟨beyond, rfl, rfl⟩ := List.append_eq_append_iff.mp ht
  · have hne : passed ≠ [] := by
      rintro rfl
      exact absurd hlt (by simp)
    refine ⟨_, ?_, Text.endPosition_lt hne⟩
    rw [← List.append_assoc]
    exact Text.position?_append (before ++ passed) after'
  · rw [Text.size_append] at hlt
    omega

theorem position_around_newline : Text.IsBoundary ['é', '\n', 'b'] 2 ∧ Text.IsBoundary ['é', '\n', 'b'] 3 ∧
    ∃ p q, Text.position? ['é', '\n', 'b'] 2 = some p ∧ Text.offsetAt? ['é', '\n', 'b'] p = some 2 ∧
      Text.position? ['é', '\n', 'b'] 3 = some q ∧ p < q := by
  have h₁ : Text.IsBoundary ['é', '\n', 'b'] 2 := ⟨['é'], ['\n', 'b'], rfl, rfl⟩
  have h₂ : Text.IsBoundary ['é', '\n', 'b'] 3 := ⟨['é', '\n'], ['b'], rfl, rfl⟩
  obtain ⟨p, hp, ho, hlater⟩ := position_identifies_place h₁
  obtain ⟨q, hq, hlt⟩ := hlater 3 h₂ (by decide)
  exact ⟨h₁, h₂, p, q, hp, ho, hq, hlt⟩

end FurthestMatch
