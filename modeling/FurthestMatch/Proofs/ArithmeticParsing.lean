import FurthestMatch.Proofs.ArithmeticLanguage
import FurthestMatch.Proofs.BundledGraph

/-!
# Parsing arithmetic

The bundled grammar of arithmetic accepts expressions and no other texts, and answers their values. As for JSON values,
the nodes of the grammar read as its reader does, unrolled once for every round of the reference to itself.
-/

namespace FurthestMatch

namespace Arithmetic

open Rulebook

variable {b : Rulebook} {self inner operand : NodeId} {depth bound : Nat}

theorem operatorReader_shrinks : operatorReader.Shrinks := by
  refine sound_operator.shrinks ?_
  rintro v ⟨op, he, -⟩
  cases op <;> cases he

theorem operationReader_shrinks {f : Reader} (hf : f.Sound IsRow) : (operationReader f).Shrinks := by
  refine (sound_operation hf).shrinks ?_
  rintro v ⟨w, w', u, es, op, -, -, -, he, -⟩
  obtain ⟨c, hc, -⟩ := mem_symbols op (w' ++ u)
  rw [hc] at he
  cases w <;> cases he

theorem realizes_operator : b.Realizes (depth + 2) bound operator operatorReader :=
  realizes_choice (.cons (realizes_literal _) (.cons (realizes_literal _) (.cons (realizes_literal _)
    (.cons (realizes_literal _) (.cons (realizes_literal _) .nil)))))

section
variable (hleaf : ∀ leaf : Leaf, b.node leaf.id = leaf.node) {f : Reader} (h : b.ReadsAs (depth + 2) bound self f)
include hleaf

theorem realizes_space : b.Realizes (depth + 1) bound space spaceReader :=
  realizes_node (reads_leaf (hleaf _))

include h

theorem realizes_term : b.Realizes (depth + 5) (bound + 1) (term self) (termReader f) := by
  have hself := realizes_node h
  have hspace : b.Realizes (depth + 2) bound space spaceReader := realizes_space hleaf
  have hshrink : (Reader.literal "(").Shrinks := by
    intro t v rest hr
    rw [(Reader.literal_eq_some.mp hr).1]
    exact Nat.lt_succ_self _
  have hgroup : b.Realizes (depth + 4) (bound + 1) (group self) (groupReader f) :=
    realizes_map (realizes_sequence (.shrink (realizes_literal _) hshrink (.cons hspace (.cons hself
      (.cons hspace (.cons (realizes_literal _) .nil)))))) _
  have hnumber : b.Realizes (depth + 4) (bound + 1) number (.map (fun n => .list [n]) Leaf.number.reader) :=
    realizes_map (realizes_node (reads_leaf (hleaf _))) _
  exact realizes_choice (.cons hnumber (.cons hgroup .nil))

theorem realizes_operation : b.Realizes (depth + 4) (bound + 1) (operation self) (operationReader f) := by
  have hspace {bound : Nat} : b.Realizes (depth + 2) bound space spaceReader := realizes_space hleaf
  exact realizes_map (realizes_sequence (.cons hspace (.shrink realizes_operator operatorReader_shrinks
    (.cons hspace (.cons (realizes_node h) .nil))))) _

theorem realizes_row (hf : f.Sound IsRow) (hoperand : b.ReadsAs (depth + 5) (bound + 1) operand (termReader f)) :
    b.Realizes (depth + 9) (bound + 1) (row self operand) (rowReader f) := by
  have hterm := realizes_node hoperand
  have hoperations : b.Realizes (depth + 6) (bound + 1) (.map ((operation self).atLeast 1) flatten)
      (.map flatten (.times (operationReader f) 1)) :=
    realizes_map (realizes_times (realizes_operation hleaf h) (operationReader_shrinks hf) 1) _
  have hlong := realizes_map (realizes_sequence (.cons (hterm.mono (Nat.le_succ _)) (.cons hoperations .nil))) flatten
  exact realizes_choice (.cons hlong (.cons (hterm.mono (by omega)) .nil))

end

section
variable (hleaf : ∀ leaf : Leaf, b.node leaf.id = leaf.node) {root : NodeId} (hp : Planted b.graph self inner root)
include hleaf hp

theorem reads_row {f : Reader} (hf : f.Sound IsRow) (h : b.ReadsAs (depth + 2) bound self f) :
    b.ReadsAs (depth + 9) (bound + 1) inner (rowReader f) := by
  obtain ⟨-, ⟨first, operand, hoperand, hinner⟩, -⟩ := hp
  exact realizes_row hleaf h hf (realizes_term hleaf h first operand hoperand) first inner hinner

/-- The rows of the grammar read as their reader does with as many inside one another as a text has characters. -/
theorem reads_rows (htarget : b.target self (.node inner) = inner) : ∀ depth,
    b.ReadsAs (10 * depth + 2) depth self (rows depth)
  | 0 => fun t ht => absurd ht (Nat.not_lt_zero _)
  | depth + 1 => by
    intro t ht
    have hinner := reads_row hleaf hp (sound_rows depth) (reads_rows htarget depth) t ht
    have hself : b.node self = .deferred (.node inner) := by
      rw [Rulebook.node, Graph.node, hp.1]
      rfl
    refine (reads_deferred hself ?_).mono (show 10 * depth + 9 + 1 ≤ 10 * (depth + 1) + 2 by omega)
    rw [htarget]
    exact hinner

end

end Arithmetic

namespace Bundled

/-- The bundled grammar of arithmetic parses a text exactly if it is an expression, and answers its value; of any other
text it answers a report. -/
theorem expressions_are_evaluated (text : Text) (config : Config) (withDrawing : Bool) : ∃ answer,
    (rulebook.parse config math text withDrawing).result = .ok answer ∧
      ((∃ v, answer = .ok v) ↔ Arithmetic.Infix text) ∧ ∀ v, answer = .ok v ↔ Arithmetic.Expression text v := by
  obtain ⟨inner, hp⟩ := planted_math
  have hinner := Arithmetic.reads_row node_leaf hp (Arithmetic.sound_rows text.length)
    (Arithmetic.reads_rows node_leaf hp rfl text.length)
  obtain ⟨-, -, first, hroot⟩ := id hp
  have hreads := Rulebook.realizes_map (Rulebook.realizes_node hinner) _ first math hroot text (Nat.lt_succ_self _)
  have hlimit : 10 * text.length + 9 + 1 ≤ rulebook.matchLimit text := by
    have hsize := size_pos
    have hm := Nat.mul_le_mul_right (text.length + 2) (show 16 ≤ 8 * (rulebook.graph.size + 1) by omega)
    rw [Rulebook.matchLimit]
    omega
  obtain ⟨answer, ha, hv⟩ := Rulebook.parse_of_reads hreads hlimit (grounded math) config withDrawing
  have hvalue (v : Value) : answer = .ok v ↔ Arithmetic.Expression text v := (hv v).trans Arithmetic.rows_eq_some_iff
  exact ⟨answer, ha, (exists_congr hvalue).trans Arithmetic.exists_expression, hvalue⟩

end Bundled

end FurthestMatch
