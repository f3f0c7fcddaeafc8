import FurthestMatch.Proofs.BundledGraph
import FurthestMatch.Proofs.JsonLanguage

/-!
# Parsing JSON texts

The bundled grammar of JSON values accepts the texts of `Json` and no others, and answers what they denote. Its nodes
read as the reader of the grammar does, unrolled once for every round that its reference to itself may take; on a text
that many rounds are enough which the matcher grants.
-/

namespace FurthestMatch

namespace JsonText

open Rulebook

variable {b : Rulebook} {self root : NodeId} {depth bound : Nat}

theorem shrinks_joined {f : Reader} {L : Text → Value → Prop} (hf : f.Sound L) :
    (Reader.map (·.nth 1) (.sequence [comma, f])).Shrinks := by
  refine (Reader.sound_joined hf sound_comma).shrinks ?_
  rintro v ⟨s, u, ⟨w, w', -, -, rfl⟩, -, he⟩
  cases w <;> cases he

section
variable (hleaf : ∀ leaf : Leaf, b.node leaf.id = leaf.node)
include hleaf

theorem realizes_leaf (leaf : Leaf) : b.Realizes (depth + 1) bound leaf.recipe leaf.reader :=
  realizes_node (reads_leaf (hleaf leaf))

theorem realizes_pair {f : Reader} (h : b.ReadsAs (depth + 1) bound self f) :
    b.Realizes (depth + 3) bound (pair self) (pairReader f) :=
  realizes_map (realizes_sequence (.cons (realizes_leaf hleaf _) (.cons (realizes_knownPattern _)
    (.cons (realizes_node h) .nil)))) _

section
variable {comma' field : NodeId} {f : Reader} {L : Text → Value → Prop} (hf : f.Sound L)
  (hcomma : b.ReadsAs (depth + 1) bound comma' comma)
include hf hcomma

theorem realizes_object (h : b.ReadsAs (depth + 1) bound field (pairReader f)) :
    b.Realizes (depth + 10) (bound + 1) (object field comma') (objectReader f) := by
  have hopen : b.Realizes (depth + 7) (bound + 1) (.knownPattern "\\\x7b\\s*") (.pattern "\\\x7b\\s*" .whole) :=
    realizes_knownPattern _
  have hrows := realizes_sepBy h hcomma (shrinks_joined (sound_pair hf))
  have hclose : b.Realizes (depth + 7) bound (.sequence [Leaf.whitespaceOpt.recipe, .literal "\x7d"])
      (.sequence [Leaf.whitespaceOpt.reader, .literal "\x7d"]) :=
    realizes_sequence (.cons (realizes_leaf hleaf _) (.cons (realizes_literal _) .nil))
  have hshrink : (Reader.pattern "\\\x7b\\s*" .whole).Shrinks := by
    refine (Reader.sound_opening readAs_openBrace).shrinks ?_
    rintro v ⟨w, -, he⟩
    cases he
  exact realizes_named (realizes_map (realizes_sequence (.shrink hopen hshrink (.cons hrows (.cons hclose .nil)))) _) _

omit hleaf in
theorem realizes_array (h : b.ReadsAs (depth + 1) bound self f) :
    b.Realizes (depth + 10) (bound + 1) (array self comma') (arrayReader f) := by
  have hopen : b.Realizes (depth + 7) (bound + 1) (.knownPattern r"\[\s*") (.pattern r"\[\s*" .whole) :=
    realizes_knownPattern _
  have hrows := realizes_sepBy h hcomma (shrinks_joined hf)
  have hclose : b.Realizes (depth + 7) bound (.knownPattern r"\s*\]") (.pattern r"\s*\]" .whole) :=
    realizes_knownPattern _
  have hshrink : (Reader.pattern r"\[\s*" .whole).Shrinks := by
    refine (Reader.sound_opening readAs_openBracket).shrinks ?_
    rintro v ⟨w, -, he⟩
    cases he
  exact realizes_named (realizes_map (realizes_sequence (.shrink hopen hshrink (.cons hrows (.cons hclose .nil)))) _) _

end

theorem reads_json (hp : Planted b.graph self root) {f : Reader} {L : Text → Value → Prop} (hf : f.Sound L)
    (h : b.ReadsAs (depth + 1) bound self f) :
    b.ReadsAs (depth + 14) (bound + 1) root (.choice (options f)) := by
  obtain ⟨-, first, comma', field, hcomma, hfield, hroot⟩ := hp
  have hc : b.ReadsAs (depth + 3) bound comma' comma := realizes_knownPattern _ first comma' hcomma
  have hfield : b.ReadsAs (depth + 3) bound field (pairReader f) := realizes_pair hleaf h first field hfield
  have hobject := realizes_object hleaf hf hc hfield
  have harray := realizes_array hf hc (h.mono (Nat.le_add_right _ 2))
  have word (s : String) (v : Value) : b.Realizes (depth + 12) (bound + 1) (.map (.literal s) fun _ => v)
      (.map (fun _ => v) (.literal s)) := realizes_map (realizes_literal s) _
  refine realizes_named (realizes_choice ?_) "Json" first root hroot
  exact .cons (realizes_leaf hleaf _) (.cons (realizes_leaf hleaf _) (.cons hobject
    (.cons harray (.cons (word _ _) (.cons (word _ _) (.cons (word _ _) .nil))))))

/-- The grammar reads as its reader does with as many values inside one another as a text has characters. -/
theorem reads_value (hp : Planted b.graph self root) (htarget : b.target self (.node root) = root) :
    ∀ depth, b.ReadsAs (15 * depth + 1) depth self (value depth)
  | 0 => fun t ht => absurd ht (Nat.not_lt_zero _)
  | depth + 1 => by
    intro t ht
    have hroot := reads_json hleaf hp (sound_value depth) (reads_value hp htarget depth) t ht
    have hself : b.node self = .deferred (.node root) := by
      rw [Rulebook.node, Graph.node, hp.1]
      rfl
    refine (reads_deferred hself ?_).mono (show 15 * depth + 14 + 1 ≤ 15 * (depth + 1) + 1 by omega)
    rw [htarget]
    exact hroot

end

end JsonText

namespace Bundled

/-- The bundled grammar of JSON values parses a text exactly if it is the text of a JSON value, and answers what it
denotes; of any other text it answers a report. -/
theorem json_texts_are_parsed (text : Text) (config : Config) (withDrawing : Bool) : ∃ answer,
    (rulebook.parse config json text withDrawing).result = .ok answer ∧
      ((∃ v, answer = .ok v) ↔ JsonText.Written text ()) ∧ ∀ v, answer = .ok v ↔ JsonText.Json text v := by
  have hreads := JsonText.reads_json node_leaf planted_json (JsonText.sound_value text.length)
    (JsonText.reads_value node_leaf planted_json rfl text.length) text (Nat.lt_succ_self _)
  have hlimit : 15 * text.length + 14 ≤ rulebook.matchLimit text := by
    have hsize := size_pos
    have hm := Nat.mul_le_mul_right (text.length + 2) (show 16 ≤ 8 * (rulebook.graph.size + 1) by omega)
    rw [Rulebook.matchLimit]
    omega
  obtain ⟨answer, ha, hv⟩ := Rulebook.parse_of_reads hreads hlimit (grounded json) config withDrawing
  have hvalue (v : Value) : answer = .ok v ↔ JsonText.Json text v := (hv v).trans JsonText.value_eq_some_iff
  exact ⟨answer, ha, (exists_congr hvalue).trans JsonText.exists_json, hvalue⟩

end Bundled

end FurthestMatch
