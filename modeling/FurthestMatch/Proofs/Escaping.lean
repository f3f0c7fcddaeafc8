import FurthestMatch.Proofs.JsonParsing
import Mathlib.Data.List.Sort

/-!
# Values that are read back

A value of texts, lists and objects is displayed as a JSON text, in which its texts stand escaped between quotes. The
bundled grammar hands on what stands between quotes as it is, so what it reads is the value with its texts escaped. Keys
that differ still differ once they are escaped, but they may come in another order.
-/

namespace FurthestMatch

namespace Quoted

/-! ## Escaped characters -/

def Unescaped (t : Text) : Prop :=
  ∀ c ∈ t, c ≠ '"' ∧ c ≠ '\\' ∧ 0x20 ≤ c.toNat

def specials : List Char :=
  '"' :: '\\' :: (List.range 0x20).map Char.ofNat

theorem escapeDocument_of_unescaped {c : Char} (h : c ≠ '"' ∧ c ≠ '\\' ∧ 0x20 ≤ c.toNat) : escapeDocument c = [c] := by
  have control {d : Char} (hd : d.toNat < 0x20) : c ≠ d := by
    intro he
    rw [he] at h
    omega
  have hlow : ¬c.toNat < 0x10 ∧ ¬c.toNat < 0x20 := by omega
  simp [escapeDocument, h.1, h.2.1, hlow, control (d := '\x08') (by decide), control (d := '\x0c') (by decide),
    control (d := '\n') (by decide), control (d := '\r') (by decide), control (d := '\t') (by decide)]

theorem special_or_unescaped (c : Char) : c ∈ specials ∨ c ≠ '"' ∧ c ≠ '\\' ∧ 0x20 ≤ c.toNat := by
  by_cases hq : c = '"'
  · exact .inl (by simp [specials, hq])
  · by_cases hb : c = '\\'
    · exact .inl (by simp [specials, hb])
    · by_cases hl : 0x20 ≤ c.toNat
      · exact .inr ⟨hq, hb, hl⟩
      · have hc : Char.ofNat c.toNat = c := Char.ofNat_toNat c
        have hm : Char.ofNat c.toNat ∈ (List.range 0x20).map Char.ofNat :=
          List.mem_map_of_mem (List.mem_range.mpr (Nat.not_le.mp hl))
        rw [hc] at hm
        exact .inl (List.mem_cons_of_mem _ (List.mem_cons_of_mem _ hm))

/-- A special character is written as a backslash, a character of the line, and characters that are not special. -/
theorem exists_escape {c : Char} (h : c ∈ specials) : ∃ d u, escapeDocument c = '\\' :: d :: u ∧ d ≠ '\n' ∧
    ∀ x ∈ u, x ≠ '"' ∧ x ≠ '\\' := by
  -- the check goes through the list, not through all characters
  have hall : (specials.all fun c =>
      escapeDocument c == '\\' :: (escapeDocument c).getD 1 '\n' :: (escapeDocument c).drop 2 &&
        ((escapeDocument c).getD 1 '\n' != '\n' && ((escapeDocument c).drop 2).all fun x => x != '"' && x != '\\')) =
      true := by
    decide +kernel
  simp only [List.all_eq_true, Bool.and_eq_true, beq_iff_eq, bne_iff_ne] at hall
  exact ⟨_, _, hall c h⟩

theorem quotedBody_documentBody (t : Text) : QuotedBody (documentBody t) := by
  induction t with
  | nil => exact .nil
  | cons c t ih =>
    rw [documentBody, List.flatMap_cons]
    obtain hc | hc := special_or_unescaped c
    · obtain ⟨d, u, he, hd, hu⟩ := exists_escape hc
      rw [he]
      exact .escaped hd (.append hu ih)
    · rw [escapeDocument_of_unescaped hc]
      exact .plain hc.1 hc.2.1 ih

/-! ## Escaped texts differ -/

theorem eq_of_isPrefix_escape {c d : Char} (h : escapeDocument c <+: escapeDocument d) : c = d := by
  have hspecial : (specials.all fun c => specials.all fun d =>
      !(escapeDocument c).isPrefixOf (escapeDocument d) || c == d) = true := by
    decide +kernel
  simp only [List.all_eq_true, Bool.or_eq_true, Bool.not_eq_true', beq_iff_eq] at hspecial
  obtain hc | hc := special_or_unescaped c
  · obtain hd | hd := special_or_unescaped d
    · exact (hspecial c hc d hd).resolve_left (by simp [h])
    · obtain ⟨e, u, he, -⟩ := exists_escape hc
      rw [he, escapeDocument_of_unescaped hd] at h
      simp at h
  · rw [escapeDocument_of_unescaped hc] at h
    obtain hd | hd := special_or_unescaped d
    · obtain ⟨e, u, he, -⟩ := exists_escape hd
      rw [he] at h
      simp [hc.2.1] at h
    · simpa [escapeDocument_of_unescaped hd] using h

theorem escapeDocument_ne_nil (c : Char) : escapeDocument c ≠ [] := by
  obtain hc | hc := special_or_unescaped c
  · obtain ⟨d, u, he, -⟩ := exists_escape hc
    simp [he]
  · simp [escapeDocument_of_unescaped hc]

theorem documentBody_cons (c : Char) (t : Text) : documentBody (c :: t) = escapeDocument c ++ documentBody t := by
  simp [documentBody]

/-- Of two characters that begin one escaped text, the escape of one begins with the escape of the other. -/
theorem documentBody_injective : ∀ {s t : Text}, documentBody s = documentBody t → s = t
  | [], [], _ => rfl
  | [], d :: t, h => by
    rw [documentBody_cons] at h
    exact absurd (List.append_eq_nil_iff.mp h.symm).1 (escapeDocument_ne_nil d)
  | c :: s, [], h => by
    rw [documentBody_cons] at h
    exact absurd (List.append_eq_nil_iff.mp h).1 (escapeDocument_ne_nil c)
  | c :: s, d :: t, h => by
    rw [documentBody_cons, documentBody_cons] at h
    have hcd : c = d := by
      have hc : escapeDocument c <+: escapeDocument d ++ documentBody t := ⟨_, h⟩
      obtain hp | hp := List.prefix_or_prefix_of_prefix hc (List.prefix_append _ _)
      · exact eq_of_isPrefix_escape hp
      · exact (eq_of_isPrefix_escape hp).symm
    subst hcd
    rw [documentBody_injective (List.append_cancel_left h)]

theorem documentBody_of_unescaped {t : Text} (h : Unescaped t) : documentBody t = t := by
  induction t with
  | nil => rfl
  | cons c t ih =>
    have hc := h c List.mem_cons_self
    rw [documentBody_cons, escapeDocument_of_unescaped hc, ih fun d hd => h d (List.mem_cons_of_mem _ hd)]
    rfl

end Quoted

namespace Value

/-! ## Escaped values -/

mutual
/-- The value is built of `null`, booleans, texts of a kind, lists and objects with keys of that kind. -/
def BuiltOf (P : String → Prop) : Value → Prop
  | .null | .bool _ => True
  | .str s => P s
  | .list items => BuiltOfItems P items
  | .object fields => (fields.Pairwise fun a b => a.1 < b.1) ∧ BuiltOfFields P fields
  | .int _ | .float _ | .bigInt _ => False

def BuiltOfItems (P : String → Prop) : List Value → Prop
  | [] => True
  | v :: vs => BuiltOf P v ∧ BuiltOfItems P vs

def BuiltOfFields (P : String → Prop) : List (String × Value) → Prop
  | [] => True
  | (key, v) :: fields => P key ∧ BuiltOf P v ∧ BuiltOfFields P fields
end

def escapedText (s : String) : String :=
  String.ofList (Quoted.documentBody s.toList)

mutual
/-- The value with every text in its escaped form, keys included. Fields stand in the order of their escaped keys. -/
def escaped : Value → Value
  | .str s => .str (escapedText s)
  | .list items => .list (escapedItems items)
  | .object fields => .object ((escapedFields fields).insertionSort fun a b => a.1 ≤ b.1)
  | v => v

def escapedItems : List Value → List Value
  | [] => []
  | v :: vs => escaped v :: escapedItems vs

def escapedFields : List (String × Value) → List (String × Value)
  | [] => []
  | (key, v) :: fields => (escapedText key, escaped v) :: escapedFields fields
end

theorem escapedText_injective {s t : String} (h : escapedText s = escapedText t) : s = t := by
  have hbody := String.ofList_inj.mp h
  exact String.toList_inj.mp (Quoted.documentBody_injective hbody)

theorem keys_escapedFields (fields : List (String × Value)) :
    (escapedFields fields).map Prod.fst = (fields.map Prod.fst).map escapedText := by
  induction fields with
  | nil => simp [escapedFields]
  | cons m fields ih => simp [escapedFields, ih]

/-! ## Fields in the order of their keys -/

theorem lookup_of_perm {fields fields' : List (String × Value)} (h : fields.Perm fields')
    (hn : (fields.map Prod.fst).Nodup) (key : String) : fields.lookup key = fields'.lookup key := by
  induction h with
  | nil => rfl
  | cons m _ ih =>
    have ih := ih (List.nodup_cons.mp hn).2
    rw [lookup_field, lookup_field, ih]
  | swap m m' fields =>
    have hne : m'.1 ≠ m.1 := by
      intro he
      simp [he] at hn
    rw [lookup_field, lookup_field, lookup_field, lookup_field]
    by_cases hk : key = m.1
    · have hk' : key ≠ m'.1 := fun he => hne (he.symm.trans hk)
      simp [hk, hne.symm]
    · simp [hk]
  | trans h _ ih ih' =>
    exact (ih hn).trans (ih' ((h.map Prod.fst).nodup_iff.mp hn))

instance : Std.Total fun a b : String × Value => a.1 ≤ b.1 :=
  ⟨fun a b => le_total a.1 b.1⟩

instance : IsTrans (String × Value) fun a b => a.1 ≤ b.1 :=
  ⟨fun _ _ _ => le_trans⟩

theorem gathers_insertionSort {fields : List (String × Value)} (hn : (fields.map Prod.fst).Nodup) :
    Gathers fields (fields.insertionSort fun a b => a.1 ≤ b.1) := by
  have hperm := List.perm_insertionSort (fun a b : String × Value => a.1 ≤ b.1) fields
  have hn' := (hperm.map Prod.fst).nodup_iff.mpr hn
  refine ⟨?_, ?_⟩
  · have hle := List.pairwise_insertionSort (fun a b : String × Value => a.1 ≤ b.1) fields
    exact (hle.and (List.pairwise_map.mp hn')).imp fun h => lt_of_le_of_ne h.1 h.2
  · exact lookup_of_perm (hperm.trans (List.reverse_perm fields).symm) hn'

theorem nodup_escapedFields {fields : List (String × Value)} (h : fields.Pairwise fun a b => a.1 < b.1) :
    ((escapedFields fields).map Prod.fst).Nodup := by
  have hkeys : (fields.map Prod.fst).Nodup := List.pairwise_map.mpr (h.imp ne_of_lt)
  rw [keys_escapedFields]
  exact hkeys.map fun _ _ => escapedText_injective

theorem escapedText_eq_self {s : String} (h : Quoted.Unescaped s.toList) : escapedText s = s := by
  rw [escapedText, Quoted.documentBody_of_unescaped h, String.ofList_toList]

mutual
theorem escaped_eq_self : ∀ {v : Value}, (v.BuiltOf fun s => Quoted.Unescaped s.toList) → v.escaped = v
  | .null, _ | .bool _, _ => rfl
  | .str s, h => by
    rw [escaped, escapedText_eq_self h]
  | .list items, h => by
    rw [escaped, escapedItems_eq_self h]
  | .object fields, h => by
    have hsorted : fields.Pairwise fun a b => a.1 ≤ b.1 := h.1.imp le_of_lt
    rw [escaped, escapedFields_eq_self h.2, hsorted.insertionSort_eq]

theorem escapedItems_eq_self : ∀ {items : List Value}, (BuiltOfItems (fun s => Quoted.Unescaped s.toList) items) →
    escapedItems items = items
  | [], _ => rfl
  | v :: items, h => by
    rw [escapedItems, escaped_eq_self h.1, escapedItems_eq_self h.2]

theorem escapedFields_eq_self : ∀ {fields : List (String × Value)},
    (BuiltOfFields (fun s => Quoted.Unescaped s.toList) fields) → escapedFields fields = fields
  | [], _ => rfl
  | (key, v) :: fields, h => by
    rw [escapedFields, escapedText_eq_self h.1, escaped_eq_self h.2.1, escapedFields_eq_self h.2.2]
end

end Value

/-! ## Displayed values -/

namespace JsonText

open Value
open Regex (Opening Around Closing)

section
variable {c : Char}

theorem around_self : Around c [c] :=
  ⟨[], [], nofun, nofun, rfl⟩

theorem opening_self : Opening c [c] :=
  ⟨[], nofun, rfl⟩

theorem closing_self : Closing c [c] :=
  ⟨[], nofun, rfl⟩

end

theorem field_compact (key : String) {v : Value} (h : Json v.toDocument.compact v.escaped) :
    Field Json (Quoted.document key.toList ++ ([':'] ++ v.toDocument.compact)) (escapedText key, v.escaped) :=
  .mk (Quoted.quotedBody_documentBody key.toList) around_self h

mutual
/-- The text of a value denotes the value with its texts escaped. -/
theorem json_compact : ∀ {v : Value}, (v.BuiltOf fun _ => True) → Json v.toDocument.compact v.escaped
  | .null, _ => .null
  | .bool true, _ => .true
  | .bool false, _ => .false
  | .str s, _ => .string (Quoted.quotedBody_documentBody s.toList)
  | .list [], _ => .array opening_self .none closing_self
  | .list (item :: items), h => by
    obtain ⟨u, hu, hmany⟩ := many_compactItems h.2
    have hrow : Row (Around ',') Json (item.toDocument.compact ++ u) (escapedItems (item :: items)) :=
      row_iff.mpr ⟨_, _, u, _, json_compact h.1, hmany, rfl, rfl⟩
    have htext : (toDocument (.list (item :: items))).compact = ['['] ++ (item.toDocument.compact ++ u ++ [']']) := by
      simp [toDocument, toDocuments, Document.compact, hu]
    rw [htext]
    exact .array opening_self (.some hrow) closing_self
  | .object [], _ => .object opening_self .none closing_self (gathers_insertionSort List.nodup_nil)
  | .object ((key, v) :: fields), h => by
    obtain ⟨u, hu, hmany⟩ := many_compactFields h.2.2.2
    have hfield := field_compact key (json_compact h.2.2.1)
    have hrow : Row (Around ',') (Field Json) (Quoted.document key.toList ++ ([':'] ++ v.toDocument.compact) ++ u)
        (escapedFields ((key, v) :: fields)) := row_iff.mpr ⟨_, _, u, _, hfield, hmany, rfl, rfl⟩
    have htext : (toDocument (.object ((key, v) :: fields))).compact =
        ['\x7b'] ++ (Quoted.document key.toList ++ ([':'] ++ v.toDocument.compact) ++ u ++ ['\x7d']) := by
      simp [toDocument, toDocumentFields, Document.compact, hu]
    rw [htext]
    exact .object opening_self (.some hrow) closing_self (gathers_insertionSort (nodup_escapedFields h.1))

theorem many_compactItems : ∀ {items : List Value}, (BuiltOfItems (fun _ => True) items) → ∃ u,
    Document.compactItems (toDocuments items) = u ++ [']'] ∧ Many (Joined (Around ',') Json) u (escapedItems items)
  | [], _ => ⟨[], rfl, .nil⟩
  | v :: items, h => by
    obtain ⟨u, hu, hmany⟩ := many_compactItems h.2
    refine ⟨[','] ++ v.toDocument.compact ++ u, ?_, .cons ⟨[','], _, around_self, json_compact h.1, rfl⟩ hmany⟩
    simp [toDocuments, Document.compactItems, hu]

theorem many_compactFields : ∀ {fields : List (String × Value)}, (BuiltOfFields (fun _ => True) fields) → ∃ u,
    Document.compactFields (toDocumentFields fields) = u ++ ['\x7d'] ∧
      Many (Joined (Around ',') (Field Json)) u (escapedFields fields)
  | [], _ => ⟨[], rfl, .nil⟩
  | (key, v) :: fields, h => by
    obtain ⟨u, hu, hmany⟩ := many_compactFields h.2.2
    have hfield := field_compact key (json_compact h.2.1)
    refine ⟨[','] ++ (Quoted.document key.toList ++ ([':'] ++ v.toDocument.compact)) ++ u, ?_,
      .cons ⟨[','], _, around_self, hfield, rfl⟩ hmany⟩
    simp [toDocumentFields, Document.compactFields, hu]
end

theorem json_display {v : Value} (h : v.BuiltOf fun _ => True) : Json v.display v.escaped := by
  cases v with
  | bigInt => exact h.elim
  | _ => exact json_compact h

end JsonText

namespace Bundled

theorem answer_of_json {t : Text} {v : Value} (h : JsonText.Json t v) (config : Config) (withDrawing : Bool) :
    (rulebook.parse config json t withDrawing).result = .ok (.ok v) := by
  have hreads := JsonText.reads_json node_leaf planted_json (JsonText.sound_value t.length)
    (JsonText.reads_value node_leaf planted_json rfl t.length) t (Nat.lt_succ_self _)
  have hlimit : 15 * t.length + 14 ≤ rulebook.matchLimit t := by
    have hsize := size_pos
    have hm := Nat.mul_le_mul_right (t.length + 2) (show 16 ≤ 8 * (rulebook.graph.size + 1) by omega)
    rw [Rulebook.matchLimit]
    omega
  obtain ⟨answer, ha, hv⟩ := Rulebook.parse_of_reads hreads hlimit (grounded json) config withDrawing
  rw [ha, (hv v).mpr (JsonText.value_eq_some_iff.mpr h)]

/-- The bundled grammar of JSON values parses what a value of texts, lists and objects is displayed as, and answers the
value with its texts escaped, which is the value itself when none of them needs to be. -/
theorem displayed_values_are_parsed {v : Value} (h : v.BuiltOf fun _ => True) (config : Config) (withDrawing : Bool) :
    (rulebook.parse config json v.display withDrawing).result = .ok (.ok v.escaped) ∧
      ((v.BuiltOf fun s => Quoted.Unescaped s.toList) → v.escaped = v) :=
  ⟨answer_of_json (JsonText.json_display h) config withDrawing, Value.escaped_eq_self⟩

def notes : Value :=
  .object [("a\n", .list [.str "\"", .null]), ("a!", .bool true)]

theorem notes_are_escaped :
    (rulebook.parse {} json "\x7b\"a\\n\":[\"\\\"\",null],\"a!\":true\x7d".toList true).result =
      .ok (.ok (.object [("a!", .bool true), ("a\\n", .list [.str "\\\"", .null])])) := by
  have hbuilt : notes.BuiltOf fun _ => True := by
    refine ⟨?_, trivial, ⟨trivial, trivial, trivial⟩, trivial, trivial, trivial⟩
    simp only [List.pairwise_pair, String.lt_iff_toList_lt]
    decide
  have hdisplay : notes.display = "\x7b\"a\\n\":[\"\\\"\",null],\"a!\":true\x7d".toList := by decide +kernel
  have hescaped : notes.escaped = .object [("a!", .bool true), ("a\\n", .list [.str "\\\"", .null])] := by
    rfl
  have h := displayed_values_are_parsed hbuilt {} true
  rw [hdisplay, hescaped] at h
  exact h.1

end Bundled

end FurthestMatch
