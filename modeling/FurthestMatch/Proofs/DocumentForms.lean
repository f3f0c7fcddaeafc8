import FurthestMatch.Proofs.DocumentLayouts

/-!
# The two written forms of a value

A value is written over several lines as it is, and on one line as the document that stands for it. Both are the same
document laid out with other blanks between its parts, so they agree in all but these, and a reader of JSON takes them
for the same tree.
-/

namespace FurthestMatch

/-! ## Strings -/

namespace Quoted

def unit (c : Char) : JsonUnit :=
  if c.toNat < 0x20 ∧ c ∉ ['\x08', '\x0c', '\n', '\r', '\t'] then .code c.toNat else .char c

/-- A character is written as itself, as a backslash and a letter, or as its code. -/
theorem escape_cases (c : Char) : escapeDocument c = [c] ∧ c ≠ '"' ∧ c ≠ '\\' ∧ 0x20 ≤ c.toNat ∧ unit c = .char c ∨
    (∃ d, escapeDocument c = ['\\', d] ∧ d ≠ 'u' ∧ Json.escaped? d = some c ∧ unit c = .char c) ∨
    ∃ d₁ d₂ d₃ d₄, escapeDocument c = ['\\', 'u', d₁, d₂, d₃, d₄] ∧
      Numeral.naturalIn? 16 [d₁, d₂, d₃, d₄] = some c.toNat ∧ unit c = .code c.toNat := by
  obtain hc | hc := special_or_unescaped c
  · have hall : (specials.all fun c => let e := escapeDocument c
        e == ['\\', e.getD 1 'u'] && (e.getD 1 'u' != 'u' && (Json.escaped? (e.getD 1 'u') == some c &&
            unit c == .char c)) ||
          e == ['\\', 'u', e.getD 2 '0', e.getD 3 '0', e.getD 4 '0', e.getD 5 '0'] &&
            (Numeral.naturalIn? 16 [e.getD 2 '0', e.getD 3 '0', e.getD 4 '0', e.getD 5 '0'] == some c.toNat &&
              unit c == .code c.toNat)) = true := by
      decide +kernel
    simp only [List.all_eq_true, Bool.or_eq_true, Bool.and_eq_true, beq_iff_eq, bne_iff_ne] at hall
    exact .inr ((hall c hc).imp (fun h => ⟨_, h⟩) fun h => ⟨_, _, _, _, h⟩)
  · exact .inl ⟨escapeDocument_of_unescaped hc, hc.1, hc.2.1, hc.2.2, if_neg fun h => absurd hc.2.2 (by omega)⟩

theorem readString_escape (c : Char) (rest : Text) : Json.readString (escapeDocument c ++ rest) =
    (Json.readString rest).map fun (units, rest) => (unit c :: units, rest) := by
  obtain ⟨he, hq, hb, hl, hu⟩ | ⟨d, he, hd, hc, hu⟩ | ⟨d₁, d₂, d₃, d₄, he, hn, hu⟩ := escape_cases c
  · rw [he, hu, List.singleton_append, Json.readString]
    · rw [if_neg (Nat.not_lt.mpr hl)]
    · exact hq
    · exact fun _ _ _ _ _ he _ => hb he
    · exact fun _ _ he _ => hb he
  · rw [he, hu, List.cons_append, List.cons_append, List.nil_append, Json.readString]
    · rw [hc]
      cases Json.readString rest <;> rfl
    · exact fun _ _ _ _ _ he => absurd he hd
  · rw [he, hu]
    simp only [List.cons_append, List.nil_append, Json.readString, hn]
    cases Json.readString rest <;> rfl

theorem readString_document (t rest : Text) :
    Json.readString (documentBody t ++ '"' :: rest) = some (t.map unit, rest) := by
  induction t with
  | nil => rfl
  | cons c t ih =>
    rw [documentBody_cons, List.append_assoc, readString_escape, ih]
    rfl

end Quoted

/-! ## Trees -/

namespace Document

mutual
def json : Document → Json
  | .null => .null
  | .bool b => .bool b
  | .int n => .number (integerText n)
  | .float x => if Value.isFinite x then .number (Decimal.documentNotation.write x) else .null
  | .str s => .str (s.toList.map Quoted.unit)
  | .array items => .array (jsonItems items)
  | .object fields => .object (jsonFields fields)

def jsonItems : List Document → List Json
  | [] => []
  | item :: items => json item :: jsonItems items

def jsonFields : List (String × Document) → List (List JsonUnit × Json)
  | [] => []
  | (key, value) :: fields => (key.toList.map Quoted.unit, json value) :: jsonFields fields
end

end Document

/-! ## Reading a document -/

namespace Json

def continueItems (fuel : Nat) (item : Json) (text : Text) : Option (List Json × Text) :=
  match skipSpace text with
  | ']' :: rest => some ([item], rest)
  | ',' :: rest => (readItems fuel rest).map fun (items, rest) => (item :: items, rest)
  | _ => none

def continueFields (fuel : Nat) (key : List JsonUnit) (value : Json) (text : Text) :
    Option (List (List JsonUnit × Json) × Text) :=
  match skipSpace text with
  | '\x7d' :: rest => some ([(key, value)], rest)
  | ',' :: rest => (readFields fuel rest).map fun (fields, rest) => ((key, value) :: fields, rest)
  | _ => none

variable {fuel : Nat} {text rest t : Text} {item value : Json} {key : List JsonUnit}

theorem readItems_succ (h : readValue fuel text = some (item, rest)) :
    readItems (fuel + 1) text = continueItems fuel item rest := by
  rw [readItems, h]
  rfl

theorem skipSpace_blank (h : ∀ c ∈ t, isSpace c) (rest : Text) : skipSpace (t ++ rest) = skipSpace rest :=
  List.dropWhile_append_of_pos h

theorem skipSpace_cons {c : Char} (h : isSpace c = false) (rest : Text) : skipSpace (c :: rest) = c :: rest :=
  List.dropWhile_cons_of_neg (by simp [h])

theorem readValue_blank (h : ∀ c ∈ t, isSpace c) (rest : Text) : readValue fuel (t ++ rest) = readValue fuel rest := by
  cases fuel with
  | zero => rfl
  | succ fuel => rw [readValue, readValue, skipSpace_blank h]

theorem readItems_blank (h : ∀ c ∈ t, isSpace c) (rest : Text) : readItems fuel (t ++ rest) = readItems fuel rest := by
  cases fuel with
  | zero => rfl
  | succ fuel => rw [readItems, readItems, readValue_blank h]

theorem readFields_blank (h : ∀ c ∈ t, isSpace c) (rest : Text) :
    readFields fuel (t ++ rest) = readFields fuel rest := by
  cases fuel with
  | zero => rfl
  | succ fuel => rw [readFields, readFields, skipSpace_blank h]

theorem endsNumber_blank (h : ∀ c ∈ t, isSpace c) (hr : EndsNumber rest) : EndsNumber (t ++ rest) := by
  cases t with
  | nil => exact hr
  | cons c t =>
    rintro _ ⟨⟩
    have hc := h c List.mem_cons_self
    simp only [isSpace, Bool.or_eq_true, decide_eq_true_eq] at hc
    rcases hc with ((rfl | rfl) | rfl) | rfl <;> decide

theorem endsNumber_cons {c : Char} (h : c ∈ [',', ']', '\x7d']) (rest : Text) : EndsNumber (c :: rest) := by
  have hall : ∀ c ∈ [',', ']', '\x7d'], Numeral.isDigit c = false ∧ c ≠ '.' ∧ c ≠ 'e' ∧ c ≠ 'E' :=
    List.all_iff_forall_prop.mp (by decide)
  rintro _ ⟨⟩
  exact hall c h

theorem readValue_number (h : IsNumber t) (hr : EndsNumber rest) :
    readValue (fuel + 1) (t ++ rest) = some (.number t, rest) := by
  have hread := readNumber?_append h hr
  obtain ⟨c, u, rfl, hc⟩ := h.exists_cons
  have hm : c ∈ ['-', '0', '1', '2', '3', '4', '5', '6', '7', '8', '9'] := by
    rcases hc with rfl | hc
    · exact List.mem_cons_self
    · exact List.mem_cons_of_mem '-' (Numeral.mem_of_isDigit hc)
  simp only [List.mem_cons, List.not_mem_nil, or_false] at hm
  have hstep : readValue (fuel + 1) (c :: u ++ rest) =
      (readNumber? (c :: u ++ rest)).map fun found => (.number found.1, found.2) := by
    rcases hm with rfl | rfl | rfl | rfl | rfl | rfl | rfl | rfl | rfl | rfl | rfl <;> rfl
  rw [hstep, hread]
  rfl

theorem readValue_document (s rest : Text) :
    readValue (fuel + 1) (Quoted.document s ++ rest) = some (.str (s.map Quoted.unit), rest) := by
  rw [Quoted.document_append, readValue, skipSpace_cons (by decide)]
  simp only [Quoted.readString_document, Option.map_some]

theorem readValue_array {c : Char} {items : List Json} (ht : ∀ c ∈ t, isSpace c) (hs : isSpace c = false)
    (hc : c ≠ ']') (h : readItems fuel (c :: text) = some (items, rest)) :
    readValue (fuel + 1) ('[' :: (t ++ c :: text)) = some (.array items, rest) := by
  rw [readValue, skipSpace_cons (by decide)]
  simp only [skipSpace_blank ht, skipSpace_cons hs]
  split
  · rename_i he
    exact absurd (List.cons.inj he).1 hc
  · rw [h]
    rfl

theorem readValue_object {fields : List (List JsonUnit × Json)} (ht : ∀ c ∈ t, isSpace c)
    (h : readFields fuel ('"' :: text) = some (fields, rest)) :
    readValue (fuel + 1) ('\x7b' :: (t ++ '"' :: text)) = some (.object fields, rest) := by
  rw [readValue, skipSpace_cons (by decide)]
  simp only [skipSpace_blank ht, skipSpace_cons (show isSpace '"' = false by decide)]
  show (readFields fuel ('"' :: text)).map _ = _
  rw [h]
  rfl

theorem readFields_field (ht : ∀ c ∈ t, isSpace c) (h : readValue fuel text = some (value, rest)) (s : Text) :
    readFields (fuel + 1) (Quoted.document s ++ ':' :: (t ++ text)) =
      continueFields fuel (s.map Quoted.unit) value rest := by
  have hcolon : skipSpace (':' :: (t ++ text)) = ':' :: (t ++ text) := skipSpace_cons (by decide) _
  rw [readFields, Quoted.document_append, skipSpace_cons (by decide)]
  simp only [Quoted.readString_document, Option.bind_eq_bind, Option.bind_some, hcolon, readValue_blank ht, h]
  rfl

end Json

namespace Document

variable (l : Layout)

theorem length_pos_of_laidOutItems (level : Nat) (items : List Document) : 0 < (laidOutItems l level items).length := by
  cases items <;> simp [laidOutItems]

theorem length_pos_of_laidOutFields (level : Nat) (fields : List (String × Document)) :
    0 < (laidOutFields l level fields).length := by
  cases fields <;> simp [laidOutFields]

theorem endsNumber_laidOutItems (level : Nat) (items : List Document) (rest : Text) :
    Json.EndsNumber (laidOutItems l level items ++ rest) := by
  cases items with
  | nil =>
    rw [laidOutItems, List.append_assoc]
    exact Json.endsNumber_blank (l.gap_blank level) (Json.endsNumber_cons (by decide) rest)
  | cons item items => exact Json.endsNumber_cons (by decide) _

theorem endsNumber_laidOutFields (level : Nat) (fields : List (String × Document)) (rest : Text) :
    Json.EndsNumber (laidOutFields l level fields ++ rest) := by
  cases fields with
  | nil =>
    rw [laidOutFields, List.append_assoc]
    exact Json.endsNumber_blank (l.gap_blank level) (Json.endsNumber_cons (by decide) rest)
  | cons field fields => exact Json.endsNumber_cons (by decide) _

theorem laidOut_eq_cons (level : Nat) (d : Document) :
    ∃ c u, d.laidOut l level = c :: u ∧ Json.isSpace c = false ∧ c ≠ ']' := by
  have number {t : Text} (h : Json.IsNumber t) : ∃ c u, t = c :: u ∧ Json.isSpace c = false ∧ c ≠ ']' := by
    have hall : ∀ c ∈ Json.numberChars, Json.isSpace c = false ∧ c ≠ ']' :=
      List.all_iff_forall_prop.mp (by decide)
    obtain ⟨c, u, rfl, -⟩ := h.exists_cons
    exact ⟨c, u, rfl, hall c (h.mem_numberChars c List.mem_cons_self)⟩
  cases d with
  | null => exact ⟨'n', _, rfl, by decide, by decide⟩
  | bool b =>
    cases b with
    | true => exact ⟨'t', _, rfl, by decide, by decide⟩
    | false => exact ⟨'f', _, rfl, by decide, by decide⟩
  | int n => exact number (Json.isNumber_integerText n)
  | float x =>
    rw [laidOut]
    cases h : Value.isFinite x with
    | true => exact number (Json.isNumber_write h)
    | false =>
      rw [Value.write_of_not_finite h]
      exact ⟨'n', _, rfl, by decide, by decide⟩
  | str s => exact ⟨'"', _, rfl, by decide, by decide⟩
  | array items =>
    cases items with
    | nil => exact ⟨'[', _, rfl, by decide, by decide⟩
    | cons item items => exact ⟨'[', _, rfl, by decide, by decide⟩
  | object fields =>
    cases fields with
    | nil => exact ⟨'\x7b', _, rfl, by decide, by decide⟩
    | cons field fields => exact ⟨'\x7b', _, rfl, by decide, by decide⟩

/-- The document is read back at a level from whatever it stands before. -/
def ReadsBack (level : Nat) (d : Document) : Prop :=
  ∀ (fuel : Nat) (rest : Text), (d.laidOut l level).length < fuel → Json.EndsNumber rest →
    Json.readValue fuel (d.laidOut l level ++ rest) = some (d.json, rest)

def ItemsReadBack (level : Nat) (items : List Document) : Prop :=
  ∀ (fuel : Nat) (rest : Text) (first : Json), (laidOutItems l level items).length < fuel →
    Json.continueItems fuel first (laidOutItems l level items ++ rest) = some (first :: jsonItems items, rest)

def FieldsReadBack (level : Nat) (fields : List (String × Document)) : Prop :=
  ∀ (fuel : Nat) (rest : Text) (key : List JsonUnit) (first : Json), (laidOutFields l level fields).length < fuel →
    Json.continueFields fuel key first (laidOutFields l level fields ++ rest) =
      some ((key, first) :: jsonFields fields, rest)

section
variable {l} {level : Nat} {item value : Document} {items : List Document} {fields : List (String × Document)}

theorem readItems_row (fuel : Nat) (rest : Text) (hitem : ReadsBack l (level + 1) item)
    (hitems : ItemsReadBack l level items)
    (h : (item.laidOut l (level + 1) ++ laidOutItems l level items).length < fuel) :
    Json.readItems fuel (item.laidOut l (level + 1) ++ (laidOutItems l level items ++ rest)) =
      some (item.json :: jsonItems items, rest) := by
  obtain ⟨c, u, hc, -, -⟩ := laidOut_eq_cons l (level + 1) item
  have hlength : 0 < (item.laidOut l (level + 1)).length := by simp [hc]
  have hpos := length_pos_of_laidOutItems l level items
  rw [List.length_append] at h
  obtain ⟨fuel, rfl⟩ : ∃ n, fuel = n + 1 := ⟨fuel - 1, by omega⟩
  have hread := hitem fuel (laidOutItems l level items ++ rest) (by omega) (endsNumber_laidOutItems l level items rest)
  exact (Json.readItems_succ hread).trans (hitems fuel rest item.json (by omega))

theorem readFields_row (fuel : Nat) (key rest : Text) (hvalue : ReadsBack l (level + 1) value)
    (hfields : FieldsReadBack l level fields)
    (h : (value.laidOut l (level + 1) ++ laidOutFields l level fields).length < fuel) :
    Json.readFields fuel (Quoted.document key ++ ':' :: (l.afterColon ++ (value.laidOut l (level + 1) ++
        (laidOutFields l level fields ++ rest)))) =
      some ((key.map Quoted.unit, value.json) :: jsonFields fields, rest) := by
  obtain ⟨c, u, hc, -, -⟩ := laidOut_eq_cons l (level + 1) value
  have hlength : 0 < (value.laidOut l (level + 1)).length := by simp [hc]
  have hpos := length_pos_of_laidOutFields l level fields
  rw [List.length_append] at h
  obtain ⟨fuel, rfl⟩ : ∃ n, fuel = n + 1 := ⟨fuel - 1, by omega⟩
  have hread := hvalue fuel (laidOutFields l level fields ++ rest) (by omega)
    (endsNumber_laidOutFields l level fields rest)
  exact (Json.readFields_field l.afterColon_blank hread key).trans (hfields fuel rest _ value.json (by omega))

end

mutual
theorem readsBack : ∀ (d : Document) (level : Nat), ReadsBack l level d
  | _, _, 0, _, h, _ => absurd h (Nat.not_lt_zero _)
  | .null, _, _ + 1, _, _, _ | .bool true, _, _ + 1, _, _, _ | .bool false, _, _ + 1, _, _, _
  | .array [], _, _ + 1, _, _, _ | .object [], _, _ + 1, _, _, _ => rfl
  | .int n, _, _ + 1, _, _, hr => Json.readValue_number (Json.isNumber_integerText n) hr
  | .float x, _, _ + 1, _, _, hr => by
    rw [laidOut, json]
    split
    · exact Json.readValue_number (Json.isNumber_write ‹_›) hr
    · rename_i h
      rw [Value.write_of_not_finite (Bool.not_eq_true _ ▸ h)]
      rfl
  | .str s, _, _ + 1, rest, _, _ => Json.readValue_document s.toList rest
  | .array (item :: items), level, fuel + 1, rest, h, _ => by
    have hrow := readItems_row fuel rest (readsBack item (level + 1)) (itemsReadBack items level)
      (by simp [laidOut] at h ⊢; omega)
    obtain ⟨c, u, hc, hs, hne⟩ := laidOut_eq_cons l (level + 1) item
    rw [hc] at hrow
    simp only [laidOut, hc, List.cons_append, List.append_assoc]
    exact Json.readValue_array (l.gap_blank _) hs hne hrow
  | .object ((key, value) :: fields), level, fuel + 1, rest, h, _ => by
    have hrow := readFields_row fuel key.toList rest (readsBack value (level + 1)) (fieldsReadBack fields level)
      (by simp [laidOut] at h ⊢; omega)
    simp only [laidOut, Quoted.document, List.cons_append, List.append_assoc] at hrow ⊢
    exact Json.readValue_object (l.gap_blank _) hrow

theorem itemsReadBack : ∀ (items : List Document) (level : Nat), ItemsReadBack l level items
  | _, _, 0, _, _, h => absurd h (Nat.not_lt_zero _)
  | [], level, fuel + 1, rest, first, _ => by
    rw [laidOutItems, List.append_assoc, Json.continueItems, Json.skipSpace_blank (l.gap_blank _)]
    rfl
  | item :: items, level, fuel + 1, rest, first, h => by
    have hrow := readItems_row (fuel + 1) rest (readsBack item (level + 1)) (itemsReadBack items level)
      (by simp [laidOutItems] at h ⊢; omega)
    simp only [laidOutItems, List.cons_append, List.append_assoc]
    rw [← Json.readItems_blank (l.gap_blank (level + 1))] at hrow
    rw [Json.continueItems, Json.skipSpace_cons (by decide)]
    show (Json.readItems (fuel + 1) _).map _ = _
    rw [hrow]
    rfl

theorem fieldsReadBack : ∀ (fields : List (String × Document)) (level : Nat), FieldsReadBack l level fields
  | _, _, 0, _, _, _, h => absurd h (Nat.not_lt_zero _)
  | [], level, fuel + 1, rest, key, first, _ => by
    rw [laidOutFields, List.append_assoc, Json.continueFields, Json.skipSpace_blank (l.gap_blank _)]
    rfl
  | (key', value) :: fields, level, fuel + 1, rest, key, first, h => by
    have hrow := readFields_row (fuel + 1) key'.toList rest (readsBack value (level + 1)) (fieldsReadBack fields level)
      (by simp [laidOutFields] at h ⊢; omega)
    simp only [laidOutFields, List.cons_append, List.append_assoc]
    rw [← Json.readFields_blank (l.gap_blank (level + 1))] at hrow
    rw [Json.continueFields, Json.skipSpace_cons (by decide)]
    show (Json.readFields (fuel + 1) _).map _ = _
    rw [hrow]
    rfl
end

theorem ofText?_laidOut (d : Document) (level : Nat) : Json.ofText? (d.laidOut l level) = some d.json := by
  have hread := readsBack l d level _ [] (Nat.lt_succ_self _) (by simp [Json.EndsNumber])
  rw [List.append_nil] at hread
  rw [Json.ofText?, hread]
  rfl

end Document

/-- Both written forms of a value are read as one tree, the one that its document denotes. They differ in blanks outside
strings only, and the form on one line has none of these. -/
theorem written_forms_agree (v : Value) :
    Json.ofText? v.pretty = some v.toDocument.json ∧ Json.ofText? v.toDocument.compact = some v.toDocument.json ∧
      Json.unspaced false v.pretty = v.toDocument.compact ∧
        Json.unspaced false v.toDocument.compact = v.toDocument.compact := by
  have hpretty : v.toDocument.laidOut .overLines 0 = v.pretty := Value.laidOut_overLines v 0
  have hcompact : v.toDocument.laidOut .oneLine 0 = v.toDocument.compact := Document.laidOut_oneLine _ 0
  have unspaced (l : Layout) : Json.unspaced false (v.toDocument.laidOut l 0) = v.toDocument.compact := by
    have h := Document.unspaced_laidOut l v.toDocument 0 []
    simpa [Json.unspaced] using h
  refine ⟨?_, ?_, ?_, ?_⟩
  · rw [← hpretty, Document.ofText?_laidOut]
  · rw [← hcompact, Document.ofText?_laidOut]
  · rw [← hpretty, unspaced]
  · have h := unspaced .oneLine
    rwa [hcompact] at h

end FurthestMatch
