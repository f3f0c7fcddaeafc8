import FurthestMatch.Proofs.DocumentNumbers
import FurthestMatch.Proofs.Escaping

/-!
# Documents with blanks between their parts

A layout says which blanks stand between the parts of a document. On one line there are none, and over several lines a
value is written as the document that stands for it. Whatever the layout, the text without the blanks outside its
strings is the one on one line.
-/

namespace FurthestMatch

/-! ## Blanks outside strings -/

theorem Quoted.document_append (t rest : Text) : document t ++ rest = '"' :: (documentBody t ++ '"' :: rest) := by
  simp [document]

namespace Json

/-- A text without the blanks outside its strings, where it begins inside of one or not. -/
def unspaced : (quoted : Bool) → Text → Text
  | _, [] => []
  | false, c :: rest => if isSpace c then unspaced false rest else c :: unspaced (c == '"') rest
  | true, '\\' :: c :: rest => '\\' :: c :: unspaced true rest
  | true, c :: rest => c :: unspaced (c != '"') rest

def IsSolid (c : Char) : Prop :=
  isSpace c = false ∧ c ≠ '"'

instance : DecidablePred IsSolid := fun c =>
  inferInstanceAs (Decidable (isSpace c = false ∧ c ≠ '"'))

theorem unspaced_blank {t : Text} (h : ∀ c ∈ t, isSpace c) (rest : Text) :
    unspaced false (t ++ rest) = unspaced false rest := by
  induction t with
  | nil => rfl
  | cons c t ih =>
    rw [List.cons_append, unspaced, if_pos (h c List.mem_cons_self)]
    exact ih fun d hd => h d (List.mem_cons_of_mem c hd)

theorem unspaced_cons {c : Char} (h : IsSolid c) (rest : Text) :
    unspaced false (c :: rest) = c :: unspaced false rest := by
  have hc : (c == '"') = false := beq_eq_false_iff_ne.mpr h.2
  rw [unspaced, if_neg (by simp [h.1]), hc]

theorem unspaced_solid {t : Text} (h : ∀ c ∈ t, IsSolid c) (rest : Text) :
    unspaced false (t ++ rest) = t ++ unspaced false rest := by
  induction t with
  | nil => rfl
  | cons c t ih =>
    rw [List.cons_append, unspaced_cons (h c List.mem_cons_self), ih fun d hd => h d (List.mem_cons_of_mem c hd)]
    rfl

theorem unspaced_plain {c : Char} (hq : c ≠ '"') (hb : c ≠ '\\') (rest : Text) :
    unspaced true (c :: rest) = c :: unspaced true rest := by
  have hc : (c != '"') = true := bne_iff_ne.mpr hq
  rw [unspaced, hc]
  exact fun _ _ he _ => hb he

theorem unspaced_escape (c : Char) (rest : Text) :
    unspaced true (Quoted.escapeDocument c ++ rest) = Quoted.escapeDocument c ++ unspaced true rest := by
  obtain hc | hc := Quoted.special_or_unescaped c
  · obtain ⟨d, u, he, -, hu⟩ := Quoted.exists_escape hc
    have hplain : unspaced true (u ++ rest) = u ++ unspaced true rest := by
      clear he
      induction u with
      | nil => rfl
      | cons x u ih =>
        obtain ⟨hq, hb⟩ := hu x List.mem_cons_self
        rw [List.cons_append, unspaced_plain hq hb, ih fun y hy => hu y (List.mem_cons_of_mem x hy)]
        rfl
    rw [he, List.cons_append, List.cons_append, unspaced, hplain]
    rfl
  · rw [Quoted.escapeDocument_of_unescaped hc]
    exact unspaced_plain hc.1 hc.2.1 rest

theorem unspaced_document (t rest : Text) :
    unspaced false (Quoted.document t ++ rest) = Quoted.document t ++ unspaced false rest := by
  have hbody : unspaced true (Quoted.documentBody t ++ '"' :: rest) =
      Quoted.documentBody t ++ '"' :: unspaced false rest := by
    induction t with
    | nil => rfl
    | cons c t ih =>
      rw [Quoted.documentBody_cons, List.append_assoc, unspaced_escape, ih, List.append_assoc]
  rw [Quoted.document_append, Quoted.document_append, unspaced, if_neg (by decide)]
  exact congrArg ('"' :: ·) hbody

end Json

/-! ## Layouts -/

/-- The blanks between the parts of a document: before an item, a field or a closing bracket at a level of nesting, and
after a colon. -/
structure Layout where
  gap : (level : Nat) → Text
  afterColon : Text
  gap_blank : ∀ level, ∀ c ∈ gap level, Json.isSpace c
  afterColon_blank : ∀ c ∈ afterColon, Json.isSpace c

namespace Layout

def oneLine : Layout where
  gap _ := []
  afterColon := []
  gap_blank _ _ hc := absurd hc List.not_mem_nil
  afterColon_blank _ hc := absurd hc List.not_mem_nil

def overLines : Layout where
  gap := Value.lineBreak
  afterColon := [' ']
  gap_blank level c hc := by
    rcases List.mem_cons.mp hc with rfl | hc
    · rfl
    · rw [List.eq_of_mem_replicate hc]
      rfl
  afterColon_blank c hc := by
    rw [List.mem_singleton.mp hc]
    rfl

@[simp] theorem gap_oneLine (level : Nat) : oneLine.gap level = [] := rfl

@[simp] theorem afterColon_oneLine : oneLine.afterColon = [] := rfl

@[simp] theorem gap_overLines (level : Nat) : overLines.gap level = Value.lineBreak level := rfl

@[simp] theorem afterColon_overLines : overLines.afterColon = [' '] := rfl

end Layout

namespace Document

mutual
def laidOut (l : Layout) (level : Nat) : Document → Text
  | .null => "null".toList
  | .bool true => "true".toList
  | .bool false => "false".toList
  | .int n => integerText n
  | .float x => Decimal.documentNotation.write x
  | .str s => Quoted.document s.toList
  | .array [] => "[]".toList
  | .array (item :: items) => '[' :: (l.gap (level + 1) ++ (laidOut l (level + 1) item ++ laidOutItems l level items))
  | .object [] => ['\x7b', '\x7d']
  | .object ((key, value) :: fields) =>
    '\x7b' :: (l.gap (level + 1) ++ (Quoted.document key.toList ++ ':' :: (l.afterColon ++
      (laidOut l (level + 1) value ++ laidOutFields l level fields))))

def laidOutItems (l : Layout) (level : Nat) : List Document → Text
  | [] => l.gap level ++ [']']
  | item :: items => ',' :: (l.gap (level + 1) ++ (laidOut l (level + 1) item ++ laidOutItems l level items))

def laidOutFields (l : Layout) (level : Nat) : List (String × Document) → Text
  | [] => l.gap level ++ ['\x7d']
  | (key, value) :: fields =>
    ',' :: (l.gap (level + 1) ++ (Quoted.document key.toList ++ ':' :: (l.afterColon ++
      (laidOut l (level + 1) value ++ laidOutFields l level fields))))
end

mutual
theorem laidOut_oneLine : ∀ (d : Document) (level : Nat), d.laidOut .oneLine level = d.compact
  | .null, _ | .bool true, _ | .bool false, _ | .int _, _ | .float _, _ | .str _, _ | .array [], _
  | .object [], _ => rfl
  | .array (item :: items), level => by
    simp [laidOut, compact, laidOut_oneLine item, laidOutItems_oneLine items]
  | .object ((key, value) :: fields), level => by
    simp [laidOut, compact, laidOut_oneLine value, laidOutFields_oneLine fields]

theorem laidOutItems_oneLine : ∀ (items : List Document) (level : Nat),
    laidOutItems .oneLine level items = compactItems items
  | [], _ => rfl
  | item :: items, level => by
    simp [laidOutItems, compactItems, laidOut_oneLine item, laidOutItems_oneLine items]

theorem laidOutFields_oneLine : ∀ (fields : List (String × Document)) (level : Nat),
    laidOutFields .oneLine level fields = compactFields fields
  | [], _ => rfl
  | (key, value) :: fields, level => by
    simp [laidOutFields, compactFields, laidOut_oneLine value, laidOutFields_oneLine fields]
end

end Document

namespace Value

theorem write_of_not_finite {x : Float} (h : isFinite x = false) :
    Decimal.documentNotation.write x = "null".toList := by
  unfold isFinite at h
  rw [Decimal.Notation.write]
  cases hx : Binary64.decode x with
  | nan => rfl
  | infinite negative => cases negative <;> rfl
  | finite => rw [hx] at h; cases h

mutual
/-- What is written over several lines is the document that stands for the value. -/
theorem laidOut_overLines : ∀ (v : Value) (level : Nat), v.toDocument.laidOut .overLines level = v.prettyAt level
  | .null, _ | .bool true, _ | .bool false, _ | .int _, _ | .str _, _ | .list [], _ | .object [], _ => rfl
  | .bigInt n, _ => by simp [toDocument, Document.laidOut, prettyAt]
  | .float x, _ => by
    rw [toDocument, prettyAt]
    split
    · rfl
    · rename_i h
      rw [write_of_not_finite (Bool.not_eq_true _ ▸ h)]
      rfl
  | .list (item :: items), level => by
    simp [toDocument, toDocuments, Document.laidOut, prettyAt, laidOut_overLines item, laidOutItems_overLines items]
  | .object ((key, value) :: fields), level => by
    simp [toDocument, toDocumentFields, Document.laidOut, prettyAt, laidOut_overLines value,
      laidOutFields_overLines fields]

theorem laidOutItems_overLines : ∀ (items : List Value) (level : Nat),
    Document.laidOutItems .overLines level (toDocuments items) = prettyItems level items
  | [], _ => rfl
  | item :: items, level => by
    simp [toDocuments, Document.laidOutItems, prettyItems, laidOut_overLines item, laidOutItems_overLines items]

theorem laidOutFields_overLines : ∀ (fields : List (String × Value)) (level : Nat),
    Document.laidOutFields .overLines level (toDocumentFields fields) = prettyFields level fields
  | [], _ => rfl
  | (key, value) :: fields, level => by
    simp [toDocumentFields, Document.laidOutFields, prettyFields, laidOut_overLines value,
      laidOutFields_overLines fields]
end

end Value

namespace Document

theorem solid_number {t : Text} (h : Json.IsNumber t) : ∀ c ∈ t, Json.IsSolid c := by
  have hall : ∀ c ∈ Json.numberChars, Json.IsSolid c := List.all_iff_forall_prop.mp (by decide)
  exact fun c hc => hall c (h.mem_numberChars c hc)

theorem solid_write (x : Float) : ∀ c ∈ Decimal.documentNotation.write x, Json.IsSolid c := by
  cases h : Value.isFinite x with
  | true => exact solid_number (Json.isNumber_write h)
  | false =>
    rw [Value.write_of_not_finite h]
    exact List.all_iff_forall_prop.mp (by decide)

variable (l : Layout)

mutual
/-- Without blanks outside strings every layout is the one on one line. -/
theorem unspaced_laidOut : ∀ (d : Document) (level : Nat) (rest : Text),
    Json.unspaced false (d.laidOut l level ++ rest) = d.compact ++ Json.unspaced false rest
  | .null, _, rest | .bool true, _, rest | .bool false, _, rest | .array [], _, rest | .object [], _, rest => by
    rw [laidOut]
    exact Json.unspaced_solid (List.all_iff_forall_prop.mp (by decide)) rest
  | .int n, _, _ => Json.unspaced_solid (solid_number (Json.isNumber_integerText n)) _
  | .float x, _, _ => Json.unspaced_solid (solid_write x) _
  | .str s, _, _ => Json.unspaced_document s.toList _
  | .array (item :: items), level, rest => by
    simp only [laidOut, compact, List.cons_append, List.append_assoc,
      Json.unspaced_cons (show Json.IsSolid '[' by decide), Json.unspaced_blank (l.gap_blank _), unspaced_laidOut item,
      unspaced_laidOutItems items]
  | .object ((key, value) :: fields), level, rest => by
    simp only [laidOut, compact, List.cons_append, List.append_assoc,
      Json.unspaced_cons (show Json.IsSolid '\x7b' by decide), Json.unspaced_cons (show Json.IsSolid ':' by decide),
      Json.unspaced_blank (l.gap_blank _), Json.unspaced_blank l.afterColon_blank, Json.unspaced_document,
      unspaced_laidOut value, unspaced_laidOutFields fields]

theorem unspaced_laidOutItems : ∀ (items : List Document) (level : Nat) (rest : Text),
    Json.unspaced false (laidOutItems l level items ++ rest) = compactItems items ++ Json.unspaced false rest
  | [], level, rest => by
    simp only [laidOutItems, compactItems, List.append_assoc, Json.unspaced_blank (l.gap_blank _)]
    exact Json.unspaced_cons (by decide) rest
  | item :: items, level, rest => by
    simp only [laidOutItems, compactItems, List.cons_append, List.append_assoc,
      Json.unspaced_cons (show Json.IsSolid ',' by decide), Json.unspaced_blank (l.gap_blank _), unspaced_laidOut item,
      unspaced_laidOutItems items]

theorem unspaced_laidOutFields : ∀ (fields : List (String × Document)) (level : Nat) (rest : Text),
    Json.unspaced false (laidOutFields l level fields ++ rest) = compactFields fields ++ Json.unspaced false rest
  | [], level, rest => by
    simp only [laidOutFields, compactFields, List.append_assoc, Json.unspaced_blank (l.gap_blank _)]
    exact Json.unspaced_cons (by decide) rest
  | (key, value) :: fields, level, rest => by
    simp only [laidOutFields, compactFields, List.cons_append, List.append_assoc,
      Json.unspaced_cons (show Json.IsSolid ',' by decide), Json.unspaced_cons (show Json.IsSolid ':' by decide),
      Json.unspaced_blank (l.gap_blank _), Json.unspaced_blank l.afterColon_blank, Json.unspaced_document,
      unspaced_laidOut value, unspaced_laidOutFields fields]
end

end Document

end FurthestMatch
