import FurthestMatch.Proofs.Leaves
import FurthestMatch.Proofs.Precedence

/-!
# The language of arithmetic

`Expression` says which texts are expressions and what they come to, without a word about how they are read; `Infix`
says only which texts they are. The reader of the grammar yields the row of an expression: it is sound, and complete before whatever may follow an expression.
-/

namespace FurthestMatch.Arithmetic

open Regex (StopsAt)

inductive Chain {α : Type} (L : Text → α → Prop) : Text → List (Entry α) → Prop
  | one {t a} (h : L t a) : Chain L t [.number a]
  | more {t w w' u a es} (h : L t a) (hw : Blanks w) (op : Operator) (hw' : Blanks w') (hr : Chain L u es) :
      Chain L (t ++ (w ++ (op.symbol.toList ++ (w' ++ u)))) (.number a :: .operator op :: es)

/-- The texts of operands: numbers as they are written, and expressions in parentheses with their values. -/
inductive Operand : Text → Float → Prop
  | number {t x} (h : Numeral.IsDecimal t) (hx : Numeral.float? t = some x) : Operand t x
  | group {w t w'} {tree : Tree Float} (hw : Blanks w) (h : Chain Operand t tree.entries) (ht : tree.IsSum)
      (hw' : Blanks w') : Operand ('(' :: (w ++ (t ++ (w' ++ [')'])))) (tree.value Operator.apply)

/-- The texts of expressions, each with its value. -/
def Expression (t : Text) (v : Value) : Prop :=
  ∃ tree : Tree Float, tree.IsSum ∧ Chain Operand t tree.entries ∧ v = .float (tree.value Operator.apply)

inductive Term : Text → Unit → Prop
  | number {t} (h : Numeral.IsDecimal t) : Term t ()
  | group {w t w' es} (hw : Blanks w) (h : Chain Term t es) (hw' : Blanks w') :
      Term ('(' :: (w ++ (t ++ (w' ++ [')'])))) ()

/-- The texts of expressions, whatever their values: terms with operators between them, in no order of precedence. -/
def Infix (t : Text) : Prop :=
  ∃ es, Chain Term t es

section
variable {α β : Type} {L : Text → α → Prop} {M : Text → β → Prop} {t u : Text} {es fs : List (Entry α)}

theorem Chain.alternates (h : Chain L t es) : Alternates es := by
  induction h with
  | one => exact .one _
  | more _ _ op _ _ ih => exact .more _ op ih

theorem Chain.append {w w' : Text} (h : Chain L t es) (hw : Blanks w) (op : Operator) (hw' : Blanks w')
    (h' : Chain L u fs) : Chain L (t ++ (w ++ (op.symbol.toList ++ (w' ++ u)))) (es ++ .operator op :: fs) := by
  induction h with
  | one h => exact .more h hw op hw' h'
  | more h hv op' hv' _ ih =>
    have hr := Chain.more h hv op' hv' ih
    simpa only [List.append_assoc, List.cons_append] using hr

theorem Chain.lift (h : Chain L t es) (hL : ∀ u a, u.length ≤ t.length → L u a → ∃ b, M u b) :
    ∃ fs, Chain M t fs := by
  induction h with
  | one h =>
    obtain ⟨b, hb⟩ := hL _ _ (Nat.le_refl _) h
    exact ⟨_, .one hb⟩
  | @more t w w' u a es h hw op hw' _ ih =>
    obtain ⟨b, hb⟩ := hL t a (by simp) h
    obtain ⟨fs, hfs⟩ := ih fun v c hv => hL v c (by simp only [List.length_append]; omega)
    exact ⟨_, .more hb hw op hw' hfs⟩

end

theorem length_lt_group (w t w' : Text) : t.length < ('(' :: (w ++ (t ++ (w' ++ [')'])))).length := by
  simp only [List.length_cons, List.length_append]
  omega

theorem Operand.term {t : Text} {x : Float} (h : Operand t x) : Term t () := by
  cases h with
  | number h => exact .number h
  | @group w t w' _ hw h _ hw' =>
    have hl := length_lt_group w t w'
    obtain ⟨_, hc⟩ := h.lift fun u x hu hx => ⟨(), hx.term⟩
    exact .group hw hc hw'
termination_by t.length
decreasing_by exact Nat.lt_of_le_of_lt hu hl

/-- Every term has a value: its numbers are floats, and each of its rows is that of a tree. -/
theorem Term.operand {t : Text} {a : Unit} (h : Term t a) : ∃ x, Operand t x := by
  cases h with
  | number h =>
    obtain ⟨x, hx⟩ := Numeral.float?_of_isExponential h.isExponential
    exact ⟨x, .number h hx⟩
  | @group w t w' _ hw h hw' =>
    have hl := length_lt_group w t w'
    obtain ⟨es, hc⟩ := h.lift fun u a hu ha => ha.operand
    obtain ⟨tree, ht, rfl⟩ := Tree.exists_of_alternates hc.alternates
    exact ⟨_, .group hw hc ht hw'⟩
termination_by t.length
decreasing_by exact Nat.lt_of_le_of_lt hu hl

theorem exists_expression {t : Text} : (∃ v, Expression t v) ↔ Infix t := by
  constructor
  · rintro ⟨_, tree, -, hc, -⟩
    exact hc.lift fun u x _ hx => ⟨(), hx.term⟩
  · rintro ⟨es, h⟩
    obtain ⟨fs, hc⟩ := h.lift fun u a _ ha => ha.operand
    obtain ⟨tree, ht, rfl⟩ := Tree.exists_of_alternates hc.alternates
    exact ⟨_, tree, ht, hc, rfl⟩

/-! ## Readers -/

def entryValue : Entry Float → Value
  | .number x => .float x
  | .operator op => .str op.symbol

def spaceReader : Reader :=
  Leaf.whitespaceOpt.reader

def groupReader (row : Reader) : Reader :=
  .map (fun parts => .list [rowValue (parts.nth 2)])
    (.sequence [.literal "(", spaceReader, row, spaceReader, .literal ")"])

def termReader (row : Reader) : Reader :=
  .choice [.map (fun n => .list [n]) Leaf.number.reader, groupReader row]

def operatorReader : Reader :=
  .choice (Operator.all.map fun op => .literal op.symbol)

def operationReader (row : Reader) : Reader :=
  .map (fun parts => .list (parts.nth 1 :: (parts.nth 3).items))
    (.sequence [spaceReader, operatorReader, spaceReader, row])

def rowReader (row : Reader) : Reader :=
  .choice [.map flatten (.sequence [termReader row, .map flatten (.times (operationReader row) 1)]), termReader row]

def rows : (depth : Nat) → Reader
  | 0 => fun _ => none
  | depth + 1 => rowReader (rows depth)

def IsRow (l : Text) (v : Value) : Prop :=
  ∃ es, Chain Operand l es ∧ v = .list (es.map entryValue)

/-! ## Values of rows -/

theorem entry?_entryValue (e : Entry Float) : entry? (entryValue e) = some e := by
  cases e with
  | number => rfl
  | operator op => cases op <;> rfl

theorem rowValue_entries {tree : Tree Float} (h : tree.IsSum) :
    rowValue (.list (tree.entries.map entryValue)) = .float (tree.value Operator.apply) := by
  have hentries : (tree.entries.map entryValue).filterMap entry? = tree.entries := by
    rw [List.filterMap_map, Function.comp_def]
    simp only [entry?_entryValue, List.filterMap_some]
  show evaluate (tree.entries.map entryValue) = _
  rw [evaluate, hentries, Tree.reduce?_entries Operator.apply h]
  rfl

theorem IsRow.expression {l : Text} {v : Value} (h : IsRow l v) : Expression l (rowValue v) := by
  obtain ⟨es, hc, rfl⟩ := h
  obtain ⟨tree, ht, rfl⟩ := Tree.exists_of_alternates hc.alternates
  exact ⟨tree, ht, hc, rowValue_entries ht⟩

/-! ## Soundness -/

theorem sound_operator : operatorReader.Sound fun l v => ∃ op : Operator, l = op.symbol.toList ∧ v = .str op.symbol := by
  refine Reader.sound_choice fun f hf => ?_
  obtain ⟨op, -, rfl⟩ := List.mem_map.mp hf
  intro t v rest h
  obtain ⟨rfl, rfl⟩ := Reader.literal_eq_some.mp h
  exact ⟨_, rfl, op, rfl, rfl⟩

def IsOperation (l : Text) (v : Value) : Prop :=
  ∃ w w' u es, ∃ op : Operator, Blanks w ∧ Blanks w' ∧ Chain Operand u es ∧
    l = w ++ (op.symbol.toList ++ (w' ++ u)) ∧ v = .list ((Entry.operator op :: es).map entryValue)

section
variable {row : Reader} (h : row.Sound IsRow)
include h

theorem sound_group : (groupReader row).Sound fun l v => ∃ x, Operand l x ∧ v = .list [.float x] := by
  intro t v rest hr
  obtain ⟨_, _ | ⟨ho, _ | ⟨hs, _ | ⟨hrow, _ | ⟨hs', _ | ⟨hc, ⟨⟩⟩⟩⟩⟩⟩, rfl⟩ := Reader.map_sequence_eq_some.mp hr
  obtain ⟨rfl, rfl⟩ := Reader.literal_eq_some.mp ho
  obtain ⟨rfl, rfl⟩ := Reader.literal_eq_some.mp hc
  obtain ⟨w, rfl, hw⟩ := Reader.sound_blanks _ _ _ hs
  obtain ⟨u, rfl, hu⟩ := h _ _ _ hrow
  obtain ⟨w', rfl, hw'⟩ := Reader.sound_blanks _ _ _ hs'
  obtain ⟨tree, ht, hc, hv⟩ := hu.expression
  refine ⟨'(' :: (w ++ (u ++ (w' ++ [')']))), by simp, _, .group hw hc ht hw', ?_⟩
  exact congrArg (fun v => Value.list [v]) hv

theorem sound_term : (termReader row).Sound fun l v => ∃ x, Operand l x ∧ v = .list [.float x] := by
  refine Reader.sound_choice (List.forall_mem_cons.mpr ⟨fun t v rest hr => ?_, List.forall_mem_singleton.mpr (sound_group h)⟩)
  obtain ⟨_, hn, rfl⟩ := Reader.map_eq_some.mp hr
  obtain ⟨l, rfl, hl, x, hx, rfl⟩ := Reader.sound_number _ _ _ hn
  exact ⟨l, rfl, x, .number hl hx, rfl⟩

theorem sound_operation : (operationReader row).Sound IsOperation := by
  intro t v rest hr
  obtain ⟨_, _ | ⟨hs, _ | ⟨ho, _ | ⟨hs', _ | ⟨hrow, ⟨⟩⟩⟩⟩⟩, rfl⟩ := Reader.map_sequence_eq_some.mp hr
  obtain ⟨w, rfl, hw⟩ := Reader.sound_blanks _ _ _ hs
  obtain ⟨_, rfl, op, rfl, rfl⟩ := sound_operator _ _ _ ho
  obtain ⟨w', rfl, hw'⟩ := Reader.sound_blanks _ _ _ hs'
  obtain ⟨u, rfl, es, hc, rfl⟩ := h _ _ _ hrow
  exact ⟨_, by simp only [List.append_assoc], w, w', u, es, op, hw, hw', hc, rfl, rfl⟩

omit h in
theorem Chain.many {l : Text} {vs : List Value} (hm : Many IsOperation l vs) : ∀ {t : Text} {es : List (Entry Float)},
    Chain Operand t es → ∃ fs, Chain Operand (t ++ l) (es ++ fs) ∧ vs.flatMap Value.items = fs.map entryValue := by
  induction hm with
  | nil =>
    intro t es hc
    exact ⟨[], by rwa [List.append_nil, List.append_nil], rfl⟩
  | cons ho _ ih =>
    intro t es hc
    obtain ⟨w, w', u, es', op, hw, hw', hu, rfl, rfl⟩ := ho
    obtain ⟨fs, hall, hvs⟩ := ih (hc.append hw op hw' hu)
    refine ⟨.operator op :: es' ++ fs, by simpa only [List.append_assoc] using hall, ?_⟩
    rw [List.flatMap_cons, hvs, List.map_append]
    rfl

theorem sound_row : (rowReader row).Sound IsRow := by
  refine Reader.sound_choice (List.forall_mem_cons.mpr ⟨?_, List.forall_mem_singleton.mpr ?_⟩)
  · intro t v rest hr
    obtain ⟨_, _ | ⟨hterm, _ | ⟨hops, ⟨⟩⟩⟩, rfl⟩ := Reader.map_sequence_eq_some.mp hr
    obtain ⟨_, htimes, rfl⟩ := Reader.map_eq_some.mp hops
    obtain ⟨u, rfl, x, hx, rfl⟩ := sound_term h _ _ _ hterm
    rw [Reader.times] at htimes
    split at htimes
    · cases htimes
    cases htimes
    obtain ⟨l, hl, hm⟩ := Reader.sound_rounds (sound_operation h) _ _
    obtain ⟨fs, hc, hvs⟩ := Chain.many hm (.one hx)
    refine ⟨u ++ l, by rw [List.append_assoc, ← hl], _, hc, ?_⟩
    simp [flatten, Value.items, entryValue, hvs]
  · refine (sound_term h).mono ?_
    rintro l _ ⟨x, hx, rfl⟩
    exact ⟨_, .one hx, rfl⟩

end

theorem sound_rows : ∀ depth, (rows depth).Sound IsRow
  | 0 => nofun
  | depth + 1 => sound_row (sound_rows depth)

/-! ## Where operands start and end -/

def AfterOperand (rest : Text) : Prop :=
  ∀ c ∈ rest.head?, isBlank c ∨ c ∈ ['^', '*', '/', '+', '-', ')']

def AfterRow (rest : Text) : Prop :=
  ∃ w x, Blanks w ∧ rest = w ++ x ∧ ∀ c ∈ x.head?, c = ')'

theorem afterOperand_append {w x : Text} (hw : Blanks w) (hx : ∀ c ∈ x.head?, c ∈ ['^', '*', '/', '+', '-', ')']) :
    AfterOperand (w ++ x) := by
  cases w with
  | nil => exact fun c hc => .inr (hx c hc)
  | cons d w =>
    rintro _ ⟨⟩
    exact .inl (hw d List.mem_cons_self)

theorem AfterRow.afterOperand {rest : Text} (h : AfterRow rest) : AfterOperand rest := by
  obtain ⟨w, x, hw, rfl, hx⟩ := h
  refine afterOperand_append hw fun c hc => ?_
  rw [hx c hc]
  decide

theorem mem_symbols (op : Operator) (rest : Text) : ∃ c, op.symbol.toList ++ rest = c :: rest ∧
    isBlank c = false ∧ c ∈ ['^', '*', '/', '+', '-', ')'] ∧ c ≠ ')' := by
  cases op <;> exact ⟨_, rfl, by decide, by decide, by decide⟩

theorem AfterOperand.endsNumber {rest : Text} (h : AfterOperand rest) : Regex.EndsNumber rest := by
  have stops : ∀ s : CharSet, (∀ c, s.contains c = true → Numeral.IsFigure c) → StopsAt s rest := by
    intro s hs c hc
    refine Bool.eq_false_iff.mpr fun hm => ?_
    have hfigure := (hs c hm).mem
    have hno : ∀ d ∈ ['0', '1', '2', '3', '4', '5', '6', '7', '8', '9', '.'],
        isBlank d = false ∧ d ∉ ['^', '*', '/', '+', '-', ')'] :=
      List.all_iff_forall_prop.mp (by decide)
    rcases h c hc with hb | hm
    · exact absurd hb (by simp [(hno c hfigure).1])
    · exact (hno c hfigure).2 hm
  exact ⟨stops _ fun c hc => .inl (Regex.contains_digits.symm.trans hc), stops _ fun c hc => .inr (Regex.contains_single.mp hc)⟩

theorem Operand.stopsAt {t : Text} {x : Float} (h : Operand t x) (rest : Text) : StopsAt .blank (t ++ rest) := by
  cases h with
  | number h =>
    obtain ⟨c, u, rfl, hc⟩ := h.isExponential.starts
    have hm : ∀ d ∈ ['0', '1', '2', '3', '4', '5', '6', '7', '8', '9', '.', '-', '+'], isBlank d = false :=
      List.all_iff_forall_prop.mp (by decide)
    exact Regex.stopsAt_cons (hm c hc.mem)
  | group => exact Regex.stopsAt_cons (by decide)

theorem Chain.stopsAt {t : Text} {es : List (Entry Float)} (h : Chain Operand t es) (rest : Text) :
    StopsAt .blank (t ++ rest) := by
  cases h with
  | one h => exact h.stopsAt rest
  | more h =>
    rw [List.append_assoc]
    exact h.stopsAt _

/-! ## Completeness -/

theorem operator_reads (op : Operator) (rest : Text) :
    operatorReader (op.symbol.toList ++ rest) = some (.str op.symbol, rest) := by
  cases op <;> rfl

section
variable {row : Reader} {depth : Nat} (h : row.Complete (fun l v => l.length < depth ∧ IsRow l v) AfterRow)
include h

theorem complete_term : (termReader row).Complete (fun l v =>
    l.length < depth + 1 ∧ ∃ x, Operand l x ∧ v = .list [.float x]) AfterOperand := by
  rintro l _ rest ⟨hl, x, hx, rfl⟩ hrest
  cases hx with
  | number hn hx =>
    have hr := Reader.complete_number l _ rest ⟨hn, x, hx, rfl⟩ hrest.endsNumber
    have hmap : Reader.map (fun n => .list [n]) Leaf.number.reader (l ++ rest) = some (.list [.float x], rest) :=
      Reader.map_eq_some.mpr ⟨_, hr, rfl⟩
    rw [termReader, Reader.choice_cons, hmap, Option.some_or]
  | @group w t w' tree hw hc ht hw' =>
    have hnone : ∀ u : Text, Leaf.number.reader ('(' :: u) = none := fun u => by
      refine Reader.sound_number.eq_none (P := Numeral.IsStart) (fun l v hl => hl.1.isExponential.starts) ?_
      rintro _ ⟨⟩ hc
      exact absurd hc.mem (by decide)
    have hmap : ∀ u : Text, Reader.map (fun n => .list [n]) Leaf.number.reader ('(' :: u) = none := fun u => by
      rw [Reader.map, hnone]
      rfl
    have hlength : t.length < depth := by
      simp only [List.length_cons, List.length_append] at hl
      omega
    have hafter : AfterRow (w' ++ ')' :: rest) := ⟨w', ')' :: rest, hw', rfl, fun c hc => (Option.some.inj hc).symm⟩
    have hrow := h t _ (w' ++ ')' :: rest) ⟨hlength, _, hc, rfl⟩ hafter
    obtain ⟨s, hs⟩ := Reader.skips_blanks w (t ++ (w' ++ ')' :: rest)) hw (hc.stopsAt _)
    obtain ⟨s', hs'⟩ := Reader.skips_blanks w' (')' :: rest) hw' (Regex.stopsAt_cons (by decide))
    have happend : '(' :: (w ++ (t ++ (w' ++ [')']))) ++ rest = '(' :: (w ++ (t ++ (w' ++ ')' :: rest))) := by simp
    rw [happend, termReader, Reader.choice_cons, hmap, Option.none_or, Reader.choice_cons]
    have hgroup : groupReader row ('(' :: (w ++ (t ++ (w' ++ ')' :: rest)))) =
        some (.list [.float (tree.value Operator.apply)], rest) := by
      have hopen (u : Text) : Reader.literal "(" ('(' :: u) = some (.str "(", u) := rfl
      have hclose : Reader.literal ")" (')' :: rest) = some (.str ")", rest) := rfl
      rw [← rowValue_entries ht]
      exact Reader.map_sequence_eq_some.mpr
        ⟨_, .cons (hopen _) (.cons hs (.cons hrow (.cons hs' (.cons hclose .nil)))), rfl⟩
    rw [hgroup, Option.some_or]

/-- An operation and the row after it are read to the end of the row. -/
theorem operation_reads {w w' u rest : Text} {es : List (Entry Float)} (hw : Blanks w) (op : Operator) (hw' : Blanks w')
    (hu : Chain Operand u es) (hl : u.length < depth) (hrest : AfterRow rest) :
    operationReader row (w ++ (op.symbol.toList ++ (w' ++ (u ++ rest)))) =
      some (.list ((Entry.operator op :: es).map entryValue), rest) := by
  obtain ⟨c, hc, hblank, -⟩ := mem_symbols op (w' ++ (u ++ rest))
  have hstop : StopsAt .blank (op.symbol.toList ++ (w' ++ (u ++ rest))) := by
    rw [hc]
    exact Regex.stopsAt_cons hblank
  obtain ⟨s, hs⟩ := Reader.skips_blanks w _ hw hstop
  obtain ⟨s', hs'⟩ := Reader.skips_blanks w' (u ++ rest) hw' (hu.stopsAt rest)
  have hrow := h u _ rest ⟨hl, es, hu, rfl⟩ hrest
  exact Reader.map_sequence_eq_some.mpr ⟨_, .cons hs (.cons (operator_reads op _) (.cons hs' (.cons hrow .nil))), rfl⟩

omit h in
theorem operation_none (hs : row.Sound IsRow) {rest : Text} (hrest : AfterRow rest) : operationReader row rest = none := by
  cases hr : operationReader row rest with
  | none => rfl
  | some found =>
    obtain ⟨_, he, w, w', u, es, op, hw, -, -, rfl, -⟩ := sound_operation hs rest found.1 found.2 hr
    obtain ⟨v, x, hv, rfl, hx⟩ := hrest
    obtain ⟨c, hc, hblank, -, hne⟩ := mem_symbols op (w' ++ u ++ found.2)
    have hstop : StopsAt .blank x := by
      intro d hd
      rw [hx d hd]
      decide
    have hstop' : StopsAt .blank (op.symbol.toList ++ (w' ++ u ++ found.2)) := by
      rw [hc]
      exact Regex.stopsAt_cons hblank
    have hv : Regex.AllIn .blank v := hv
    have hend := Regex.eq_of_append_eq hv hw hstop hstop' (by simpa only [List.append_assoc] using he)
    have hcx : c ∈ x.head? := by rw [hend.2, hc]; rfl
    exact absurd (hx c hcx) hne

theorem complete_row (hs : row.Sound IsRow) :
    (rowReader row).Complete (fun l v => l.length < depth + 1 ∧ IsRow l v) AfterRow := by
  rintro l _ rest ⟨hl, es, hc, rfl⟩ hrest
  have hend := operation_none hs hrest
  rw [rowReader, Reader.choice_cons]
  cases hc with
  | @one _ x hx =>
    have hterm := complete_term h l _ rest ⟨hl, x, hx, rfl⟩ hrest.afterOperand
    have hfirst : Reader.map flatten (.sequence [termReader row, .map flatten (.times (operationReader row) 1)])
        (l ++ rest) = none := by
      refine Option.eq_none_iff_forall_ne_some.mpr fun found hf => ?_
      obtain ⟨_, _ | ⟨ht, _ | ⟨hops, ⟨⟩⟩⟩, -⟩ := Reader.map_sequence_eq_some.mp hf
      cases hterm.symm.trans ht
      cases (Reader.map_of_none (Reader.times_of_none hend)).symm.trans hops
    rw [hfirst, Option.none_or, Reader.choice_cons, hterm, Option.some_or]
    rfl
  | @more t w w' u x es hx hw op hw' hu =>
    have hop : op.symbol.toList.length = 1 := by cases op <;> rfl
    simp only [List.length_append, hop] at hl
    have hafter : AfterOperand (w ++ (op.symbol.toList ++ (w' ++ (u ++ rest)))) := by
      obtain ⟨c, hc, -, hmem, -⟩ := mem_symbols op (w' ++ (u ++ rest))
      refine afterOperand_append hw fun d hd => ?_
      rw [hc] at hd
      cases hd
      exact hmem
    have hterm := complete_term h t _ _ ⟨by omega, x, hx, rfl⟩ hafter
    have hoperation := operation_reads h hw op hw' hu (by omega) hrest
    have hne : w ++ (op.symbol.toList ++ (w' ++ (u ++ rest))) ≠ [] := by
      refine List.append_ne_nil_of_right_ne_nil w ?_
      cases op <;> exact List.cons_ne_nil _ _
    have hops : Reader.map flatten (.times (operationReader row) 1) (w ++ (op.symbol.toList ++ (w' ++ (u ++ rest)))) =
        some (.list ((Entry.operator op :: es).map entryValue), rest) :=
      Reader.map_eq_some.mpr ⟨_, Reader.times_of_one hne hoperation hend, by simp [flatten, Value.items]⟩
    have hfirst := Reader.map_sequence_eq_some (m := flatten).mpr ⟨_, .cons hterm (.cons hops .nil), rfl⟩
    simp only [List.append_assoc]
    rw [hfirst, Option.some_or]
    simp [flatten, Value.items, entryValue]

end

theorem complete_rows : ∀ depth, (rows depth).Complete (fun l v => l.length < depth ∧ IsRow l v) AfterRow
  | 0 => by
    rintro l v rest ⟨hl, -⟩
    exact absurd hl (Nat.not_lt_zero _)
  | depth + 1 => complete_row (complete_rows depth) (sound_rows depth)

/-- With as many rows inside one another as the text has characters, the reader reads a text to its end exactly if it is
the text of an expression. -/
theorem rows_eq_some_iff {t : Text} {v : Value} :
    Reader.map rowValue (rows (t.length + 1)) t = some (v, []) ↔ Expression t v := by
  rw [Reader.map_eq_some]
  constructor
  · rintro ⟨r, hr, rfl⟩
    obtain ⟨l, rfl, hl⟩ := sound_rows _ _ _ _ hr
    rw [List.append_nil]
    exact hl.expression
  · rintro ⟨tree, ht, hc, rfl⟩
    have hr := complete_rows (t.length + 1) t _ [] ⟨Nat.lt_succ_self _, _, hc, rfl⟩ ⟨[], [], nofun, rfl, nofun⟩
    rw [List.append_nil] at hr
    exact ⟨_, hr, (rowValue_entries ht).symm⟩

end FurthestMatch.Arithmetic
