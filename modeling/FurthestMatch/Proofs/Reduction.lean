import FurthestMatch.Proofs.Precedence

/-!
# Reduction of rows of values

Whatever is neither a number nor the symbol of an operator is left out of a row. When numbers and operators take turns
in what remains, the stacks are never short of a number, one number is left at the end, and it is the value of the only
tree that groups the row as precedence and associativity ask for.
-/

namespace FurthestMatch.Arithmetic

/-! ## Entries of a row -/

inductive Denotes : Value → Entry Float → Prop
  | int (n : Int) : Denotes (.int n) (.number (Binary64.ofInt n))
  | float (x : Float) : Denotes (.float x) (.number x)
  | symbol (op : Operator) : Denotes (.str op.symbol) (.operator op)

theorem Operator.ofSymbol?_eq_some_iff {s : String} {op : Operator} : ofSymbol? s = some op ↔ s = op.symbol := by
  constructor
  · intro h
    have hs := List.find?_some h
    exact (beq_iff_eq.mp hs).symm
  · intro h
    subst h
    cases op <;> decide

theorem entry?_eq_some_iff {v : Value} {e : Entry Float} : entry? v = some e ↔ Denotes v e := by
  constructor
  · intro h
    cases v with
    | int n => cases h; exact .int n
    | float x => cases h; exact .float x
    | str s =>
      obtain ⟨op, hop, rfl⟩ := Option.map_eq_some_iff.mp h
      rw [Operator.ofSymbol?_eq_some_iff.mp hop]
      exact .symbol op
    | null | bool b | bigInt n | list items | object fields => cases h
  · intro h
    cases h with
    | int n => rfl
    | float x => rfl
    | symbol op => simp [ entry?, Value.float?, Value.text?, Operator.ofSymbol?_eq_some_iff.mpr rfl]

theorem entry?_eq_none {v : Value} (h : ∀ e, ¬Denotes v e) : entry? v = none :=
  Option.eq_none_iff_forall_ne_some.mpr fun e he => h e (entry?_eq_some_iff.mp he)

def evaluateBy (apply : Operator → Float → Float → Float) (values : List Value) : Value :=
  ((reduce? apply (values.filterMap entry?)).map Value.float).getD .null

theorem evaluate_eq : evaluate = evaluateBy Operator.apply := rfl

/-! ## Reduction that stops short of numbers -/

namespace Stacks

variable {α : Type} (apply : Operator → α → α → α)

def applyTo? (op : Operator) : List α → Option (List α)
  | b :: a :: numbers => some (apply op a b :: numbers)
  | _ => none

def settle? (next : Operator) : List Operator → List α → Option (Stacks α)
  | [], numbers => some ⟨numbers, []⟩
  | top :: operators, numbers =>
    if top.precedes next then (applyTo? apply top numbers).bind (settle? next operators)
    else some ⟨numbers, top :: operators⟩

def push? (s : Stacks α) : Entry α → Option (Stacks α)
  | .number n => some { s with numbers := n :: s.numbers }
  | .operator op => (settle? apply op s.operators s.numbers).map fun s => { s with operators := op :: s.operators }

def drain? : List Operator → List α → Option (List α)
  | [], numbers => some numbers
  | op :: operators, numbers => (applyTo? apply op numbers).bind (drain? operators)

def pushAll? : List (Entry α) → Stacks α → Option (Stacks α)
  | [], s => some s
  | e :: es, s => (push? apply s e).bind (pushAll? es)

variable {apply}

theorem applyTo_eq {op : Operator} {numbers left : List α} (h : applyTo? apply op numbers = some left) :
    applyTo apply op numbers = left := by
  match numbers, h with
  | b :: a :: numbers, h => exact Option.some.inj h

theorem settle_eq {next : Operator} {s : Stacks α} : ∀ {operators : List Operator} {numbers : List α},
    settle? apply next operators numbers = some s → settle apply next operators numbers = s
  | [], _, h => Option.some.inj h
  | top :: operators, numbers, h => by
    rw [settle?] at h
    rw [settle]
    split at h
    · rename_i hp
      obtain ⟨left, hl, h⟩ := Option.bind_eq_some_iff.mp h
      rw [if_pos hp, applyTo_eq hl]
      exact settle_eq h
    · rename_i hp
      rw [if_neg hp]
      exact Option.some.inj h

theorem push_eq {s s' : Stacks α} {e : Entry α} (h : push? apply s e = some s') : push apply s e = s' := by
  cases e with
  | number n => exact Option.some.inj h
  | operator op =>
    obtain ⟨left, hl, rfl⟩ := Option.map_eq_some_iff.mp h
    rw [push, settle_eq hl]

theorem foldl_push_eq {s' : Stacks α} : ∀ {es : List (Entry α)} {s : Stacks α},
    pushAll? apply es s = some s' → es.foldl (push apply) s = s'
  | [], _, h => Option.some.inj h
  | e :: es, s, h => by
    obtain ⟨s₁, h₁, h⟩ := Option.bind_eq_some_iff.mp h
    rw [List.foldl_cons, push_eq h₁]
    exact foldl_push_eq h

theorem foldl_applyTo_eq {left : List α} : ∀ {operators : List Operator} {numbers : List α},
    drain? apply operators numbers = some left →
      operators.foldl (fun numbers op => applyTo apply op numbers) numbers = left
  | [], _, h => Option.some.inj h
  | op :: operators, numbers, h => by
    obtain ⟨next, hn, h⟩ := Option.bind_eq_some_iff.mp h
    rw [List.foldl_cons, applyTo_eq hn]
    exact foldl_applyTo_eq h

end Stacks

/-- All numbers that are left of a row in the end; no answer when an operator found fewer than two on the way. -/
def reduceAll? {α : Type} (apply : Operator → α → α → α) (entries : List (Entry α)) : Option (List α) :=
  (Stacks.pushAll? apply entries ⟨[], []⟩).bind fun s => Stacks.drain? apply s.operators s.numbers

theorem reduce?_eq_head? {α : Type} {apply : Operator → α → α → α} {entries : List (Entry α)} {left : List α}
    (h : reduceAll? apply entries = some left) : reduce? apply entries = left.head? := by
  obtain ⟨s, hs, h⟩ := Option.bind_eq_some_iff.mp h
  rw [reduce?, Stacks.foldl_push_eq hs, Stacks.finish?, Stacks.foldl_applyTo_eq h]

/-! ## The stacks are in balance -/

namespace Stacks

variable {α : Type} (apply : Operator → α → α → α)

/-- Every operator that waits has a number to its left, and there are `more` further numbers. -/
def Balanced (more : Nat) (s : Stacks α) : Prop :=
  s.numbers.length = s.operators.length + more

theorem exists_applyTo? {numbers : List α} {n : Nat} (h : numbers.length = n + 2) (op : Operator) :
    ∃ left, applyTo? apply op numbers = some left ∧ left.length = n + 1 := by
  match numbers, h with
  | b :: a :: numbers, h => exact ⟨_, rfl, by simpa using h⟩

theorem exists_settle? (next : Operator) : ∀ {operators : List Operator} {numbers : List α},
    numbers.length = operators.length + 1 → ∃ s, settle? apply next operators numbers = some s ∧ s.Balanced 1
  | [], numbers, h => ⟨_, rfl, h⟩
  | top :: operators, numbers, h => by
    by_cases hp : top.precedes next
    · obtain ⟨left, hl, hn⟩ := exists_applyTo? apply h top
      obtain ⟨s, hs, hb⟩ := exists_settle? next hn
      exact ⟨s, by simp [settle?, hp, hl, hs], hb⟩
    · exact ⟨⟨numbers, top :: operators⟩, by simp [settle?, hp], h⟩

theorem exists_drain? : ∀ {operators : List Operator} {numbers : List α}, numbers.length = operators.length + 1 →
    ∃ a, drain? apply operators numbers = some [a]
  | [], numbers, h => by
    obtain ⟨a, rfl⟩ := List.length_eq_one_iff.mp h
    exact ⟨a, rfl⟩
  | op :: operators, numbers, h => by
    obtain ⟨left, hl, hn⟩ := exists_applyTo? apply h op
    obtain ⟨a, ha⟩ := exists_drain? hn
    exact ⟨a, by simp [drain?, hl, ha]⟩

namespace Balanced

variable {s : Stacks α}

theorem number (h : s.Balanced 0) (a : α) : ∃ s', push? apply s (.number a) = some s' ∧ s'.Balanced 1 := by
  refine ⟨_, rfl, ?_⟩
  unfold Balanced at h ⊢
  simp [h]

theorem operator (h : s.Balanced 1) (op : Operator) :
    ∃ s', push? apply s (.operator op) = some s' ∧ s'.Balanced 0 := by
  obtain ⟨s', hs, hb⟩ := exists_settle? apply op h
  refine ⟨_, by rw [push?, hs]; rfl, ?_⟩
  unfold Balanced at hb ⊢
  simp [hb]

theorem pushAll (h : s.Balanced 0) {entries : List (Entry α)} (ha : Alternates entries) :
    ∃ s', pushAll? apply entries s = some s' ∧ s'.Balanced 1 := by
  induction ha generalizing s with
  | one a =>
    obtain ⟨s', hs, hb⟩ := h.number apply a
    exact ⟨s', by simp [pushAll?, hs], hb⟩
  | more a op _ ih =>
    obtain ⟨s₁, h₁, hb⟩ := h.number apply a
    obtain ⟨s₂, h₂, hb⟩ := hb.operator apply op
    obtain ⟨s', hs, hb⟩ := ih hb
    exact ⟨s', by simp [pushAll?, h₁, h₂, hs], hb⟩

end Balanced

end Stacks

theorem exists_reduceAll? {α : Type} (apply : Operator → α → α → α) {entries : List (Entry α)}
    (h : Alternates entries) : ∃ a, reduceAll? apply entries = some [a] := by
  have h₀ : (⟨[], []⟩ : Stacks α).Balanced 0 := rfl
  obtain ⟨s, hs, hb⟩ := h₀.pushAll apply h
  obtain ⟨a, ha⟩ := Stacks.exists_drain? apply hb
  exact ⟨a, by simp [reduceAll?, hs, ha]⟩

/-! ## One tree for each row -/

def Entry.map {α β : Type} (f : α → β) : Entry α → Entry β
  | .number a => .number (f a)
  | .operator op => .operator op

namespace Tree

variable {α β : Type} {t : Tree α}

def map (f : α → β) : Tree α → Tree β
  | .leaf a => .leaf (f a)
  | .node op l r => .node op (l.map f) (r.map f)

theorem entries_map (f : α → β) (t : Tree α) : (t.map f).entries = t.entries.map (Entry.map f) := by
  induction t with
  | leaf => rfl
  | node op l r ihl ihr => simp [map, entries, Entry.map, ihl, ihr]

theorem IsPower.map (h : IsPower t) (f : α → β) : IsPower (t.map f) := by
  induction h with
  | leaf a => exact .leaf (f a)
  | power _ ih => exact .power ih

theorem IsProduct.map (h : IsProduct t) (f : α → β) : IsProduct (t.map f) := by
  induction h with
  | power h => exact .power (h.map f)
  | times _ hr ih => exact .times ih (hr.map f)
  | divide _ hr ih => exact .divide ih (hr.map f)

theorem IsSum.map (h : IsSum t) (f : α → β) : IsSum (t.map f) := by
  induction h with
  | product h => exact .product (h.map f)
  | plus _ hr ih => exact .plus ih (hr.map f)
  | minus _ hr ih => exact .minus ih (hr.map f)

/-- When the operators put trees together, a tree of leaves is its own value. -/
theorem value_map_leaf (t : Tree α) : (t.map leaf).value node = t := by
  induction t with
  | leaf => rfl
  | node op l r ihl ihr => simp [map, value, ihl, ihr]

/-- The reduction of a row to a tree finds the tree again that the row is of. -/
theorem eq_of_entries_eq {t' : Tree α} (h : IsSum t) (h' : IsSum t') (he : t'.entries = t.entries) : t' = t := by
  have hr := reduce?_entries node (h.map leaf)
  have hr' := reduce?_entries node (h'.map leaf)
  rw [entries_map, value_map_leaf] at hr hr'
  rw [he, hr] at hr'
  exact (Option.some.inj hr').symm

end Tree

/-- Values that are no entries count for nothing. A row in which numbers and operators take turns otherwise has exactly
one tree, and its reduction never lacks a number and leaves one, the value of the tree, whatever the operators mean. -/
theorem rows_are_reduced_by_precedence : evaluate = evaluateBy Operator.apply ∧
    (∀ apply front v back, (∀ e, ¬Denotes v e) →
      evaluateBy apply (front ++ v :: back) = evaluateBy apply (front ++ back)) ∧
    ∀ values, Alternates (values.filterMap entry?) →
      ∃ t : Tree Float, (t.IsSum ∧ t.entries = values.filterMap entry?) ∧
        (∀ t' : Tree Float, t'.IsSum ∧ t'.entries = values.filterMap entry? → t' = t) ∧
        ∀ apply, reduceAll? apply (values.filterMap entry?) = some [t.value apply] ∧
          evaluateBy apply values = .float (t.value apply) := by
  refine ⟨evaluate_eq, ?_, ?_⟩
  · intro apply front v back h
    simp [evaluateBy, entry?_eq_none h]
  · intro values ha
    obtain ⟨t, ht, he⟩ := Tree.exists_of_alternates ha
    refine ⟨t, ⟨ht, he⟩, ?_, ?_⟩
    · intro t' h'
      exact Tree.eq_of_entries_eq ht h'.1 (h'.2.trans he.symm)
    · intro apply
      have hr : reduce? apply (values.filterMap entry?) = some (t.value apply) := he ▸ Tree.reduce?_entries apply ht
      obtain ⟨a, hl⟩ := exists_reduceAll? apply ha
      have hv : a = t.value apply := Option.some.inj ((reduce?_eq_head? hl).symm.trans hr)
      exact ⟨by rw [hl, hv], by simp [evaluateBy, hr]⟩

/-- A row that groups both ways, with a value in it that counts for nothing. -/
theorem mixed_row_is_reduced :
    let values := [.float 9, .str "-", .null, .int 4, .str "*", .float 2, .str "^", .float 3, .str "^", .float 2,
      .str "-", .float 1]
    Alternates (values.filterMap entry?) ∧ evaluate values =
      .float (9 - Binary64.ofInt 4 * Float.pow 2 (Float.pow 3 2) - 1) := by
  intro values
  have ha : Alternates (values.filterMap entry?) :=
    .more _ .minus (.more _ .times (.more _ .power (.more _ .power (.more _ .minus (.one _)))))
  obtain ⟨t, ⟨ht, he⟩, hu, hv⟩ := rows_are_reduced_by_precedence.2.2 values ha
  let row : Tree Float := .node .minus (.node .minus (.leaf 9) (.node .times (.leaf (Binary64.ofInt 4))
    (.node .power (.leaf 2) (.node .power (.leaf 3) (.leaf 2))))) (.leaf 1)
  have hrow : row.IsSum := .minus (.minus (.product (.power (.leaf _)))
    (.times (.power (.leaf _)) (.power (.power (.leaf _))))) (.power (.leaf _))
  have hr : row = t := hu row ⟨hrow, rfl⟩
  refine ⟨ha, ?_⟩
  rw [evaluate_eq, (hv Operator.apply).2, ← hr]
  rfl

end FurthestMatch.Arithmetic
