import FurthestMatch.Catalogue.Arithmetic

/-!
# Precedence

Rows of numbers and operators are read as trees: powers bind most tightly and group to the right, products and quotients
come next and group to the left, as sums and differences do last. Every row in which numbers and operators take turns is
the row of such a tree, and the two stacks reduce it to the value of the tree, whatever the operators mean.
-/

namespace FurthestMatch.Arithmetic

inductive Tree (α : Type) where
  | leaf (a : α)
  | node (op : Operator) (left right : Tree α)
deriving DecidableEq, Repr

namespace Tree

variable {α : Type}

def value (apply : Operator → α → α → α) : Tree α → α
  | .leaf a => a
  | .node op l r => apply op (l.value apply) (r.value apply)

def entries : Tree α → List (Entry α)
  | .leaf a => [.number a]
  | .node op l r => l.entries ++ .operator op :: r.entries

def operators : Tree α → List Operator
  | .leaf _ => []
  | .node op l r => op :: (l.operators ++ r.operators)

inductive IsPower : Tree α → Prop
  | leaf (a) : IsPower (.leaf a)
  | power {a r} (hr : IsPower r) : IsPower (.node .power (.leaf a) r)

inductive IsProduct : Tree α → Prop
  | power {t} (h : IsPower t) : IsProduct t
  | times {l r} (hl : IsProduct l) (hr : IsPower r) : IsProduct (.node .times l r)
  | divide {l r} (hl : IsProduct l) (hr : IsPower r) : IsProduct (.node .divide l r)

inductive IsSum : Tree α → Prop
  | product {t} (h : IsProduct t) : IsSum t
  | plus {l r} (hl : IsSum l) (hr : IsProduct r) : IsSum (.node .plus l r)
  | minus {l r} (hl : IsSum l) (hr : IsProduct r) : IsSum (.node .minus l r)

/-! ## Trees in order -/

/-- Left of an operator stand operators only that are applied before it, and right of it those for which it waits. -/
def Ordered : Tree α → Prop
  | .leaf _ => True
  | .node op l r => l.Ordered ∧ r.Ordered ∧ (∀ o ∈ l.operators, o.precedes op) ∧ ∀ o ∈ r.operators, ¬op.precedes o

variable {t : Tree α}

theorem IsPower.operators (h : IsPower t) : ∀ o ∈ t.operators, o = .power := by
  induction h with
  | leaf => nofun
  | power _ ih => exact List.forall_mem_cons.mpr ⟨rfl, ih⟩

theorem IsProduct.operators (h : IsProduct t) : ∀ o ∈ t.operators, o = .power ∨ o = .times ∨ o = .divide := by
  induction h with
  | power h => exact fun o ho => .inl (h.operators o ho)
  | times _ hr ih =>
    refine List.forall_mem_cons.mpr ⟨.inr (.inl rfl), fun o ho => ?_⟩
    exact (List.mem_append.mp ho).elim (ih o) fun ho => .inl (hr.operators o ho)
  | divide _ hr ih =>
    refine List.forall_mem_cons.mpr ⟨.inr (.inr rfl), fun o ho => ?_⟩
    exact (List.mem_append.mp ho).elim (ih o) fun ho => .inl (hr.operators o ho)

theorem IsPower.ordered (h : IsPower t) : t.Ordered := by
  induction h with
  | leaf => trivial
  | power hr ih =>
    refine ⟨trivial, ih, nofun, fun o ho => ?_⟩
    rw [hr.operators o ho]
    decide

theorem IsProduct.ordered (h : IsProduct t) : t.Ordered := by
  have before (op : Operator) (hop : op = .times ∨ op = .divide) {l r : Tree α} (hl : IsProduct l) (hr : IsPower r)
      (ih : l.Ordered) : (node op l r).Ordered := by
    refine ⟨ih, hr.ordered, fun o ho => ?_, fun o ho => ?_⟩
    · rcases hl.operators o ho with rfl | rfl | rfl <;> rcases hop with rfl | rfl <;> decide
    · rw [hr.operators o ho]
      rcases hop with rfl | rfl <;> decide
  induction h with
  | power h => exact h.ordered
  | times hl hr ih => exact before .times (.inl rfl) hl hr ih
  | divide hl hr ih => exact before .divide (.inr rfl) hl hr ih

theorem IsSum.ordered (h : IsSum t) : t.Ordered := by
  have before (op : Operator) (hop : op = .plus ∨ op = .minus) {l r : Tree α} (hr : IsProduct r) (ih : l.Ordered) :
      (node op l r).Ordered := by
    refine ⟨ih, hr.ordered, fun o _ => ?_, fun o ho => ?_⟩
    · rcases hop with rfl | rfl <;> cases o <;> decide
    · rcases hr.operators o ho with rfl | rfl | rfl <;> rcases hop with rfl | rfl <;> decide
  induction h with
  | product h => exact h.ordered
  | plus _ hr ih => exact before .plus (.inl rfl) hr ih
  | minus _ hr ih => exact before .minus (.inr rfl) hr ih

/-! ## Every row has a tree -/

def extend (op : Operator) (a : α) : Tree α → Tree α
  | .leaf b => .node op (.leaf b) (.leaf a)
  | .node o l r => if o.precedes op then .node op (.node o l r) (.leaf a) else .node o l (r.extend op a)

theorem entries_extend (op : Operator) (a : α) : ∀ t : Tree α,
    (t.extend op a).entries = t.entries ++ [.operator op, .number a]
  | .leaf _ => rfl
  | .node o l r => by
    rw [extend]
    split
    · rfl
    · rw [entries, entries_extend op a r, entries, List.append_assoc, List.cons_append]

/-- An operator before which all others are applied comes to the root. -/
theorem extend_eq_node (a : α) {op : Operator} (h : ∀ o ∈ t.operators, o.precedes op) :
    t.extend op a = .node op t (.leaf a) := by
  cases t with
  | leaf => rfl
  | node o l r => exact if_pos (h o List.mem_cons_self)

theorem IsPower.extend (h : IsPower t) (a : α) : IsPower (t.extend .power a) := by
  induction h with
  | leaf => exact .power (.leaf a)
  | power _ ih => exact .power ih

theorem IsProduct.extend (h : IsProduct t) (a : α) {op : Operator} (hop : op = .power ∨ op = .times ∨ op = .divide) :
    IsProduct (t.extend op a) := by
  have last {op : Operator} (hop : op = .times ∨ op = .divide) : t.extend op a = .node op t (.leaf a) := by
    refine extend_eq_node a fun o ho => ?_
    rcases h.operators o ho with rfl | rfl | rfl <;> rcases hop with rfl | rfl <;> decide
  rcases hop with rfl | rfl | rfl
  · cases h with
    | power h => exact .power (h.extend a)
    | times hl hr => exact .times hl (hr.extend a)
    | divide hl hr => exact .divide hl (hr.extend a)
  · rw [last (.inl rfl)]
    exact .times h (.leaf a)
  · rw [last (.inr rfl)]
    exact .divide h (.leaf a)

theorem IsSum.extend (h : IsSum t) (a : α) (op : Operator) : IsSum (t.extend op a) := by
  have last {op : Operator} (hop : op = .plus ∨ op = .minus) : t.extend op a = .node op t (.leaf a) := by
    refine extend_eq_node a fun o _ => ?_
    rcases hop with rfl | rfl <;> cases o <;> decide
  have inside (hop : op = .power ∨ op = .times ∨ op = .divide) : IsSum (t.extend op a) := by
    cases h with
    | product h => exact .product (h.extend a hop)
    | plus hl hr =>
      have hr := hr.extend a hop
      rcases hop with rfl | rfl | rfl <;> exact .plus hl hr
    | minus hl hr =>
      have hr := hr.extend a hop
      rcases hop with rfl | rfl | rfl <;> exact .minus hl hr
  cases op with
  | power => exact inside (.inl rfl)
  | times => exact inside (.inr (.inl rfl))
  | divide => exact inside (.inr (.inr rfl))
  | plus =>
    rw [last (.inl rfl)]
    exact .plus h (.power (.leaf a))
  | minus =>
    rw [last (.inr rfl)]
    exact .minus h (.power (.leaf a))

end Tree

inductive Alternates {α : Type} : List (Entry α) → Prop
  | one (a) : Alternates [.number a]
  | more (a op) {es} (h : Alternates es) : Alternates (.number a :: .operator op :: es)

namespace Tree

variable {α : Type}

theorem exists_append {t : Tree α} (ht : IsSum t) (op : Operator) {es : List (Entry α)} (h : Alternates es) :
    ∃ t' : Tree α, IsSum t' ∧ t'.entries = t.entries ++ .operator op :: es := by
  induction h generalizing t op with
  | one a => exact ⟨t.extend op a, ht.extend a op, entries_extend op a t⟩
  | more a op' _ ih =>
    obtain ⟨t', ht', he⟩ := ih (ht.extend a op) op'
    refine ⟨t', ht', ?_⟩
    rw [he, entries_extend, List.append_assoc]
    rfl

theorem exists_of_alternates {es : List (Entry α)} (h : Alternates es) : ∃ t : Tree α, IsSum t ∧ t.entries = es := by
  cases h with
  | one a => exact ⟨.leaf a, .product (.power (.leaf a)), rfl⟩
  | more a op h => exact exists_append (.product (.power (.leaf a))) op h

/-! ## Reduction with two stacks -/

section
variable (apply : Operator → α → α → α)

/-- The stacks after the row of a tree: an operator waits with what stands left of it, as long as the row goes on. -/
def leave : Tree α → Stacks α → Stacks α
  | .leaf a, s => { s with numbers := a :: s.numbers }
  | .node op l r, s => r.leave ⟨l.value apply :: s.numbers, op :: s.operators⟩

/-- An operator that is applied after all operators of the tree settles the tree to its value. -/
theorem settle_leave {next : Operator} : ∀ (t : Tree α) {s : Stacks α}, (∀ o ∈ t.operators, o.precedes next) →
    Stacks.settle apply next (t.leave apply s).operators (t.leave apply s).numbers =
      Stacks.settle apply next s.operators (t.value apply :: s.numbers)
  | .leaf _, _, _ => rfl
  | .node op l r, s, h => by
    obtain ⟨hop, h⟩ := List.forall_mem_cons.mp h
    rw [leave, settle_leave r fun o ho => h o (List.mem_append_right _ ho), Stacks.settle, if_pos hop]
    rfl

theorem settle_of_waits {next : Operator} {operators : List Operator} {numbers : List α}
    (h : ∀ o ∈ operators.head?, ¬o.precedes next) : Stacks.settle apply next operators numbers = ⟨numbers, operators⟩ := by
  cases operators with
  | nil => rfl
  | cons o operators => exact if_neg (h o rfl)

/-- The row of a tree in order leaves the stacks as it should, when what waits does so for all its operators. -/
theorem foldl_push : ∀ {t : Tree α} {s : Stacks α}, t.Ordered → (∀ o ∈ s.operators.head?, ∀ o' ∈ t.operators,
    ¬o.precedes o') → t.entries.foldl (Stacks.push apply) s = t.leave apply s
  | .leaf _, _, _, _ => rfl
  | .node op l r, s, ⟨hl, hr, hbefore, hafter⟩, h => by
    have hleft := foldl_push hl fun o ho o' ho' => h o ho o' (List.mem_cons_of_mem _ (List.mem_append_left _ ho'))
    have hsettle := (settle_leave apply l hbefore).trans
      (settle_of_waits apply fun o ho => h o ho op List.mem_cons_self)
    rw [entries, List.foldl_append, hleft, List.foldl_cons, Stacks.push, hsettle, leave]
    refine foldl_push hr fun o ho => ?_
    cases ho
    exact hafter

theorem finish?_leave : ∀ {t : Tree α} {s : Stacks α},
    (t.leave apply s).finish? apply = (⟨t.value apply :: s.numbers, s.operators⟩ : Stacks α).finish? apply
  | .leaf _, _ => rfl
  | .node op l r, s => by
    rw [leave, finish?_leave]
    rfl

theorem reduce?_entries {t : Tree α} (h : IsSum t) : reduce? apply t.entries = some (t.value apply) := by
  have hfold := foldl_push apply (s := ⟨[], []⟩) h.ordered nofun
  rw [reduce?, hfold, finish?_leave]
  rfl

end

end Tree

end FurthestMatch.Arithmetic
