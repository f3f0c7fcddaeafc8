import FurthestMatch.Proofs.Bisimulation
import Mathlib.Data.Finset.Prod
import Mathlib.Data.Finset.Card

/-!
# Comparison decides bisimilarity

A comparison assumes a pair before it has compared what is below it, and never takes an assumption back. When it comes
out true the assumptions are a bisimulation: each was justified by the others. When some bisimulation pairs the two
nodes no difference is found. And it ends, since every pair of nodes with something below them is taken up once.
-/

namespace FurthestMatch

namespace Rulebook

variable {b : Rulebook} {strict : Bool} {R : NodeId → NodeId → Prop} {x y : NodeId}

/-! ## One step of a comparison -/

section
variable {compare : Comparison} {assumed assumed' : Assumed}

theorem result_compareAll_singleton (x y : NodeId) :
    (compareAll compare assumed [x] [y]).result = (compare assumed x y).result := by
  rw [compareAll, Walk.result_bind]
  cases h : (compare assumed x y).result with
  | error => rfl
  | ok answer =>
    obtain ⟨_ | _, _⟩ := answer <;> rfl

theorem compareAll_nil : compareAll compare assumed [] [] = pure (true, assumed) := rfl

theorem result_beq {P : Prop} [Decidable P] {r : Bool} (h : r = true ↔ P) :
    (Except.ok (r, assumed) : Except Halt _) = if P then .ok (true, assumed) else .ok (false, assumed) := by
  by_cases hP : P
  · rw [if_pos hP, h.mpr hP]
  · rw [if_neg hP, Bool.eq_false_iff.mpr fun hr => hP (h.mp hr)]

/-- Two nodes are compared by their heads, and then by what is below them. -/
theorem result_compareNodes (compare : Comparison) (assumed : Assumed) (x y : NodeId) :
    (b.compareNodes compare assumed x y).result =
      if (b.node x).head = (b.node y).head ∧ (b.beneath x).length = (b.beneath y).length then
        (compareAll compare assumed (b.beneath x) (b.beneath y)).result
      else .ok (false, assumed) := by
  unfold compareNodes beneath inner?
  cases hx : b.node x <;> cases hy : b.node y <;>
    simp [Node.head, Node.children, apply_ite Walk.result, result_compareAll_singleton, compareAll_nil, Walk.result_bind,
      Except.bind]
  case literal.literal => exact result_beq beq_iff_eq
  case pattern.pattern => exact result_beq (by simp)

end

theorem standsFor_of_taken {x' : NodeId} (h : (b.taken strict x).result = .ok x') : b.StandsFor strict x x' := by
  unfold taken at h
  unfold StandsFor
  split at h
  · rename_i hs
    rw [if_pos hs]
    exact (Except.ok.inj h).symm
  · rename_i hs
    rw [if_neg hs]
    exact resolves_of_resolve h

/-! ## What a comparison vouches for -/

/-- From some assumptions to more of them: what a comparison has found holds when the assumed pairs are related, and
each new pair is then justified. -/
structure Vouches (b : Rulebook) (strict : Bool) (assumed assumed' : Assumed)
    (P : (NodeId → NodeId → Prop) → Prop) : Prop where
  subset : assumed ⊆ assumed'
  holds : ∀ R : NodeId → NodeId → Prop, (∀ x, R x x) → (∀ p ∈ assumed', R p.1 p.2) → P R
  justified : ∀ R : NodeId → NodeId → Prop, (∀ x, R x x) → (∀ p ∈ assumed', R p.1 p.2) →
    ∀ p ∈ assumed', p ∈ assumed ∨ b.Congruent (b.Pairs strict R) p.1 p.2

namespace Vouches

variable {assumed assumed' assumed'' : Assumed} {P Q : (NodeId → NodeId → Prop) → Prop}

theorem pure (h : ∀ R : NodeId → NodeId → Prop, (∀ x, R x x) → (∀ p ∈ assumed, R p.1 p.2) → P R) :
    b.Vouches strict assumed assumed P :=
  ⟨fun _ hp => hp, h, fun _ _ _ _ hp => .inl hp⟩

theorem imp (h : b.Vouches strict assumed assumed' P) (hPQ : ∀ R, P R → Q R) : b.Vouches strict assumed assumed' Q :=
  ⟨h.subset, fun R hR hA => hPQ R (h.holds R hR hA), h.justified⟩

theorem trans (h : b.Vouches strict assumed assumed' P) (h' : b.Vouches strict assumed' assumed'' Q) :
    b.Vouches strict assumed assumed'' fun R => P R ∧ Q R := by
  refine ⟨fun p hp => h'.subset (h.subset hp), fun R hR hA => ?_, fun R hR hA p hp => ?_⟩
  · exact ⟨h.holds R hR fun p hp => hA p (h'.subset hp), h'.holds R hR hA⟩
  · rcases h'.justified R hR hA p hp with hp | hj
    · exact h.justified R hR (fun p hp => hA p (h'.subset hp)) p hp
    · exact .inr hj

end Vouches

section
variable {compare : Comparison} (hc : ∀ {assumed x y assumed'}, (compare assumed x y).result = .ok (true, assumed') →
  b.Vouches strict assumed assumed' fun R => b.Pairs strict R x y)
include hc

theorem vouches_of_compareAll : ∀ {xs ys : List NodeId} {assumed assumed' : Assumed},
    (compareAll compare assumed xs ys).result = .ok (true, assumed') →
      b.Vouches strict assumed assumed' fun R => List.Forall₂ (b.Pairs strict R) xs ys
  | [], [], _, _, h => by
    cases h
    exact .pure fun _ _ _ => .nil
  | [], _ :: _, _, _, h => by cases h
  | _ :: _, [], _, _, h => by cases h
  | x :: xs, y :: ys, assumed, assumed', h => by
    obtain ⟨⟨r, assumed₁⟩, h₁, h⟩ := Walk.result_bind_eq_ok.mp h
    cases r with
    | false => cases h
    | true => exact ((hc h₁).trans (vouches_of_compareAll h)).imp fun _ ⟨hxy, hxs⟩ => .cons hxy hxs

theorem vouches_of_compareNodes {assumed assumed' : Assumed} {x y : NodeId}
    (h : (b.compareNodes compare assumed x y).result = .ok (true, assumed')) :
    b.Vouches strict assumed assumed' fun R => b.Congruent (b.Pairs strict R) x y := by
  rw [result_compareNodes] at h
  split at h
  · rename_i hh
    exact (vouches_of_compareAll hc h).imp fun _ hp => ⟨hh.1, hp⟩
  · cases h

end

theorem vouches_of_compare : ∀ {fuel : Nat} {assumed assumed' : Assumed} {x y : NodeId},
    (b.compare strict fuel assumed x y).result = .ok (true, assumed') →
      b.Vouches strict assumed assumed' fun R => b.Pairs strict R x y
  | 0, _, _, _, _, h => nomatch h
  | fuel + 1, assumed, assumed', x, y, h => by
    obtain ⟨x', hx, h⟩ := Walk.result_bind_eq_ok.mp h
    obtain ⟨y', hy, h⟩ := Walk.result_bind_eq_ok.mp h
    have hx := standsFor_of_taken hx
    have hy := standsFor_of_taken hy
    split at h
    · rename_i hxy
      cases h
      refine .pure fun R hR hA => ⟨x', y', hx, hy, ?_⟩
      rcases hxy with rfl | hm
      · exact hR x'
      · exact hA (x', y') hm
    · have hv := vouches_of_compareNodes vouches_of_compare h
      have hm : (x', y') ∈ assumed' := hv.subset List.mem_cons_self
      refine ⟨fun p hp => hv.subset (List.mem_cons_of_mem _ hp), fun R hR hA => ?_, fun R hR hA p hp => ?_⟩
      · exact ⟨x', y', hx, hy, hA _ hm⟩
      · -- the pair that was assumed here is justified by the comparison of the two nodes
        rcases hv.justified R hR hA p hp with hp | hj
        · rcases List.mem_cons.mp hp with rfl | hp
          · exact .inr (hv.holds R hR hA)
          · exact .inl hp
        · exact .inr hj

theorem bisimilar_of_equalWithin {depth : Nat} (h : (b.equalWithin depth strict x y).result = .ok true) :
    b.Bisimilar strict x y := by
  obtain ⟨⟨r, assumed⟩, hc, hr⟩ := Walk.result_bind_eq_ok.mp h
  cases hr
  have hv := vouches_of_compare hc
  -- equal nodes and the pairs that are assumed in the end make a bisimulation
  let R (x y : NodeId) : Prop := x = y ∨ (x, y) ∈ assumed
  have hR : ∀ x, R x x := fun x => .inl rfl
  have hA : ∀ p ∈ assumed, R p.1 p.2 := fun p hp => .inr hp
  refine ⟨R, fun x y hxy => ?_, hv.holds R hR hA⟩
  rcases hxy with he | hm
  · exact .inl he
  · exact .inr ((hv.justified R hR hA _ hm).resolve_left List.not_mem_nil)

/-! ## No difference between bisimilar nodes -/

section
variable {compare : Comparison} (hc : ∀ {assumed x y r assumed'}, b.Pairs strict R x y →
  (compare assumed x y).result = .ok (r, assumed') → r = true)
include hc

theorem compareAll_eq_true : ∀ {xs ys : List NodeId} {assumed : Assumed} {r : Bool} {assumed' : Assumed},
    List.Forall₂ (b.Pairs strict R) xs ys → (compareAll compare assumed xs ys).result = .ok (r, assumed') → r = true
  | _, _, _, _, _, .nil, h => by
    cases h
    rfl
  | _, _, _, _, _, .cons hp hs, h => by
    obtain ⟨⟨r₁, assumed₁⟩, h₁, h⟩ := Walk.result_bind_eq_ok.mp h
    cases hc hp h₁
    exact compareAll_eq_true hs h

end

theorem compare_eq_true (hR : b.IsBisimulation strict R) : ∀ {fuel : Nat} {assumed : Assumed} {x y : NodeId} {r : Bool}
    {assumed' : Assumed}, b.Pairs strict R x y → (b.compare strict fuel assumed x y).result = .ok (r, assumed') →
      r = true
  | 0, _, _, _, _, _, _, h => nomatch h
  | fuel + 1, assumed, x, y, r, assumed', ⟨x'', y'', hx'', hy'', hxy⟩, h => by
    obtain ⟨x', hx, h⟩ := Walk.result_bind_eq_ok.mp h
    obtain ⟨y', hy, h⟩ := Walk.result_bind_eq_ok.mp h
    rw [hx''.unique (standsFor_of_taken hx), hy''.unique (standsFor_of_taken hy)] at hxy
    split at h
    · cases h
      rfl
    · rename_i hne
      obtain ⟨hh, hp⟩ := (hR x' y' hxy).resolve_left fun he => hne (.inl he)
      rw [result_compareNodes, if_pos ⟨hh, hp.length_eq⟩] at h
      exact compareAll_eq_true (compare_eq_true hR) hp h

/-! ## Comparisons come to an end -/

def unseen (b : Rulebook) (assumed : Assumed) : Nat :=
  ((Finset.range b.graph.size ×ˢ Finset.range b.graph.size) \ assumed.toFinset).card

theorem toFinset_subset {assumed assumed' : Assumed} (h : assumed ⊆ assumed') :
    assumed.toFinset ⊆ assumed'.toFinset :=
  fun _ hp => List.mem_toFinset.mpr (h (List.mem_toFinset.mp hp))

theorem unseen_le {assumed assumed' : Assumed} (h : assumed ⊆ assumed') : b.unseen assumed' ≤ b.unseen assumed :=
  Finset.card_le_card (Finset.sdiff_subset_sdiff (Finset.Subset.refl _) (toFinset_subset h))

theorem unseen_cons_lt {assumed : Assumed} (hx : x < b.graph.size) (hy : y < b.graph.size) (h : (x, y) ∉ assumed) :
    b.unseen ((x, y) :: assumed) < b.unseen assumed := by
  refine Finset.card_lt_card ((Finset.ssubset_iff_of_subset ?_).mpr ⟨(x, y), ?_, ?_⟩)
  · exact Finset.sdiff_subset_sdiff (Finset.Subset.refl _) (toFinset_subset (List.subset_cons_self _ _))
  · simp [hx, hy, h]
  · simp

theorem unseen_nil (b : Rulebook) : b.unseen [] = b.graph.size * b.graph.size := by
  simp [unseen]

theorem lt_size_of_beneath {id : NodeId} (h : b.beneath id ≠ []) : id < b.graph.size := by
  by_contra hl
  refine h ?_
  have hn : b.node id = .never := by
    rw [node, Graph.node, Array.getElem?_eq_none (Nat.le_of_not_lt hl)]
    rfl
  rw [beneath, inner?, hn]
  rfl

theorem answers_compareAll {compare : Comparison} {n : Nat}
    (ha : ∀ {assumed x y}, b.Grounded x → b.Grounded y → b.unseen assumed ≤ n → (compare assumed x y).Answers)
    (hs : ∀ {assumed x y assumed'}, (compare assumed x y).result = .ok (true, assumed') → assumed ⊆ assumed') :
    ∀ {xs ys : List NodeId} {assumed : Assumed}, (∀ x ∈ xs, b.Grounded x) → (∀ y ∈ ys, b.Grounded y) →
      b.unseen assumed ≤ n → (compareAll compare assumed xs ys).Answers
  | [], [], _, _, _, _ => .pure _
  | [], _ :: _, _, _, _, _ => .pure _
  | _ :: _, [], _, _, _, _ => .pure _
  | x :: xs, y :: ys, assumed, hx, hy, hn => by
    refine .bind (ha (hx x List.mem_cons_self) (hy y List.mem_cons_self) hn) fun ⟨r, assumed₁⟩ h₁ => ?_
    cases r with
    | false => exact .pure _
    | true =>
      have hn₁ := Nat.le_trans (unseen_le (hs h₁)) hn
      exact answers_compareAll ha hs (fun x h => hx x (List.mem_cons_of_mem _ h))
        (fun y h => hy y (List.mem_cons_of_mem _ h)) hn₁

theorem answers_taken (hg : b.Grounded x) : (b.taken strict x).Answers := by
  unfold taken
  split
  · exact .pure _
  · exact hg x .root

theorem StandsFor.grounded {last : NodeId} (h : b.StandsFor strict x last) (hg : b.Grounded x) : b.Grounded last :=
  hg.inside (Inside.root.leads h.leads)

theorem answers_compare : ∀ {fuel : Nat} {assumed : Assumed} {x y : NodeId}, b.Grounded x → b.Grounded y →
    b.unseen assumed < fuel → (b.compare strict fuel assumed x y).Answers
  | 0, _, _, _, _, _, hf => absurd hf (Nat.not_lt_zero _)
  | fuel + 1, assumed, x, y, hx, hy, hf => by
    refine .bind (answers_taken hx) fun x' hx' => .bind (answers_taken hy) fun y' hy' => ?_
    have hx := (standsFor_of_taken hx').grounded hx
    have hy := (standsFor_of_taken hy').grounded hy
    split
    · exact .pure _
    rename_i hne
    intro halt
    rw [result_compareNodes]
    split
    · rename_i hh
      by_cases hb : b.beneath x' = []
      · have hb' : b.beneath y' = [] := List.eq_nil_of_length_eq_zero (by rw [← hh.2, hb]; rfl)
        rw [hb, hb']
        exact nofun
      · have hb' : b.beneath y' ≠ [] := fun he => hb (List.eq_nil_of_length_eq_zero (by rw [hh.2, he]; rfl))
        -- the pair has not been assumed before, so there is one less to come upon
        have hlt : b.unseen ((x', y') :: assumed) < b.unseen assumed :=
          unseen_cons_lt (lt_size_of_beneath hb) (lt_size_of_beneath hb') fun hm => hne (.inr hm)
        exact answers_compareAll (fun hx hy hn => answers_compare hx hy (Nat.lt_of_le_of_lt hn (by omega)))
          (fun h => (vouches_of_compare h).subset) (fun _ h => hx.inside (Inside.root.beneath h))
          (fun _ h => hy.inside (Inside.root.beneath h)) (Nat.le_refl _) halt
    · exact nofun

/-! ## Grammars without loops -/

/-- No row of names and references in a grammar leads back to where it began. -/
def LoopFree (b : Rulebook) (root : NodeId) : Prop :=
  ∀ id next, b.Inside root id → b.inner? id = some next → ¬b.Leads next id

theorem answers_resolveFrom (h : b.LoopFree x) : ∀ {fuel : Nat} {id : NodeId} (passed : List NodeId), b.Inside x id →
    passed.Nodup → (∀ p ∈ passed, b.Inside x p ∧ p < b.graph.size ∧ ∃ next, b.inner? p = some next ∧ b.Leads next id) →
      b.graph.size < fuel + passed.length → (b.resolveFrom fuel id).Answers
  | 0, id, passed, _, hn, hp, hf => by
    -- there are no more nodes to pass than there are in the graph
    have hl := List.Nodup.length_le_of_subset hn fun p hm => List.mem_range.mpr (hp p hm).2.1
    rw [List.length_range] at hl
    omega
  | fuel + 1, id, passed, hi, hn, hp, hf => by
    have go {next : NodeId} (hnext : b.inner? id = some next) : (b.resolveFrom fuel next).Answers := by
      have hid : id < b.graph.size := by
        refine lt_size_of_beneath ?_
        rw [beneath_of_inner? hnext]
        exact List.cons_ne_nil _ _
      have hfresh : id ∉ passed := by
        intro hm
        obtain ⟨hin, -, next', hi', hl⟩ := hp id hm
        exact h id next' hin hi' hl
      refine answers_resolveFrom h (id :: passed) (hi.inner hnext) (List.nodup_cons.mpr ⟨hfresh, hn⟩) ?_ ?_
      · intro p hm
        rcases List.mem_cons.mp hm with rfl | hm
        · exact ⟨hi, hid, next, hnext, .refl _⟩
        · obtain ⟨hin, hlt, next', hi', hl⟩ := hp p hm
          exact ⟨hin, hlt, next', hi', hl.trans (.step hnext (.refl _))⟩
      · rw [List.length_cons]
        omega
    rw [resolveFrom]
    split
    · exact go (inner?_named ‹_›)
    · exact .bind (.follow _) fun _ _ => go (inner?_deferred ‹_›)
    · exact .pure _

theorem LoopFree.grounded (h : b.LoopFree x) : b.Grounded x :=
  fun _ hi => answers_resolveFrom h [] hi List.nodup_nil (fun _ hm => absurd hm List.not_mem_nil) (Nat.lt_succ_self _)

/-- Nothing leads back when what a name or reference leads to always ranks lower. -/
theorem loopFree_of_rank (rank : NodeId → Nat) (h : ∀ id next, b.inner? id = some next → rank next < rank id)
    (root : NodeId) : b.LoopFree root := by
  have hl {id last : NodeId} (hl : b.Leads id last) : rank last ≤ rank id := by
    induction hl with
    | refl => exact Nat.le_refl _
    | step hi _ ih => exact Nat.le_trans ih (Nat.le_of_lt (h _ _ hi))
  intro id next _ hi hback
  exact absurd (h id next hi) (Nat.not_lt.mpr (hl hback))

theorem result_equal (hx : b.LoopFree x) (hy : b.LoopFree y) (strict : Bool) :
    ∃ r, (b.equal strict x y).result = .ok r ∧ (r = true ↔ b.Bisimilar strict x y) := by
  have hlimit : b.unseen [] < b.graph.size * b.graph.size + 1 := by
    rw [unseen_nil]
    exact Nat.lt_succ_self _
  have ha : (b.compare strict _ [] x y).Answers := answers_compare hx.grounded hy.grounded hlimit
  obtain ⟨⟨r, assumed⟩, hr⟩ := ha.answers
  have he : (b.equal strict x y).result = .ok r := Walk.result_bind_eq_ok.mpr ⟨(r, assumed), hr, rfl⟩
  refine ⟨r, he, fun ht => bisimilar_of_equalWithin (ht ▸ he), ?_⟩
  rintro ⟨R, hR, hp⟩
  exact compare_eq_true hR hp hr

theorem equal_eq_true_iff (hx : b.LoopFree x) (hy : b.LoopFree y) :
    (b.equal strict x y).result = .ok true ↔ b.Bisimilar strict x y := by
  obtain ⟨r, hr, hb⟩ := result_equal hx hy strict
  rw [← hb, hr, Except.ok.injEq]

/-- A comparison of grammars without loops of names and references ends, and finds them equal exactly when they are
bisimilar. Equality is then an equivalence, and strictly equal grammars are equal. -/
theorem equality_is_bisimilarity (hx : b.LoopFree x) (hy : b.LoopFree y) :
    (∀ strict, ∃ r, (b.equal strict x y).result = .ok r ∧ (r = true ↔ b.Bisimilar strict x y)) ∧
    (∀ strict, (b.equal strict x x).result = .ok true) ∧
    (∀ strict, (b.equal strict x y).result = .ok true → (b.equal strict y x).result = .ok true) ∧
    (∀ strict z, b.LoopFree z → (b.equal strict x y).result = .ok true → (b.equal strict y z).result = .ok true →
      (b.equal strict x z).result = .ok true) ∧
    ((b.equal true x y).result = .ok true → (b.equal false x y).result = .ok true) := by
  refine ⟨result_equal hx hy, fun strict => ?_, fun strict h => ?_, fun strict z hz h h' => ?_, fun h => ?_⟩
  · exact (equal_eq_true_iff hx hx).mpr (.refl (hx.grounded x .root))
  · rw [equal_eq_true_iff hx hy] at h
    exact (equal_eq_true_iff hy hx).mpr h.symm
  · rw [equal_eq_true_iff hx hy] at h
    rw [equal_eq_true_iff hy hz] at h'
    exact (equal_eq_true_iff hx hz).mpr (h.trans h')
  · rw [equal_eq_true_iff hx hy] at h ⊢
    exact h.of_strict hx.grounded

def brackets : Rulebook where
  graph := { nodes := #[.literal "(", .literal ")", .deferred (.node 4), .sequence [0, 2, 1], .choice [3, 7],
    .deferred (.node 9), .sequence [0, 5, 1], .literal "x", .sequence [0, 10, 1], .choice [8, 7],
    .named 11 "inner", .choice [6, 7]] }

theorem inner?_brackets {id next : NodeId} (h : brackets.inner? id = some next) :
    id ∈ [2, 5, 10] ∧ next ∉ [2, 5, 10] := by
  match id with
  | 2 | 5 | 10 => cases h; decide
  | 0 | 1 | 3 | 4 | 6 | 7 | 8 | 9 | 11 => cases h
  | _ + 12 => cases h

theorem unrolled_brackets_are_equal : brackets.Bisimilar false 4 9 ∧ ¬brackets.Bisimilar true 4 9 ∧
    (brackets.equal false 9 4).result = .ok true := by
  have hf : ∀ root, brackets.LoopFree root :=
    loopFree_of_rank (fun id => if id ∈ [2, 5, 10] then 1 else 0) fun id next h => by
      obtain ⟨hid, hnext⟩ := inner?_brackets h
      rw [if_pos hid, if_neg hnext]
      exact Nat.zero_lt_one
  have hl : (brackets.equal false 4 9).result = .ok true := by rfl
  have hs : (brackets.equal true 4 9).result = .ok false := by rfl
  obtain ⟨hd, -, hsymm, -⟩ := equality_is_bisimilarity (hf 4) (hf 9)
  obtain ⟨r, hr, hb⟩ := hd false
  obtain ⟨r', hr', hb'⟩ := hd true
  cases hl.symm.trans hr
  cases hs.symm.trans hr'
  exact ⟨hb.mp rfl, fun h => Bool.false_ne_true (hb'.mpr h), hsymm false hl⟩

end Rulebook

end FurthestMatch
