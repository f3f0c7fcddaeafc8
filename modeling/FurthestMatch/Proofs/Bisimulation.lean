import FurthestMatch.Grammar.Equality
import FurthestMatch.Proofs.Drawable
import Mathlib.Data.List.Forall2

/-!
# Bisimulations between nodes

A bisimulation pairs nodes that are identical, or of the same kind and with the same data of their own, and then the
nodes just below them are paired as well. A strict one takes names and references for nodes like any other; one that
is not looks through them on both sides.
-/

namespace FurthestMatch

inductive Head where
  | literal (text : String)
  | pattern (source : String) (capture : Capture)
  | always
  | never
  | sequence
  | choice
  | times (least : Nat) (most : Option Nat)
  | map (mapper : MapperId)
  | chain (next : ContinuationId)
  | look (polarity : Polarity)
  | deferred
  | named (label : String)
deriving DecidableEq, Repr

def Node.head : Node → Head
  | .literal text => .literal text
  | .pattern leaf => .pattern leaf.source leaf.capture
  | .always => .always
  | .never => .never
  | .sequence _ => .sequence
  | .choice _ => .choice
  | .times _ least most => .times least most
  | .map _ mapper => .map mapper
  | .chain _ next => .chain next
  | .look _ polarity => .look polarity
  | .deferred _ => .deferred
  | .named _ label => .named label

namespace Rulebook

variable {b : Rulebook} {strict : Bool} {R S : NodeId → NodeId → Prop} {x y z : NodeId}

def beneath (b : Rulebook) (id : NodeId) : List NodeId :=
  (b.node id).children ++ (b.inner? id).toList

/-- Two nodes of the same kind and data, with related nodes below them. -/
structure Congruent (b : Rulebook) (R : NodeId → NodeId → Prop) (x y : NodeId) : Prop where
  head : (b.node x).head = (b.node y).head
  beneath : List.Forall₂ R (b.beneath x) (b.beneath y)

/-- The node that counts where another stands: itself in a strict comparison, in any other what it resolves to. -/
def StandsFor (b : Rulebook) (strict : Bool) (id last : NodeId) : Prop :=
  if strict then last = id else b.Resolves id last

def Pairs (b : Rulebook) (strict : Bool) (R : NodeId → NodeId → Prop) (x y : NodeId) : Prop :=
  ∃ x' y', b.StandsFor strict x x' ∧ b.StandsFor strict y y' ∧ R x' y'

def IsBisimulation (b : Rulebook) (strict : Bool) (R : NodeId → NodeId → Prop) : Prop :=
  ∀ x y, R x y → x = y ∨ b.Congruent (b.Pairs strict R) x y

/-- Some bisimulation pairs the two nodes. -/
def Bisimilar (b : Rulebook) (strict : Bool) (x y : NodeId) : Prop :=
  ∃ R, b.IsBisimulation strict R ∧ b.Pairs strict R x y

/-! ## Congruent nodes -/

theorem Congruent.mono (h : b.Congruent R x y) (hRS : ∀ c d, R c d → S c d) : b.Congruent S x y :=
  ⟨h.head, h.beneath.imp hRS⟩

theorem Congruent.symm (h : b.Congruent R x y) : b.Congruent (flip R) y x :=
  ⟨h.head.symm, h.beneath.flip⟩

theorem forall₂_trans {T : NodeId → NodeId → Prop} (hT : ∀ x y z, R x y → S y z → T x z) :
    ∀ {xs ys zs : List NodeId}, List.Forall₂ R xs ys → List.Forall₂ S ys zs → List.Forall₂ T xs zs
  | _, _, _, .nil, .nil => .nil
  | _, _, _, .cons h hs, .cons h' hs' => .cons (hT _ _ _ h h') (forall₂_trans hT hs hs')

theorem Congruent.trans {T : NodeId → NodeId → Prop} (h : b.Congruent R x y) (h' : b.Congruent S y z)
    (hT : ∀ x y z, R x y → S y z → T x z) : b.Congruent T x z :=
  ⟨h.head.trans h'.head, forall₂_trans hT h.beneath h'.beneath⟩

/-! ## What stands for a node -/

theorem StandsFor.unique {last last' : NodeId} (h : b.StandsFor strict x last) (h' : b.StandsFor strict x last') :
    last = last' := by
  unfold StandsFor at h h'
  split at h
  · rename_i hs
    rw [if_pos hs] at h'
    rw [h, h']
  · rename_i hs
    rw [if_neg hs] at h'
    exact h.unique h'

theorem Pairs.mono (h : b.Pairs strict R x y) (hRS : ∀ c d, R c d → S c d) : b.Pairs strict S x y := by
  obtain ⟨x', y', hx, hy, h⟩ := h
  exact ⟨x', y', hx, hy, hRS x' y' h⟩

theorem Pairs.symm (h : b.Pairs strict R x y) : b.Pairs strict (flip R) y x := by
  obtain ⟨x', y', hx, hy, h⟩ := h
  exact ⟨y', x', hy, hx, h⟩

theorem Pairs.trans {T : NodeId → NodeId → Prop} (h : b.Pairs strict R x y) (h' : b.Pairs strict S y z)
    (hT : ∀ x y z, R x y → S y z → T x z) : b.Pairs strict T x z := by
  obtain ⟨x', y', hx, hy, h⟩ := h
  obtain ⟨y'', z', hy', hz, h'⟩ := h'
  rw [hy'.unique hy] at h'
  exact ⟨x', z', hx, hz, hT x' y' z' h h'⟩

theorem pairs_strict : b.Pairs true R x y ↔ R x y := by
  constructor
  · rintro ⟨x', y', hx, hy, h⟩
    cases hx
    cases hy
    exact h
  · intro h
    exact ⟨x, y, rfl, rfl, h⟩

/-! ## Nodes inside a grammar -/

theorem Inside.beneath {root child : NodeId} (h : b.Inside root x) (hc : child ∈ b.beneath x) : b.Inside root child := by
  rcases List.mem_append.mp hc with hc | hc
  · exact h.child hc
  · exact h.inner (Option.mem_toList.mp hc)

theorem Inside.trans {root id : NodeId} (h : b.Inside root id) (h' : b.Inside id x) : b.Inside root x := by
  induction h' with
  | root => exact h
  | inner _ hi ih => exact ih.inner hi
  | child _ hc ih => exact ih.child hc

theorem Grounded.inside {root : NodeId} (hg : b.Grounded root) (h : b.Inside root x) : b.Grounded x :=
  fun _ hi => hg _ (h.trans hi)

theorem exists_standsFor (h : (b.resolve x).Answers) (strict : Bool) : ∃ last, b.StandsFor strict x last := by
  cases strict with
  | true => exact ⟨x, rfl⟩
  | false =>
    obtain ⟨last, hl⟩ := h.answers
    exact ⟨last, resolves_of_resolve hl⟩

/-! ## The greatest bisimulation is an equivalence -/

theorem IsBisimulation.symm (hR : b.IsBisimulation strict R) : b.IsBisimulation strict (flip R) := by
  intro x y h
  rcases hR y x h with he | hc
  · exact .inl he.symm
  · exact .inr (hc.symm.mono fun c d h => h.symm)

theorem IsBisimulation.trans (hR : b.IsBisimulation strict R) (hS : b.IsBisimulation strict S) :
    b.IsBisimulation strict fun x z => R x z ∨ S x z ∨ ∃ y, R x y ∧ S y z := by
  intro x z h
  have left {x y} (h : R x y) := hR x y h
  have right {x y} (h : S x y) := hS x y h
  rcases h with h | h | ⟨y, h, h'⟩
  · exact (left h).imp_right fun hc => hc.mono fun c d hp => hp.mono fun _ _ => .inl
  · exact (right h).imp_right fun hc => hc.mono fun c d hp => hp.mono fun _ _ h => .inr (.inl h)
  · rcases left h with rfl | hc
    · exact (right h').imp_right fun hc => hc.mono fun c d hp => hp.mono fun _ _ h => .inr (.inl h)
    rcases right h' with rfl | hc'
    · exact .inr (hc.mono fun c d hp => hp.mono fun _ _ => .inl)
    · refine .inr (hc.trans hc' fun c d e hcd hde => hcd.trans hde fun c d e hcd hde => ?_)
      exact .inr (.inr ⟨d, hcd, hde⟩)

theorem Bisimilar.refl (h : (b.resolve x).Answers) : b.Bisimilar strict x x := by
  obtain ⟨last, hl⟩ := exists_standsFor h strict
  exact ⟨Eq, fun _ _ he => .inl he, last, last, hl, hl, rfl⟩

theorem Bisimilar.symm (h : b.Bisimilar strict x y) : b.Bisimilar strict y x := by
  obtain ⟨R, hR, hp⟩ := h
  exact ⟨flip R, hR.symm, hp.symm⟩

theorem Bisimilar.trans (h : b.Bisimilar strict x y) (h' : b.Bisimilar strict y z) : b.Bisimilar strict x z := by
  obtain ⟨R, hR, hp⟩ := h
  obtain ⟨S, hS, hp'⟩ := h'
  exact ⟨_, hR.trans hS, hp.trans hp' fun _ y _ hxy hyz => .inr (.inr ⟨y, hxy, hyz⟩)⟩

/-! ## Strictly bisimilar nodes are bisimilar -/

theorem beneath_of_inner? {next : NodeId} (hi : b.inner? x = some next) : b.beneath x = [next] := by
  have hc : (b.node x).children = [] := by
    rw [inner?] at hi
    split at hi
    · rw [‹b.node x = _›]
      rfl
    · rw [‹b.node x = _›]
      rfl
    · cases hi
  rw [beneath, hc, hi]
  rfl

theorem inner?_isSome_of_head (h : (b.node x).head = (b.node y).head) : (b.inner? x).isSome = (b.inner? y).isSome := by
  unfold inner?
  cases hx : b.node x <;> cases hy : b.node y <;> rw [hx, hy] at h <;> first | rfl | cases h

theorem StandsFor.leads {last : NodeId} (h : b.StandsFor strict x last) : b.Leads x last := by
  unfold StandsFor at h
  split at h
  · rw [h]
    exact .refl x
  · exact Resolves.leads h

/-- Nodes that are paired strictly lead to nodes that are paired, or to a node that is the same. -/
theorem IsBisimulation.resolves (hR : b.IsBisimulation true R) {last : NodeId} (h : R x y) (hl : b.Leads x last)
    (he : b.inner? last = none) : ∃ last', b.Resolves y last' ∧ (last = last' ∨ R last last') := by
  induction hl generalizing y with
  | refl id =>
    rcases hR id y h with rfl | hc
    · exact ⟨id, .refl he, .inl rfl⟩
    · have hy : b.inner? y = none := by
        have hs := inner?_isSome_of_head hc.head
        rw [he] at hs
        exact Option.not_isSome_iff_eq_none.mp (by rw [← hs]; exact Bool.false_ne_true)
      exact ⟨y, .refl hy, .inr h⟩
  | @step id next last hi hl ih =>
    rcases hR id y h with rfl | hc
    · exact ⟨last, ⟨.step hi hl, he⟩, .inl rfl⟩
    · have hs := inner?_isSome_of_head hc.head
      rw [hi] at hs
      obtain ⟨next', hi'⟩ := Option.isSome_iff_exists.mp hs.symm
      have hp := hc.beneath
      rw [beneath_of_inner? hi, beneath_of_inner? hi', List.forall₂_cons] at hp
      obtain ⟨last', hr, hlast⟩ := ih (pairs_strict.mp hp.1) he
      exact ⟨last', .of_leads (.step hi' (.refl _)) hr, hlast⟩

theorem forall₂_of_mem {xs ys : List NodeId} (h : List.Forall₂ R xs ys) (hRS : ∀ x y, x ∈ xs → R x y → S x y) :
    List.Forall₂ S xs ys := by
  induction h with
  | nil => exact .nil
  | cons h _ ih =>
    exact .cons (hRS _ _ List.mem_cons_self h) (ih fun x y hx => hRS x y (List.mem_cons_of_mem _ hx))

theorem Bisimilar.of_strict (hg : b.Grounded x) (h : b.Bisimilar true x y) : b.Bisimilar false x y := by
  obtain ⟨R, hR, hp⟩ := h
  have look (c d : NodeId) (hc : b.Inside x c) (hcd : R c d) :
      b.Pairs false (fun c d => b.Inside x c ∧ (c = d ∨ R c d)) c d := by
    obtain ⟨last, hl⟩ := (hg c hc).answers
    have hr := resolves_of_resolve hl
    obtain ⟨last', hr', he⟩ := hR.resolves hcd hr.leads hr.ends
    exact ⟨last, last', hr, hr', hc.leads hr.leads, he⟩
  refine ⟨fun c d => b.Inside x c ∧ (c = d ∨ R c d), ?_, look x y .root (pairs_strict.mp hp)⟩
  rintro c d ⟨hc, rfl | hcd⟩
  · exact .inl rfl
  · refine (hR c d hcd).imp_right fun hcon => ⟨hcon.head, forall₂_of_mem hcon.beneath fun e f he hef => ?_⟩
    exact look e f (hc.beneath he) (pairs_strict.mp hef)

end Rulebook

end FurthestMatch
