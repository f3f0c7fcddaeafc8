import FurthestMatch.Proofs.Decision
import FurthestMatch.Proofs.Simulation
import FurthestMatch.Report

/-!
# Equal grammars match alike

Nodes that a comparison finds equal are bisimilar. The pairs of a bisimulation, strict or not, are justified by each
other, so they make up a simulation in both directions.
-/

namespace FurthestMatch

namespace Rulebook

variable {b : Rulebook} {A : NodeId → NodeId → Prop}

def Paired (b : Rulebook) (A : NodeId → NodeId → Prop) (x y : NodeId) : Prop :=
  ∃ x' y', b.Leads x x' ∧ b.Leads y y' ∧ (x' = y' ∨ A x' y')

def Justified (b : Rulebook) (A : NodeId → NodeId → Prop) (x y : NodeId) : Prop :=
  (∃ x' y', b.inner? x = some x' ∧ b.inner? y = some y' ∧ b.Paired A x' y') ∨
    b.inner? x = none ∧ b.inner? y = none ∧ (b.node x).Alike (b.Paired A) (b.node y)

theorem Paired.flip {x y : NodeId} (h : b.Paired A x y) : b.Paired (flip A) y x := by
  obtain ⟨x', y', hx, hy, h⟩ := h
  exact ⟨y', x', hy, hx, h.imp Eq.symm id⟩

theorem Justified.flip {x y : NodeId} (h : b.Justified A x y) : b.Justified (flip A) y x := by
  rcases h with ⟨x', y', hx, hy, h⟩ | ⟨hx, hy, h⟩
  · exact .inl ⟨y', x', hy, hx, h.flip⟩
  · exact .inr ⟨hy, hx, h.symm.mono fun _ _ h => Paired.flip h⟩

theorem Paired.of_leads {x y y' : NodeId} (hl : b.Leads y y') (h : b.Paired A x y') : b.Paired A x y := by
  obtain ⟨x'', y'', hx, hy, h⟩ := h
  exact ⟨x'', y'', hx, hl.trans hy, h⟩

theorem Paired.refl (x : NodeId) : b.Paired A x x :=
  ⟨x, x, .refl x, .refl x, .inl rfl⟩

theorem isSimulation_paired (h : ∀ x y, A x y → b.Justified A x y) : b.IsSimulation (b.Paired A) := by
  rintro x y ⟨x', y', hx, hy, hxy⟩
  cases hx with
  | step hi hx => exact .inl ⟨_, hi, x', y', hx, hy, hxy⟩
  | refl =>
    rcases hxy with rfl | hA
    · cases hi : b.inner? x with
      | some x' => exact .inl ⟨x', rfl, .of_leads (hy.trans (.step hi (.refl _))) (.refl x')⟩
      | none => exact .inr ⟨rfl, x, hy, alike_refl hi .refl⟩
    · rcases h x y' hA with ⟨x'', y'', hi, hi', hp⟩ | ⟨hi, -, ha⟩
      · exact .inl ⟨x'', hi, .of_leads (hy.trans (.step hi' (.refl _))) hp⟩
      · exact .inr ⟨hi, y', hy, ha⟩

/-! ## Bisimilar nodes -/

theorem Pairs.paired {strict : Bool} {x y : NodeId} (h : b.Pairs strict A x y) : b.Paired A x y := by
  obtain ⟨x', y', hx, hy, h⟩ := h
  exact ⟨x', y', hx.leads, hy.leads, .inr h⟩

theorem Congruent.justified {x y : NodeId} (h : b.Congruent (b.Paired A) x y) : b.Justified A x y := by
  have hs := inner?_isSome_of_head h.head
  have hp := h.beneath
  cases hx : b.inner? x with
  | some x' =>
    rw [hx] at hs
    obtain ⟨y', hy⟩ := Option.isSome_iff_exists.mp hs.symm
    rw [beneath_of_inner? hx, beneath_of_inner? hy, List.forall₂_cons] at hp
    exact .inl ⟨x', y', hx, hy, hp.1⟩
  | none =>
    rw [hx] at hs
    have hy : b.inner? y = none := Option.not_isSome_iff_eq_none.mp (by rw [← hs]; exact Bool.false_ne_true)
    rw [Rulebook.beneath, Rulebook.beneath, hx, hy, Option.toList_none, List.append_nil, List.append_nil] at hp
    exact .inr ⟨hx, hy, alike_of_head h.head hx hp⟩

/-- The pairs of a bisimulation are justified by each other. -/
theorem Bisimilar.exists_justified {strict : Bool} {x y : NodeId} (h : b.Bisimilar strict x y) :
    ∃ A : NodeId → NodeId → Prop, (∀ x y, A x y → b.Justified A x y) ∧ b.Paired A x y := by
  obtain ⟨R, hR, hp⟩ := h
  refine ⟨R, fun x y hxy => ?_, hp.paired⟩
  rcases hR x y hxy with rfl | hc
  · cases hi : b.inner? x with
    | some x' => exact .inl ⟨x', x', hi, hi, .refl x'⟩
    | none => exact .inr ⟨hi, hi, alike_refl hi .refl⟩
  · exact (hc.mono fun _ _ => Pairs.paired).justified

/-! ## Names and references -/

/-- Whatever stands for the first node is matched by a node that stands for the second, with related children. -/
def Mirrors (b : Rulebook) (W : NodeId → NodeId → Prop) (x y : NodeId) : Prop :=
  ∀ x', b.Resolves x x' → ∃ y', b.Resolves y y' ∧ (b.node x').Alike W (b.node y')

theorem mirrors_of_resolves {W : NodeId → NodeId → Prop} {x x' y y' : NodeId} (hx : b.Resolves x x')
    (hy : b.Resolves y y') (h : (b.node x').Alike W (b.node y')) : b.Mirrors W x y := by
  intro last hl
  rw [← hx.unique hl]
  exact ⟨y', hy, h⟩

theorem isSimulation_mirrors {W : NodeId → NodeId → Prop} (h : ∀ x y, W x y → b.Mirrors W x y) :
    b.IsSimulation (b.Mirrors W) := by
  intro x y hxy
  cases hi : b.inner? x with
  | some x' => exact .inl ⟨x', rfl, fun last hl => hxy last (.of_leads (.step hi (.refl _)) hl)⟩
  | none =>
    obtain ⟨y', hy, ha⟩ := hxy x (.refl hi)
    exact .inr ⟨rfl, y', hy.leads, ha.mono h⟩

end Rulebook

/-! ## Matching alike -/

/-- Outcomes that differ at most in the nodes along the path of the furthest leaf match. -/
structure Outcome.Agrees (o o' : Outcome) : Prop where
  succeeded : o.succeeded = o'.succeeded
  value : o.value = o'.value
  cursor : o.cursor = o'.cursor
  reach : o.reach = o'.reach
  isSome_best : o.best.isSome = o'.best.isSome
  slots : (o.best.map fun f => f.path.map Step.slot) = o'.best.map fun f => f.path.map Step.slot

theorem Outcome.Related.agrees {o o' : Outcome} (h : o.SeenAlike o') : o.Agrees o' :=
  ⟨h.succeeded, h.value, h.cursor, h.best.reach_eq, h.best.isSome_eq, h.best.slots_eq⟩

namespace Rulebook

variable {b : Rulebook} {x y : NodeId}

/-- At every place of every text both matches come to an end or neither does, and they agree. -/
def MatchAlike (b : Rulebook) (x y : NodeId) : Prop :=
  ∀ (text : Text) (offset : Nat),
    ((∃ depth o, (b.matchWithin depth x text offset).result = .ok o) ↔
      ∃ depth o, (b.matchWithin depth y text offset).result = .ok o) ∧
    ∀ depth depth' o o', (b.matchWithin depth x text offset).result = .ok o →
      (b.matchWithin depth' y text offset).result = .ok o' → o.Agrees o'

theorem IsSimulation.exists_seenAlike {R : NodeId → NodeId → Prop} (hR : b.IsSimulation R) (h : R x y) {text : Text}
    {offset depth : Nat} {o : Outcome} (ho : (b.matchWithin depth x text offset).result = .ok o) :
    ∃ o' leaves, Course text b (.node y) (Path.root y) (Cursor.ofOffset text offset) o' leaves ∧ o.SeenAlike o' := by
  obtain ⟨_, c⟩ := course_of_matchNode ho
  exact c.simulated R hR (.node y) (Path.root y) (.node h) rfl

theorem IsSimulation.exists_matchWithin {R : NodeId → NodeId → Prop} (hR : b.IsSimulation R) (h : R x y) {text : Text}
    {offset : Nat} : (∃ depth o, (b.matchWithin depth x text offset).result = .ok o) →
      ∃ depth o, (b.matchWithin depth y text offset).result = .ok o
  | ⟨_, _, ho⟩ =>
    have ⟨o', _, c, _⟩ := hR.exists_seenAlike h ho
    have ⟨depth, hd⟩ := c.settles.matchNode
    ⟨depth, o', hd depth (Nat.le_refl _)⟩

theorem matchAlike_of_isSimulation {R R' : NodeId → NodeId → Prop} (hR : b.IsSimulation R) (hR' : b.IsSimulation R')
    (h : R x y) (h' : R' y x) : b.MatchAlike x y := by
  refine fun text offset => ⟨⟨hR.exists_matchWithin h, hR'.exists_matchWithin h'⟩, fun depth depth' o o' ho ho' => ?_⟩
  obtain ⟨o'', _, c, hs⟩ := hR.exists_seenAlike h ho
  obtain ⟨_, c'⟩ := course_of_matchNode ho'
  rw [(c.unique c').1]
  exact hs.agrees

/-- Nodes that a comparison finds equal match alike, and so do nodes that differ in names and references only. -/
theorem equal_nodes_match_alike :
    (∀ depth strict, (b.equalWithin depth strict x y).result = .ok true → b.MatchAlike x y) ∧
    ∀ W : NodeId → NodeId → Prop, (∀ x y, W x y → b.Mirrors W x y ∧ b.Mirrors (flip W) y x) → W x y →
      b.MatchAlike x y := by
  refine ⟨fun depth strict h => ?_, fun W hW h => ?_⟩
  · obtain ⟨A, hA, hp⟩ := (bisimilar_of_equalWithin h).exists_justified
    have hflip : ∀ x y, flip A x y → b.Justified (flip A) x y := fun x y h => (hA y x h).flip
    exact matchAlike_of_isSimulation (isSimulation_paired hA) (isSimulation_paired hflip) hp hp.flip
  · have hflip : ∀ x y, flip W x y → b.Mirrors (flip W) x y := fun x y h => (hW y x h).2
    have hW' : ∀ x y, W x y → b.Mirrors W x y := fun x y h => (hW x y h).1
    exact matchAlike_of_isSimulation (isSimulation_mirrors hW') (isSimulation_mirrors hflip) (hW x y h).1 (hW x y h).2

def letters : Rulebook where
  graph := { nodes := #[.literal "a", .deferred (.node 3), .sequence [0, 1], .choice [2, 0],
    .named 0 "letter", .deferred (.node 8), .sequence [4, 5], .named 6 "more", .choice [7, 4]] }

theorem letters_match_alike :
    (letters.equalWithin 9 false 3 8).result = .ok true ∧ letters.MatchAlike 3 8 ∧ letters.MatchAlike 1 5 := by
  have h : (letters.equalWithin 9 false 3 8).result = .ok true := by rfl
  refine ⟨h, equal_nodes_match_alike.1 9 false h,
    equal_nodes_match_alike.2 (fun x y => (x, y) ∈ [(0, 4), (1, 5), (2, 7), (3, 8)]) (fun x y hxy => ?_) (by decide)⟩
  have r₀ : letters.Resolves 0 0 := .refl rfl
  have r₂ : letters.Resolves 2 2 := .refl rfl
  have r₃ : letters.Resolves 3 3 := .refl rfl
  have r₄ : letters.Resolves 4 0 := .of_leads (.step rfl (.refl _)) r₀
  have r₇ : letters.Resolves 7 6 := .of_leads (.step rfl (.refl _)) (.refl rfl)
  have r₈ : letters.Resolves 8 8 := .refl rfl
  have r₁ : letters.Resolves 1 3 := .of_leads (.step rfl (.refl _)) r₃
  have r₅ : letters.Resolves 5 8 := .of_leads (.step rfl (.refl _)) r₈
  simp only [List.mem_cons, Prod.mk.injEq, List.not_mem_nil, or_false] at hxy
  obtain ⟨rfl, rfl⟩ | ⟨rfl, rfl⟩ | ⟨rfl, rfl⟩ | ⟨rfl, rfl⟩ := hxy
  · exact ⟨mirrors_of_resolves r₀ r₄ .literal, mirrors_of_resolves r₄ r₀ .literal⟩
  · exact ⟨mirrors_of_resolves r₁ r₅ (.choice (by simp)), mirrors_of_resolves r₅ r₁ (.choice (by simp [flip]))⟩
  · exact ⟨mirrors_of_resolves r₂ r₇ (.sequence (by simp)), mirrors_of_resolves r₇ r₂ (.sequence (by simp [flip]))⟩
  · exact ⟨mirrors_of_resolves r₃ r₈ (.choice (by simp)), mirrors_of_resolves r₈ r₃ (.choice (by simp [flip]))⟩

end Rulebook

end FurthestMatch
