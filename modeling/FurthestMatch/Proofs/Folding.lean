import FurthestMatch.Proofs.Outermost

/-!
# Folded trails

Folding a trail leaves a trail with the same ends in which no node stands twice. Two such trails from one root agree,
steps of wrappers skipped, only when they are the same: a skipped wrapper would fill the slot of the step just
inside, so it would be the node of that step again.
-/

namespace FurthestMatch

namespace Rulebook

variable {b : Rulebook} {root : NodeId}

/-! ## Folding -/

theorem trail_iff {steps : List Step} : Trail b root steps ↔
    Descends b.Fills steps ∧ ∃ id, b.Resolves root id ∧ steps.getLast? = some ⟨id, 0⟩ := by
  constructor
  · intro h
    induction h with
    | root h => exact ⟨.singleton _, _, h, rfl⟩
    | child _ hf ih =>
      obtain ⟨hc, id, hr, hl⟩ := ih
      exact ⟨.cons_cons hf hc, id, hr, List.getLast?_cons_cons.trans hl⟩
  · rintro ⟨hc, id, hr, hl⟩
    induction steps with
    | nil => cases hl
    | cons s steps ih =>
      cases steps with
      | nil => cases hl; exact .root hr
      | cons t steps =>
        obtain ⟨hf, hc⟩ := List.isChain_cons_cons.mp hc
        exact .child (ih hc (List.getLast?_cons_cons.symm.trans hl)) hf

theorem Trail.foldRecursion {steps : List Step} (h : Trail b root steps) :
    ∃ s outside s' outside', steps = s :: outside ∧ FurthestMatch.foldRecursion steps = s' :: outside' ∧
      s'.node = s.node ∧ Trail b root (s' :: outside') := by
  have hfolds := folds_foldRecursion steps
  obtain ⟨hc, id, hr, hl⟩ := trail_iff.mp h
  have h' := trail_iff.mpr ⟨hfolds.descends hc, id, hr, hfolds.getLast?_eq.trans hl⟩
  have hhead := hfolds.head?_eq
  cases steps with
  | nil => cases h
  | cons s outside =>
    cases hfolded : FurthestMatch.foldRecursion (s :: outside) with
    | nil => rw [hfolded] at h'; cases h'
    | cons s' outside' =>
      rw [hfolded] at hhead h'
      exact ⟨s, outside, s', outside', rfl, rfl, Option.some.inj hhead, h'⟩

theorem Trail.lastAt?_eq_none {s : Step} {outside : List Step} (h : Trail b root (s :: outside))
    (hc : (b.node s.node).children = []) : lastAt? s.node outside = none := by
  cases hl : lastAt? s.node outside with
  | none => rfl
  | some found =>
    obtain ⟨hn, -, inside, rfl⟩ := lastAt?_eq_some hl
    have hne := h.children_ne_nil found.1 (List.mem_append_right _ List.mem_cons_self)
    rw [hn] at hne
    exact absurd hc hne

/-! ## Agreement -/

/-- The drawn steps are the innermost ones of those reached, except that the outermost of them may fill another slot. -/
def Opens (drawn reached : List Step) : Prop :=
  ∃ inside d r outside, drawn = inside ++ [d] ∧ reached = inside ++ r :: outside ∧ d.node = r.node

section
variable {d d' r : Step} {drawn reached : List Step}

theorem opens_singleton : Opens [d] (r :: reached) ↔ d.node = r.node := by
  constructor
  · rintro ⟨_ | ⟨_, inside⟩, _, _, _, hd, hr, hn⟩
    · cases hd
      cases hr
      exact hn
    · cases inside <;> cases hd
  · exact fun h => ⟨[], d, r, reached, rfl, rfl, h⟩

theorem opens_cons : Opens (d :: d' :: drawn) (r :: reached) ↔ d = r ∧ Opens (d' :: drawn) reached := by
  constructor
  · rintro ⟨_ | ⟨_, inside⟩, last, r', outside, hd, hr, hn⟩
    · cases hd
    · rw [List.cons_append, List.cons.injEq] at hd hr
      exact ⟨hd.1.trans hr.1.symm, inside, last, r', outside, hd.2, hr.2, hn⟩
  · rintro ⟨rfl, inside, last, r', outside, hd, hr, hn⟩
    exact ⟨d :: inside, last, r', outside, by rw [hd]; rfl, by rw [hr]; rfl, hn⟩

theorem not_opens_nil : ¬Opens drawn [] := by
  rintro ⟨inside, _, _, _, -, hr, -⟩
  cases inside <;> cases hr

theorem node_eq_of_aligned (h : aligned (d :: drawn) (r :: reached) = true) : d.node = r.node := by
  cases drawn with
  | nil => exact eq_of_beq h
  | cons => exact congrArg Step.node (eq_of_beq h)

theorem cons_of_aligned (h : aligned drawn reached = true) :
    ∃ d drawn' r reached', drawn = d :: drawn' ∧ reached = r :: reached' ∧ d.node = r.node := by
  cases drawn with
  | nil => cases reached <;> cases h
  | cons d drawn =>
    cases reached with
    | nil => cases drawn <;> cases h
    | cons r reached => exact ⟨d, drawn, r, reached, rfl, rfl, node_eq_of_aligned h⟩

theorem aligned_of_opens (h : Opens drawn reached) : aligned drawn reached = true := by
  match drawn, reached, h with
  | [d], r :: reached, h => exact beq_iff_eq.mpr (opens_singleton.mp h)
  | d :: d' :: drawn, r :: reached, h => exact beq_iff_eq.mpr (opens_cons.mp h).1
  | _, [], h => exact absurd h not_opens_nil
  | [], _ :: _, ⟨inside, _, _, _, hd, _⟩ => cases inside <;> cases hd

end

theorem skipWrappers?_eq_some {slot count : Nat} {steps outer : List Step}
    (h : b.skipWrappers? slot count steps = some outer) :
    ∃ inside s t outside, steps = inside ++ s :: outer ∧ s.slot = slot ∧ outer = t :: outside := by
  fun_induction skipWrappers? b slot count steps with
  | case1 => cases h
  | case2 s t outside hs => cases h; exact ⟨[], s, t, outside, rfl, hs.2, rfl⟩
  | case3 => cases h
  | case4 count s outside _ _ ih =>
    obtain ⟨inside, s', t, outside', rfl, hs, ht⟩ := ih h
    exact ⟨s :: inside, s', t, outside', rfl, hs, ht⟩
  | case5 => cases h
  | case6 => cases h

/-- Realigned steps are aligned, and at most one row of them has been shortened. -/
theorem realign?_eq_some {s t : Step} {drawn reached drawn' reached' : List Step}
    (h : b.realign? s t drawn reached = some (drawn', reached')) :
    aligned drawn' reached' = true ∧ (drawn' = drawn ∧ reached' = reached ∨
      (∃ count, b.skipWrappers? t.slot count drawn = some drawn' ∧ reached' = reached) ∨
      ∃ count, b.skipWrappers? s.slot count reached = some reached' ∧ drawn' = drawn) := by
  obtain ⟨candidate, hc, hs⟩ := List.exists_of_findSome?_eq_some h
  split at hs
  · split at hs
    · rename_i d r ha
      cases hs
      refine ⟨ha, ?_⟩
      have hdrawn (count : Nat)
          (hc : some (drawn', reached') = (b.skipWrappers? t.slot count drawn).map fun d => (d, reached)) :
          b.skipWrappers? t.slot count drawn = some drawn' ∧ reached' = reached := by
        obtain ⟨_, ho, he⟩ := Option.map_eq_some_iff.mp hc.symm
        cases he
        exact ⟨ho, rfl⟩
      have hreached (count : Nat)
          (hc : some (drawn', reached') = (b.skipWrappers? s.slot count reached).map fun r => (drawn, r)) :
          b.skipWrappers? s.slot count reached = some reached' ∧ drawn' = drawn := by
        obtain ⟨_, ho, he⟩ := Option.map_eq_some_iff.mp hc.symm
        cases he
        exact ⟨ho, rfl⟩
      simp only [List.mem_cons, List.not_mem_nil, or_false] at hc
      rcases hc with hc | hc | hc | hc | hc
      · cases hc
        exact .inl ⟨rfl, rfl⟩
      · exact .inr (.inl ⟨1, hdrawn 1 hc⟩)
      · exact .inr (.inr ⟨1, hreached 1 hc⟩)
      · exact .inr (.inl ⟨2, hdrawn 2 hc⟩)
      · exact .inr (.inr ⟨2, hreached 2 hc⟩)
    · cases hs
  · cases hs

theorem realign?_of_aligned {s t : Step} {drawn reached : List Step} (h : aligned drawn reached = true) :
    b.realign? s t drawn reached = some (drawn, reached) := by
  simp only [realign?, List.findSome?_cons, h, if_true]

theorem realign?_nil (s t : Step) (reached : List Step) : b.realign? s t [] reached = none := by
  cases h : b.realign? s t [] reached with
  | none => rfl
  | some rows =>
    obtain ⟨ha, ⟨hd, -⟩ | ⟨_, ho, -⟩ | ⟨_, -, hd⟩⟩ := realign?_eq_some h
    · rw [hd] at ha
      cases ha
    · obtain ⟨inside, _, _, _, he, -⟩ := skipWrappers?_eq_some ho
      cases inside <;> cases he
    · rw [hd] at ha
      cases ha

section
variable {root' : NodeId} {s : Step} {drawn reached : List Step} (hd : Trail b root (s :: drawn))
  (hd' : ((s :: drawn).map Step.node).Nodup) (hr : Trail b root' (s :: reached))

/-- No step of a trail without repeated nodes fills the slot of the innermost one in a node in which the innermost
one stands too. -/
theorem Trail.not_skipped {t w r : Step} {inside outer : List Step}
    (hd : Trail b root (s :: (inside ++ w :: r :: outer)))
    (hd' : ((s :: (inside ++ w :: r :: outer)).map Step.node).Nodup)
    (hr : Trail b root' (s :: t :: reached)) (hs : w.slot = s.slot) (hn : r.node = t.node) : False := by
  rw [← List.cons_append] at hd
  have hf : b.Fills w.node s.slot t.node := hs ▸ hn ▸ hd.of_append.fills
  rw [List.map_cons, List.nodup_cons] at hd'
  exact hd'.1 (List.mem_map.mpr ⟨w, by simp, hf.unique hr.fills⟩)

include hd hd' hr

theorem Trail.not_aligned_of_skipWrappers? {outer : List Step} {count : Nat}
    (ho : b.skipWrappers? s.slot count drawn = some outer) :
    aligned outer reached ≠ true ∧ aligned reached outer ≠ true := by
  obtain ⟨inside, w, t, outside, rfl, hs, rfl⟩ := skipWrappers?_eq_some ho
  constructor
  · intro ha
    obtain ⟨_, _, r, _, he, rfl, ht⟩ := cons_of_aligned ha
    cases he
    exact Trail.not_skipped hd hd' hr hs ht
  · intro ha
    obtain ⟨r, _, _, _, rfl, he, ht⟩ := cons_of_aligned ha
    cases he
    exact Trail.not_skipped hd hd' hr hs ht.symm

variable (hr' : ((s :: reached).map Step.node).Nodup)
include hr'

theorem realign?_eq_of_trails :
    b.realign? s s drawn reached = if aligned drawn reached then some (drawn, reached) else none := by
  split
  · rename_i h
    exact realign?_of_aligned h
  · rename_i hna
    cases h : b.realign? s s drawn reached with
    | none => rfl
    | some rows =>
      obtain ⟨ha, ⟨he, he'⟩ | ⟨_, ho, he⟩ | ⟨_, ho, he⟩⟩ := realign?_eq_some h
      · rw [he, he'] at ha
        exact absurd ha hna
      · rw [he] at ha
        exact absurd ha (hd.not_aligned_of_skipWrappers? hd' hr ho).1
      · rw [he] at ha
        exact absurd ha (hr.not_aligned_of_skipWrappers? hr' hd ho).2

end

section
variable {root' : NodeId}

theorem agree_iff_opens : ∀ {s : Step} {drawn reached : List Step}, Trail b root (s :: drawn) →
    ((s :: drawn).map Step.node).Nodup → Trail b root' (s :: reached) → ((s :: reached).map Step.node).Nodup →
      (b.agree drawn.length s s drawn reached = true ↔ drawn = [] ∨ Opens drawn reached)
  | _, [], _, _, _, _, _ => by simp [agree]
  | _, _ :: _, [], _, _, _, _ => by simp [agree, not_opens_nil]
  | s, d :: drawn, r :: reached, hd, hd', hr, hr' => by
    rw [List.length_cons, agree, realign?_eq_of_trails hd hd' hr hr']
    by_cases ha : aligned (d :: drawn) (r :: reached) = true
    · rw [if_pos ha]
      -- the slot of the outermost drawn step is not compared
      cases drawn with
      | nil => simp [agree, opens_singleton, node_eq_of_aligned ha]
      | cons d' drawn =>
        obtain rfl : d = r := eq_of_beq ha
        rw [opens_cons]
        simpa using agree_iff_opens hd.tail (List.nodup_cons.mp hd').2 hr.tail (List.nodup_cons.mp hr').2
    · have hno : ¬Opens (d :: drawn) (r :: reached) := fun h => ha (aligned_of_opens h)
      simp [ha, hno]

variable {drawn reached : List Step} (hd : Trail b root drawn) (hd' : (drawn.map Step.node).Nodup)
  (hr : Trail b root' reached) (hr' : (reached.map Step.node).Nodup)
include hd hd' hr hr'

/-- A drawn trail agrees with a folded one of the same graph when its steps are the innermost ones there. -/
theorem matchesOccurrence_iff_opens : b.matchesOccurrence drawn reached = true ↔ Opens drawn reached := by
  constructor
  · intro h
    unfold matchesOccurrence at h
    rw [Bool.and_eq_true] at h
    obtain ⟨d, drawn, r, reached, rfl, rfl, hn⟩ := cons_of_aligned h.1
    cases drawn with
    | nil => exact opens_singleton.mpr hn
    | cons d' drawn =>
      obtain rfl : d = r := eq_of_beq h.1
      exact opens_cons.mpr ⟨rfl, ((agree_iff_opens hd hd' hr hr').mp h.2).resolve_left (List.cons_ne_nil _ _)⟩
  · intro h
    have ha := aligned_of_opens h
    obtain ⟨d, drawn, r, reached, rfl, rfl, -⟩ := cons_of_aligned ha
    rw [matchesOccurrence, ha, Bool.true_and]
    cases drawn with
    | nil => simp [agree]
    | cons d' drawn =>
      obtain ⟨rfl, ho⟩ := opens_cons.mp h
      exact (agree_iff_opens hd hd' hr hr').mpr (.inr ho)

end

theorem matchesOccurrence_iff {drawn reached : List Step} (hd : Trail b root drawn)
    (hd' : (drawn.map Step.node).Nodup) (hr : Trail b root reached) (hr' : (reached.map Step.node).Nodup) :
    b.matchesOccurrence drawn reached = true ↔ drawn = reached := by
  rw [matchesOccurrence_iff_opens hd hd' hr hr']
  constructor
  · rintro ⟨inside, d, r, outside, rfl, rfl, hn⟩
    obtain ⟨hi, hs⟩ := hd.of_append.resolves_of_singleton
    rw [List.map_append, List.nodup_append] at hr'
    obtain rfl := hr.of_append.eq_nil_of_root hr'.2.1 (hn ▸ hi)
    obtain ⟨-, hs'⟩ := hr.of_append.resolves_of_singleton
    obtain rfl : d = r := by
      cases d
      cases r
      simp_all
    rfl
  · rintro rfl
    obtain ⟨inside, id, -, rfl⟩ := hd.ends_with_root
    exact ⟨inside, ⟨id, 0⟩, ⟨id, 0⟩, [], rfl, rfl, rfl⟩

/-! ## The rows that are compared -/

/-- The rows of steps that are compared one after the other. The first two steps of either row have agreed, and those
outside them are realigned. -/
inductive Compared (b : Rulebook) (drawn reached : List Step) : List Step → List Step → Prop
  | start (h : aligned drawn reached = true) : Compared b drawn reached drawn reached
  | next {d r outer outer' rows} (h : Compared b drawn reached (d :: outer) (r :: outer'))
      (hr : b.realign? d r outer outer' = some rows) : Compared b drawn reached rows.1 rows.2

theorem suffix_of_skipWrappers? {slot count : Nat} {steps outer : List Step}
    (h : b.skipWrappers? slot count steps = some outer) : outer <:+ steps := by
  obtain ⟨inside, s, _, _, rfl, -⟩ := skipWrappers?_eq_some h
  exact ⟨inside ++ [s], by rw [List.append_assoc]; rfl⟩

theorem Compared.suffix {drawn reached outer outer' : List Step} (h : b.Compared drawn reached outer outer') :
    outer <:+ drawn ∧ outer' <:+ reached ∧ aligned outer outer' = true := by
  induction h with
  | start h => exact ⟨List.suffix_rfl, List.suffix_rfl, h⟩
  | @next d r outer outer' rows _ hr ih =>
    have hd := (List.suffix_cons d outer).trans ih.1
    have hr' := (List.suffix_cons r outer').trans ih.2.1
    obtain ⟨ha, ⟨he, he'⟩ | ⟨_, ho, he⟩ | ⟨_, ho, he⟩⟩ := realign?_eq_some hr
    · exact ⟨he ▸ hd, he' ▸ hr', ha⟩
    · exact ⟨(suffix_of_skipWrappers? ho).trans hd, he ▸ hr', ha⟩
    · exact ⟨he ▸ hd, (suffix_of_skipWrappers? ho).trans hr', ha⟩

theorem Trail.of_suffix {s : Step} {outer steps : List Step} (h : Trail b root steps) (hs : s :: outer <:+ steps) :
    Trail b root (s :: outer) := by
  obtain ⟨inside, rfl⟩ := hs
  exact h.of_append

/-- In one graph, the steps of a drawn occurrence without repeated nodes agree with the folded steps of a match, from
the same root or any other, when they are the innermost ones of these but for the slot of the outermost. No step is
skipped on either side, wherever the comparison has come to. -/
theorem occurrences_are_told_apart {b : Rulebook} {root root' : NodeId} {drawn steps : List Step}
    (hd : Trail b root drawn) (hn : (drawn.map Step.node).Nodup) (hs : Trail b root' steps) :
    (b.matchesOccurrence drawn (foldRecursion steps) = true ↔ Opens drawn (foldRecursion steps)) ∧
    ∀ d r outer outer', b.Compared drawn (foldRecursion steps) (d :: outer) (r :: outer') →
      b.realign? d r outer outer' = if aligned outer outer' then some (outer, outer') else none := by
  obtain ⟨_, _, _, _, -, hf, -, hr⟩ := hs.foldRecursion
  rw [← hf] at hr
  have hn' := nodup_foldRecursion steps
  refine ⟨matchesOccurrence_iff_opens hd hn hr hn', fun d r outer outer' hc => ?_⟩
  obtain ⟨hsd, hsr, ha⟩ := hc.suffix
  cases outer with
  | nil => exact realign?_nil d r outer'
  | cons d' outer =>
    obtain rfl : d = r := eq_of_beq ha
    exact realign?_eq_of_trails (hd.of_suffix hsd) (hn.sublist (hsd.map _).sublist) (hr.of_suffix hsr)
      (hn'.sublist (hsr.map _).sublist)

def listings : Rulebook where
  graph := { nodes := #[.literal "1", .map 0 0, .sequence [1, 3], .choice [2, 1], .sequence [0, 3]] }

/-- The second number in an enclosing rule is the single one in a drawing of the rule itself. -/
theorem single_of_listings :
    listings.matchesOccurrence [⟨0, 0⟩, ⟨1, 1⟩, ⟨3, 0⟩]
      (foldRecursion [⟨0, 0⟩, ⟨1, 1⟩, ⟨3, 1⟩, ⟨2, 0⟩, ⟨3, 1⟩, ⟨4, 0⟩]) = true := by
  have fills {s t : Step} (hc : (listings.node t.node).children[s.slot]? = some s.node)
      (hi : listings.inner? s.node = none) : listings.Fills s.node s.slot t.node := ⟨_, hc, .refl hi⟩
  have hd : Trail listings 3 [⟨0, 0⟩, ⟨1, 1⟩, ⟨3, 0⟩] :=
    .child (.child (.root (.refl rfl)) (fills rfl rfl)) (fills rfl rfl)
  have hs : Trail listings 4 [⟨0, 0⟩, ⟨1, 1⟩, ⟨3, 1⟩, ⟨2, 0⟩, ⟨3, 1⟩, ⟨4, 0⟩] :=
    .child (.child (.child (.child (.child (.root (.refl rfl)) (fills rfl rfl)) (fills rfl rfl)) (fills rfl rfl))
      (fills rfl rfl)) (fills rfl rfl)
  have hf : foldRecursion [⟨0, 0⟩, ⟨1, 1⟩, ⟨3, 1⟩, ⟨2, 0⟩, ⟨3, 1⟩, ⟨4, 0⟩] = [⟨0, 0⟩, ⟨1, 1⟩, ⟨3, 1⟩, ⟨4, 0⟩] := by
    simp [foldRecursion, lastAt?]
  refine (occurrences_are_told_apart hd (by decide) hs).1.mpr ?_
  rw [hf]
  exact ⟨[⟨0, 0⟩, ⟨1, 1⟩], _, _, _, rfl, rfl, rfl⟩

end Rulebook

end FurthestMatch
