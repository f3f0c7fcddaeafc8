import FurthestMatch.Proofs.Endings
import FurthestMatch.Proofs.Growth

/-!
# Rows of separated items

The recipe for a row of separated items is put together from sequences, a repetition, choices and mappers that move
values about. A match of it comes to exactly the items that are found one after the other, each but the first after a
separator.
-/

namespace FurthestMatch

/-! ## The item loop -/

/-- After some items, further ones are taken as long as a separator with an item after it follows. A separator without
an item is left alone, and a separator and an item that read nothing are the last once there are enough items. -/
inductive Rulebook.FurtherItems (b : Rulebook) (text : Text) (item separator : NodeId) (enough : Nat) :
    List Value → Cursor → List Value → Cursor → Prop
  | noSeparator {vs c} (h : b.Ends text separator c none) : FurtherItems b text item separator enough vs c vs c
  | noItem {vs c w d} (h : b.Ends text separator c (some (w, d))) (h' : b.Ends text item d none) :
      FurtherItems b text item separator enough vs c vs c
  | stop {vs c w d v e} (h : b.Ends text separator c (some (w, d))) (h' : b.Ends text item d (some (v, e)))
      (hs : e.offset ≤ c.offset ∧ enough ≤ (vs ++ [v]).length) :
      FurtherItems b text item separator enough vs c (vs ++ [v]) e
  | next {vs c w d v e us f} (h : b.Ends text separator c (some (w, d))) (h' : b.Ends text item d (some (v, e)))
      (hs : ¬(e.offset ≤ c.offset ∧ enough ≤ (vs ++ [v]).length))
      (more : FurtherItems b text item separator enough (vs ++ [v]) e us f) :
      FurtherItems b text item separator enough vs c us f

inductive Rulebook.Items (b : Rulebook) (text : Text) (item separator : NodeId) (enough : Nat) (c : Cursor) :
    List Value → Cursor → Prop
  | none (h : b.Ends text item c none) : Items b text item separator enough c [] c
  | some {v d us e} (h : b.Ends text item c (some (v, d)))
      (more : b.FurtherItems text item separator enough [v] d us e) : Items b text item separator enough c us e

/-- The place after a row, which is the end of one more separator if there may be one and there is one. -/
def Rulebook.RowEnd (b : Rulebook) (text : Text) (separator : NodeId) (trailing : Bool) (d e : Cursor) : Prop :=
  if trailing then ∃ last, b.Ends text separator d last ∧ e = (last.map Prod.snd).getD d else e = d

/-! ## What the parts of the recipe come to -/

section
variable {b : Rulebook} {first x : NodeId} {p q : Recipe} (text : Text)

theorem ends_of_map {f : Value → Value} (h : b.graph.Holds first (.map p f) x) : ∃ y, b.graph.Holds first p y ∧
    ∀ c r, b.Ends text x c r ↔ ∃ s, b.Ends text y c s ∧ r = s.map fun (v, d) => (f v, d) := by
  obtain ⟨y, m, hy, hm, hx⟩ := h
  have hf : b.graph.mapper m = f := by
    rw [Graph.mapper, hm]
    rfl
  refine ⟨y, hy, fun c r => ?_⟩
  rw [← hf]
  exact ends_map hx.node_eq

theorem pair_of_holdsAll {g : Graph} {ids : List NodeId} (h : g.HoldsAll first [p, q] ids) :
    ∃ y z, g.Holds first p y ∧ g.Holds first q z ∧ ids = [y, z] := by
  cases ids with
  | nil => cases h
  | cons y ids =>
    obtain ⟨hy, h⟩ := h
    cases ids with
    | nil => cases h
    | cons z ids =>
      obtain ⟨hz, h⟩ := h
      cases ids with
      | nil => exact ⟨y, z, hy, hz, rfl⟩
      | cons _ _ => cases h

theorem ends_of_pair (h : b.graph.Holds first (.sequence [p, q]) x) : ∃ y z, b.graph.Holds first p y ∧
    b.graph.Holds first q z ∧ ∀ c r, b.Ends text x c r ↔ ∃ s, b.Ends text y c s ∧ match s with
      | none => r = none
      | some (v, d) => ∃ t, b.Ends text z d t ∧ r = t.map fun (w, e) => (.list [v, w], e) := by
  obtain ⟨ids, hids, hx⟩ := h
  obtain ⟨y, z, hy, hz, rfl⟩ := pair_of_holdsAll hids
  refine ⟨y, z, hy, hz, fun c r => (ends_sequence hx.node_eq).trans ?_⟩
  simp only [Rulebook.EndAll]
  constructor
  · intro h
    obtain ⟨all, ⟨s, hs, hm⟩, hr⟩ := h
    refine ⟨s, hs, ?_⟩
    cases s with
    | none => simpa [hm] using hr
    | some found =>
      obtain ⟨more, ⟨t, ht, hm⟩, ha⟩ := hm
      refine ⟨t, ht, ?_⟩
      cases t with
      | none => simpa [hm, ha] using hr
      | some last =>
        obtain ⟨_, rfl, hm⟩ := hm
        simpa [hm, ha] using hr
  · intro h
    obtain ⟨s, hs, hm⟩ := h
    cases s with
    | none => exact ⟨none, ⟨none, hs, rfl⟩, hm⟩
    | some found =>
      obtain ⟨t, ht, hr⟩ := hm
      cases t with
      | none => exact ⟨none, ⟨_, hs, none, ⟨none, ht, rfl⟩, rfl⟩, hr⟩
      | some last =>
        exact ⟨some ([found.1, last.1], last.2), ⟨_, hs, _, ⟨_, ht, _, rfl, rfl⟩, rfl⟩, hr⟩

theorem ends_of_either (h : b.graph.Holds first (.choice [p, q]) x) : ∃ y z, b.graph.Holds first p y ∧
    b.graph.Holds first q z ∧ ∀ c r, b.Ends text x c r ↔ ∃ s, b.Ends text y c s ∧ match s with
      | none => b.Ends text z c r
      | some _ => r = s := by
  obtain ⟨ids, hids, hx⟩ := h
  obtain ⟨y, z, hy, hz, rfl⟩ := pair_of_holdsAll hids
  refine ⟨y, z, hy, hz, fun c r => (ends_choice hx.node_eq).trans ?_⟩
  have last : b.EndFirst text [z] c r ↔ b.Ends text z c r := by
    simp only [Rulebook.EndFirst]
    constructor
    · intro h
      obtain ⟨s, hs, hm⟩ := h
      cases s <;> cases hm <;> exact hs
    · intro hr
      cases r <;> exact ⟨_, hr, rfl⟩
  rw [Rulebook.EndFirst]
  constructor
  · intro h
    obtain ⟨s, hs, hm⟩ := h
    refine ⟨s, hs, ?_⟩
    cases s with
    | none => exact last.mp hm
    | some found => exact hm
  · intro h
    obtain ⟨s, hs, hm⟩ := h
    refine ⟨s, hs, ?_⟩
    cases s with
    | none => exact last.mpr hm
    | some found => exact hm

theorem ends_of_opt (h : b.graph.Holds first (.opt p) x) : ∃ y, b.graph.Holds first p y ∧
    ∀ c r, b.Ends text x c r ↔ ∃ s, b.Ends text y c s ∧ r = some (s.getD (.empty, c)) := by
  obtain ⟨y, z, hy, hz, hx⟩ := ends_of_either text h
  refine ⟨y, hy, fun c r => (hx c r).trans ?_⟩
  constructor
  · intro ⟨s, hs, hm⟩
    refine ⟨s, hs, ?_⟩
    cases s with
    | none => exact (ends_always hz.node_eq).mp hm
    | some found => exact hm
  · intro ⟨s, hs, hr⟩
    refine ⟨s, hs, ?_⟩
    cases s with
    | none => exact (ends_always hz.node_eq).mpr hr
    | some found => exact hr

end

/-! ## The rounds of a row -/

section
variable {b : Rulebook} {text : Text} {first x item separator : NodeId} {least : Nat}

variable (text) in
theorem ends_of_joined (h : b.graph.Holds first (.map (.sequence [.node separator, .node item]) (·.nth 1)) x)
    (c : Cursor) (r : Option (Value × Cursor)) : b.Ends text x c r ↔ ∃ s, b.Ends text separator c s ∧ match s with
      | none => r = none
      | some (_, d) => b.Ends text item d r := by
  obtain ⟨y, hy, hx⟩ := ends_of_map text h
  obtain ⟨_, _, rfl, rfl, hp⟩ := ends_of_pair text hy
  rw [hx]
  constructor
  · intro ⟨t, ht, hr⟩
    obtain ⟨s, hs, hm⟩ := (hp c t).mp ht
    refine ⟨s, hs, ?_⟩
    match s, hm with
    | none, hm => simpa [hm] using hr
    | some (w, d), ⟨u, hu, hm⟩ =>
      have hru : r = u := by cases u <;> simp [hr, hm, Value.nth]
      exact hru ▸ hu
  · intro ⟨s, hs, hm⟩
    match s, hm with
    | none, hm => exact ⟨none, (hp c none).mpr ⟨none, hs, rfl⟩, hm⟩
    | some (w, d), hm =>
      refine ⟨_, (hp c _).mpr ⟨_, hs, r, hm, rfl⟩, ?_⟩
      cases r <;> simp [Value.nth]

variable (hx : ∀ c r, b.Ends text x c r ↔ ∃ s, b.Ends text separator c s ∧ match s with
    | none => r = none
    | some (_, d) => b.Ends text item d r)
include hx

theorem furtherItems_of_endRounds {v : Value} {vs ws : List Value} {c e : Cursor}
    (h : b.EndRounds text x least none vs c ws e) :
    b.FurtherItems text item separator (least + 1) (v :: vs.reverse) c (v :: ws.reverse) e := by
  induction h with
  | full hm => cases hm
  | @fail vs c _ h =>
    obtain ⟨s, hs, hm⟩ := (hx c none).mp h
    match s, hm with
    | none, _ => exact .noSeparator hs
    | some (w, d), hm => exact .noItem hs hm
  | @stop vs c u e _ h hstop =>
    obtain ⟨s, hs, hm⟩ := (hx c _).mp h
    match s, hm with
    | some (w, d), hm =>
      have hi : b.FurtherItems text item separator (least + 1) (v :: vs.reverse) c (v :: vs.reverse ++ [u]) e :=
        .stop hs hm (by simpa using hstop)
      simpa using hi
  | @next vs c u d ws e _ h hgo _ ih =>
    obtain ⟨s, hs, hm⟩ := (hx c _).mp h
    match s, hm with
    | some (w, d), hm => exact .next hs hm (by simpa using hgo) (by simpa using ih)

theorem endRounds_of_furtherItems {us us' : List Value} {c e : Cursor}
    (h : b.FurtherItems text item separator (least + 1) us c us' e) : ∀ {v : Value} {vs : List Value},
      us = v :: vs.reverse → ∃ ws, us' = v :: ws.reverse ∧ b.EndRounds text x least none vs c ws e := by
  induction h with
  | noSeparator h => exact fun hu => ⟨_, hu, .fail rfl ((hx _ _).mpr ⟨none, h, rfl⟩)⟩
  | noItem h h' => exact fun hu => ⟨_, hu, .fail rfl ((hx _ _).mpr ⟨_, h, h'⟩)⟩
  | @stop vs c w d u e h h' hs =>
    intro v vs hu
    subst hu
    exact ⟨u :: vs, by simp, .stop rfl ((hx _ _).mpr ⟨_, h, h'⟩) (by simpa using hs)⟩
  | @next vs c w d u e us f h h' hs _ ih =>
    intro v vs hu
    subst hu
    obtain ⟨ws, hws, hr⟩ : ∃ ws, us = v :: ws.reverse ∧ b.EndRounds text x least none (u :: vs) e ws f := ih (by simp)
    exact ⟨ws, hws, .next rfl ((hx _ _).mpr ⟨_, h, h'⟩) (by simpa using hs) hr⟩

end

/-! ## Rows -/

section
variable {b : Rulebook} {text : Text} {first x item separator : NodeId} {enough : Nat} {c : Cursor}
  {r : Option (Value × Cursor)}

theorem ends_of_row (he : 0 < enough) (h : b.graph.Holds first (.map (.sequence [.node item,
      .atLeast (.map (.sequence [.node separator, .node item]) (·.nth 1)) (enough - 1)]) Recipe.gather) x) :
    b.Ends text x c r ↔ ∃ vs d, b.Items text item separator enough c vs d ∧
      r = if enough ≤ vs.length then some (.list vs, d) else none := by
  obtain ⟨least, rfl⟩ : ∃ least, enough = least + 1 := ⟨enough - 1, by omega⟩
  obtain ⟨y, hy, hmap⟩ := ends_of_map text h
  obtain ⟨_, z, rfl, ⟨joined, hj, hz⟩, hpair⟩ := ends_of_pair text hy
  have htimes (c : Cursor) (r : Option (Value × Cursor)) : b.Ends text z c r ↔ ∃ ws d,
      b.EndRounds text joined least none [] c ws d ∧
        r = if ws.length < least then none else some (.list ws.reverse, d) :=
    ends_times hz.node_eq
  have hround := ends_of_joined text hj
  have hlength (ws : List Value) : ws.length < least ↔ ¬least + 1 ≤ ws.length + 1 := by omega
  rw [hmap]
  constructor
  · intro ⟨s, hs, hr⟩
    obtain ⟨t, ht, hm⟩ := (hpair c s).mp hs
    match t, hm with
    | none, hm => exact ⟨[], c, .none ht, by simp [hr, hm]⟩
    | some (v, d), ⟨u, hu, hm⟩ =>
      obtain ⟨ws, e, hrounds, hw⟩ := (htimes d u).mp hu
      refine ⟨v :: ws.reverse, e, .some ht (furtherItems_of_endRounds hround hrounds), ?_⟩
      subst hw hm
      rw [hr]
      by_cases hl : ws.length < least
      · simp [hl, (hlength ws).mp hl]
      · simp [hl, Recipe.gather, Value.items]
  · intro ⟨vs, e, hi, hr⟩
    cases hi with
    | none ht => exact ⟨none, (hpair c none).mpr ⟨none, ht, rfl⟩, by simpa using hr⟩
    | @some v d _ _ ht more =>
      obtain ⟨ws, rfl, hrounds⟩ : ∃ ws, vs = v :: ws.reverse ∧ b.EndRounds text joined least none [] d ws e :=
        endRounds_of_furtherItems hround more rfl
      refine ⟨_, (hpair c _).mpr ⟨_, ht, _, (htimes d _).mpr ⟨ws, e, hrounds, rfl⟩, rfl⟩, ?_⟩
      rw [hr]
      by_cases hl : ws.length < least
      · simp [hl, (hlength ws).mp hl]
      · simp [hl, Recipe.gather, Value.items]

variable (text) in
theorem ends_of_trailing {p : Recipe}
    (h : b.graph.Holds first (.map (.sequence [p, .opt (.node separator)]) (·.nth 0)) x) :
    ∃ y, b.graph.Holds first p y ∧ ∀ c r, b.Ends text x c r ↔ ∃ s, b.Ends text y c s ∧ match s with
      | none => r = none
      | some (v, d) => ∃ e, b.RowEnd text separator true d e ∧ r = some (v, e) := by
  obtain ⟨y, hy, hmap⟩ := ends_of_map text h
  obtain ⟨z, o, hz, ho, hpair⟩ := ends_of_pair text hy
  obtain ⟨_, rfl, hopt⟩ := ends_of_opt text ho
  refine ⟨z, hz, fun c r => ?_⟩
  rw [hmap]
  constructor
  · intro ⟨s, hs, hr⟩
    obtain ⟨t, ht, hm⟩ := (hpair c s).mp hs
    refine ⟨t, ht, ?_⟩
    match t, hm with
    | none, hm => simpa [hm] using hr
    | some (v, d), ⟨u, hu, hm⟩ =>
      obtain ⟨last, hl, rfl⟩ := (hopt d u).mp hu
      refine ⟨_, ⟨last, hl, rfl⟩, ?_⟩
      cases last <;> simp [hr, hm, Value.nth]
  · intro ⟨t, ht, hm⟩
    match t, hm with
    | none, hm => exact ⟨none, (hpair c none).mpr ⟨none, ht, rfl⟩, hm⟩
    | some (v, d), ⟨e, ⟨last, hl, he⟩, hm⟩ =>
      refine ⟨_, (hpair c _).mpr ⟨_, ht, _, (hopt d _).mpr ⟨last, hl, rfl⟩, rfl⟩, ?_⟩
      cases last <;> simp [hm, he, Value.nth]

theorem ends_of_whole {least : Nat} {trailing : Bool} (hl : least ≠ 0)
    (h : b.graph.Holds first (.sepBy item separator least trailing) x) :
    b.Ends text x c r ↔ ∃ vs d, b.Items text item separator least c vs d ∧
      if least ≤ vs.length then ∃ e, b.RowEnd text separator trailing d e ∧ r = some (.list vs, e) else r = none := by
  have hpos : 0 < least := Nat.pos_of_ne_zero hl
  rw [Recipe.sepBy, if_neg hl, Nat.max_eq_left hpos] at h
  cases trailing with
  | false =>
    rw [ends_of_row hpos h]
    constructor
    · intro ⟨vs, d, hi, hr⟩
      refine ⟨vs, d, hi, ?_⟩
      split <;> simp_all [Rulebook.RowEnd]
    · intro ⟨vs, d, hi, hr⟩
      refine ⟨vs, d, hi, ?_⟩
      split <;> simp_all [Rulebook.RowEnd]
  | true =>
    obtain ⟨y, hy, hx⟩ := ends_of_trailing text h
    rw [hx]
    constructor
    · intro ⟨s, hs, hm⟩
      obtain ⟨vs, d, hi, rfl⟩ := (ends_of_row hpos hy).mp hs
      refine ⟨vs, d, hi, ?_⟩
      by_cases hv : least ≤ vs.length
      · simpa [hv] using hm
      · simpa [hv] using hm
    · intro ⟨vs, d, hi, hr⟩
      refine ⟨_, (ends_of_row hpos hy).mpr ⟨vs, d, hi, rfl⟩, ?_⟩
      by_cases hv : least ≤ vs.length
      · simpa [hv] using hr
      · simpa [hv] using hr

/-- A row that may have no item. When none is found the empty list is taken without reading. -/
theorem ends_of_perhaps {trailing : Bool} (h : b.graph.Holds first (.sepBy item separator 0 trailing) x) :
    b.Ends text x c r ↔ ∃ vs d, b.Items text item separator 1 c vs d ∧
      if 1 ≤ vs.length then ∃ e, b.RowEnd text separator trailing d e ∧ r = some (.list vs, e)
      else r = some (.list [], c) := by
  -- The first option is the recipe for a row of one item or more.
  obtain ⟨whole, fallback, hwhole, hfallback, hx⟩ := ends_of_either text h
  have hone : b.graph.Holds first (.sepBy item separator 1 trailing) whole := hwhole
  have hrow {s : Option (Value × Cursor)} : b.Ends text whole c s ↔ _ := ends_of_whole Nat.one_ne_zero hone
  obtain ⟨y, hy, hmap⟩ := ends_of_map text hfallback
  have hempty : ∀ s, b.Ends text fallback c s ↔ s = some (.list [], c) := by
    intro s
    simp [hmap, ends_always hy.node_eq]
  rw [hx]
  constructor
  · intro ⟨s, hs, hm⟩
    obtain ⟨vs, d, hi, hv⟩ := hrow.mp hs
    refine ⟨vs, d, hi, ?_⟩
    by_cases h1 : 1 ≤ vs.length
    · simp only [h1, if_true] at hv ⊢
      obtain ⟨e, he, rfl⟩ := hv
      exact ⟨e, he, hm⟩
    · simp only [h1, if_false] at hv ⊢
      subst hv
      exact (hempty r).mp hm
  · intro ⟨vs, d, hi, hv⟩
    by_cases h1 : 1 ≤ vs.length
    · simp only [h1, if_true] at hv
      obtain ⟨e, he, rfl⟩ := hv
      exact ⟨some (.list vs, e), hrow.mpr ⟨vs, d, hi, by simpa [h1] using he⟩, rfl⟩
    · simp only [h1, if_false] at hv
      exact ⟨none, hrow.mpr ⟨vs, d, hi, by simp [h1]⟩, (hempty r).mpr hv⟩

end

/-- A row of separated items comes to the list of the items that are found, when there are enough, and to the place
after them or after one more separator. With too few items it fails, unless there may be none: then it comes to the
empty list where it was begun. It comes to an end when, and only when, the search for items does. -/
theorem separated_items_are_listed (b : Rulebook) (item separator : NodeId) (least : Nat) (trailing : Bool)
    (text : Text) (c : Cursor) (r : Option (Value × Cursor)) :
    let planted := b.plant (.sepBy item separator least trailing)
    planted.2.Ends text planted.1 c r ↔ ∃ vs d, planted.2.Items text item separator (max least 1) c vs d ∧
      if max least 1 ≤ vs.length then ∃ e, planted.2.RowEnd text separator trailing d e ∧ r = some (.list vs, e)
      else r = if least = 0 then some (.list [], c) else none := by
  intro planted
  have held : planted.2.graph.Holds b.graph.size (.sepBy item separator least trailing) planted.1 :=
    Graph.holds_plant _ (Nat.le_refl _)
  by_cases hl : least = 0
  · subst hl
    exact ends_of_perhaps held
  · simp [ends_of_whole hl held, hl, Nat.max_eq_left (Nat.pos_of_ne_zero hl)]

end FurthestMatch
