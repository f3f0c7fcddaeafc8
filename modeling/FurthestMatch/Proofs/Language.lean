import FurthestMatch.Proofs.Lexing
import FurthestMatch.Proofs.Readers

/-!
# Languages of readers

A language relates texts to the values that they denote. A reader is sound for a language when it reads nothing but
texts of it, with their values, and complete when it reads all of them, as long as what follows cannot be taken for
more of the same.
-/

namespace FurthestMatch

inductive Many {α : Type} (L : Text → α → Prop) : Text → List α → Prop
  | nil : Many L [] []
  | cons {t a u as} (h : L t a) (hs : Many L u as) : Many L (t ++ u) (a :: as)

inductive Row {α : Type} (separator : Text → Prop) (L : Text → α → Prop) : Text → List α → Prop
  | one {t a} (h : L t a) : Row separator L t [a]
  | more {t s u a as} (h : L t a) (hs : separator s) (hr : Row separator L u as) :
      Row separator L (t ++ (s ++ u)) (a :: as)

inductive Rows {α : Type} (separator : Text → Prop) (L : Text → α → Prop) : Text → List α → Prop
  | none : Rows separator L [] []
  | some {t as} (h : Row separator L t as) : Rows separator L t as

def Joined {α : Type} (separator : Text → Prop) (L : Text → α → Prop) (t : Text) (a : α) : Prop :=
  ∃ s u, separator s ∧ L u a ∧ t = s ++ u

section
variable {α β : Type} {separator : Text → Prop} {L L' : Text → α → Prop} {t : Text}

theorem row_iff {as : List α} : Row separator L t as ↔
    ∃ u a v as', L u a ∧ Many (Joined separator L) v as' ∧ t = u ++ v ∧ as = a :: as' := by
  constructor
  · intro h
    induction h with
    | @one t a h => exact ⟨t, a, [], [], h, .nil, (List.append_nil t).symm, rfl⟩
    | @more t s u a as h hs _ ih =>
      obtain ⟨u', a', v, as', h', hm, rfl, rfl⟩ := ih
      refine ⟨t, a, s ++ u' ++ v, a' :: as', h, .cons ⟨s, u', hs, h', rfl⟩ hm, ?_, rfl⟩
      simp only [List.append_assoc]
  · rintro ⟨u, a, v, as', h, hm, rfl, rfl⟩
    induction hm generalizing u a with
    | nil =>
      rw [List.append_nil]
      exact .one h
    | cons hj _ ih =>
      obtain ⟨s, w, hs, hw, rfl⟩ := hj
      rw [List.append_assoc]
      exact .more h hs (ih w _ hw)

theorem Row.mono {as : List α} (h : Row separator L t as) (hL : ∀ u a, u.length ≤ t.length → L u a → L' u a) :
    Row separator L' t as := by
  induction h with
  | one h => exact .one (hL _ _ (Nat.le_refl _) h)
  | more h hs _ ih =>
    refine .more (hL _ _ ?_ h) hs (ih fun v a hv => hL v a ?_)
    · simp
    · simp only [List.length_append]
      omega

theorem Rows.mono {as : List α} (h : Rows separator L t as) (hL : ∀ u a, u.length ≤ t.length → L u a → L' u a) :
    Rows separator L' t as := by
  cases h with
  | none => exact .none
  | some h => exact .some (h.mono hL)

/-- A row of texts that belong to another language too, with values of their own there, is a row of that language. -/
theorem Row.lift {M : Text → β → Prop} {as : List α} (h : Row separator L t as)
    (hL : ∀ u a, u.length ≤ t.length → L u a → ∃ b, M u b) : ∃ bs, Row separator M t bs := by
  induction h with
  | one h =>
    obtain ⟨b, hb⟩ := hL _ _ (Nat.le_refl _) h
    exact ⟨_, .one hb⟩
  | @more u s v a as h hs _ ih =>
    obtain ⟨b, hb⟩ := hL u a (by simp) h
    obtain ⟨bs, hbs⟩ := ih fun w c hw => hL w c (by simp only [List.length_append]; omega)
    exact ⟨_, .more hb hs hbs⟩

theorem Rows.lift {M : Text → β → Prop} {as : List α} (h : Rows separator L t as)
    (hL : ∀ u a, u.length ≤ t.length → L u a → ∃ b, M u b) : ∃ bs, Rows separator M t bs := by
  cases h with
  | none => exact ⟨[], .none⟩
  | some h =>
    obtain ⟨bs, hbs⟩ := h.lift hL
    exact ⟨bs, .some hbs⟩

theorem row_map {f : α → β} {bs : List β} : Row separator (fun u b => ∃ a, L u a ∧ b = f a) t bs ↔
    ∃ as, Row separator L t as ∧ bs = as.map f := by
  constructor
  · intro h
    induction h with
    | one h =>
      obtain ⟨a, h, rfl⟩ := h
      exact ⟨[a], .one h, rfl⟩
    | more h hs _ ih =>
      obtain ⟨a, h, rfl⟩ := h
      obtain ⟨as, hr, rfl⟩ := ih
      exact ⟨a :: as, .more h hs hr, rfl⟩
  · rintro ⟨as, h, rfl⟩
    induction h with
    | one h => exact .one ⟨_, h, rfl⟩
    | more h hs _ ih => exact .more ⟨_, h, rfl⟩ hs ih

theorem rows_map {f : α → β} {bs : List β} : Rows separator (fun u b => ∃ a, L u a ∧ b = f a) t bs ↔
    ∃ as, Rows separator L t as ∧ bs = as.map f := by
  constructor
  · intro h
    cases h with
    | none => exact ⟨[], .none, rfl⟩
    | some h =>
      obtain ⟨as, hr, rfl⟩ := row_map.mp h
      exact ⟨as, .some hr, rfl⟩
  · rintro ⟨as, h, rfl⟩
    cases h with
    | none => exact .none
    | some h => exact .some (row_map.mpr ⟨as, h, rfl⟩)

end

namespace Reader

def Sound (f : Reader) (L : Text → Value → Prop) : Prop :=
  ∀ t v rest, f t = some (v, rest) → ∃ l, t = l ++ rest ∧ L l v

def Complete (f : Reader) (L : Text → Value → Prop) (S : Text → Prop) : Prop :=
  ∀ l v rest, L l v → S rest → f (l ++ rest) = some (v, rest)

/-- The reader reads every text of a kind before a rest of some kind, whatever the value. -/
def Skips (f : Reader) (U S : Text → Prop) : Prop :=
  ∀ l rest, U l → S rest → ∃ v, f (l ++ rest) = some (v, rest)

inductive InTurn : List Reader → Text → List Value → Text → Prop
  | nil {t} : InTurn [] t [] t
  | cons {f fs t v rest' vs rest} (h : f t = some (v, rest')) (hs : InTurn fs rest' vs rest) :
      InTurn (f :: fs) t (v :: vs) rest

variable {f g : Reader} {fs : List Reader} {L L' : Text → Value → Prop} {S S' : Text → Prop} {t rest : Text} {v : Value}
  {vs : List Value}

theorem Sound.mono (h : f.Sound L) (hL : ∀ l v, L l v → L' l v) : f.Sound L' := by
  intro t v rest hf
  obtain ⟨l, ht, hl⟩ := h t v rest hf
  exact ⟨l, ht, hL l v hl⟩

theorem Complete.skips {U : Text → Prop} (h : f.Complete L S) (hU : ∀ l, U l → ∃ v, L l v) : f.Skips U S := by
  intro l rest hl hrest
  obtain ⟨v, hv⟩ := hU l hl
  exact ⟨v, h l v rest hv hrest⟩

theorem Sound.shrinks (h : f.Sound L) (hL : ∀ v, ¬L [] v) : f.Shrinks := by
  intro t v rest hf
  obtain ⟨l, rfl, hl⟩ := h t v rest hf
  have hne : l ≠ [] := by
    rintro rfl
    exact hL v hl
  have hpos := List.length_pos_iff.mpr hne
  rw [List.length_append]
  omega

/-! ## What combined readers read -/

@[simp] theorem literal_eq_some {s : String} :
    Reader.literal s t = some (v, rest) ↔ t = s.toList ++ rest ∧ v = .str s := by
  simp only [Reader.literal, Option.map_eq_some_iff, Text.after?_eq_some_iff]
  constructor
  · rintro ⟨_, ht, he⟩
    cases he
    exact ⟨ht, rfl⟩
  · rintro ⟨ht, rfl⟩
    exact ⟨rest, ht, rfl⟩

@[simp] theorem map_eq_some {mapper : Value → Value} :
    f.map mapper t = some (v, rest) ↔ ∃ w, f t = some (w, rest) ∧ v = mapper w := by
  simp only [Reader.map, Option.map_eq_some_iff]
  constructor
  · rintro ⟨⟨w, _⟩, hf, he⟩
    cases he
    exact ⟨w, hf, rfl⟩
  · rintro ⟨w, hf, rfl⟩
    exact ⟨(w, rest), hf, rfl⟩

theorem map_of_none {m : Value → Value} (h : f t = none) : Reader.map m f t = none := by
  rw [Reader.map, h]
  rfl

theorem all_eq_some : Reader.all fs t = some (vs, rest) ↔ InTurn fs t vs rest := by
  constructor
  · intro h
    induction fs generalizing t vs with
    | nil =>
      cases h
      exact .nil
    | cons f fs ih =>
      obtain ⟨⟨v, rest'⟩, hf, h⟩ := Option.bind_eq_some_iff.mp h
      obtain ⟨⟨ws, _⟩, hws, he⟩ := Option.map_eq_some_iff.mp h
      cases he
      exact .cons hf (ih hws)
  · intro h
    induction h with
    | nil => rfl
    | cons hf _ ih => simp only [Reader.all, hf, ih, Option.bind_some, Option.map_some]

theorem sequence_eq_some : Reader.sequence fs t = some (v, rest) ↔ ∃ vs, InTurn fs t vs rest ∧ v = .list vs := by
  simp only [Reader.sequence, Option.map_eq_some_iff, ← all_eq_some]
  constructor
  · rintro ⟨⟨vs, _⟩, hf, he⟩
    cases he
    exact ⟨vs, hf, rfl⟩
  · rintro ⟨vs, hf, rfl⟩
    exact ⟨(vs, rest), hf, rfl⟩

theorem map_sequence_eq_some {m : Value → Value} :
    Reader.map m (.sequence fs) t = some (v, rest) ↔ ∃ vs, InTurn fs t vs rest ∧ v = m (.list vs) := by
  rw [map_eq_some]
  constructor
  · rintro ⟨_, hf, rfl⟩
    obtain ⟨vs, h, rfl⟩ := sequence_eq_some.mp hf
    exact ⟨vs, h, rfl⟩
  · rintro ⟨vs, h, rfl⟩
    exact ⟨_, sequence_eq_some.mpr ⟨vs, h, rfl⟩, rfl⟩

theorem sequence_of_none (h : f t = none) : Reader.sequence (f :: fs) t = none := by
  rw [Reader.sequence, Reader.all, h]
  rfl

theorem choice_cons : Reader.choice (f :: fs) t = (f t).or (Reader.choice fs t) := by
  rw [Reader.choice, List.findSome?_cons]
  cases f t <;> rfl

theorem sound_choice (h : ∀ f ∈ fs, f.Sound L) : (Reader.choice fs).Sound L := by
  intro t v rest hf
  obtain ⟨f, hm, hf⟩ := List.exists_of_findSome?_eq_some hf
  exact h f hm t v rest hf

theorem choice_of_none {gs : List Reader} {r : Value × Text} (h : ∀ f ∈ fs, f t = none) (hg : g t = some r) :
    Reader.choice (fs ++ g :: gs) t = some r := by
  induction fs with
  | nil => rw [List.nil_append, choice_cons, hg, Option.some_or]
  | cons f fs ih =>
    rw [List.cons_append, choice_cons, h f List.mem_cons_self, Option.none_or]
    exact ih fun f hf => h f (List.mem_cons_of_mem _ hf)

/-- A reader reads nothing where no text of its language starts. -/
theorem Sound.eq_none (h : f.Sound L) {P : Char → Prop} (hL : ∀ l v, L l v → Regex.StartsWith P l)
    (ht : ∀ c ∈ t.head?, ¬P c) : f t = none := by
  cases hf : f t with
  | none => rfl
  | some found =>
    obtain ⟨l, rfl, hl⟩ := h t found.1 found.2 hf
    obtain ⟨c, u, rfl, hc⟩ := hL l found.1 hl
    exact absurd hc (ht c rfl)

/-! ## Rounds -/

theorem rounds_of_none (h : f t = none) (fuel : Nat) : Reader.rounds f fuel t = ([], t) := by
  cases fuel with
  | zero => rfl
  | succ => simp only [Reader.rounds, h]

theorem times_of_none (h : f t = none) : Reader.times f 1 t = none := by
  rw [Reader.times, rounds_of_none h]
  rfl

theorem times_of_one (ht : t ≠ []) (h : f t = some (v, rest)) (hend : f rest = none) :
    Reader.times f 1 t = some (.list [v], rest) := by
  obtain ⟨c, u, rfl⟩ := List.exists_cons_of_ne_nil ht
  simp only [Reader.times, List.length_cons, Reader.rounds, h, rounds_of_none hend]
  rfl

theorem sound_rounds (h : f.Sound L) : ∀ (fuel : Nat) (t : Text), ∃ l,
    t = l ++ (Reader.rounds f fuel t).2 ∧ Many L l (Reader.rounds f fuel t).1
  | 0, t => ⟨[], rfl, .nil⟩
  | fuel + 1, t => by
    rw [Reader.rounds]
    cases hf : f t with
    | none => exact ⟨[], rfl, .nil⟩
    | some found =>
      obtain ⟨v, rest⟩ := found
      obtain ⟨l, ht, hl⟩ := h t v rest hf
      obtain ⟨l', hrest, hl'⟩ := sound_rounds h fuel rest
      exact ⟨l ++ l', by rw [List.append_assoc, ← hrest, ht], .cons hl hl'⟩

theorem complete_rounds (h : f.Complete L S) (hne : ∀ v, ¬L [] v) (hS : ∀ l v rest, L l v → S (l ++ rest))
    (hrest : S rest) (hend : f rest = none) {l : Text} (hl : Many L l vs) : ∀ fuel : Nat, l.length ≤ fuel →
      Reader.rounds f fuel (l ++ rest) = (vs, rest) := by
  induction hl with
  | nil =>
    intro fuel _
    exact rounds_of_none hend fuel
  | @cons t v u vs ht hu ih =>
    intro fuel hfuel
    have hpos : 0 < t.length := by
      refine List.length_pos_iff.mpr ?_
      rintro rfl
      exact hne v ht
    rw [List.length_append] at hfuel
    obtain ⟨fuel, rfl⟩ : ∃ n, fuel = n + 1 := ⟨fuel - 1, by omega⟩
    have hnext : S (u ++ rest) := by
      cases hu with
      | nil => exact hrest
      | cons h _ =>
        rw [List.append_assoc]
        exact hS _ _ _ h
    have hread : f (t ++ (u ++ rest)) = some (v, u ++ rest) := h t v (u ++ rest) ht hnext
    simp only [Reader.rounds, List.append_assoc, hread, ih fuel (by omega)]

/-! ## Rows with separators -/

section
variable {separator : Text → Prop}

theorem sound_joined (hf : f.Sound L) (hg : g.Sound fun l _ => separator l) :
    (Reader.map (·.nth 1) (.sequence [g, f])).Sound (Joined separator L) := by
  intro t v rest h
  obtain ⟨_, _ | ⟨hs, _ | ⟨ha, ⟨⟩⟩⟩, rfl⟩ := map_sequence_eq_some.mp h
  obtain ⟨l, rfl, hl⟩ := hg _ _ _ hs
  obtain ⟨l', rfl, hl'⟩ := hf _ _ _ ha
  exact ⟨l ++ l', (List.append_assoc l l' _).symm, l, l', hl, hl', rfl⟩

theorem sound_sepBy (hf : f.Sound L) (hg : g.Sound fun l _ => separator l) :
    (Reader.sepBy f g).Sound fun l v => ∃ vs, Rows separator L l vs ∧ v = .list vs := by
  refine sound_choice (List.forall_mem_cons.mpr ⟨fun t v rest h => ?_, List.forall_mem_singleton.mpr fun t v rest h => ?_⟩)
  · obtain ⟨_, _ | ⟨ha, _ | ⟨hw, ⟨⟩⟩⟩, rfl⟩ := map_sequence_eq_some.mp h
    obtain ⟨l, rfl, hl⟩ := hf _ _ _ ha
    rw [Reader.times, if_neg (Nat.not_lt_zero _)] at hw
    cases hw
    obtain ⟨l', hrest, hl'⟩ := sound_rounds (sound_joined hf hg) _ _
    exact ⟨l ++ l', by rw [List.append_assoc, ← hrest], _, .some (row_iff.mpr ⟨l, _, l', _, hl, hl', rfl, rfl⟩), rfl⟩
  · obtain ⟨_, he, rfl⟩ := map_eq_some.mp h
    cases he
    exact ⟨[], rfl, [], .none, rfl⟩

theorem complete_joined (hf : f.Complete L S) (hg : g.Skips separator S')
    (hsep : ∀ l v rest, L l v → S' (l ++ rest)) :
    (Reader.map (·.nth 1) (.sequence [g, f])).Complete (Joined separator L) S := by
  rintro _ v rest ⟨s, u, hs, hu, rfl⟩ hrest
  obtain ⟨w, hw⟩ := hg s (u ++ rest) hs (hsep u v rest hu)
  rw [List.append_assoc]
  exact map_sequence_eq_some.mpr ⟨_, .cons hw (.cons (hf u v rest hu hrest) .nil), rfl⟩

/-- A row ends where neither a separator nor a text of the language can be read. -/
theorem complete_sepBy (hf : f.Complete L S) (hg : g.Skips separator S')
    (hsep : ∀ l v rest, L l v → S' (l ++ rest)) (hS : ∀ s rest, separator s → S (s ++ rest)) (hne : ∀ v, ¬L [] v) :
    (Reader.sepBy f g).Complete (fun l v => ∃ vs, Rows separator L l vs ∧ v = .list vs)
      fun rest => S rest ∧ f rest = none ∧ g rest = none := by
  rintro l _ rest ⟨vs, hrow, rfl⟩ ⟨hrest, hf', hg'⟩
  have hj := complete_joined hf hg hsep
  rw [Reader.sepBy, choice_cons]
  cases hrow with
  | none =>
    rw [List.nil_append, map_of_none (sequence_of_none hf')]
    rfl
  | some hrow =>
    obtain ⟨u, a, v, as, ha, hv, rfl, rfl⟩ := row_iff.mp hrow
    have hend : Reader.map (·.nth 1) (.sequence [g, f]) rest = none := map_of_none (sequence_of_none hg')
    have hjne : ∀ w, ¬Joined separator L [] w := by
      rintro w ⟨s, t, -, ht, he⟩
      rw [(List.append_eq_nil_iff.mp he.symm).2] at ht
      exact hne w ht
    have hjS : ∀ l w rest, Joined separator L l w → S (l ++ rest) := by
      rintro _ w rest ⟨s, t, hs, -, rfl⟩
      rw [List.append_assoc]
      exact hS s _ hs
    have hfirst : S (v ++ rest) := by
      cases hv with
      | nil => exact hrest
      | cons h _ =>
        rw [List.append_assoc]
        exact hjS _ _ _ h
    have hrounds := complete_rounds hj hjne hjS hrest hend hv (v ++ rest).length (by simp)
    have htimes : Reader.times (.map (·.nth 1) (.sequence [g, f])) 0 (v ++ rest) = some (.list as, rest) := by
      rw [Reader.times, hrounds, if_neg (Nat.not_lt_zero _)]
    have hread : Reader.map Recipe.gather (.sequence [f, .times (.map (·.nth 1) (.sequence [g, f])) 0])
        (u ++ v ++ rest) = some (.list (a :: as), rest) := by
      rw [List.append_assoc]
      exact map_sequence_eq_some.mpr ⟨_, .cons (hf u a _ ha hfirst) (.cons htimes .nil), rfl⟩
    rw [hread]
    rfl

end

end Reader

end FurthestMatch
