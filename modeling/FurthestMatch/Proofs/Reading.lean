import FurthestMatch.Grammar.Evaluation

/-!
# Reading a text from front to back

Whatever a leaf reads is a piece of the text at its place, so matching only ever moves on to a later place of the
same text. For patterns this is a property of backtracking: what follows an expression is tried at places only that
are reached by reading a text that the expression spells.
-/

namespace FurthestMatch

/-! ## Places of a regular expression -/

namespace Progress

def Passes (p : Progress) (read : Text) (q : Progress) : Prop :=
  p.ahead = read ++ q.ahead ∧ q.behind = read.reverse ++ p.behind

variable {p q r : Progress} {s t : Text}

theorem Passes.refl (p : Progress) : p.Passes [] p :=
  ⟨rfl, rfl⟩

theorem Passes.trans (h : p.Passes s q) (h' : q.Passes t r) : p.Passes (s ++ t) r :=
  ⟨by rw [h.1, h'.1, List.append_assoc], by rw [h'.2, h.2, List.reverse_append, List.append_assoc]⟩

theorem passes_of_pass? (h : p.pass? t = some q) : p.Passes t q := by
  obtain ⟨rest, hr, rfl⟩ := Option.map_eq_some_iff.mp h
  exact ⟨Text.after?_eq_some_iff.mp hr, rfl⟩

theorem since_eq (h : p.Passes t q) : q.since p = t := by
  simp [since, h.1]

end Progress

namespace Regex

def Rounds (L : Text → Prop) (count : Nat → Prop) (t : Text) : Prop :=
  ∃ ts : List Text, count ts.length ∧ (∀ u ∈ ts, L u) ∧ t = ts.flatten

theorem Rounds.nil {L : Text → Prop} {count : Nat → Prop} (h : count 0) : Rounds L count [] :=
  ⟨[], h, nofun, rfl⟩

theorem Rounds.cons {L : Text → Prop} {count count' : Nat → Prop} {t u : Text} (ht : L t) (hu : Rounds L count u)
    (h : ∀ n, count n → count' (n + 1)) : Rounds L count' (t ++ u) := by
  obtain ⟨ts, hc, hts, rfl⟩ := hu
  exact ⟨t :: ts, h _ hc, List.forall_mem_cons.mpr ⟨ht, hts⟩, rfl⟩

theorem Rounds.append {L : Text → Prop} {count count' count'' : Nat → Prop} {t u : Text} (ht : Rounds L count t)
    (hu : Rounds L count' u) (h : ∀ m n, count m → count' n → count'' (m + n)) : Rounds L count'' (t ++ u) := by
  obtain ⟨ts, hc, hts, rfl⟩ := ht
  obtain ⟨us, hc', hus, rfl⟩ := hu
  refine ⟨ts ++ us, by rw [List.length_append]; exact h _ _ hc hc', ?_, List.flatten_append.symm⟩
  intro v hv
  exact (List.mem_append.mp hv).elim (hts v) (hus v)

/-- What follows is tried at places only that are reached by reading a text of a kind. -/
def Spelled {α : Type} (L : Text → Prop) (m : Matching α) : Prop :=
  ∀ k p a, m k p = some a → ∃ t q, L t ∧ p.Passes t q ∧ k q = some a

theorem some_of_orElse {α : Type} {x : Option α} {y : Unit → Option α} {a : α} (h : x.orElse y = some a) :
    x = some a ∨ y () = some a := by
  cases x with
  | none => exact .inr h
  | some _ => exact .inl h

theorem firstOf_eq_some {α : Type} {greedy : Bool} {more done : Unit → Option α} {a : α}
    (h : firstOf greedy more done = some a) : more () = some a ∨ done () = some a := by
  unfold firstOf at h
  cases greedy with
  | true => exact some_of_orElse h
  | false => exact (some_of_orElse h).symm

section
variable {α : Type} {body : Matching α} {L : Text → Prop} (hb : Spelled L body)
include hb

theorem spelled_exactly : ∀ n, Spelled (Rounds L (· = n)) (exactly body n)
  | 0, _, p, _, h => ⟨[], p, .nil rfl, .refl p, h⟩
  | n + 1, k, p, a, h => by
    obtain ⟨t, q, ht, hq, h⟩ := hb _ p a h
    obtain ⟨u, r, hu, hr, h⟩ := spelled_exactly n k q a h
    exact ⟨t ++ u, r, .cons ht hu fun _ => congrArg (· + 1), hq.trans hr, h⟩

theorem spelled_upTo (greedy : Bool) : ∀ n, Spelled (Rounds L (· ≤ n)) (upTo body greedy n)
  | 0, _, p, _, h => ⟨[], p, .nil (Nat.le_refl 0), .refl p, h⟩
  | n + 1, k, p, a, h => by
    rcases firstOf_eq_some h with h | h
    · obtain ⟨t, q, ht, hq, h⟩ := hb _ p a h
      obtain ⟨u, r, hu, hr, h⟩ := spelled_upTo greedy n k q a h
      exact ⟨t ++ u, r, .cons ht hu fun _ => Nat.succ_le_succ, hq.trans hr, h⟩
    · exact ⟨[], p, .nil (Nat.zero_le _), .refl p, h⟩

theorem spelled_further (greedy : Bool) : ∀ fuel, Spelled (Rounds L fun _ => True) (further body greedy fuel)
  | 0, _, p, _, h => ⟨[], p, .nil trivial, .refl p, h⟩
  | fuel + 1, k, p, a, h => by
    rcases firstOf_eq_some h with h | h
    · obtain ⟨t, q, ht, hq, h⟩ := hb _ p a h
      split at h
      · obtain ⟨u, r, hu, hr, h⟩ := spelled_further greedy fuel k q a h
        exact ⟨t ++ u, r, .cons ht hu fun _ _ => trivial, hq.trans hr, h⟩
      · cases h
    · exact ⟨[], p, .nil trivial, .refl p, h⟩

theorem spelled_oneOrMore (greedy : Bool) : Spelled (Rounds L (1 ≤ ·)) (oneOrMore body greedy) := by
  intro k p a h
  obtain ⟨t, q, ht, hq, h⟩ := hb _ p a h
  have one : ∀ n, True → 1 ≤ n + 1 := fun n _ => Nat.le_add_left 1 n
  split at h
  · obtain ⟨u, r, hu, hr, h⟩ := spelled_further hb greedy _ k q a h
    exact ⟨t ++ u, r, .cons ht hu one, hq.trans hr, h⟩
  · exact ⟨t ++ [], q, .cons ht (.nil trivial) one, by rwa [List.append_nil], h⟩

theorem spelled_atLeast (greedy : Bool) : ∀ n, Spelled (Rounds L (n ≤ ·)) (atLeast body greedy n)
  | 0, k, p, a, h => by
    rw [atLeast] at h
    rcases firstOf_eq_some h with h | h
    · obtain ⟨t, q, ⟨ts, -, hts, rfl⟩, hq, h⟩ := spelled_oneOrMore hb greedy k p a h
      exact ⟨_, q, ⟨ts, Nat.zero_le _, hts, rfl⟩, hq, h⟩
    · exact ⟨[], p, .nil (Nat.zero_le _), .refl p, h⟩
  | n + 1, k, p, a, h => by
    obtain ⟨t, q, ht, hq, h⟩ := spelled_exactly hb n _ p a h
    obtain ⟨u, r, hu, hr, h⟩ := spelled_oneOrMore hb greedy k q a h
    exact ⟨t ++ u, r, ht.append hu fun _ _ h h' => h ▸ Nat.add_le_add_left h' n, hq.trans hr, h⟩

end

def Spells : Regex → Text → Prop
  | .empty, t | .anchor _, t | .look .., t => t = []
  | .set s, t => ∃ c, s.contains c ∧ t = [c]
  | .seq a b, t => ∃ u v, a.Spells u ∧ b.Spells v ∧ t = u ++ v
  | .alt a b, t => a.Spells t ∨ b.Spells t
  | .times r least most _, t => Rounds r.Spells (fun n => least ≤ n ∧ ∀ m ∈ most, n ≤ max least m) t
  | .group _ r, t | .atomic r, t => r.Spells t
  | .again _, _ => True

/-- Whatever way of matching an expression works out, it reads a text that the expression may read. -/
theorem spelled_run : ∀ (r : Regex) {α : Type}, Spelled (α := α) r.Spells (run r)
  | .empty, _, _, p, _, h => ⟨[], p, rfl, .refl p, h⟩
  | .set s, _, k, p, a, h => by
    simp only [run] at h
    split at h
    · cases h
    · rename_i c rest hp
      split at h
      · exact ⟨[c], { p with behind := c :: p.behind, ahead := rest }, ⟨c, ‹_›, rfl⟩, ⟨hp, rfl⟩, h⟩
      · cases h
  | .anchor _, _, _, p, _, h => by
    simp only [run] at h
    split at h
    · exact ⟨[], p, rfl, .refl p, h⟩
    · cases h
  | .seq r s, _, k, p, a, h => by
    obtain ⟨t, q, ht, hq, h⟩ := spelled_run r _ p a h
    obtain ⟨u, q', hu, hq', h⟩ := spelled_run s k q a h
    exact ⟨t ++ u, q', ⟨t, u, ht, hu, rfl⟩, hq.trans hq', h⟩
  | .alt r s, _, k, p, a, h => by
    rcases some_of_orElse h with h | h
    · obtain ⟨t, q, ht, hq, h⟩ := spelled_run r k p a h
      exact ⟨t, q, .inl ht, hq, h⟩
    · obtain ⟨t, q, ht, hq, h⟩ := spelled_run s k p a h
      exact ⟨t, q, .inr ht, hq, h⟩
  | .times r least (some most) greedy, _, k, p, a, h => by
    obtain ⟨t, q, ht, hq, h⟩ := spelled_exactly (spelled_run r) least _ p a h
    obtain ⟨u, q', hu, hq', h⟩ := spelled_upTo (spelled_run r) greedy _ k q a h
    refine ⟨t ++ u, q', ht.append hu fun m n hm hn => ⟨by omega, fun x hx => ?_⟩, hq.trans hq', h⟩
    cases hx
    omega
  | .times r least none greedy, _, k, p, a, h => by
    obtain ⟨t, q, ⟨ts, hl, hts, rfl⟩, hq, h⟩ := spelled_atLeast (spelled_run r) greedy least k p a h
    exact ⟨_, q, ⟨ts, ⟨hl, nofun⟩, hts, rfl⟩, hq, h⟩
  | .group _ r, _, k, p, a, h => by
    obtain ⟨t, q, ht, hq, h⟩ := spelled_run r _ p a h
    exact ⟨t, q.keep _ _, ht, hq, h⟩
  | .again _, _, k, p, a, h => by
    obtain ⟨t, -, h⟩ := Option.bind_eq_some_iff.mp h
    obtain ⟨q, hq, h⟩ := Option.bind_eq_some_iff.mp h
    exact ⟨t, q, trivial, Progress.passes_of_pass? hq, h⟩
  | .atomic r, _, k, p, a, h => by
    obtain ⟨q, hq, h⟩ := Option.bind_eq_some_iff.mp h
    obtain ⟨t, q', ht, hq', he⟩ := spelled_run r _ p q hq
    cases he
    exact ⟨t, q, ht, hq', h⟩
  | .look back positive r, _, k, p, a, h => by
    simp only [run] at h
    split at h
    · rename_i q _
      exact ⟨[], { p with groups := q.groups }, rfl, .refl p, h⟩
    · cases h
    · cases h
    · exact ⟨[], p, rfl, .refl p, h⟩

/-- The parts of a match are the text around its place. -/
theorem text_of_matchAt {r : Regex} {behind ahead : Text} {found : Found} (h : matchAt r behind ahead = some found) :
    found.skipped ++ found.text ++ found.rest = behind.reverse ++ ahead := by
  obtain ⟨p, hp, rfl⟩ := Option.map_eq_some_iff.mp h
  obtain ⟨t, q, -, hq, he⟩ := spelled_run r _ _ _ hp
  cases he
  simp only [Progress.since_eq hq, List.append_assoc, ← hq.1]

theorem text_of_searchFrom {r : Regex} {found : Found} : ∀ {behind ahead : Text},
    searchFrom r behind ahead = some found → found.skipped ++ found.text ++ found.rest = behind.reverse ++ ahead
  | _, [], h => text_of_matchAt h
  | behind, c :: rest, h => by
    rcases some_of_orElse h with h | h
    · exact text_of_matchAt h
    · rw [text_of_searchFrom h]
      simp

end Regex

/-! ## Leaves -/

theorem Pattern.text_of_matchIn {p : Pattern} {text passed rest : Text} {value : Value}
    (h : p.matchIn text = some (value, passed, rest)) : text = passed ++ rest := by
  obtain ⟨found, hf, he⟩ := Option.map_eq_some_iff.mp h
  cases he
  have := Regex.text_of_searchFrom hf
  simpa using this.symm

def Node.reader? : Node → Option (Text → Option (Value × Text × Text))
  | .literal text => some (Rulebook.readLiteral text)
  | .pattern leaf => some leaf.matchIn
  | _ => none

theorem Node.text_of_reader? {n : Node} {read : Text → Option (Value × Text × Text)} (hn : n.reader? = some read)
    {text passed rest : Text} {value : Value} (h : read text = some (value, passed, rest)) :
    text = passed ++ rest := by
  cases n with
  | literal =>
    cases hn
    obtain ⟨_, hr, he⟩ := Option.map_eq_some_iff.mp h
    cases he
    exact Text.after?_eq_some_iff.mp hr
  | pattern => cases hn; exact Pattern.text_of_matchIn h
  | _ => cases hn

/-! ## Places of a text -/

theorem Text.size_eq_zero_iff {t : Text} : size t = 0 ↔ t = [] := by
  cases t with
  | nil => simp [size]
  | cons c t =>
    have := c.utf8Size_pos
    simp only [size, reduceCtorEq, iff_false]
    omega

namespace Cursor

def Reaches (c d : Cursor) : Prop :=
  d = c ∨ ∃ passed rest, c.rest = some (passed ++ rest) ∧ d = c.advance passed rest

namespace Reaches

@[refl] theorem refl (c : Cursor) : c.Reaches c :=
  .inl rfl

theorem trans {c d e : Cursor} (h : c.Reaches d) (h' : d.Reaches e) : c.Reaches e := by
  rcases h with rfl | ⟨s, t, hc, rfl⟩
  · exact h'
  · rcases h' with rfl | ⟨s', t', hd, rfl⟩
    · exact .inr ⟨s, t, hc, rfl⟩
    · cases hd
      refine .inr ⟨s ++ s', t', by rw [hc, List.append_assoc], ?_⟩
      simp only [advance, Text.size_append, Nat.add_assoc]

theorem le {c d : Cursor} (h : c.Reaches d) : c.offset ≤ d.offset := by
  rcases h with rfl | ⟨_, _, _, rfl⟩
  · exact Nat.le_refl _
  · exact Nat.le_add_right _ _

theorem length_le {c d : Cursor} (h : c.Reaches d) : (d.rest.getD []).length ≤ (c.rest.getD []).length := by
  rcases h with rfl | ⟨s, t, hc, rfl⟩
  · exact Nat.le_refl _
  · simp [advance, hc]

theorem length_lt {c d : Cursor} (h : c.Reaches d) (hl : c.offset < d.offset) :
    (d.rest.getD []).length < (c.rest.getD []).length := by
  rcases h with rfl | ⟨s, t, hc, rfl⟩
  · exact absurd hl (Nat.lt_irrefl _)
  · have hs : s ≠ [] := fun h => by subst h; simp [advance, Text.size] at hl
    have := List.length_pos_iff.mpr hs
    simp only [advance, hc, Option.getD_some, List.length_append]
    omega

end Reaches

theorem reaches_of_read {n : Node} {read : Text → Option (Value × Text × Text)} (hn : n.reader? = some read)
    {c : Cursor} {text passed rest : Text} {value : Value} (hc : c.rest = some text)
    (h : read text = some (value, passed, rest)) : c.Reaches (c.advance passed rest) :=
  .inr ⟨passed, rest, by rw [hc, Node.text_of_reader? hn h], rfl⟩

end Cursor

end FurthestMatch
