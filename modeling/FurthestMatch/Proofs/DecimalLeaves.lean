import FurthestMatch.Proofs.DigitRuns
import FurthestMatch.Proofs.Integers

/-!
# What the decimal leaves accept

A natural is a row of digits, an integer one with or without a sign, and a byte a row of digits that denotes at most
255. The leaves for these accept their numerals and no other texts. For a byte this rests on backtracking: zeros before
it may be read in many ways, of which all are tried.
-/

namespace FurthestMatch

namespace Regex

variable {α : Type} {r s : Regex} {t rest : Text}

/-! ## Every way is tried -/

def Tries (r : Regex) : Prop :=
  ∀ (α : Type) (k : Progress → Option α) (b : Text) (g : List (Nat × Text)) (u rest : Text), r.Spells u →
    k ⟨u.reverse ++ b, rest, g⟩ ≠ none → run r k ⟨b, u ++ rest, g⟩ ≠ none

theorem orElse_ne_none {x : Option α} {y : Unit → Option α} (h : x ≠ none ∨ y () ≠ none) : x.orElse y ≠ none := by
  cases x with
  | none => simpa using h
  | some a => simp

theorem tries_set (c : CharSet) : (set c).Tries := by
  intro α k b g u rest hu hk
  obtain ⟨d, hd, rfl⟩ := hu
  simpa [run, hd] using hk

theorem Tries.seq (hr : r.Tries) (hs : s.Tries) : (seq r s).Tries := by
  intro α k b g t rest ht hk
  obtain ⟨u, v, hu, hv, rfl⟩ := ht
  rw [List.append_assoc]
  apply hr α _ b g u (v ++ rest) hu
  apply hs α k _ g v rest hv
  simpa using hk

theorem Tries.alt (hr : r.Tries) (hs : s.Tries) : (alt r s).Tries := by
  intro α k b g t rest ht hk
  apply orElse_ne_none
  cases ht with
  | inl ht => exact .inl (hr α k b g t rest ht hk)
  | inr ht => exact .inr (hs α k b g t rest ht hk)

theorem Tries.opt (hr : r.Tries) : (times r 0 (some 1) true).Tries := by
  intro α k b g t rest ht hk
  rw [run_opt]
  apply orElse_ne_none
  cases spells_opt.mp ht with
  | inl ht =>
    subst ht
    exact .inr hk
  | inr ht => exact .inl (hr α k b g t rest ht hk)

theorem tries_row (c : CharSet) : (times (.set c) 0 none true).Tries := by
  intro α k b g t rest ht hk hnone
  rw [run_row] at hnone
  exact hk (not_of_afterRow_eq_none hnone (spells_run.mp ht).2)

/-! ## Integers -/

theorem spells_integer : integer.Spells t ↔ ∃ z, Numeral.IsInteger t z := by
  simp only [integer, Spells, spells_sign, spells_digitRun₁]
  constructor
  · intro h
    obtain ⟨s, _, hs, ⟨d, _, ⟨hd, hne⟩, rfl, rfl⟩, rfl⟩ := h
    exact ⟨_, s, d, hs, hd, hne, by simp, rfl⟩
  · intro h
    obtain ⟨_, s, d, hs, hd, hne, rfl, -⟩ := h
    exact ⟨s, d, hs, ⟨d, [], ⟨hd, hne⟩, rfl, by simp⟩, rfl⟩

theorem takes_integer : integer.Takes (fun t => ∃ z, Numeral.IsInteger t z) (· = []) := by
  have hlook : (look 0 false (seq (char '.') (.set digits))).Takes (· = []) (· = []) := by
    apply takes_look_of_fails.weaken (fun _ => id)
    intro rest hrest
    subst hrest
    exact fun _ _ _ _ => rfl
  have hdigits := takes_digitRun₁.seq hlook fun u rest hu hr => by
    subst hu hr
    exact nofun
  apply (takes_sign.seq hdigits ?_).weaken ?_ fun _ => id
  · intro v rest hv _
    obtain ⟨d, _, ⟨hd, hne⟩, rfl, rfl⟩ := hv
    obtain ⟨c, d, rfl⟩ := List.exists_cons_of_ne_nil hne
    exact (stopsAt_signs (.inl (hd c List.mem_cons_self))).1
  · intro t ht
    obtain ⟨_, s, d, hs, hd, hne, rfl, -⟩ := ht
    exact ⟨s, d, hs, ⟨d, [], ⟨hd, hne⟩, rfl, by simp⟩, rfl⟩

/-! ## Bytes -/

theorem contains_digitsUpTo {c d : Char} : (digitsUpTo c).contains d ↔ 48 ≤ d.toNat ∧ d.toNat ≤ c.toNat := by
  simp only [digitsUpTo, CharSet.contains, Bool.false_and, Bool.or_false, Bool.false_or, Bool.and_eq_true,
    decide_eq_true_eq, Char.le_def, UInt32.le_iff_toNat_le]
  exact Iff.rfl

theorem spells_zeros : (times (char '0') 0 none true).Spells t ↔ ∃ n, t = List.replicate n '0' := by
  rw [char, spells_run]
  simp only [AllIn, contains_single]
  constructor
  · intro h
    exact ⟨t.length, List.eq_replicate_of_mem h.2⟩
  · intro h
    obtain ⟨n, rfl⟩ := h
    exact ⟨Nat.zero_le _, fun c hc => List.eq_of_mem_replicate hc⟩

theorem spells_opt_char {c : Char} : (times (char c) 0 (some 1) true).Spells t ↔ t = [] ∨ t = [c] := by
  rw [spells_opt, spells_char]

theorem spells_opt_digit : (times (.set digits) 0 (some 1) true).Spells t ↔
    t = [] ∨ ∃ c, Numeral.isDigit c ∧ t = [c] := by
  rw [spells_opt]
  simp only [Spells, contains_digits]

theorem spells_byteFigures : byteFigures.Spells t ↔
    (∃ c, 48 ≤ c.toNat ∧ c.toNat ≤ 53 ∧ t = ['2', '5', c]) ∨
    (∃ c d, 48 ≤ c.toNat ∧ c.toNat ≤ 52 ∧ Numeral.isDigit d ∧ t = ['2', c, d]) ∨
    ∃ u v d, (u = [] ∨ u = ['1']) ∧ (v = [] ∨ ∃ c, Numeral.isDigit c ∧ v = [c]) ∧ Numeral.isDigit d ∧
      t = u ++ (v ++ [d]) := by
  have digit {c : Char} : digits.contains c ↔ Numeral.isDigit c := by rw [contains_digits]
  simp only [byteFigures, Spells, spells_char, contains_digitsUpTo]
  constructor
  · intro h
    obtain ⟨_, _, rfl, ⟨_, _, rfl, ⟨c, hc, rfl⟩, rfl⟩, rfl⟩ |
      ⟨_, _, rfl, ⟨_, _, ⟨c, hc, rfl⟩, ⟨d, hd, rfl⟩, rfl⟩, rfl⟩ |
      ⟨u, _, hu, ⟨v, _, hv, ⟨d, hd, rfl⟩, rfl⟩, rfl⟩ := h
    · exact .inl ⟨c, hc.1, hc.2, rfl⟩
    · exact .inr (.inl ⟨c, d, hc.1, hc.2, digit.mp hd, rfl⟩)
    · exact .inr (.inr ⟨u, v, d, spells_opt_char.mp hu, spells_opt_digit.mp hv, digit.mp hd, rfl⟩)
  · intro h
    obtain ⟨c, hl, hu, rfl⟩ | ⟨c, d, hl, hu, hd, rfl⟩ | ⟨u, v, d, hu, hv, hd, rfl⟩ := h
    · exact .inl ⟨['2'], ['5', c], rfl, ⟨['5'], [c], rfl, ⟨c, ⟨hl, hu⟩, rfl⟩, rfl⟩, rfl⟩
    · exact .inr (.inl ⟨['2'], [c, d], rfl, ⟨[c], [d], ⟨c, ⟨hl, hu⟩, rfl⟩, ⟨d, digit.mpr hd, rfl⟩, rfl⟩, rfl⟩)
    · have hrest : ∃ u v', (times (.set digits) 0 (some 1) true).Spells u ∧ (set digits).Spells v' ∧
          v ++ [d] = u ++ v' :=
        ⟨v, [d], spells_opt_digit.mpr hv, ⟨d, digit.mpr hd, rfl⟩, rfl⟩
      exact .inr (.inr ⟨u, v ++ [d], spells_opt_char.mpr hu, hrest, rfl⟩)

theorem le_of_byteFigures (h : byteFigures.Spells t) : Numeral.Digits t ∧ t ≠ [] ∧ Numeral.decimal t ≤ 255 := by
  simp only [Numeral.Digits, Numeral.isDigit_iff, spells_byteFigures] at h ⊢
  obtain ⟨c, hl, hu, rfl⟩ | ⟨c, d, hl, hu, hd, rfl⟩ | ⟨u, v, d, rfl | rfl, rfl | ⟨c, hc, rfl⟩, hd, rfl⟩ := h
  all_goals simp [Numeral.decimal, Nat.ofDigits_cons, Numeral.figureOf]
  all_goals omega

theorem byteFigures_of_le {c : Char} (hd : Numeral.Digits (c :: t)) (hc : c ≠ '0')
    (hle : Numeral.decimal (c :: t) ≤ 255) : byteFigures.Spells (c :: t) := by
  simp only [Numeral.Digits, Numeral.isDigit_iff, List.mem_cons, forall_eq_or_imp] at hd
  have hpos : 49 ≤ c.toNat := by
    have hne : c.toNat ≠ '0'.toNat := fun h => hc (Char.toNat_inj.mp h)
    simp at hne
    omega
  have hlength : t.length < 3 := by
    by_cases hl : t.length < 3
    · exact hl
    · have hpow : 10 ^ 3 ≤ 10 ^ t.length := Nat.pow_le_pow_right (by decide) (Nat.not_lt.mp hl)
      have hmul := Nat.mul_le_mul hpow (show 1 ≤ Numeral.figureOf c from Nat.le_sub_of_add_le hpos)
      rw [Numeral.decimal_cons] at hle
      omega
  rw [spells_byteFigures]
  cases t with
  | nil => exact .inr (.inr ⟨[], [], c, .inl rfl, .inl rfl, Numeral.isDigit_iff.mpr hd.1, rfl⟩)
  | cons d t =>
    have hdd := hd.2 d List.mem_cons_self
    cases t with
    | nil =>
      exact .inr (.inr ⟨[], [c], d, .inl rfl, .inr ⟨c, Numeral.isDigit_iff.mpr hd.1, rfl⟩,
        Numeral.isDigit_iff.mpr hdd, rfl⟩)
    | cons e t =>
      have ht : t = [] := List.length_eq_zero_iff.mp (by simp only [List.length_cons] at hlength; omega)
      subst ht
      have hde := hd.2 e (by simp)
      have digit {x : Char} (y : Char) (h : x.toNat = y.toNat) : x = y := Char.toNat_inj.mp h
      simp [Numeral.decimal, Nat.ofDigits_cons, Numeral.figureOf] at hle
      by_cases h1 : c.toNat = 49
      · have hc := digit '1' h1
        subst hc
        exact .inr (.inr ⟨['1'], [d], e, .inr rfl, .inr ⟨d, Numeral.isDigit_iff.mpr hdd, rfl⟩,
          Numeral.isDigit_iff.mpr hde, rfl⟩)
      · have hc := digit '2' (show c.toNat = 50 by omega)
        subst hc
        simp at hle
        by_cases h5 : d.toNat = 53
        · have hd := digit '5' h5
          subst hd
          exact .inl ⟨e, hde.1, by simp at hle; omega, rfl⟩
        · exact .inr (.inl ⟨d, e, hdd.1, by omega, Numeral.isDigit_iff.mpr hde, rfl⟩)

/-- A text that denotes at most 255 is written with figures of a byte after zeros. -/
theorem exists_byteFigures (hd : Numeral.Digits t) (hne : t ≠ []) (hle : Numeral.decimal t ≤ 255) :
    ∃ n f, t = List.replicate n '0' ++ f ∧ byteFigures.Spells f := by
  have hrow := allIn_takeWhile_single '0' t
  obtain ⟨n, hn⟩ := spells_zeros.mp (spells_run.mpr ⟨Nat.zero_le _, hrow.1⟩)
  have happ : t = List.replicate n '0' ++ t.dropWhile (· = '0') := by
    rw [← hn, List.takeWhile_append_dropWhile]
  cases hdrop : t.dropWhile (· = '0') with
  | nil =>
    rw [hdrop, List.append_nil] at happ
    cases n with
    | zero => exact absurd happ hne
    | succ n =>
      rw [List.replicate_succ'] at happ
      exact ⟨n, ['0'], happ, spells_byteFigures.mpr (.inr (.inr ⟨[], [], '0', .inl rfl, .inl rfl, by decide, rfl⟩))⟩
  | cons c u =>
    have hc : c ≠ '0' := by
      intro h
      have hstop := hrow.2 c (by simp [hdrop])
      rw [h] at hstop
      simp [CharSet.single, CharSet.contains] at hstop
    rw [hdrop] at happ
    refine ⟨n, c :: u, happ, byteFigures_of_le (fun d hd' => hd d ?_) hc ?_⟩
    · rw [happ]
      exact List.mem_append_right _ hd'
    · rwa [happ, Numeral.decimal_zeros_append] at hle

theorem spells_byte : byte.Spells t ↔ Numeral.Digits t ∧ t ≠ [] ∧ Numeral.decimal t ≤ 255 := by
  simp only [byte, Spells]
  constructor
  · intro h
    obtain ⟨z, _, hz, ⟨f, _, hf, rfl, rfl⟩, rfl⟩ := h
    obtain ⟨n, rfl⟩ := spells_zeros.mp hz
    obtain ⟨hd, hne, hle⟩ := le_of_byteFigures hf
    refine ⟨?_, by simp [hne], by simpa [Numeral.decimal_zeros_append] using hle⟩
    intro c hc
    simp only [List.append_nil, List.mem_append, List.mem_replicate] at hc
    obtain ⟨-, rfl⟩ | hc := hc
    · decide
    · exact hd c hc
  · intro h
    obtain ⟨hd, hne, hle⟩ := h
    obtain ⟨n, f, rfl, hf⟩ := exists_byteFigures hd hne hle
    exact ⟨_, f, spells_zeros.mpr ⟨n, rfl⟩, ⟨f, [], hf, rfl, (List.append_nil f).symm⟩, rfl⟩

theorem tries_byteFigures : byteFigures.Tries := by
  have hfirst := (tries_set (.single '2' false)).seq ((tries_set (.single '5' false)).seq (tries_set (digitsUpTo '5')))
  have hsecond := (tries_set (.single '2' false)).seq ((tries_set (digitsUpTo '4')).seq (tries_set digits))
  have hthird := (tries_set (.single '1' false)).opt.seq ((tries_set digits).opt.seq (tries_set digits))
  exact hfirst.alt (hsecond.alt hthird)

/-- A byte is read to its end: some way of reading it works out, and no digit is left after the one that is taken. -/
theorem run_byte (h : byte.Spells t) : ∃ g, run byte some ⟨[], t, []⟩ = some ⟨t.reverse, [], g⟩ := by
  obtain ⟨hd, hne, hle⟩ := spells_byte.mp h
  obtain ⟨n, f, ht, hf⟩ := exists_byteFigures hd hne hle
  have hrun : run byte some ⟨[], List.replicate n '0' ++ (f ++ []), []⟩ ≠ none := by
    apply tries_row _ _ _ _ _ _ (f ++ []) (spells_zeros.mpr ⟨n, rfl⟩)
    apply tries_byteFigures _ _ _ _ f [] hf
    exact nofun
  rw [List.append_nil, ← ht] at hrun
  obtain ⟨e, he⟩ := Option.ne_none_iff_exists'.mp hrun
  obtain ⟨u, e', -, hpass, he'⟩ := spelled_run byte _ _ _ he
  cases he'
  have hend : e.ahead = [] := by
    cases hahead : e.ahead with
    | nil => rfl
    | cons c rest =>
      have hc : Numeral.isDigit c := hd c (by simp [show t = u ++ e.ahead from hpass.1, hahead])
      have hsplit := splitsBefore_of_byte he
      rw [hahead] at hsplit
      exact (hsplit.mp ⟨c, rfl, hc⟩).elim
  have hu : t = u := by simpa [hend] using hpass.1
  have hbehind : e.behind = t.reverse := by simpa [hu] using hpass.2
  refine ⟨e.groups, ?_⟩
  rw [he, ← hbehind, ← hend]

end Regex

/-! ## The leaves -/

namespace Leaf

open Numeral

def decimals : List Leaf :=
  [.natural, .integer, .bigInteger, .byte]

/-- The texts that a decimal leaf is meant for, with the integers that they denote. -/
def Denotes : Leaf → Text → Int → Prop
  | .natural, t, z => Digits t ∧ t ≠ [] ∧ z = decimal t
  | .integer, t, z | .bigInteger, t, z => IsInteger t z
  | .byte, t, z => Digits t ∧ t ≠ [] ∧ decimal t ≤ 255 ∧ z = decimal t
  | _, _, _ => False

/-- The value that stands for an integer: one of any size, or one of sixty-four bits with a float for those that do not
fit. -/
def Yields : Leaf → Int → Value → Prop
  | .bigInteger, z, v => v = .bigInt z
  | _, z, v => if -2 ^ 63 ≤ z ∧ z < 2 ^ 63 then v = .int z else ∃ x, v = .float x

variable {leaf : Leaf} {t : Text} {v : Value} {z : Int}

theorem Denotes.isInteger (h : leaf.Denotes t z) : IsInteger t z := by
  cases leaf with
  | natural =>
    obtain ⟨hd, hne, rfl⟩ := h
    exact .of_digits hd hne
  | byte =>
    obtain ⟨hd, hne, -, rfl⟩ := h
    exact .of_digits hd hne
  | integer => exact h
  | bigInteger => exact h
  | _ => exact h.elim

/-- The expression of a leaf spells the numerals of the leaf, and reads them when nothing comes after them. -/
theorem exists_expression_decimal (hl : leaf ∈ decimals) : ∃ r n, Pattern.ReadAs leaf.source r n ∧
    ∀ t, (r.Spells t ↔ ∃ z, leaf.Denotes t z) ∧
      (r.Spells t → ∃ g, r.run some ⟨[], t, []⟩ = some ⟨t.reverse, [], g⟩) := by
  have of_takes {r : Regex} {U S : Text → Prop} (h : r.Takes U S) (hU : ∀ t, r.Spells t → U t) (hS : S []) {t : Text}
      (ht : r.Spells t) : ∃ g, r.run some ⟨[], t, []⟩ = some ⟨t.reverse, [], g⟩ := by
    have hrun := Regex.run_of_takes h (List.append_nil t).symm (hU t ht) hS []
    rw [List.append_nil] at hrun
    exact ⟨[], hrun⟩
  simp only [decimals, List.mem_cons, List.not_mem_nil, or_false] at hl
  obtain rfl | rfl | rfl | rfl := hl
  · refine ⟨_, _, Reader.readAs_natural, fun t => ⟨?_, of_takes Regex.takes_digitRun₁
      (fun _ => Regex.spells_digitRun₁.mp) nofun⟩⟩
    simp [Regex.spells_digitRun₁, Denotes]
  · exact ⟨_, _, Reader.readAs_integer, fun t => ⟨Regex.spells_integer, of_takes Regex.takes_integer
      (fun _ => Regex.spells_integer.mp) rfl⟩⟩
  · exact ⟨_, _, Reader.readAs_integer, fun t => ⟨Regex.spells_integer, of_takes Regex.takes_integer
      (fun _ => Regex.spells_integer.mp) rfl⟩⟩
  · refine ⟨_, _, Reader.readAs_byte, fun t => ⟨?_, Regex.run_byte⟩⟩
    simp [Regex.spells_byte, Denotes]

theorem exists_conversion_decimal (hl : leaf ∈ decimals) : ∃ conversion, leaf.capture = .convert conversion ∧
    ∀ t z, IsInteger t z → leaf.Yields z (conversion.apply t) := by
  simp only [decimals, List.mem_cons, List.not_mem_nil, or_false] at hl
  obtain rfl | rfl | rfl | rfl := hl
  · exact ⟨.integer, rfl, fun t z => Conversion.apply_integer⟩
  · exact ⟨.integer, rfl, fun t z => Conversion.apply_integer⟩
  · exact ⟨.bigInteger, rfl, fun t z => Conversion.apply_bigInteger⟩
  · exact ⟨.integer, rfl, fun t z => Conversion.apply_integer⟩

theorem denotes_of_reader (hl : leaf ∈ decimals) (h : leaf.reader t = some (v, [])) : ∃ z, leaf.Denotes t z := by
  obtain ⟨r, n, hread, hspells⟩ := exists_expression_decimal hl
  obtain ⟨conversion, hc, -⟩ := exists_conversion_decimal hl
  rw [reader, hc] at h
  obtain ⟨l, hl, hs, -⟩ := Reader.sound_pattern hread (Capture.yields_convert conversion) t v [] h
  rw [List.append_nil] at hl
  rw [hl]
  exact (hspells l).1.mp hs

theorem reader_of_denotes (hl : leaf ∈ decimals) (h : leaf.Denotes t z) :
    ∃ v, leaf.reader t = some (v, []) ∧ leaf.Yields z v := by
  obtain ⟨r, n, hread, hspells⟩ := exists_expression_decimal hl
  obtain ⟨conversion, hc, hyields⟩ := exists_conversion_decimal hl
  obtain ⟨g, hrun⟩ := (hspells t).2 ((hspells t).1.mpr ⟨z, h⟩)
  refine ⟨conversion.apply t, ?_, hyields t z h.isInteger⟩
  have hwhole : Reader.pattern leaf.source (.convert conversion) (t ++ []) = some (conversion.apply t, []) :=
    Reader.pattern_of_run hread (Capture.yields_convert conversion) (by rwa [List.append_nil])
  rw [List.append_nil] at hwhole
  rw [reader, hc]
  exact hwhole

end Leaf

namespace Rulebook

variable {b : Rulebook} {id : NodeId} {leaf : Leaf}

theorem grounded_of_leaf (hn : b.node id = leaf.node) : b.Grounded id := by
  have hself : ∀ x, b.Inside id x → x = id := by
    intro x hx
    induction hx with
    | root => rfl
    | inner _ hi ih =>
      subst ih
      obtain ⟨p, hp⟩ | hp := leaf.node_eq <;> simp [inner?, hn, hp] at hi
    | child _ hc ih =>
      subst ih
      obtain ⟨p, hp⟩ | hp := leaf.node_eq <;> simp [Node.children, hn, hp] at hc
  intro x hx
  rw [hself x hx, resolve, resolveFrom, hn]
  obtain ⟨p, hp⟩ | hp := leaf.node_eq
  · rw [hp]
    exact .pure id
  · rw [hp]
    exact .pure id

/-- A decimal leaf parses the numerals that it is meant for and no other texts, and answers the integer that a numeral
denotes, or a float where that does not fit. -/
theorem decimal_leaves_are_exact (hl : leaf ∈ Leaf.decimals) (hn : b.node id = leaf.node) (text : Text)
    (config : Config) (withDrawing : Bool) : ∃ answer, (b.parse config id text withDrawing).result = .ok answer ∧
      ((∃ v, answer = .ok v) ↔ ∃ z, leaf.Denotes text z) ∧
        ∀ v z, answer = .ok v → leaf.Denotes text z → leaf.Yields z v := by
  have hreads : b.Reads 1 id text (leaf.reader text) := reads_leaf hn text (Nat.lt_succ_self _)
  have hlimit : 1 ≤ b.matchLimit text := by
    have hpos := Nat.mul_pos (show 0 < 8 * (b.graph.size + 1) by omega) (show 0 < text.length + 2 by omega)
    rw [matchLimit]
    omega
  obtain ⟨answer, ha, hv⟩ := parse_of_reads hreads hlimit (grounded_of_leaf hn) config withDrawing
  refine ⟨answer, ha, ⟨?_, ?_⟩, ?_⟩
  · intro h
    obtain ⟨v, h⟩ := h
    exact Leaf.denotes_of_reader hl ((hv v).mp h)
  · intro h
    obtain ⟨z, h⟩ := h
    obtain ⟨v, hread, -⟩ := Leaf.reader_of_denotes hl h
    exact ⟨v, (hv v).mpr hread⟩
  · intro v z h hz
    obtain ⟨w, hread, hw⟩ := Leaf.reader_of_denotes hl hz
    cases hread.symm.trans ((hv v).mp h)
    exact hw

theorem byte_after_zeros : ∃ answer, (leavesOnly.parse {} Leaf.byte.id "000255".toList true).result = .ok answer ∧
    answer = .ok (.int 255) := by
  have hbyte : Leaf.byte.Denotes "000255".toList 255 := ⟨by decide, by decide, by decide, rfl⟩
  obtain ⟨answer, ha, haccept, hvalue⟩ :=
    decimal_leaves_are_exact (by decide) (node_leavesOnly .byte) "000255".toList {} true
  obtain ⟨v, hv⟩ := haccept.mpr ⟨255, hbyte⟩
  have hint : v = .int 255 := by simpa [Leaf.Yields] using hvalue v 255 hv hbyte
  exact ⟨answer, ha, hint ▸ hv⟩

end Rulebook

end FurthestMatch
