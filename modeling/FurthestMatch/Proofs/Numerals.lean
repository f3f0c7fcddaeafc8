import FurthestMatch.Decimal.Numeral
import Mathlib.Data.Bool.AllAny
import Mathlib.Tactic.IntervalCases

/-!
# Numerals that denote a float

A sign, digits with a point before some of them, and an exponent: whatever is written so can be read as a float.
-/

namespace FurthestMatch.Numeral

def Digits (t : Text) : Prop :=
  ∀ c ∈ t, isDigit c

def IsSign (t : Text) : Prop :=
  t = [] ∨ t = ['-'] ∨ t = ['+']

def IsWhole (t : Text) : Prop :=
  t = [] ∨ ∃ w, Digits w ∧ t = w ++ ['.']

/-- `[-+]? ([0-9]* '.')? [0-9]+` -/
def IsDecimal (t : Text) : Prop :=
  ∃ s w d, IsSign s ∧ IsWhole w ∧ Digits d ∧ d ≠ [] ∧ t = s ++ (w ++ d)

def IsExponent (t : Text) : Prop :=
  t = [] ∨ ∃ e s d, (e = 'e' ∨ e = 'E') ∧ IsSign s ∧ Digits d ∧ d ≠ [] ∧ t = e :: (s ++ d)

/-- `[-+]? ([0-9]* '.')? [0-9]+ ([eE] [-+]? [0-9]+)?` -/
def IsExponential (t : Text) : Prop :=
  ∃ m e, IsDecimal m ∧ IsExponent e ∧ t = m ++ e

theorem IsDecimal.isExponential {t : Text} (h : IsDecimal t) : IsExponential t :=
  ⟨t, [], h, .inl rfl, (List.append_nil t).symm⟩

/-! ## Characters of a numeral -/

theorem mem_of_isDigit {c : Char} (h : isDigit c) : c ∈ ['0', '1', '2', '3', '4', '5', '6', '7', '8', '9'] := by
  simp only [isDigit, Bool.and_eq_true, decide_eq_true_eq, Char.le_def, UInt32.le_iff_toNat_le] at h
  obtain ⟨hl, hu⟩ := h
  have hc : c = Char.ofNat c.val.toNat := (Char.ofNat_toNat c).symm
  generalize c.val.toNat = n at hl hu hc
  subst hc
  have hl : 48 ≤ n := hl
  have hu : n ≤ 57 := hu
  interval_cases n <;> decide

def IsFigure (c : Char) : Prop :=
  isDigit c ∨ c = '.'

theorem IsFigure.mem {c : Char} (h : IsFigure c) : c ∈ ['0', '1', '2', '3', '4', '5', '6', '7', '8', '9', '.'] := by
  rcases h with h | rfl
  · exact List.mem_append_left ['.'] (mem_of_isDigit h)
  · decide

/-- What comes after the sign of a decimal starts with a digit or the point. -/
theorem IsWhole.figure {w d : Text} (hw : IsWhole w) (hd : Digits d) (hne : d ≠ []) :
    ∃ c u, IsFigure c ∧ w ++ d = c :: u := by
  have head : ∀ v u : Text, Digits v → v ≠ [] → ∃ c u', IsFigure c ∧ v ++ u = c :: u' := by
    intro v u hv hne
    obtain ⟨c, v, rfl⟩ := List.exists_cons_of_ne_nil hne
    exact ⟨c, v ++ u, .inl (hv c List.mem_cons_self), rfl⟩
  rcases hw with rfl | ⟨w, hw, rfl⟩
  · obtain ⟨c, u, hc, hu⟩ := head d [] hd hne
    exact ⟨c, u, hc, by rwa [List.append_nil] at hu⟩
  · rw [List.append_assoc]
    cases w with
    | nil => exact ⟨'.', d, .inr rfl, rfl⟩
    | cons c w => exact head (c :: w) _ hw (List.cons_ne_nil c w)

theorem IsFigure.not_sign {c : Char} (h : IsFigure c) : c ≠ '-' ∧ c ≠ '+' := by
  have hc := h.mem
  constructor <;> (rintro rfl; exact absurd hc (by decide))

theorem splitSign_figure {c : Char} (h : IsFigure c) (u : Text) : splitSign (c :: u) = (false, c :: u) := by
  have hs := h.not_sign
  unfold splitSign
  split
  · rename_i he
    cases he
    exact absurd rfl hs.1
  · rename_i he
    cases he
    exact absurd rfl hs.2
  · rfl

theorem splitSign_sign {s : Text} (hs : IsSign s) {c : Char} (h : IsFigure c) (u : Text) :
    ∃ negative, splitSign (s ++ c :: u) = (negative, c :: u) := by
  rcases hs with rfl | rfl | rfl
  · exact ⟨false, splitSign_figure h u⟩
  · exact ⟨true, rfl⟩
  · exact ⟨false, rfl⟩

def IsStart (c : Char) : Prop :=
  IsFigure c ∨ c = '-' ∨ c = '+'

theorem IsExponential.starts {t : Text} (h : IsExponential t) : ∃ c u, t = c :: u ∧ IsStart c := by
  obtain ⟨_, e, ⟨s, w, d, hs, hw, hd, hne, rfl⟩, -, rfl⟩ := h
  obtain ⟨c, u, hc, hu⟩ := hw.figure hd hne
  rw [hu, List.append_assoc]
  rcases hs with rfl | rfl | rfl
  · exact ⟨c, u ++ e, rfl, .inl hc⟩
  · exact ⟨'-', _, rfl, .inr (.inl rfl)⟩
  · exact ⟨'+', _, rfl, .inr (.inr rfl)⟩

theorem IsStart.mem {c : Char} (h : IsStart c) :
    c ∈ ['0', '1', '2', '3', '4', '5', '6', '7', '8', '9', '.', '-', '+'] := by
  rcases h with h | rfl | rfl
  · exact List.mem_append_left ['-', '+'] h.mem
  · decide
  · decide

/-! ## Rows of digits -/

theorem takeWhile_digits {d rest : Text} (hd : Digits d) (hr : ∀ c ∈ rest.head?, isDigit c = false) :
    (d ++ rest).takeWhile isDigit = d ∧ (d ++ rest).dropWhile isDigit = rest := by
  rw [List.takeWhile_append_of_pos hd, List.dropWhile_append_of_pos hd]
  cases rest with
  | nil => exact ⟨List.append_nil d, rfl⟩
  | cons c rest =>
    have hc := hr c rfl
    rw [List.takeWhile_cons_of_neg (by simp [hc]), List.dropWhile_cons_of_neg (by simp [hc]), List.append_nil]
    exact ⟨rfl, rfl⟩

theorem natural?_digits {d : Text} (hd : Digits d) (hne : d ≠ []) : natural? d = some (ofDigits d) :=
  if_pos ⟨hne, List.all_eq_true.mpr hd⟩

theorem exponent?_isSome {e : Text} (h : IsExponent e) : ∃ z, exponent? e = some z := by
  rcases h with rfl | ⟨c, s, d, hc, hs, hd, hne, rfl⟩
  · exact ⟨0, rfl⟩
  · obtain ⟨f, d, rfl⟩ := List.exists_cons_of_ne_nil hne
    obtain ⟨negative, hsplit⟩ := splitSign_sign hs (.inl (hd f List.mem_cons_self)) d
    refine ⟨negateIf negative (ofDigits (f :: d)), ?_⟩
    simp only [exponent?, if_pos hc, hsplit, natural?_digits hd hne]
    rfl

theorem IsExponent.stops {e : Text} (h : IsExponent e) : ∀ c ∈ e.head?, isDigit c = false := by
  rcases h with rfl | ⟨c, s, d, hc, -, -, -, rfl⟩
  · exact nofun
  · rintro _ ⟨⟩
    rcases hc with rfl | rfl <;> decide

/-! ## Floats -/

theorem IsFigure.not_name {c : Char} (hc : IsFigure c) (u : Text) : (c :: u).map Char.toLower ≠ "inf".toList ∧
    (c :: u).map Char.toLower ≠ "infinity".toList ∧ (c :: u).map Char.toLower ≠ "nan".toList := by
  have hl : c.toLower ≠ 'i' ∧ c.toLower ≠ 'n' := by
    have hm := hc.mem
    revert hm
    simp only [List.mem_cons, List.not_mem_nil, or_false]
    rintro (rfl | rfl | rfl | rfl | rfl | rfl | rfl | rfl | rfl | rfl | rfl) <;> decide
  exact ⟨fun he => hl.1 (List.cons.inj he).1, fun he => hl.1 (List.cons.inj he).1, fun he => hl.2 (List.cons.inj he).1⟩

theorem unsignedFloat?_isSome (negative : Bool) {w d e : Text} (hw : IsWhole w) (hd : Digits d) (hne : d ≠ [])
    (he : IsExponent e) : ∃ x, unsignedFloat? negative (w ++ d ++ e) = some x := by
  obtain ⟨z, hz⟩ := exponent?_isSome he
  have hname : (w ++ d ++ e).map Char.toLower ≠ "inf".toList ∧ (w ++ d ++ e).map Char.toLower ≠ "infinity".toList ∧
      (w ++ d ++ e).map Char.toLower ≠ "nan".toList := by
    obtain ⟨c, u, hc, hu⟩ := hw.figure hd hne
    rw [hu]
    exact hc.not_name _
  obtain ⟨ht, hr⟩ := takeWhile_digits hd he.stops
  rw [unsignedFloat?]
  simp only [hname.1, hname.2.1, hname.2.2, or_self, if_false]
  rcases hw with rfl | ⟨w, hw, rfl⟩
  · simp only [List.nil_append, ht, hr]
    rcases he with rfl | ⟨c, s, d', rfl | rfl, -, -, -, rfl⟩ <;> simp [hne, hz]
  · have hpoint : ∀ c ∈ ('.' :: (d ++ e)).head?, isDigit c = false := by
      rintro _ ⟨⟩
      decide
    obtain ⟨ht', hr'⟩ := takeWhile_digits hw hpoint
    have happ : w ++ ['.'] ++ d ++ e = w ++ '.' :: (d ++ e) := by simp
    have hnil : w ++ d ≠ [] := fun h => hne (List.append_eq_nil_iff.mp h).2
    simp only [happ, ht, hr, ht', hr', hnil, if_false, hz]
    exact ⟨_, rfl⟩

theorem float?_of_isExponential {t : Text} (h : IsExponential t) : ∃ x, float? t = some x := by
  obtain ⟨_, e, ⟨s, w, d, hs, hw, hd, hne, rfl⟩, he, rfl⟩ := h
  obtain ⟨c, u, hc, hu⟩ := hw.figure hd hne
  obtain ⟨negative, hsplit⟩ := splitSign_sign hs hc (u ++ e)
  obtain ⟨x, hx⟩ := unsignedFloat?_isSome negative hw hd hne he
  refine ⟨x, ?_⟩
  rw [hu, List.cons_append] at hx
  rw [hu, List.append_assoc, List.cons_append, float?, hsplit]
  exact hx

end FurthestMatch.Numeral
