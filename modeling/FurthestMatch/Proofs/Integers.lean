import FurthestMatch.Pattern
import FurthestMatch.Proofs.Numerals
import Mathlib.Data.List.Induction
import Mathlib.Data.Nat.Digits.Defs

/-!
# Numerals that denote an integer

What a row of digits denotes in base ten, and which values a numeral with a sign is converted to. An integer that does
not fit in sixty-four bits is converted to a float.
-/

namespace FurthestMatch

namespace Numeral

/-! ## Rows of digits -/

instance (t : Text) : Decidable (Digits t) :=
  decidable_of_iff (t.all isDigit = true) List.all_eq_true

def figureOf (c : Char) : Nat :=
  c.toNat - '0'.toNat

def decimal (d : Text) : Nat :=
  Nat.ofDigits 10 (d.reverse.map figureOf)

theorem ofDigits_append_singleton (d : Text) (c : Char) : ofDigits (d ++ [c]) = 10 * ofDigits d + figureOf c := by
  simp [ofDigits, figureOf]

theorem ofDigits_eq_decimal (d : Text) : ofDigits d = decimal d := by
  induction d using List.reverseRecOn with
  | nil => rfl
  | append_singleton d c ih => simp [ofDigits_append_singleton, ih, decimal, Nat.ofDigits_cons, Nat.add_comm]

theorem decimal_cons (c : Char) (d : Text) : decimal (c :: d) = decimal d + 10 ^ d.length * figureOf c := by
  simp [decimal, Nat.ofDigits_append]

theorem decimal_zeros_append (n : Nat) (d : Text) : decimal (List.replicate n '0' ++ d) = decimal d := by
  have hz : figureOf '0' = 0 := rfl
  simp [decimal, hz]

theorem isDigit_iff {c : Char} : isDigit c ↔ 48 ≤ c.toNat ∧ c.toNat ≤ 57 := by
  simp only [isDigit, Bool.and_eq_true, decide_eq_true_eq, Char.le_def, UInt32.le_iff_toNat_le]
  exact Iff.rfl

/-! ## Signed numerals -/

def IsInteger (t : Text) (z : Int) : Prop :=
  ∃ s d, IsSign s ∧ Digits d ∧ d ≠ [] ∧ t = s ++ d ∧ z = if s = ['-'] then -(decimal d : Int) else decimal d

theorem IsInteger.of_digits {d : Text} (hd : Digits d) (hne : d ≠ []) : IsInteger d (decimal d) :=
  ⟨[], d, .inl rfl, hd, hne, rfl, by simp⟩

theorem IsInteger.isDecimal {t : Text} {z : Int} (h : IsInteger t z) : IsDecimal t := by
  obtain ⟨s, d, hs, hd, hne, ht, -⟩ := h
  exact ⟨s, [], d, hs, .inl rfl, hd, hne, ht⟩

theorem splitSign_of_sign {s d : Text} (hs : IsSign s) (hd : Digits d) (hne : d ≠ []) :
    splitSign (s ++ d) = (decide (s = ['-']), d) := by
  obtain ⟨c, d, rfl⟩ := List.exists_cons_of_ne_nil hne
  have hc : IsFigure c := .inl (hd c List.mem_cons_self)
  unfold IsSign at hs
  obtain rfl | rfl | rfl := hs
  · simpa using splitSign_figure hc d
  · rfl
  · rfl

theorem negateIf_sign (s : Text) (n : Nat) : negateIf (decide (s = ['-'])) n = if s = ['-'] then -(n : Int) else n := by
  simp [negateIf]

theorem int64?_of_isInteger {t : Text} {z : Int} (h : IsInteger t z) :
    int64? t = if -(Nat.pow 2 63 : Int) ≤ z ∧ z < Nat.pow 2 63 then some z else none := by
  obtain ⟨s, d, hs, hd, hne, rfl, rfl⟩ := h
  simp only [int64?, splitSign_of_sign hs hd hne, natural?_digits hd hne, Option.bind_eq_bind, Option.bind_some,
    negateIf_sign, ofDigits_eq_decimal]

theorem integer?_of_isInteger {t : Text} {z : Int} (h : IsInteger t z) : integer? t = some z := by
  obtain ⟨s, d, hs, hd, hne, rfl, rfl⟩ := h
  have hscore : ∀ c ∈ d, c ≠ '_' := by
    intro c hc he
    have hdigit := hd c hc
    rw [he] at hdigit
    exact absurd hdigit (by decide)
  have hhead : d.head? ≠ some '_' := fun he => hscore '_' (List.mem_of_mem_head? he) rfl
  have hfilter : d.filter (· ≠ '_') = d := by
    rw [List.filter_eq_self]
    simpa using hscore
  simp only [integer?, splitSign_of_sign hs hd hne, hhead, hfilter, if_false, natural?_digits hd hne, Option.map_eq_map,
    Option.map_some, negateIf_sign, ofDigits_eq_decimal]

end Numeral

/-! ## Converted values -/

namespace Conversion

open Numeral

variable {t : Text} {z : Int}

theorem apply_integer (h : IsInteger t z) :
    if -2 ^ 63 ≤ z ∧ z < 2 ^ 63 then Conversion.integer.apply t = .int z
    else ∃ x, Conversion.integer.apply t = .float x := by
  have hbounds : (-(Nat.pow 2 63 : Int) ≤ z ∧ z < Nat.pow 2 63) ↔ -2 ^ 63 ≤ z ∧ z < 2 ^ 63 := Iff.rfl
  have hint := int64?_of_isInteger h
  rw [if_congr hbounds rfl rfl] at hint
  split
  · rename_i hz
    rw [if_pos hz] at hint
    simp [apply, hint]
  · rename_i hz
    rw [if_neg hz] at hint
    obtain ⟨x, hx⟩ := float?_of_isExponential h.isDecimal.isExponential
    exact ⟨x, by simp [apply, hint, hx]⟩

theorem apply_bigInteger (h : IsInteger t z) : Conversion.bigInteger.apply t = .bigInt z := by
  simp [apply, integer?_of_isInteger h]

end Conversion

end FurthestMatch
