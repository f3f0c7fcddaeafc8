import FurthestMatch.Config.Json
import FurthestMatch.Proofs.Numerals
import FurthestMatch.Value.Document

/-!
# Numbers in documents

Integers and finite floats are written in documents as JSON writes numbers: no zero stands in front of other digits, and
there are digits on either side of a point. A reader of JSON takes such a number as it is written.
-/

namespace FurthestMatch

open Numeral (Digits IsExponent takeWhile_digits)

/-! ## Reading a number -/

namespace Json

def IsWhole (t : Text) : Prop :=
  t = ['0'] ∨ ∃ c d, c ≠ '0' ∧ Digits (c :: d) ∧ t = c :: d

def IsFraction (t : Text) : Prop :=
  t = [] ∨ ∃ d, Digits d ∧ d ≠ [] ∧ t = '.' :: d

/-- `(0 | [1-9] [0-9]*) ('.' [0-9]+)? ([eE] [-+]? [0-9]+)?` -/
def IsUnsigned (t : Text) : Prop :=
  ∃ w f e, IsWhole w ∧ IsFraction f ∧ IsExponent e ∧ t = w ++ (f ++ e)

def IsNumber (t : Text) : Prop :=
  IsUnsigned t ∨ ∃ u, IsUnsigned u ∧ t = '-' :: u

def EndsNumber (rest : Text) : Prop :=
  ∀ c ∈ rest.head?, Numeral.isDigit c = false ∧ c ≠ '.' ∧ c ≠ 'e' ∧ c ≠ 'E'

variable {t w f e d rest : Text}

theorem readDigits?_append (hd : Digits d) (hne : d ≠ []) (hr : ∀ c ∈ rest.head?, Numeral.isDigit c = false) :
    readDigits? (d ++ rest) = some (d, rest) := by
  obtain ⟨ht, hrest⟩ := takeWhile_digits hd hr
  simp only [readDigits?, ht, hrest, if_neg hne]

theorem readExponent?_append (h : IsExponent e) (hr : EndsNumber rest) :
    readExponent? (e ++ rest) = some (e, rest) := by
  rcases h with rfl | ⟨c, s, d, hc, hs, hd, hne, rfl⟩
  · cases rest with
    | nil => rfl
    | cons c rest =>
      obtain ⟨-, -, he, hE⟩ := hr c rfl
      exact if_neg fun h => h.elim he hE
  · have hdigits := readDigits?_append hd hne fun c hc => (hr c hc).1
    rw [List.cons_append, List.append_assoc]
    unfold readExponent?
    dsimp only
    rw [if_pos hc]
    rcases hs with rfl | rfl | rfl
    · obtain ⟨c', d, rfl⟩ := List.exists_cons_of_ne_nil hne
      have hsign := Numeral.IsFigure.not_sign (.inl (hd c' List.mem_cons_self))
      split
      · rename_i he
        exact absurd (List.cons.inj he).1 hsign.2
      · rename_i he
        exact absurd (List.cons.inj he).1 hsign.1
      · rw [List.nil_append, hdigits]
        rfl
    · show (readDigits? (d ++ rest)).map _ = _
      rw [hdigits]
      rfl
    · show (readDigits? (d ++ rest)).map _ = _
      rw [hdigits]
      rfl

theorem readFraction?_append (h : IsFraction f) (hr : ∀ c ∈ rest.head?, Numeral.isDigit c = false ∧ c ≠ '.') :
    readFraction? (f ++ rest) = some (f, rest) := by
  rcases h with rfl | ⟨d, hd, hne, rfl⟩
  · cases rest with
    | nil => rfl
    | cons c rest =>
      rw [List.nil_append]
      unfold readFraction?
      split
      · rename_i he
        exact absurd (List.cons.inj he).1 (hr c rfl).2
      · rfl
  · simp only [List.cons_append, readFraction?, readDigits?_append hd hne fun c hc => (hr c hc).1, Option.map_some]

theorem readWhole?_append (h : IsWhole w) (hr : ∀ c ∈ rest.head?, Numeral.isDigit c = false) :
    readWhole? (w ++ rest) = some (w, rest) := by
  rcases h with rfl | ⟨c, d, hc, hd, rfl⟩
  · cases rest with
    | nil => rfl
    | cons c rest =>
      have hc := hr c rfl
      simp [readWhole?, hc]
  · rw [← readDigits?_append hd (List.cons_ne_nil c d) hr]
    unfold readWhole?
    split
    · rename_i he
      exact absurd (List.cons.inj he).1 hc
    · rfl

theorem IsWhole.exists_cons (h : IsWhole w) : ∃ c u, w = c :: u ∧ Numeral.isDigit c := by
  rcases h with rfl | ⟨c, d, -, hd, rfl⟩
  · exact ⟨'0', [], rfl, by decide⟩
  · exact ⟨c, d, rfl, hd c List.mem_cons_self⟩

theorem IsExponent.endsFraction (h : IsExponent e) (hr : EndsNumber rest) :
    ∀ c ∈ (e ++ rest).head?, Numeral.isDigit c = false ∧ c ≠ '.' := by
  rcases h with rfl | ⟨c, s, d, hc, -, -, -, rfl⟩
  · exact fun c hc => ⟨(hr c hc).1, (hr c hc).2.1⟩
  · rintro _ ⟨⟩
    rcases hc with rfl | rfl <;> decide

theorem readNumber?_append (h : IsNumber t) (hr : EndsNumber rest) : readNumber? (t ++ rest) = some (t, rest) := by
  have pieces {w f e : Text} (hw : IsWhole w) (hf : IsFraction f) (he : IsExponent e) :
      readExponent? (e ++ rest) = some (e, rest) ∧ readFraction? (f ++ (e ++ rest)) = some (f, e ++ rest) ∧
        readWhole? (w ++ (f ++ (e ++ rest))) = some (w, f ++ (e ++ rest)) := by
    have hends := IsExponent.endsFraction he hr
    refine ⟨readExponent?_append he hr, readFraction?_append hf hends, readWhole?_append hw fun c hc => ?_⟩
    rcases hf with rfl | ⟨d, -, -, rfl⟩
    · exact (hends c hc).1
    · cases hc
      decide
  unfold readNumber?
  rcases h with ⟨w, f, e, hw, hf, he, rfl⟩ | ⟨_, ⟨w, f, e, hw, hf, he, rfl⟩, rfl⟩
  · obtain ⟨hexponent, hfraction, hwhole⟩ := pieces hw hf he
    obtain ⟨c, u, rfl, hc⟩ := hw.exists_cons
    rw [List.append_assoc, List.append_assoc]
    split
    rename_i hsign
    split at hsign
    · rename_i he
      exact absurd (List.cons.inj he).1 (Numeral.IsFigure.not_sign (.inl hc)).1
    · cases hsign
      rw [hwhole]
      simp [hfraction, hexponent]
  · obtain ⟨hexponent, hfraction, hwhole⟩ := pieces hw hf he
    simp [hwhole, hfraction, hexponent]

def numberChars : List Char :=
  ['0', '1', '2', '3', '4', '5', '6', '7', '8', '9', '-', '+', '.', 'e', 'E']

theorem mem_numberChars_of_digits (hd : Digits d) : ∀ c ∈ d, c ∈ numberChars :=
  fun c hc => List.mem_append_left ['-', '+', '.', 'e', 'E'] (Numeral.mem_of_isDigit (hd c hc))

theorem IsUnsigned.mem_numberChars (h : IsUnsigned t) : ∀ c ∈ t, c ∈ numberChars := by
  obtain ⟨w, f, e, hw, hf, he, rfl⟩ := h
  intro c hc
  rcases List.mem_append.mp hc with hc | hc
  · rcases hw with rfl | ⟨c', d, -, hd, rfl⟩
    · cases List.mem_singleton.mp hc
      decide
    · exact mem_numberChars_of_digits hd c hc
  rcases List.mem_append.mp hc with hc | hc
  · rcases hf with rfl | ⟨d, hd, -, rfl⟩
    · cases hc
    · rcases List.mem_cons.mp hc with rfl | hc
      · decide
      · exact mem_numberChars_of_digits hd c hc
  · rcases he with rfl | ⟨c', s, d, he, hs, hd, -, rfl⟩
    · cases hc
    rcases List.mem_cons.mp hc with rfl | hc
    · rcases he with rfl | rfl <;> decide
    rcases List.mem_append.mp hc with hc | hc
    · rcases hs with rfl | rfl | rfl
      · cases hc
      · cases List.mem_singleton.mp hc
        decide
      · cases List.mem_singleton.mp hc
        decide
    · exact mem_numberChars_of_digits hd c hc

theorem IsNumber.mem_numberChars (h : IsNumber t) : ∀ c ∈ t, c ∈ numberChars := by
  rcases h with h | ⟨u, h, rfl⟩
  · exact h.mem_numberChars
  · intro c hc
    rcases List.mem_cons.mp hc with rfl | hc
    · decide
    · exact h.mem_numberChars c hc

theorem IsNumber.exists_cons (h : IsNumber t) : ∃ c u, t = c :: u ∧ (c = '-' ∨ Numeral.isDigit c) := by
  rcases h with ⟨w, f, e, hw, -, -, rfl⟩ | ⟨u, -, rfl⟩
  · obtain ⟨c, u, rfl, hc⟩ := hw.exists_cons
    exact ⟨c, _, rfl, .inr hc⟩
  · exact ⟨'-', u, rfl, .inl rfl⟩

end Json

/-! ## Digits -/

theorem Numeral.digits_toDigits (n : Nat) : Digits (Nat.toDigits 10 n) :=
  fun _ hc => Nat.isDigit_of_mem_toDigits (by decide) (by decide) hc

theorem exists_toDigits {n : Nat} (h : n ≠ 0) : ∃ c d, Nat.toDigits 10 n = c :: d ∧ c ≠ '0' := by
  induction n using Nat.strongRecOn with
  | ind n ih =>
    by_cases hn : n < 10
    · refine ⟨_, [], Nat.toDigits_of_lt_base hn, ?_⟩
      have hall : ∀ m < 10, m ≠ 0 → m.digitChar ≠ '0' := by decide
      exact hall n hn h
    · obtain ⟨c, d, hd, hc⟩ := ih (n / 10) (by omega) (by omega)
      exact ⟨c, d ++ [(n % 10).digitChar], by rw [Nat.toDigits_of_base_le (by decide) (by omega), hd]; rfl, hc⟩

namespace Json

theorem isWhole_toDigits (n : Nat) : IsWhole (Nat.toDigits 10 n) := by
  by_cases h : n = 0
  · subst h
    exact .inl (Nat.toDigits_zero 10)
  · obtain ⟨c, d, hd, hc⟩ := exists_toDigits h
    exact .inr ⟨c, d, hc, hd ▸ Numeral.digits_toDigits n, hd⟩

theorem IsWhole.isUnsigned {w : Text} (h : IsWhole w) : IsUnsigned w :=
  ⟨w, [], [], h, .inl rfl, .inl rfl, by simp⟩

theorem isNumber_integerText (n : Int) : IsNumber (integerText n) := by
  unfold integerText
  split
  · exact .inr ⟨_, (isWhole_toDigits _).isUnsigned, rfl⟩
  · exact .inl (isWhole_toDigits _).isUnsigned

end Json

/-! ## Shortest decimals -/

namespace Decimal

theorem Digits.normalize_ne_zero : ∀ {fuel n : Nat} {exponent : Int}, n ≠ 0 →
    (normalize fuel n exponent).digits ≠ 0
  | 0, _, _, h => h
  | fuel + 1, n, exponent, h => by
    rw [normalize]
    split
    · exact normalize_ne_zero (by omega)
    · exact h

theorem Interval.onGrid?_ne_zero {i : Interval} {exponent : Int} {n : Nat} (h : i.onGrid? exponent = some n) :
    n ≠ 0 := by
  unfold onGrid? at h
  extract_lets up unit inside below short long at h
  have hbelow (hb : (inside below && below != 0) = true) : below ≠ 0 :=
    bne_iff_ne.mp ((Bool.and_eq_true _ _).mp hb).2
  clear_value inside short long below
  split at h
  · have := hbelow ‹_›
    cases h
    split
    · assumption
    · split <;> omega
  · cases h
    exact hbelow ‹_›
  · cases h
    omega
  · cases h

/-- A search that finds nothing ends far below the number. -/
theorem Interval.digits_search (i : Interval) : ∀ (fuel : Nat) (exponent : Int),
    (i.search fuel exponent).digits ≠ 0 ∨ i.search fuel exponent = ⟨i.value / i.den, exponent - fuel⟩
  | 0, exponent => .inr (by simp [search])
  | fuel + 1, exponent => by
    rw [search]
    cases h : i.onGrid? exponent with
    | some n => exact .inl (Digits.normalize_ne_zero (onGrid?_ne_zero h))
    | none =>
      rcases i.digits_search fuel (exponent - 1) with hs | hs
      · exact .inl hs
      · refine .inr (hs.trans (congrArg (Digits.mk _) ?_))
        omega

theorem le_liftToOne (num den : Nat) : ∀ fuel start, start ≤ liftToOne num den fuel start
  | 0, _ => Nat.le_refl _
  | fuel + 1, start => by
    rw [liftToOne]
    split
    · exact Nat.le_refl _
    · exact (Nat.le_succ _).trans (le_liftToOne num den fuel (start + 1))

/-- The digits of a number do not begin with a zero, unless the number is far below one. -/
theorem digits_shortest (mantissa : Nat) (exponent : Int) :
    (shortest mantissa exponent).digits ≠ 0 ∨ (shortest mantissa exponent).point ≤ -18 := by
  have hden : 0 < (Interval.around mantissa exponent).den := Nat.pow_pos (by decide)
  rw [shortest]
  generalize Interval.around mantissa exponent = i at hden
  rcases i.digits_search 18 (leadingExponent i.value i.den) with h | h
  · exact .inl h
  · rw [h]
    by_cases hv : i.value / i.den = 0
    · have hlow : ¬i.den ≤ i.value := fun hle => absurd (Nat.div_pos hle hden) (by omega)
      have hlift := le_liftToOne i.value i.den 400 1
      right
      rw [Digits.point, Digits.chars, hv, Nat.toDigits_zero, leadingExponent, if_neg hlow]
      simp only [List.length_singleton]
      omega
    · exact .inl hv

end Decimal

/-! ## Written floats -/

namespace Json

open Decimal

theorem isFraction_of_digits {d : Text} (hd : Digits d) (hne : d ≠ []) : IsFraction ('.' :: d) :=
  .inr ⟨d, hd, hne, rfl⟩

theorem digits_replicate (n : Nat) : Digits (List.replicate n '0') := by
  intro c hc
  rw [List.eq_of_mem_replicate hc]
  decide

theorem Digits.append {d d' : Text} (hd : Digits d) (hd' : Digits d') : Digits (d ++ d') :=
  fun c hc => (List.mem_append.mp hc).elim (hd c) (hd' c)

theorem isUnsigned_plain {c : Char} {d : Text} (hc : c ≠ '0') (hd : Digits (c :: d)) (point : Int) :
    IsUnsigned (Notation.plain (c :: d) point) := by
  rw [Notation.plain]
  split
  · exact ⟨['0'], '.' :: (List.replicate (-point).toNat '0' ++ c :: d), [], .inl rfl,
      isFraction_of_digits (Digits.append (digits_replicate _) hd) (by simp), .inl rfl, by simp⟩
  · obtain ⟨whole, hw⟩ : ∃ whole, point.toNat = whole + 1 := ⟨point.toNat - 1, by omega⟩
    rw [hw]
    dsimp only
    split
    · refine ⟨c :: (d ++ List.replicate (whole + 1 - (c :: d).length) '0'), ['.', '0'], [],
        .inr ⟨c, _, hc, ?_, rfl⟩, isFraction_of_digits (digits_replicate 1) (by simp), .inl rfl, by simp⟩
      exact Digits.append hd (digits_replicate _)
    · rename_i hl
      refine ⟨c :: d.take whole, '.' :: d.drop whole, [],
        .inr ⟨c, _, hc, fun x hx => hd x (List.mem_of_mem_take (i := whole + 1) hx), rfl⟩,
        isFraction_of_digits (fun x hx => hd x (List.mem_of_mem_drop (i := whole + 1) hx)) ?_, .inl rfl, by simp⟩
      rw [Ne, List.drop_eq_nil_iff]
      simpa using hl

theorem isUnsigned_scientific (n : Notation) {d : Text} (h : IsWhole d) (point : Int) :
    IsUnsigned (n.scientific d point) := by
  unfold Notation.scientific
  extract_lets exponent mantissa sign
  have hmantissa : ∃ w f, IsWhole w ∧ IsFraction f ∧ mantissa = w ++ f := by
    rcases h with rfl | ⟨c, d, hc, hd, rfl⟩
    · exact ⟨['0'], [], .inl rfl, .inl rfl, rfl⟩
    · have hfirst : IsWhole [c] := .inr ⟨c, [], hc, fun x hx => hd x (List.mem_of_mem_take (i := 1) hx), rfl⟩
      cases d with
      | nil => exact ⟨[c], [], hfirst, .inl rfl, rfl⟩
      | cons c' d =>
        exact ⟨[c], '.' :: c' :: d, hfirst,
          isFraction_of_digits (fun x hx => hd x (List.mem_cons_of_mem c hx)) (List.cons_ne_nil c' d), rfl⟩
  have hsign : Numeral.IsSign sign := by
    simp only [sign]
    split
    · exact .inr (.inl rfl)
    · split
      · exact .inr (.inr rfl)
      · exact .inl rfl
  obtain ⟨w, f, hw, hf, hm⟩ := hmantissa
  refine ⟨w, f, 'e' :: (sign ++ Nat.toDigits 10 exponent.natAbs), hw, hf, ?_, ?_⟩
  · exact .inr ⟨'e', sign, _, .inl rfl, hsign, Numeral.digits_toDigits _, Nat.toDigits_ne_nil, rfl⟩
  · rw [hm]
    simp

/-- What a document writes for a finite float is a number. -/
theorem isNumber_write {x : Float} (h : Value.isFinite x) : IsNumber (documentNotation.write x) := by
  unfold Value.isFinite at h
  rw [Notation.write]
  cases hx : Binary64.decode x with
  | nan => rw [hx] at h; cases h
  | infinite => rw [hx] at h; cases h
  | finite negative mantissa exponent =>
    dsimp only
    have hbody : IsUnsigned (if mantissa = 0 then ['0', '.', '0'] else
        let d := shortest mantissa exponent
        if documentNotation.above < d.point ∧ d.point ≤ documentNotation.most then Notation.plain d.chars d.point
        else documentNotation.scientific d.chars d.point) := by
      split
      · exact ⟨['0'], ['.', '0'], [], .inl rfl, isFraction_of_digits (digits_replicate 1) (by simp), .inl rfl, rfl⟩
      · dsimp only
        split
        · -- the plain form is for numbers that are not far below one
          rename_i hpoint
          have hne := (digits_shortest mantissa exponent).resolve_right fun hlow =>
            absurd (hpoint.1.trans_le hlow) (by decide)
          obtain ⟨c, d, hd, hc⟩ := exists_toDigits hne
          rw [Decimal.Digits.chars, hd]
          exact isUnsigned_plain hc (hd ▸ Numeral.digits_toDigits _) _
        · exact isUnsigned_scientific _ (isWhole_toDigits _) _
    split
    · exact .inr ⟨_, hbody, rfl⟩
    · exact .inl hbody

end Json

end FurthestMatch
