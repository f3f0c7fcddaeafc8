import FurthestMatch.Proofs.Lexing
import FurthestMatch.Proofs.Numerals

/-!
# Lexemes

Blanks, punctuation with blanks around it, numbers and quoted texts. Of the expression of each it is said which texts it
spells, and before what it takes such a text as a whole.
-/

namespace FurthestMatch

def Blanks (t : Text) : Prop :=
  ∀ c ∈ t, isBlank c

/-- What stands between quotes: characters other than the quote and the backslash, and backslashes each with one more
character of the line. -/
inductive QuotedBody : Text → Prop
  | nil : QuotedBody []
  | plain {c t} (hq : c ≠ '"') (hb : c ≠ '\\') (h : QuotedBody t) : QuotedBody (c :: t)
  | escaped {c t} (hc : c ≠ '\n') (h : QuotedBody t) : QuotedBody ('\\' :: c :: t)

def inQuotes (body : Text) : Text :=
  '"' :: (body ++ ['"'])

theorem QuotedBody.append {u t : Text} (hu : ∀ c ∈ u, c ≠ '"' ∧ c ≠ '\\') (h : QuotedBody t) : QuotedBody (u ++ t) := by
  induction u with
  | nil => exact h
  | cons c u ih =>
    have hc := hu c List.mem_cons_self
    exact .plain hc.1 hc.2 (ih fun d hd => hu d (List.mem_cons_of_mem _ hd))

namespace Regex

variable {r s : Regex} {U S : Text → Prop} {t rest : Text}

/-! ## Rows of characters -/

theorem spells_opt {greedy : Bool} : (times r 0 (some 1) greedy).Spells t ↔ t = [] ∨ r.Spells t := by
  constructor
  · rintro ⟨_ | ⟨u, _ | ⟨u', ts⟩⟩, ⟨-, hl⟩, hts, rfl⟩
    · exact .inl rfl
    · refine .inr ?_
      rw [List.flatten_singleton]
      exact hts u List.mem_cons_self
    · have hl : ts.length + 1 + 1 ≤ 1 := hl 1 rfl
      omega
  · rintro (rfl | h)
    · exact .nil ⟨Nat.le_refl 0, fun m _ => Nat.zero_le _⟩
    · refine ⟨[t], ⟨Nat.zero_le _, ?_⟩, ?_, List.flatten_singleton.symm⟩
      · rintro _ ⟨⟩
        exact Nat.le_refl 1
      · rintro u hu
        rwa [List.mem_singleton.mp hu]

theorem spells_run {c : CharSet} {least : Nat} {greedy : Bool} :
    (times (.set c) least none greedy).Spells t ↔ least ≤ t.length ∧ AllIn c t := by
  have hcount : ∀ n, (least ≤ n ∧ ∀ m ∈ (none : Option Nat), n ≤ max least m) ↔ least ≤ n := fun n =>
    ⟨And.left, fun h => ⟨h, nofun⟩⟩
  show Rounds _ (fun n => least ≤ n ∧ ∀ m ∈ (none : Option Nat), n ≤ max least m) t ↔ _
  simp only [hcount]
  exact rounds_singletons

section
variable (c : CharSet)

theorem takes_run : (times (.set c) 0 none true).Takes (AllIn c) (StopsAt c) := by
  have h := Takes.star (takes_set c) (by rintro u ⟨d, -, rfl⟩; exact List.cons_ne_nil d []) fun _ _ _ => trivial
  exact h.weaken (fun t ht => rounds_singletons.mpr ⟨trivial, ht⟩) fun rest hr => ⟨trivial, fails_set hr⟩

theorem takes_run₁ : (times (.set c) 1 none true).Takes (fun t => 1 ≤ t.length ∧ AllIn c t) (StopsAt c) := by
  have h := Takes.plus (takes_set c) (by rintro u ⟨d, -, rfl⟩; exact List.cons_ne_nil d []) fun _ _ _ => trivial
  exact h.weaken (fun t ht => rounds_singletons.mpr ht) fun rest hr => ⟨trivial, fails_set hr⟩

end

/-- Where a row of characters of a set ends is determined. -/
theorem eq_of_append_eq {c : CharSet} : ∀ {u v x y : Text}, AllIn c u → AllIn c v → StopsAt c x → StopsAt c y →
    u ++ x = v ++ y → u = v ∧ x = y
  | [], [], _, _, _, _, _, _, h => ⟨rfl, h⟩
  | [], d :: v, _, _, _, hv, hx, _, h => by
    cases h
    exact absurd (hv d List.mem_cons_self) (Bool.eq_false_iff.mp (hx d rfl))
  | d :: u, [], _, _, hu, _, _, hy, h => by
    cases h
    exact absurd (hu d List.mem_cons_self) (Bool.eq_false_iff.mp (hy d rfl))
  | d :: u, e :: v, _, _, hu, hv, hx, hy, h => by
    obtain ⟨rfl, htail⟩ := List.cons.inj h
    obtain ⟨rfl, rfl⟩ := eq_of_append_eq (fun e he => hu e (List.mem_cons_of_mem _ he))
      (fun e he => hv e (List.mem_cons_of_mem _ he)) hx hy htail
    exact ⟨rfl, rfl⟩

theorem Fails.seq (h : r.Fails rest) : (seq r s).Fails rest :=
  fun _ _ b g => h _ _ b g

def char (c : Char) : Regex :=
  .set (.single c false)

@[simp] theorem contains_single {c d : Char} : (CharSet.single c false).contains d = true ↔ d = c := by
  simp only [CharSet.single, CharSet.contains, Bool.false_and, Bool.or_false, Bool.and_eq_true, decide_eq_true_eq]
  exact ⟨fun h => Char.le_antisymm h.2 h.1, fun h => h ▸ ⟨Char.le_refl _, Char.le_refl _⟩⟩

@[simp] theorem spells_char {c : Char} : (char c).Spells t ↔ t = [c] := by
  simp only [char, Spells, contains_single]
  exact ⟨fun ⟨_, hd, ht⟩ => hd ▸ ht, fun h => ⟨c, rfl, h⟩⟩

theorem takes_char (c : Char) : (char c).Takes (· = [c]) fun _ => True :=
  (takes_set _).weaken (fun _ ht => ⟨c, contains_single.mpr rfl, ht⟩) fun _ => id

/-! ## Blanks and punctuation -/

def blanks : Regex :=
  .times (.set .blank) 0 none true

@[simp] theorem spells_blanks : blanks.Spells t ↔ Blanks t :=
  spells_run.trans ⟨And.right, fun h => ⟨Nat.zero_le _, h⟩⟩

theorem takes_blanks : blanks.Takes Blanks (StopsAt .blank) :=
  takes_run .blank

def Around (c : Char) (t : Text) : Prop :=
  ∃ w w', Blanks w ∧ Blanks w' ∧ t = w ++ c :: w'

def Opening (c : Char) (t : Text) : Prop :=
  ∃ w, Blanks w ∧ t = c :: w

def Closing (c : Char) (t : Text) : Prop :=
  ∃ w, Blanks w ∧ t = w ++ [c]

theorem Opening.length_lt {c : Char} {o : Text} (h : Opening c o) (t u : Text) : t.length < (o ++ (t ++ u)).length := by
  obtain ⟨w, -, rfl⟩ := h
  simp only [List.length_append, List.length_cons]
  omega

section
variable {c : Char}

theorem spells_around : (seq blanks (seq (char c) blanks)).Spells t ↔ Around c t := by
  simp only [Spells, spells_blanks, spells_char]
  constructor
  · rintro ⟨w, _, hw, ⟨_, w', rfl, hw', rfl⟩, rfl⟩
    exact ⟨w, w', hw, hw', rfl⟩
  · rintro ⟨w, w', hw, hw', rfl⟩
    exact ⟨w, c :: w', hw, ⟨[c], w', rfl, hw', rfl⟩, rfl⟩

theorem spells_opening : (seq (char c) blanks).Spells t ↔ Opening c t := by
  simp only [Spells, spells_blanks, spells_char]
  constructor
  · rintro ⟨_, w, rfl, hw, rfl⟩
    exact ⟨w, hw, rfl⟩
  · rintro ⟨w, hw, rfl⟩
    exact ⟨[c], w, rfl, hw, rfl⟩

theorem spells_closing : (seq blanks (char c)).Spells t ↔ Closing c t := by
  simp only [Spells, spells_blanks, spells_char]
  constructor
  · rintro ⟨w, _, hw, rfl, rfl⟩
    exact ⟨w, hw, rfl⟩
  · rintro ⟨w, hw, rfl⟩
    exact ⟨w, [c], hw, rfl, rfl⟩

theorem takes_opening : (seq (char c) blanks).Takes (Opening c) (StopsAt .blank) := by
  refine ((takes_char c).seq takes_blanks fun _ _ _ _ => trivial).weaken ?_ fun _ => id
  rintro t ⟨w, hw, rfl⟩
  exact ⟨[c], w, rfl, hw, rfl⟩

variable (hc : isBlank c = false)
include hc

theorem takes_around : (seq blanks (seq (char c) blanks)).Takes (Around c) (StopsAt .blank) := by
  refine (takes_blanks.seq takes_opening ?_).weaken ?_ fun _ => id
  · rintro _ rest ⟨w, hw, rfl⟩ -
    exact stopsAt_cons hc
  · rintro t ⟨w, w', hw, hw', rfl⟩
    exact ⟨w, c :: w', hw, ⟨w', hw', rfl⟩, rfl⟩

theorem takes_closing : (seq blanks (char c)).Takes (Closing c) fun _ => True := by
  refine (takes_blanks.seq (takes_char c) ?_).weaken ?_ fun _ => id
  · rintro _ rest rfl -
    exact stopsAt_cons hc
  · rintro t ⟨w, hw, rfl⟩
    exact ⟨w, [c], hw, rfl, rfl⟩

end

/-! ## Numbers -/

def digits : CharSet :=
  .union .none (.range '0' '9' false)

def oneOf (c d : Char) : CharSet :=
  .union (.union .none (.single c false)) (.single d false)

theorem contains_digits {c : Char} : digits.contains c = Numeral.isDigit c := by
  simp [digits, CharSet.contains, Numeral.isDigit]

theorem contains_oneOf {a b c : Char} : (oneOf a b).contains c = true ↔ c = a ∨ c = b := by
  simp only [oneOf, CharSet.contains, Bool.or_eq_true, contains_single, Bool.false_eq_true, false_or]

theorem allIn_digits : AllIn digits t ↔ Numeral.Digits t := by
  simp only [AllIn, Numeral.Digits, contains_digits]

def digitRun : Regex :=
  .times (.set digits) 0 none true

def digitRun₁ : Regex :=
  .times (.set digits) 1 none true

def sign (c d : Char) : Regex :=
  .times (.set (oneOf c d)) 0 (some 1) true

def whole : Regex :=
  .times (.seq digitRun (char '.')) 0 (some 1) true

def decimalThen (r : Regex) : Regex :=
  .seq (sign '-' '+') (.seq whole (.seq digitRun₁ r))

def exponent : Regex :=
  .times (.seq (.set (oneOf 'e' 'E')) (.seq (sign '+' '-') digitRun₁)) 0 (some 1) true

theorem spells_sign {c d : Char} : (sign c d).Spells t ↔ t = [] ∨ t = [c] ∨ t = [d] := by
  rw [sign, spells_opt]
  simp only [Spells, contains_oneOf]
  constructor
  · rintro (rfl | ⟨_, rfl | rfl, rfl⟩) <;> simp
  · rintro (rfl | rfl | rfl) <;> simp

theorem takes_sign {c d : Char} : (sign c d).Takes (fun t => t = [] ∨ t = [c] ∨ t = [d]) (StopsAt (oneOf c d)) := by
  refine (takes_set (oneOf c d)).opt.weaken ?_ fun rest hr => ⟨trivial, fails_set hr⟩
  rintro t (rfl | rfl | rfl)
  · exact .inl rfl
  · exact .inr ⟨c, contains_oneOf.mpr (.inl rfl), rfl⟩
  · exact .inr ⟨d, contains_oneOf.mpr (.inr rfl), rfl⟩

theorem stopsAt_signs {c : Char} (h : Numeral.IsFigure c) : StopsAt (oneOf '-' '+') (c :: t) ∧
    StopsAt (oneOf '+' '-') (c :: t) := by
  have hs := h.not_sign
  constructor <;> refine stopsAt_cons (Bool.eq_false_iff.mpr fun hc => ?_) <;> rcases contains_oneOf.mp hc with rfl | rfl
  · exact hs.1 rfl
  · exact hs.2 rfl
  · exact hs.2 rfl
  · exact hs.1 rfl

theorem spells_digitRun : digitRun.Spells t ↔ Numeral.Digits t := by
  rw [digitRun, spells_run, allIn_digits]
  exact ⟨And.right, fun h => ⟨Nat.zero_le _, h⟩⟩

theorem spells_digitRun₁ : digitRun₁.Spells t ↔ Numeral.Digits t ∧ t ≠ [] := by
  rw [digitRun₁, spells_run, allIn_digits, and_comm, Nat.one_le_iff_ne_zero, ne_eq, List.length_eq_zero_iff]

theorem takes_digitRun : digitRun.Takes Numeral.Digits (StopsAt digits) :=
  (takes_run digits).weaken (fun _ => allIn_digits.mpr) fun _ => id

theorem takes_digitRun₁ : digitRun₁.Takes (fun t => Numeral.Digits t ∧ t ≠ []) (StopsAt digits) :=
  (takes_run₁ digits).weaken (fun _ ht => ⟨List.length_pos_iff.mpr ht.2, allIn_digits.mpr ht.1⟩) fun _ => id

theorem spells_whole : whole.Spells t ↔ Numeral.IsWhole t := by
  rw [whole, spells_opt, Numeral.IsWhole]
  simp only [Spells, spells_digitRun, spells_char]
  refine or_congr_right ⟨?_, ?_⟩
  · rintro ⟨w, _, hw, rfl, rfl⟩
    exact ⟨w, hw, rfl⟩
  · rintro ⟨w, hw, rfl⟩
    exact ⟨w, ['.'], hw, rfl, rfl⟩

/-- Digits that no point follows are not taken for the part before a point. -/
theorem takes_whole : whole.Takes Numeral.IsWhole fun rest => ∃ d x, Numeral.Digits d ∧ StopsAt digits x ∧
    StopsAt (.single '.' false) x ∧ rest = d ++ x := by
  have hpoint : ∀ v rest, v = ['.'] → True → StopsAt digits (v ++ rest) := by
    rintro _ rest rfl -
    exact stopsAt_cons (by decide)
  refine (takes_digitRun.seq (takes_char '.') hpoint).opt.weaken ?_ ?_
  · rintro t (rfl | ⟨w, hw, rfl⟩)
    · exact .inl rfl
    · exact .inr ⟨w, ['.'], hw, rfl, rfl⟩
  · rintro _ ⟨d, x, hd, hx, hdot, rfl⟩
    refine ⟨trivial, fails_of_not_spells fun t rest' ht he => ?_⟩
    obtain ⟨w, _, hw, hc, rfl⟩ := ht
    rw [spells_char.mp hc, List.append_assoc] at he
    have hw := allIn_digits.mpr (spells_digitRun.mp hw)
    obtain ⟨-, rfl⟩ := eq_of_append_eq (allIn_digits.mpr hd) hw hx (stopsAt_cons (by decide)) he
    exact absurd (hdot '.' rfl) (by simp)

theorem spells_decimalThen : (decimalThen r).Spells t ↔ ∃ m e, Numeral.IsDecimal m ∧ r.Spells e ∧ t = m ++ e := by
  simp only [decimalThen, Spells, spells_sign, spells_whole, spells_digitRun₁]
  constructor
  · rintro ⟨s, _, hs, ⟨w, _, hw, ⟨d, e, ⟨hd, hne⟩, he, rfl⟩, rfl⟩, rfl⟩
    exact ⟨s ++ (w ++ d), e, ⟨s, w, d, hs, hw, hd, hne, rfl⟩, he, by simp only [List.append_assoc]⟩
  · rintro ⟨_, e, ⟨s, w, d, hs, hw, hd, hne, rfl⟩, he, rfl⟩
    exact ⟨s, w ++ (d ++ e), hs, ⟨w, d ++ e, hw, ⟨d, e, ⟨hd, hne⟩, he, rfl⟩, rfl⟩, by simp only [List.append_assoc]⟩

theorem takes_decimalThen (h : r.Takes U S) (hstop : ∀ e rest, U e → S rest → StopsAt digits (e ++ rest) ∧
    StopsAt (.single '.' false) (e ++ rest)) :
    (decimalThen r).Takes (fun t => ∃ m e, Numeral.IsDecimal m ∧ U e ∧ t = m ++ e) S := by
  have hd := takes_digitRun₁.seq h fun e rest he hr => (hstop e rest he hr).1
  have hw := takes_whole.seq hd (by
    rintro _ rest ⟨d, e, ⟨hd, -⟩, he, rfl⟩ hr
    exact ⟨d, e ++ rest, hd, (hstop e rest he hr).1, (hstop e rest he hr).2, List.append_assoc _ _ _⟩)
  refine (takes_sign.seq hw ?_).weaken ?_ fun _ => id
  · rintro _ rest ⟨w, _, hw, ⟨d, e, ⟨hd, hne⟩, -, rfl⟩, rfl⟩ -
    obtain ⟨c, u, hc, hu⟩ := hw.figure hd hne
    rw [← List.append_assoc, hu]
    exact (stopsAt_signs hc).1
  · rintro _ ⟨_, e, ⟨s, w, d, hs, hw, hd, hne, rfl⟩, he, rfl⟩
    exact ⟨s, w ++ (d ++ e), hs, ⟨w, d ++ e, hw, ⟨d, e, ⟨hd, hne⟩, he, rfl⟩, rfl⟩, by simp only [List.append_assoc]⟩

theorem spells_exponent : exponent.Spells t ↔ Numeral.IsExponent t := by
  rw [exponent, spells_opt, Numeral.IsExponent]
  simp only [Spells, contains_oneOf, spells_sign, spells_digitRun₁]
  refine or_congr_right ⟨?_, ?_⟩
  · rintro ⟨_, _, ⟨e, he, rfl⟩, ⟨s, d, hs, ⟨hd, hne⟩, rfl⟩, rfl⟩
    exact ⟨e, s, d, he, hs.imp_right Or.symm, hd, hne, rfl⟩
  · rintro ⟨e, s, d, he, hs, hd, hne, rfl⟩
    exact ⟨[e], s ++ d, ⟨e, he, rfl⟩, ⟨s, d, hs.imp_right Or.symm, ⟨hd, hne⟩, rfl⟩, rfl⟩

theorem takes_exponent : exponent.Takes Numeral.IsExponent fun rest => StopsAt digits rest ∧
    StopsAt (oneOf 'e' 'E') rest := by
  have hsign := takes_sign (c := '+') (d := '-') |>.seq takes_digitRun₁ (by
    rintro d rest ⟨hd, hne⟩ -
    obtain ⟨c, d, rfl⟩ := List.exists_cons_of_ne_nil hne
    exact (stopsAt_signs (.inl (hd c List.mem_cons_self))).2)
  refine ((takes_set (oneOf 'e' 'E')).seq hsign fun _ _ _ _ => trivial).opt.weaken ?_
    fun rest hr => ⟨hr.1, (fails_set hr.2).seq⟩
  rintro t (rfl | ⟨e, s, d, he, hs, hd, hne, rfl⟩)
  · exact .inl rfl
  · exact .inr ⟨[e], s ++ d, ⟨e, contains_oneOf.mpr he, rfl⟩, ⟨s, d, hs.imp_right Or.symm, ⟨hd, hne⟩, rfl⟩, rfl⟩

def EndsNumber (rest : Text) : Prop :=
  StopsAt digits rest ∧ StopsAt (.single '.' false) rest

def number : Regex :=
  decimalThen (.look 0 false (char '.'))

def exponential : Regex :=
  decimalThen (.seq exponent (.look 0 false (char '.')))

theorem spells_number : number.Spells t ↔ Numeral.IsDecimal t := by
  simp [number, spells_decimalThen, Spells]

theorem takes_number : number.Takes Numeral.IsDecimal EndsNumber := by
  have hlook : (look 0 false (char '.')).Takes (· = []) EndsNumber := takes_look.weaken (fun _ => id) fun _ => And.right
  refine (takes_decimalThen hlook ?_).weaken ?_ fun _ => id
  · rintro _ rest rfl hr
    exact hr
  · intro t ht
    exact ⟨t, [], ht, rfl, (List.append_nil t).symm⟩

theorem spells_exponential : exponential.Spells t ↔ Numeral.IsExponential t := by
  simp [exponential, spells_decimalThen, Spells, spells_exponent, Numeral.IsExponential]

theorem takes_exponential :
    exponential.Takes Numeral.IsExponential fun rest => EndsNumber rest ∧ StopsAt (oneOf 'e' 'E') rest := by
  have hlook : (look 0 false (char '.')).Takes (· = []) fun rest => EndsNumber rest ∧ StopsAt (oneOf 'e' 'E') rest :=
    takes_look.weaken (fun _ => id) fun _ hr => hr.1.2
  have hexp := takes_exponent.seq hlook (by
    rintro _ rest rfl hr
    exact ⟨hr.1.1, hr.2⟩)
  refine (takes_decimalThen hexp ?_).weaken ?_ fun _ => id
  · rintro _ rest ⟨e, _, he, rfl, rfl⟩ hr
    rcases he with rfl | ⟨c, s, d, rfl | rfl, -, -, -, rfl⟩
    · exact hr.1
    · exact ⟨stopsAt_cons (by decide), stopsAt_cons (by decide)⟩
    · exact ⟨stopsAt_cons (by decide), stopsAt_cons (by decide)⟩
  · rintro t ⟨m, e, hm, he, rfl⟩
    exact ⟨m, e, hm, ⟨e, [], he, rfl, (List.append_nil e).symm⟩, rfl⟩

/-! ## Quoted texts -/

def plain : CharSet :=
  .compl (oneOf '"' '\\')

def plainRun : Regex :=
  .times (.set plain) 0 none true

def escape : Regex :=
  .seq (char '\\') (.seq (.set .inline) plainRun)

def quotedBody : Regex :=
  .seq plainRun (.times escape 0 none true)

def quoted : Regex :=
  .seq (char '"') (.seq (.group 1 quotedBody) (char '"'))

theorem contains_plain {c : Char} : plain.contains c = true ↔ c ≠ '"' ∧ c ≠ '\\' := by
  have h := contains_oneOf (a := '"') (b := '\\') (c := c)
  rw [plain, CharSet.contains, Bool.not_eq_true', Bool.eq_false_iff, ne_eq, h, not_or]

theorem contains_inline {c : Char} : CharSet.inline.contains c = true ↔ c ≠ '\n' := by
  rw [CharSet.inline, CharSet.contains, Bool.not_eq_true', Bool.eq_false_iff, ne_eq, contains_single]

theorem spells_plainRun : plainRun.Spells t ↔ AllIn plain t :=
  spells_run.trans ⟨And.right, fun h => ⟨Nat.zero_le _, h⟩⟩

theorem spells_escape : escape.Spells t ↔ ∃ c u, c ≠ '\n' ∧ AllIn plain u ∧ t = '\\' :: c :: u := by
  simp only [escape, Spells, spells_char, spells_plainRun, contains_inline]
  constructor
  · rintro ⟨_, _, rfl, ⟨_, u, ⟨c, hc, rfl⟩, hu, rfl⟩, rfl⟩
    exact ⟨c, u, hc, hu, rfl⟩
  · rintro ⟨c, u, hc, hu, rfl⟩
    exact ⟨['\\'], c :: u, rfl, ⟨[c], u, ⟨c, hc, rfl⟩, hu, rfl⟩, rfl⟩

theorem spells_quotedBody : quotedBody.Spells t ↔ QuotedBody t := by
  constructor
  · rintro ⟨u, _, hu, ⟨ts, -, hts, rfl⟩, rfl⟩
    refine .append (fun c hc => contains_plain.mp (spells_plainRun.mp hu c hc)) ?_
    induction ts with
    | nil => exact .nil
    | cons t ts ih =>
      obtain ⟨c, u, hc, hu, rfl⟩ := spells_escape.mp (hts t List.mem_cons_self)
      have ih := ih fun v hv => hts v (List.mem_cons_of_mem _ hv)
      exact .escaped hc (.append (fun c hc => contains_plain.mp (hu c hc)) ih)
  · intro h
    have count : ∀ n : Nat, 0 ≤ n ∧ ∀ m ∈ (none : Option Nat), n ≤ max 0 m := fun n => ⟨Nat.zero_le n, nofun⟩
    induction h with
    | nil => exact ⟨[], [], spells_plainRun.mpr nofun, .nil (count 0), rfl⟩
    | plain hq hb _ ih =>
      obtain ⟨u, v, hu, hv, rfl⟩ := ih
      refine ⟨_ :: u, v, spells_plainRun.mpr (List.forall_mem_cons.mpr ?_), hv, rfl⟩
      exact ⟨contains_plain.mpr ⟨hq, hb⟩, spells_plainRun.mp hu⟩
    | escaped hc _ ih =>
      obtain ⟨u, v, hu, hv, rfl⟩ := ih
      have he := spells_escape.mpr ⟨_, u, hc, spells_plainRun.mp hu, rfl⟩
      exact ⟨[], _, spells_plainRun.mpr nofun, .cons he hv fun n _ => count (n + 1), rfl⟩

theorem takes_escape : escape.Takes escape.Spells (StopsAt plain) := by
  have h := (takes_set .inline).seq (takes_run plain) fun _ _ _ _ => trivial
  refine ((takes_char '\\').seq h fun _ _ _ _ => trivial).weaken ?_ fun _ => id
  rintro _ ht
  obtain ⟨c, u, hc, hu, rfl⟩ := spells_escape.mp ht
  exact ⟨['\\'], c :: u, rfl, ⟨[c], u, ⟨c, contains_inline.mpr hc, rfl⟩, hu, rfl⟩, rfl⟩

theorem takes_quotedBody : quotedBody.Takes QuotedBody fun rest => rest.head? = some '"' := by
  have hstop : ∀ u rest, escape.Spells u → StopsAt plain (u ++ rest) := by
    intro u rest hu
    obtain ⟨c, u, -, -, rfl⟩ := spells_escape.mp hu
    exact stopsAt_cons (by decide)
  have hstar := takes_escape.star (fun u hu => by
    obtain ⟨c, u, -, -, rfl⟩ := spells_escape.mp hu
    exact List.cons_ne_nil _ _) hstop
  refine ((takes_run plain).seq hstar ?_).weaken ?_ ?_
  · rintro _ rest ⟨_ | ⟨u, ts⟩, -, hts, rfl⟩ hr
    · exact hr.1
    · rw [List.flatten_cons, List.append_assoc]
      exact hstop u _ (hts u List.mem_cons_self)
  · intro t ht
    obtain ⟨u, v, hu, ⟨ts, -, hts, rfl⟩, rfl⟩ := spells_quotedBody.mpr ht
    exact ⟨u, _, spells_plainRun.mp hu, ⟨ts, trivial, hts, rfl⟩, rfl⟩
  · intro rest hr
    obtain ⟨rest, rfl⟩ := List.head?_eq_some_iff.mp hr
    exact ⟨stopsAt_cons (by decide), (fails_set (stopsAt_cons (by decide))).seq⟩

theorem spells_quoted : quoted.Spells t ↔ ∃ body, QuotedBody body ∧ t = inQuotes body := by
  simp only [quoted, Spells, spells_char, spells_quotedBody, inQuotes]
  constructor
  · rintro ⟨_, _, rfl, ⟨body, _, hb, rfl, rfl⟩, rfl⟩
    exact ⟨body, hb, rfl⟩
  · rintro ⟨body, hb, rfl⟩
    exact ⟨['"'], body ++ ['"'], rfl, ⟨body, ['"'], hb, rfl, rfl⟩, rfl⟩

/-- The text between the quotes is kept as the first group. -/
theorem run_quoted {body : Text} (h : QuotedBody body) (rest : Text) :
    run quoted some ⟨[], inQuotes body ++ rest, []⟩ = some ⟨(inQuotes body).reverse, rest, [(1, body)]⟩ := by
  have hstart : run quoted some ⟨[], inQuotes body ++ rest, []⟩ = run quotedBody
      (fun p => run (char '"') some (p.keep 1 (p.since ⟨['"'], body ++ ['"'] ++ rest, []⟩)))
      ⟨['"'], body ++ ['"'] ++ rest, []⟩ := rfl
  rw [hstart, List.append_assoc]
  refine takes_quotedBody _ _ ['"'] [] body (['"'] ++ rest) _ h rfl ?_
  have hs : (⟨body.reverse ++ ['"'], ['"'] ++ rest, []⟩ : Progress).since ⟨['"'], body ++ (['"'] ++ rest), []⟩ = body :=
    Progress.since_eq ⟨rfl, rfl⟩
  rw [hs, inQuotes, List.reverse_cons, List.reverse_append]
  rfl

end Regex

end FurthestMatch
