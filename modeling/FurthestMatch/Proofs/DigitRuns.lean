import FurthestMatch.Proofs.Leaves
import FurthestMatch.Proofs.Runs

/-!
# Digits that numerals leave unread

The numeric leaves read as many digits as there are, and most of them then look at what follows. Where a leaf refuses
to end before that, it gives digits back one after the other; the look that follows the first digit given back is at a
digit, and only some leaves refuse to end there as well.
-/

namespace FurthestMatch

namespace Regex

variable {α : Type} {s : CharSet} {r t : Regex} {k : Progress → Option α} {p : Progress} {a : α}

/-! ## The longest row before which what follows works out -/

theorem run_of_seq (h : run (.seq r t) k p = some a) : ∃ q, run t k q = some a := by
  obtain ⟨-, q, -, -, h⟩ := spelled_run r _ p a h
  exact ⟨q, h⟩

theorem run_set_eq_none : run (.set s) some p = none ↔ StopsAt s p.ahead := by
  constructor
  · intro h c hc
    obtain ⟨rest, hr⟩ := List.head?_eq_some_iff.mp hc
    by_cases hs : s.contains c
    · simp [run, hr, hs] at h
    · simpa using hs
  · intro h
    exact fails_set h _ some p.behind p.groups

section
variable {g : List (Nat × Text)}

theorem not_of_afterRow_eq_none : ∀ {u behind rest : Text}, afterRow s k g behind (u ++ rest) = none → AllIn s u →
    k ⟨u.reverse ++ behind, rest, g⟩ = none
  | [], behind, rest, h, _ => by
    cases rest with
    | nil => exact h
    | cons c rest =>
      rw [List.nil_append, afterRow] at h
      cases hrow : (if s.contains c then afterRow s k g (c :: behind) rest else none) with
      | none => simpa [hrow] using h
      | some a => simp [hrow] at h
  | c :: u, behind, rest, h, hu => by
    have hc : s.contains c := hu c List.mem_cons_self
    have hrow : afterRow s k g (c :: behind) (u ++ rest) = none := by
      cases hr : afterRow s k g (c :: behind) (u ++ rest) with
      | none => rfl
      | some a => simp [afterRow, hc, hr] at h
    have ih := not_of_afterRow_eq_none hrow fun d hd => hu d (List.mem_cons_of_mem _ hd)
    simpa using ih

theorem longest_of_afterRow : ∀ {ahead behind : Text}, afterRow s k g behind ahead = some a →
    ∃ q, k q = some a ∧ ∀ u rest, u ≠ [] → AllIn s u → q.ahead = u ++ rest → ∃ q', q'.ahead = rest ∧ k q' = none
  | [], behind, h => by
    refine ⟨⟨behind, [], g⟩, h, fun u rest hne _ he => ?_⟩
    exact absurd (List.append_eq_nil_iff.mp he.symm).1 hne
  | c :: ahead, behind, h => by
    cases hrow : (if s.contains c then afterRow s k g (c :: behind) ahead else none) with
    | some b =>
      rw [afterRow, hrow] at h
      cases h
      by_cases hc : s.contains c
      · rw [if_pos hc] at hrow
        exact longest_of_afterRow hrow
      · simp [hc] at hrow
    | none =>
      rw [afterRow, hrow] at h
      refine ⟨⟨behind, c :: ahead, g⟩, h, fun u rest hne hu he => ?_⟩
      cases u with
      | nil => exact absurd rfl hne
      | cons d u =>
        obtain ⟨rfl, rfl⟩ := List.cons.inj he
        have hc : s.contains c := hu c List.mem_cons_self
        rw [if_pos hc] at hrow
        exact ⟨_, rfl, not_of_afterRow_eq_none hrow fun d hd => hu d (List.mem_cons_of_mem _ hd)⟩

end

theorem longest_of_run₁ (h : run (.times (.set s) 1 none true) k p = some a) :
    ∃ q, k q = some a ∧ ∀ u rest, u ≠ [] → AllIn s u → q.ahead = u ++ rest → ∃ q', q'.ahead = rest ∧ k q' = none := by
  obtain ⟨behind, ahead, g⟩ := p
  cases ahead with
  | nil => cases h
  | cons c ahead =>
    have hrow := (oneOrMore_set_cons s k g behind ahead c).symm.trans h
    by_cases hc : s.contains c
    · rw [if_pos hc] at hrow
      exact longest_of_afterRow hrow
    · simp [hc] at hrow

/-! ## Digits that are given back -/

/-- A digit comes next exactly if the digits that come next are followed by what a condition describes. -/
def SplitsBefore (D : Text → Prop) (rest : Text) : Prop :=
  (∃ c ∈ rest.head?, Numeral.isDigit c) ↔ D (rest.dropWhile Numeral.isDigit)

theorem splitsBefore_of_stopsAt {D : Text → Prop} {rest : Text} (h : StopsAt digits rest) (hD : ¬D rest) :
    SplitsBefore D rest := by
  have hnone : ¬∃ c ∈ rest.head?, Numeral.isDigit c := by
    rintro ⟨c, hc, hd⟩
    have hn := h c hc
    rw [contains_digits, hd] at hn
    cases hn
  have hdrop : rest.dropWhile Numeral.isDigit = rest := by
    cases rest with
    | nil => rfl
    | cons c rest =>
      rw [List.dropWhile_cons_of_neg]
      exact fun hc => hnone ⟨c, rfl, hc⟩
  refine iff_of_false hnone ?_
  rwa [hdrop]

/-- Digits before a place where what follows works out are given back only when it does not work out after all of
them. -/
theorem splitsBefore_of_digitRun₁ {D : Text → Prop} {k : Progress → Option Progress} {e : Progress}
    (hsome : ∀ q, k q = some e → SplitsBefore D e.ahead ∨ e = q ∧ ¬D q.ahead) (hnone : ∀ q, k q = none → D q.ahead)
    (h : run digitRun₁ k p = some e) : SplitsBefore D e.ahead := by
  obtain ⟨q, hq, hlonger⟩ := longest_of_run₁ h
  rcases hsome q hq with hsplit | ⟨rfl, hD⟩
  · exact hsplit
  have hu := allIn_takeWhile (s := digits) (p := Numeral.isDigit) (fun c => contains_digits.symm) e.ahead
  have happ : e.ahead = e.ahead.takeWhile Numeral.isDigit ++ e.ahead.dropWhile Numeral.isDigit :=
    List.takeWhile_append_dropWhile.symm
  by_cases hne : e.ahead.takeWhile Numeral.isDigit = []
  · rw [hne, List.nil_append] at happ
    rw [← happ] at hu
    exact splitsBefore_of_stopsAt hu.2 hD
  · obtain ⟨q', hq', hkq'⟩ := hlonger _ _ hne hu.1 happ
    have hrefused : D (e.ahead.dropWhile Numeral.isDigit) := hq' ▸ hnone q' hkq'
    obtain ⟨c, u, hc⟩ := List.exists_cons_of_ne_nil hne
    have hdigit : Numeral.isDigit c := by
      rw [← contains_digits]
      exact hu.1 c (by simp [hc])
    refine iff_of_true ⟨c, ?_, hdigit⟩ hrefused
    rw [happ, hc]
    rfl

theorem splitsBefore_of_look {D : Text → Prop} {e : Progress} (hr : ∀ q, run r some q = none ↔ ¬D q.ahead)
    (h : run (.seq digitRun₁ (.look 0 false r)) some p = some e) : SplitsBefore D e.ahead := by
  apply splitsBefore_of_digitRun₁ _ _ h
  · intro q hq
    obtain ⟨hnone, he⟩ := run_look.mp hq
    cases he
    exact .inr ⟨rfl, (hr e).mp hnone⟩
  · intro q hq
    by_cases hD : D q.ahead
    · exact hD
    · cases hq.symm.trans (run_look.mpr ⟨(hr q).mpr hD, rfl⟩)

/-! ## The expressions of the numeric leaves -/

def integer : Regex :=
  .seq (sign '-' '+') (.seq digitRun₁ (.look 0 false (.seq (char '.') (.set digits))))

def fractionOf (s : CharSet) : Regex :=
  .times (.seq (char '.') (.times (.set s) 1 none true)) 0 (some 1) true

def figure : CharSet :=
  .union (.union .none (.single '.' false)) (.range '0' '9' false)

def unit : Regex :=
  .seq (.times (char '+') 0 (some 1) true) (.seq
    (.alt (.seq (char '0') (fractionOf digits)) (.seq (char '1') (fractionOf (.single '0' false))))
    (.look 0 false (.set figure)))

def digitsUpTo (c : Char) : CharSet :=
  .union .none (.range '0' c false)

def byteFigures : Regex :=
  .alt (.seq (char '2') (.seq (char '5') (.set (digitsUpTo '5'))))
    (.alt (.seq (char '2') (.seq (.set (digitsUpTo '4')) (.set digits)))
      (.seq (.times (char '1') 0 (some 1) true) (.seq (.times (.set digits) 0 (some 1) true) (.set digits))))

def byte : Regex :=
  .seq (.times (char '0') 0 none true) (.seq byteFigures (.look 0 false (.alt (.set digits) (char '.'))))

theorem run_point {q : Progress} : run (char '.') some q = none ↔ ¬q.ahead.head? = some '.' := by
  rw [char, run_set_eq_none]
  constructor
  · intro h hc
    have := h '.' hc
    simp [CharSet.single, CharSet.contains] at this
  · intro h c hc
    apply Bool.eq_false_iff.mpr
    rw [ne_eq, contains_single]
    rintro rfl
    exact h hc

def PointedDigit (t : Text) : Prop :=
  ∃ c rest, t = '.' :: c :: rest ∧ Numeral.isDigit c

theorem run_pointedDigit {q : Progress} :
    run (.seq (char '.') (.set digits)) some q = none ↔ ¬PointedDigit q.ahead := by
  constructor
  · rintro h ⟨c, rest, hq, hc⟩
    obtain ⟨behind, ahead, g⟩ := q
    simp only at hq
    subst hq
    simp [run, char, CharSet.single, CharSet.contains, contains_digits, hc] at h
  · intro h
    apply fails_of_not_spells
    rintro _ rest ⟨_, _, hp, ⟨c, hc, rfl⟩, rfl⟩ hq
    rw [spells_char.mp hp] at hq
    exact h ⟨c, rest, hq, contains_digits ▸ hc⟩

section
variable {e : Progress}

theorem splitsBefore_of_number (h : run number some p = some e) : SplitsBefore (·.head? = some '.') e.ahead := by
  obtain ⟨q, h⟩ := run_of_seq h
  obtain ⟨q, h⟩ := run_of_seq h
  exact splitsBefore_of_look (fun _ => run_point) h

theorem splitsBefore_of_integer (h : run integer some p = some e) : SplitsBefore PointedDigit e.ahead := by
  obtain ⟨q, h⟩ := run_of_seq h
  exact splitsBefore_of_look (fun _ => run_pointedDigit) h

theorem splitsBefore_of_exponential (h : run exponential some p = some e) :
    SplitsBefore (·.head? = some '.') e.ahead := by
  obtain ⟨q, h⟩ := run_of_seq h
  obtain ⟨q, h⟩ := run_of_seq h
  apply splitsBefore_of_digitRun₁ _ _ h
  · intro q hq
    rcases some_of_orElse hq with hexp | hlook
    · obtain ⟨q, hexp⟩ := run_of_seq hexp
      obtain ⟨q, hexp⟩ := run_of_seq hexp
      exact .inl (splitsBefore_of_look (fun _ => run_point) hexp)
    · obtain ⟨hnone, he⟩ := run_look.mp hlook
      cases he
      exact .inr ⟨rfl, run_point.mp hnone⟩
  · intro q hq
    -- without an exponent nothing stands between the digits and the look
    by_cases hp : q.ahead.head? = some '.'
    · exact hp
    · have hlook : run (.look 0 false (char '.')) some q = some q := run_look.mpr ⟨run_point.mpr hp, rfl⟩
      have hq : (run exponent (run (.look 0 false (char '.')) some) q) = none := hq
      rw [exponent, run_opt, hlook] at hq
      cases hexp : run (.seq (.set (oneOf 'e' 'E')) (.seq (sign '+' '-') digitRun₁))
          (run (.look 0 false (char '.')) some) q <;> simp [hexp] at hq

theorem splitsBefore_of_natural (h : run digitRun₁ some p = some e) : SplitsBefore (fun _ => False) e.ahead := by
  apply splitsBefore_of_digitRun₁ _ nofun h
  intro q hq
  cases hq
  exact .inr ⟨rfl, id⟩

theorem not_of_look {u : Regex} (h : run (.seq r (.seq t (.look 0 false u))) some p = some e) :
    run u some e = none := by
  obtain ⟨q, h⟩ := run_of_seq h
  obtain ⟨q, h⟩ := run_of_seq h
  obtain ⟨hnone, he⟩ := run_look.mp h
  cases he
  exact hnone

theorem splitsBefore_of_unit (h : run unit some p = some e) : SplitsBefore (fun _ => False) e.ahead := by
  refine splitsBefore_of_stopsAt (fun c hc => ?_) id
  have hf := run_set_eq_none.mp (not_of_look h) c hc
  rw [contains_digits]
  simpa [figure, CharSet.contains, Numeral.isDigit] using (Bool.or_eq_false_iff.mp hf).2

theorem splitsBefore_of_byte (h : run byte some p = some e) : SplitsBefore (fun _ => False) e.ahead := by
  refine splitsBefore_of_stopsAt (run_set_eq_none.mp ?_) id
  have hnone : (run (.set digits) some e).orElse (fun _ => run (char '.') some e) = none := not_of_look h
  cases hd : run (.set digits) some e with
  | none => rfl
  | some q => simp [hd] at hnone

end

end Regex

namespace Reader

theorem readAs_integer : Pattern.ReadAs Leaf.integer.source .integer 0 := by
  decide +kernel

theorem readAs_natural : Pattern.ReadAs Leaf.natural.source .digitRun₁ 0 := by
  decide +kernel

theorem readAs_unit : Pattern.ReadAs Leaf.unit.source .unit 0 := by
  decide +kernel

theorem readAs_byte : Pattern.ReadAs Leaf.byte.source .byte 0 := by
  decide +kernel

theorem run_of_pattern {source : String} {capture : Capture} {r : Regex} {n : Nat} {t rest : Text} {v : Value}
    (h : Pattern.ReadAs source r n) (hv : Reader.pattern source capture t = some (v, rest)) :
    ∃ e, Regex.run r some ⟨[], t, []⟩ = some e ∧ e.ahead = rest := by
  obtain ⟨p, hp, -, hread⟩ := exists_pattern capture h
  rw [hread] at hv
  obtain ⟨⟨w, read, rest'⟩, hm, he⟩ := Option.map_eq_some_iff.mp hv
  cases he
  obtain ⟨found, hf, he⟩ := Option.map_eq_some_iff.mp hm
  cases he
  rw [hp, Regex.search_anchored] at hf
  obtain ⟨e, hrun, rfl⟩ := Option.map_eq_some_iff.mp hf
  exact ⟨e, hrun, rfl⟩

end Reader

/-! ## Numeric leaves -/

namespace Leaf

def numerals : List Leaf :=
  [.number, .integer, .bigInteger, .natural, .exponential, .unit, .byte]

/-- What a leaf gives digits back before when it comes after them. -/
def GivesBackBefore : Leaf → Text → Prop
  | .number | .exponential => fun rest => rest.head? = some '.'
  | .integer | .bigInteger => Regex.PointedDigit
  | _ => fun _ => False

theorem node_eq (leaf : Leaf) : (∃ p, leaf.node = .pattern p) ∨ leaf.node = .never := by
  unfold node
  cases Pattern.ofSource leaf.source leaf.capture with
  | ok p => exact .inl ⟨_, rfl⟩
  | error => exact .inr rfl

theorem splitsBefore_of_reader {leaf : Leaf} (hl : leaf ∈ numerals) {t rest : Text} {v : Value}
    (h : leaf.reader t = some (v, rest)) : Regex.SplitsBefore leaf.GivesBackBefore rest := by
  have of_run {r : Regex} {n : Nat} (hr : Pattern.ReadAs leaf.source r n)
      (hsplit : ∀ e, Regex.run r some ⟨[], t, []⟩ = some e → Regex.SplitsBefore leaf.GivesBackBefore e.ahead) :
      Regex.SplitsBefore leaf.GivesBackBefore rest := by
    obtain ⟨e, hrun, rfl⟩ := Reader.run_of_pattern hr h
    exact hsplit e hrun
  simp only [numerals, List.mem_cons, List.not_mem_nil, or_false] at hl
  rcases hl with rfl | rfl | rfl | rfl | rfl | rfl | rfl
  · exact of_run Reader.readAs_number fun _ => Regex.splitsBefore_of_number
  · exact of_run Reader.readAs_integer fun _ => Regex.splitsBefore_of_integer
  · exact of_run Reader.readAs_integer fun _ => Regex.splitsBefore_of_integer
  · exact of_run Reader.readAs_natural fun _ => Regex.splitsBefore_of_natural
  · exact of_run Reader.readAs_exponential fun _ => Regex.splitsBefore_of_exponential
  · exact of_run Reader.readAs_unit fun _ => Regex.splitsBefore_of_unit
  · exact of_run Reader.readAs_byte fun _ => Regex.splitsBefore_of_byte

end Leaf

namespace Rulebook

variable {b : Rulebook} {id : NodeId} {leaf : Leaf} {text : Text} {depth : Nat} {path : Path} {c : Cursor} {o : Outcome}

theorem shows_reader (hn : b.node id = leaf.node) {t : Text} (hc : c.rest = some t)
    (h : (b.matchNode text depth id path c).result = .ok o) : o.Shows (leaf.reader t) := by
  cases depth with
  | zero => cases h
  | succ depth =>
    have hreads : b.Reads (depth + 1) id t (leaf.reader t) := reads_leaf hn t (Nat.lt_succ_self _)
    obtain ⟨o', ho', hshow⟩ := hreads text (depth + 1) (Nat.le_refl _) path c hc
    cases h.symm.trans ho'
    exact hshow

theorem reader_of_succeeded (hn : b.node id = leaf.node) (h : (b.matchNode text depth id path c).result = .ok o)
    (ho : o.succeeded) : ∃ t v rest, c.rest = some t ∧ leaf.reader t = some (v, rest) ∧ o.value = some v ∧
      o.cursor.rest = some rest := by
  cases hc : c.rest with
  | none =>
    cases depth with
    | zero => cases h
    | succ depth =>
      obtain ⟨p, hp⟩ | hp := leaf.node_eq
      · simp only [matchNode, hn, hp, Outcome.ofLeaf, hc] at h
        cases h
      · simp only [matchNode, hn, hp] at h
        cases h
        cases ho
  | some t =>
    have hshow := shows_reader hn hc h
    cases hr : leaf.reader t with
    | none =>
      rw [hr] at hshow
      simp [Outcome.succeeded, show o.value = none from hshow] at ho
    | some found =>
      obtain ⟨v, rest⟩ := found
      rw [hr] at hshow
      exact ⟨t, v, rest, rfl, hr, hshow⟩

end Rulebook

def leavesOnly : Rulebook where
  graph := Graph.leaves

theorem node_leavesOnly (leaf : Leaf) : leavesOnly.node leaf.id = leaf.node := by
  have hnode : leavesOnly.graph.nodes[leaf.id]? = some leaf.node := Graph.nodes_leaves leaf
  rw [Rulebook.node, Graph.node, hnode]
  rfl

theorem exists_succeeded {leaf : Leaf} {t rest : Text} {v : Value} (h : leaf.reader t = some (v, rest)) {c : Cursor}
    (hc : c.rest = some t) (text : Text) : ∃ o,
      (leavesOnly.matchNode text 1 leaf.id (Path.root leaf.id) c).result = .ok o ∧ o.succeeded ∧
        o.cursor.rest = some rest := by
  have hreads : leavesOnly.Reads 1 leaf.id t (leaf.reader t) :=
    Rulebook.reads_leaf (node_leavesOnly leaf) t (Nat.lt_succ_self _)
  rw [h] at hreads
  obtain ⟨o, ho, hv, hr⟩ := hreads text 1 (Nat.le_refl 1) _ c hc
  exact ⟨o, ho, by simp [Outcome.succeeded, hv], hr⟩

/-- After a numeral that a leaf has read comes a digit exactly if the digits that come there are followed by what the
leaf gives digits back before. -/
theorem Rulebook.digit_next_iff {b : Rulebook} {id : NodeId} {leaf : Leaf} {text : Text} {depth : Nat} {path : Path}
    {c : Cursor} {o : Outcome} (hl : leaf ∈ Leaf.numerals) (hn : b.node id = leaf.node)
    (h : (b.matchNode text depth id path c).result = .ok o) (ho : o.succeeded) : ∃ rest, o.cursor.rest = some rest ∧
      ((∃ d ∈ rest.head?, Numeral.isDigit d) ↔ leaf.GivesBackBefore (rest.dropWhile Numeral.isDigit)) := by
  obtain ⟨t, v, rest, -, hread, -, hrest⟩ := Rulebook.reader_of_succeeded hn h ho
  exact ⟨rest, hrest, Leaf.splitsBefore_of_reader hl hread⟩

theorem digits_of_number_are_split : ∃ o, (leavesOnly.matchNode ['1', '2', '.'] 1 Leaf.number.id
    (Path.root Leaf.number.id) (Cursor.start ['1', '2', '.'])).result = .ok o ∧ o.succeeded ∧
      ∃ rest, o.cursor.rest = some rest ∧ ∃ d ∈ rest.head?, Numeral.isDigit d := by
  have hread : Leaf.number.reader (['1'] ++ ['2', '.']) = some (Conversion.float.apply ['1'], ['2', '.']) :=
    Reader.pattern_of_run (g := []) Reader.readAs_number (Capture.yields_convert .float) rfl
  obtain ⟨o, ho, hs, hr⟩ := exists_succeeded hread (c := Cursor.start ['1', '2', '.']) rfl ['1', '2', '.']
  exact ⟨o, ho, hs, _, hr, '2', rfl, by decide⟩

theorem digits_of_integer_are_not_split : ∃ o, (leavesOnly.matchNode ['-', '1', '2', '.'] 1 Leaf.integer.id
    (Path.root Leaf.integer.id) (Cursor.start ['-', '1', '2', '.'])).result = .ok o ∧ o.succeeded ∧
      ∃ rest, o.cursor.rest = some rest ∧
        ((∃ d ∈ rest.head?, Numeral.isDigit d) ↔ Regex.PointedDigit (rest.dropWhile Numeral.isDigit)) ∧ rest = ['.'] := by
  have hread : Leaf.integer.reader (['-', '1', '2'] ++ ['.']) =
      some (Conversion.integer.apply ['-', '1', '2'], ['.']) :=
    Reader.pattern_of_run (g := []) Reader.readAs_integer (Capture.yields_convert .integer) rfl
  obtain ⟨o, ho, hs, hr⟩ := exists_succeeded hread (c := Cursor.start ['-', '1', '2', '.']) rfl ['-', '1', '2', '.']
  obtain ⟨rest, hrest, hiff⟩ := Rulebook.digit_next_iff (by decide) (node_leavesOnly .integer) ho hs
  cases hr.symm.trans hrest
  exact ⟨o, ho, hs, _, hrest, hiff, rfl⟩

end FurthestMatch
