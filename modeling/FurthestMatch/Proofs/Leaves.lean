import FurthestMatch.Grammar.Leaf
import FurthestMatch.Proofs.Language
import FurthestMatch.Proofs.Lexemes

/-!
# What patterns read

A pattern reads the texts that its expression spells, and yields what its capture makes of them. The ready leaves for
blanks, numbers and quoted texts read their lexemes; the shape of an expression is computed from its source.
-/

namespace FurthestMatch

def Leaf.reader (leaf : Leaf) : Reader :=
  .pattern leaf.source leaf.capture

def Pattern.ReadAs (source : String) (r : Regex) (groups : Nat) : Prop :=
  (readAnchored source).toOption = some (.seq (.anchor .textStart) r, groups)

instance (source : String) (r : Regex) (groups : Nat) : Decidable (Pattern.ReadAs source r groups) :=
  inferInstanceAs (Decidable (_ = _))

theorem Pattern.ReadAs.eq_ok {source : String} {r : Regex} {n : Nat} (h : ReadAs source r n) :
    readAnchored source = .ok (.seq (.anchor .textStart) r, n) := by
  unfold ReadAs at h
  cases he : readAnchored source with
  | error => rw [he] at h; cases h
  | ok => rw [he] at h; cases h; rfl

/-- What a capture yields of a match, when that depends on the text of the match only. -/
def Capture.Yields (capture : Capture) (f : Text → Value) : Prop :=
  ∀ (p : Pattern) found, p.capture = capture → p.extract found = f found.text

theorem Capture.yields_whole : whole.Yields Pattern.valueOf := by
  intro p found hp
  simp only [Pattern.extract, hp]

theorem Capture.yields_convert (conversion : Conversion) : (convert conversion).Yields conversion.apply := by
  intro p found hp
  simp only [Pattern.extract, hp]

namespace Reader

section
variable {source : String} (capture : Capture) {r : Regex} {n : Nat} {U S : Text → Prop} {f : Text → Value}
  (h : Pattern.ReadAs source r n)
include h

/-- A source that can be read makes a pattern of what it is read as. -/
theorem exists_pattern : ∃ p : Pattern, p.regex = .seq (.anchor .textStart) r ∧ p.capture = capture ∧
    ∀ t, Reader.pattern source capture t = (p.matchIn t).map fun (v, _, rest) => (v, rest) := by
  have hread := h.eq_ok
  have hp : Pattern.ofSource source capture = .ok ⟨source, _, n, capture, none, hread⟩ := by
    unfold Pattern.ofSource
    split
    · rename_i he
      cases hread.symm.trans he
      rfl
    · rename_i he
      cases hread.symm.trans he
  refine ⟨⟨source, _, n, capture, none, hread⟩, rfl, rfl, fun t => ?_⟩
  rw [Reader.pattern, hp]

variable {capture}

theorem sound_pattern (hf : capture.Yields f) : (Reader.pattern source capture).Sound fun l v => r.Spells l ∧ v = f l := by
  intro t v rest hv
  obtain ⟨p, hp, hc, hread⟩ := exists_pattern capture h
  rw [hread] at hv
  obtain ⟨⟨w, read, rest'⟩, hm, he⟩ := Option.map_eq_some_iff.mp hv
  cases he
  obtain ⟨ht, hs, g, hw⟩ := Pattern.spells_of_matchIn hp hm
  exact ⟨read, ht, hs, hw.trans (hf p _ hc)⟩

theorem pattern_of_run (hf : capture.Yields f) {l rest : Text} {g : List (Nat × Text)}
    (hrun : Regex.run r some ⟨[], l ++ rest, []⟩ = some ⟨l.reverse, rest, g⟩) :
    Reader.pattern source capture (l ++ rest) = some (f l, rest) := by
  obtain ⟨p, hp, hc, hread⟩ := exists_pattern capture h
  have hv : p.extract ⟨[], l, rest, g⟩ = f l := hf p _ hc
  rw [hread, Pattern.matchIn_eq_some hp hrun, hv]
  rfl

theorem complete_pattern (hf : capture.Yields f) (hr : r.Takes U S) :
    (Reader.pattern source capture).Complete (fun l v => U l ∧ v = f l) S := by
  rintro l _ rest ⟨hl, rfl⟩ hrest
  have hrun : Regex.run r some ⟨[], l ++ rest, []⟩ = some ⟨l.reverse, rest, []⟩ := by
    refine hr _ some [] [] l rest _ hl hrest ?_
    rw [List.append_nil]
  exact pattern_of_run h hf hrun

theorem skips_pattern (hr : r.Takes U S) : (Reader.pattern source .whole).Skips U S :=
  (complete_pattern h Capture.yields_whole hr).skips fun _ hl => ⟨_, hl, rfl⟩

end

section
variable {source : String} {c : Char} {n : Nat}

theorem sound_opening (h : Pattern.ReadAs source (.seq (.char c) .blanks) n) :
    (Reader.pattern source .whole).Sound fun l _ => Regex.Opening c l :=
  (sound_pattern h Capture.yields_whole).mono fun _ _ hl => Regex.spells_opening.mp hl.1

theorem sound_around (h : Pattern.ReadAs source (.seq .blanks (.seq (.char c) .blanks)) n) :
    (Reader.pattern source .whole).Sound fun l _ => Regex.Around c l :=
  (sound_pattern h Capture.yields_whole).mono fun _ _ hl => Regex.spells_around.mp hl.1

theorem sound_closing (h : Pattern.ReadAs source (.seq .blanks (.char c)) n) :
    (Reader.pattern source .whole).Sound fun l _ => Regex.Closing c l :=
  (sound_pattern h Capture.yields_whole).mono fun _ _ hl => Regex.spells_closing.mp hl.1

end

/-! ## Ready leaves -/

theorem readAs_whitespaceOpt : Pattern.ReadAs Leaf.whitespaceOpt.source .blanks 0 := by
  decide +kernel

theorem readAs_number : Pattern.ReadAs Leaf.number.source .number 0 := by
  decide +kernel

theorem readAs_exponential : Pattern.ReadAs Leaf.exponential.source .exponential 0 := by
  decide +kernel

theorem readAs_doubleQuoted : Pattern.ReadAs Leaf.doubleQuoted.source .quoted 1 := by
  decide +kernel

theorem sound_blanks : (Leaf.whitespaceOpt.reader).Sound fun l _ => Blanks l :=
  (sound_pattern readAs_whitespaceOpt Capture.yields_whole).mono fun _ _ hl => Regex.spells_blanks.mp hl.1

theorem skips_blanks : (Leaf.whitespaceOpt.reader).Skips Blanks (Regex.StopsAt .blank) :=
  skips_pattern readAs_whitespaceOpt Regex.takes_blanks

section
variable {leaf : Leaf} {r : Regex} {n : Nat} {U S : Text → Prop} (hc : leaf.capture = .convert .float)
  (h : Pattern.ReadAs leaf.source r n)
include hc h

theorem sound_numeral (hU : ∀ l, U l → Numeral.IsExponential l) (hr : ∀ l, r.Spells l → U l) :
    leaf.reader.Sound fun l v => U l ∧ ∃ x, Numeral.float? l = some x ∧ v = .float x := by
  rw [Leaf.reader, hc]
  refine (sound_pattern h (Capture.yields_convert .float)).mono ?_
  rintro l _ ⟨hl, rfl⟩
  obtain ⟨x, hx⟩ := Numeral.float?_of_isExponential (hU l (hr l hl))
  exact ⟨hr l hl, x, hx, by simp only [Conversion.apply, hx]; rfl⟩

theorem complete_numeral (hr : r.Takes U S) :
    leaf.reader.Complete (fun l v => U l ∧ ∃ x, Numeral.float? l = some x ∧ v = .float x) S := by
  rw [Leaf.reader, hc]
  rintro l _ rest ⟨hl, x, hx, rfl⟩ hrest
  refine complete_pattern h (Capture.yields_convert .float) hr l _ rest ⟨hl, ?_⟩ hrest
  simp only [Conversion.apply, hx]
  rfl

end

theorem sound_number : Leaf.number.reader.Sound fun l v =>
    Numeral.IsDecimal l ∧ ∃ x, Numeral.float? l = some x ∧ v = .float x :=
  sound_numeral rfl readAs_number (fun _ => Numeral.IsDecimal.isExponential) fun _ => Regex.spells_number.mp

theorem complete_number : Leaf.number.reader.Complete (fun l v =>
    Numeral.IsDecimal l ∧ ∃ x, Numeral.float? l = some x ∧ v = .float x) Regex.EndsNumber :=
  complete_numeral rfl readAs_number Regex.takes_number

theorem sound_exponential : Leaf.exponential.reader.Sound fun l v =>
    Numeral.IsExponential l ∧ ∃ x, Numeral.float? l = some x ∧ v = .float x :=
  sound_numeral rfl readAs_exponential (fun _ => id) fun _ => Regex.spells_exponential.mp

theorem complete_exponential : Leaf.exponential.reader.Complete (fun l v =>
    Numeral.IsExponential l ∧ ∃ x, Numeral.float? l = some x ∧ v = .float x)
    fun rest => Regex.EndsNumber rest ∧ Regex.StopsAt (Regex.oneOf 'e' 'E') rest :=
  complete_numeral rfl readAs_exponential Regex.takes_exponential

/-- A quoted text has its body as it is written for a value. -/
theorem complete_doubleQuoted : Leaf.doubleQuoted.reader.Complete (fun l v =>
    ∃ body, QuotedBody body ∧ l = inQuotes body ∧ v = .str (String.ofList body)) fun _ => True := by
  rintro _ _ rest ⟨body, hb, rfl, rfl⟩ -
  obtain ⟨p, hp, hc, hread⟩ := exists_pattern Leaf.doubleQuoted.capture readAs_doubleQuoted
  have hm := Pattern.matchIn_eq_some hp (Regex.run_quoted hb rest)
  have hv : p.extract ⟨[], inQuotes body, rest, [(1, body)]⟩ = .str (String.ofList body) := by
    rw [Pattern.extract, hc]
    rfl
  rw [Leaf.reader, hread, hm, hv]
  rfl

theorem sound_doubleQuoted : Leaf.doubleQuoted.reader.Sound fun l v =>
    ∃ body, QuotedBody body ∧ l = inQuotes body ∧ v = .str (String.ofList body) := by
  intro t v rest h
  obtain ⟨p, hp, hc, hread⟩ := exists_pattern Leaf.doubleQuoted.capture readAs_doubleQuoted
  have hr := h
  rw [Leaf.reader, hread] at hr
  obtain ⟨⟨w, read, rest'⟩, hm, he⟩ := Option.map_eq_some_iff.mp hr
  cases he
  obtain ⟨rfl, hs, -⟩ := Pattern.spells_of_matchIn hp hm
  obtain ⟨body, hb, rfl⟩ := Regex.spells_quoted.mp hs
  -- The value is that of the text that is known to be read.
  have hv := complete_doubleQuoted _ _ rest ⟨body, hb, rfl, rfl⟩ trivial
  cases h.symm.trans hv
  exact ⟨_, rfl, body, hb, rfl, rfl⟩

end Reader

/-! ## Leaves in a graph -/

namespace Rulebook

variable {b : Rulebook} {depth bound : Nat} {id : NodeId}

theorem reads_leaf {leaf : Leaf} (h : b.node id = leaf.node) : b.ReadsAs (depth + 1) bound id leaf.reader := by
  intro t _
  unfold Leaf.node at h
  unfold Leaf.reader Reader.pattern
  cases hp : Pattern.ofSource leaf.source leaf.capture with
  | ok p =>
    rw [hp] at h
    -- The name under which a leaf is drawn has no part in what it reads.
    exact reads_pattern (p := { p with shownAs := some leaf.shownAs }) h
  | error =>
    rw [hp] at h
    exact reads_never h

end Rulebook

end FurthestMatch
