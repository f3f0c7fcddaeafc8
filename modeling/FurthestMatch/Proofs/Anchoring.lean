import FurthestMatch.Proofs.Wrapping
import FurthestMatch.Proofs.Course
import FurthestMatch.Proofs.Leaves

/-!
# Where a pattern matches

A pattern is read between `^(?:` and `)`. What it is read as begins with an anchor for the start of a text, at least in
its first alternative, and a source that is a pattern of its own has no other alternative there. A source that closes
the parenthesis opened before it has, and that alternative matches wherever it can. Sources are meant here that
`Pattern.readAnchored` reads, so none with `\K` is among them.
-/

namespace FurthestMatch

namespace Regex

variable {r s : Regex} {t : Text} {found : Found}

/-- There is no match but at the start of a text. -/
def Anchored (r : Regex) : Prop :=
  ∀ (α : Type) (k : Progress → Option α) (p : Progress), p.behind ≠ [] → run r k p = none

theorem anchored_anchor : (anchor .textStart).Anchored := by
  rintro α k ⟨behind, ahead, groups⟩ hp
  cases behind with
  | nil => exact absurd rfl hp
  | cons c behind => rfl

theorem Anchored.seq (h : r.Anchored) : (seq r s).Anchored :=
  fun α _ p hp => h α _ p hp

theorem Anchored.searchFrom_eq_none (h : r.Anchored) {behind ahead : Text} (hb : behind ≠ []) :
    searchFrom r behind ahead = none := by
  induction ahead generalizing behind with
  | nil => exact congrArg (Option.map _) (h _ some _ hb)
  | cons c rest ih =>
    have hs : matchAt r behind (c :: rest) = none := congrArg (Option.map _) (h _ some _ hb)
    rw [searchFrom, hs]
    exact ih (List.cons_ne_nil c behind)

theorem behind_of_searchFrom {behind ahead : Text} (h : searchFrom r behind ahead = some found) :
    ∃ more, found.skipped = behind.reverse ++ more := by
  induction ahead generalizing behind with
  | nil =>
    obtain ⟨p, -, rfl⟩ := Option.map_eq_some_iff.mp h
    exact ⟨[], (List.append_nil _).symm⟩
  | cons c rest ih =>
    rcases some_of_orElse h with h | h
    · obtain ⟨p, -, rfl⟩ := Option.map_eq_some_iff.mp h
      exact ⟨[], (List.append_nil _).symm⟩
    · obtain ⟨more, hm⟩ := ih h
      exact ⟨c :: more, by rw [hm, List.reverse_cons, List.append_assoc]; rfl⟩

/-- Nothing is skipped exactly if there is a match at the start. -/
theorem skipped_eq_nil_iff (h : search r t = some found) : found.skipped = [] ↔ (matchAt r [] t).isSome := by
  cases hm : matchAt r [] t with
  | some first =>
    have hs : search r t = some first := by
      cases t with
      | nil => exact hm
      | cons c rest => rw [search, searchFrom, hm]; rfl
    cases hs.symm.trans h
    obtain ⟨p, -, rfl⟩ := Option.map_eq_some_iff.mp hm
    exact iff_of_true rfl rfl
  | none =>
    refine iff_of_false (fun he => ?_) (by simp)
    cases t with
    | nil => cases hm.symm.trans h
    | cons c rest =>
      rw [search, searchFrom, hm] at h
      obtain ⟨more, hs⟩ := behind_of_searchFrom h
      cases hs.symm.trans he

theorem Anchored.skipped_eq_nil (h : r.Anchored) (hf : search r t = some found) : found.skipped = [] := by
  cases t with
  | nil =>
    obtain ⟨p, -, rfl⟩ := Option.map_eq_some_iff.mp hf
    rfl
  | cons c rest =>
    rcases some_of_orElse hf with hf | hf
    · obtain ⟨p, -, rfl⟩ := Option.map_eq_some_iff.mp hf
      rfl
    · cases (h.searchFrom_eq_none (List.cons_ne_nil c [])).symm.trans hf

end Regex

namespace Pattern

theorem readRow_eq_ok {fuel : Nat} {done : List Part} {st st' : Reading} {part : Part}
    (h : readRow fuel done st = .ok (part, st')) : ∃ parts, part = Part.row (done.reverse ++ parts) := by
  induction fuel generalizing done st with
  | zero => cases h
  | succ fuel ih =>
    rw [readRow] at h
    obtain ⟨_, _, hg, h⟩ := bind_eq_ok.mp h
    cases hg
    generalize st.rest = ahead at h
    split at h
    · cases h; exact ⟨[], by rw [List.append_nil]⟩
    · cases h; exact ⟨[], by rw [List.append_nil]⟩
    · cases h; exact ⟨[], by rw [List.append_nil]⟩
    · obtain ⟨atom, _, -, h⟩ := bind_eq_ok.mp h
      obtain ⟨counted, _, -, h⟩ := bind_eq_ok.mp h
      obtain ⟨parts, hp⟩ := ih h
      split at hp
      · exact ⟨parts, hp⟩
      · exact ⟨counted :: parts, by rw [hp, List.reverse_cons, List.append_assoc]; rfl⟩

theorem anchored_row (parts : List Part) : (Part.row (.anchor .textStart :: parts)).regex.Anchored := by
  cases parts with
  | nil => exact Regex.anchored_anchor
  | cons p parts => exact Regex.anchored_anchor.seq

def wrapped (source : Text) : Text :=
  '^' :: '(' :: '?' :: ':' :: (source ++ [')'])

section
variable {source : Text} {fuel fuel' : Nat} {part : Part} {st st' : Reading}

theorem readRow_wrapped (fuel : Nat) (source : Text) :
    readRow (fuel + 2) [] { rest := wrapped source } =
      readRow (fuel + 1) [.anchor .textStart] { rest := '(' :: '?' :: ':' :: (source ++ [')']) } := by
  rw [readRow]
  rfl

theorem readGroup_wrapped (hr : readAlternatives fuel { rest := source } = .ok (part, st)) (hs : st.rest = [])
    (hf : fuel ≤ fuel') : readGroup (fuel' + 2) { rest := '?' :: ':' :: (source ++ [')']) } =
      .ok (part, { st with rest := [], flags := {} }) := by
  have agree : AgreeTo [] fuel fuel' := agreeTo hf
  have h := agree.alternatives _ _ _ hr
  have hc : readGroup (fuel' + 2) { rest := '?' :: ':' :: (source ++ [')']) } =
      (readClosed (fuel' + 1) >>= fun r => do modify fun st => { st with flags := {} }; return r)
        (Reading.within { rest := source } []) := by
    rw [readGroup]
    rfl
  rw [hc]
  refine bind_eq_ok.mpr ⟨part, { st with rest := [] }, ?_, rfl⟩
  rw [readClosed]
  refine bind_eq_ok.mpr ⟨part, _, h, ?_⟩
  rw [Reading.within, hs]
  rfl

theorem readRow_alone (hr : readAlternatives fuel { rest := source } = .ok (part, st)) (hs : st.rest = [])
    (hf : fuel ≤ fuel') : ∃ parts,
      readRow (fuel' + 4) [.anchor .textStart] { rest := '(' :: '?' :: ':' :: (source ++ [')']) } =
        .ok (Part.row (.anchor .textStart :: parts), { st with rest := [], flags := {} }) := by
  have hatom : readAtom (fuel' + 3) { rest := '(' :: '?' :: ':' :: (source ++ [')']) } =
      .ok (part, { st with rest := [], flags := {} }) := by
    rw [← readGroup_wrapped hr hs hf, readAtom]
    rfl
  refine ⟨if part.regex = .empty then [] else [part], ?_⟩
  rw [readRow]
  refine bind_eq_ok.mpr ⟨_, _, rfl, bind_eq_ok.mpr ⟨part, _, hatom, bind_eq_ok.mpr ⟨part, _, rfl, ?_⟩⟩⟩
  rw [readRow]
  by_cases he : part.regex = .empty
  · rw [if_pos he, if_pos he]
    rfl
  · rw [if_neg he, if_neg he]
    rfl

theorem readAlternatives_eq_ok (h : readAlternatives (fuel + 1) st = .ok (part, st')) : ∃ first st₁ more st₂,
    readRow fuel [] st = .ok (first, st₁) ∧ readMore fuel st₁ = .ok (more, st₂) ∧ part = first.alternatives more := by
  rw [readAlternatives] at h
  obtain ⟨first, st₁, hf, h⟩ := bind_eq_ok.mp h
  obtain ⟨more, st₂, hm, h⟩ := bind_eq_ok.mp h
  refine ⟨first, st₁, more, st₂, hf, hm, ?_⟩
  obtain ⟨_, _, hg, h⟩ := bind_eq_ok.mp h
  cases hg
  dsimp only at h
  split at h
  · cases h
  · cases h; rfl

theorem read_eq_ok {text : Text} {r : Regex} {n : Nat} (h : read text = .ok (r, n)) :
    ∃ part st, readAlternatives (6 * text.length + 6) { rest := text } = .ok (part, st) ∧ st.rest = [] ∧
      r = part.regex := by
  unfold read at h
  cases hr : (readAlternatives (6 * text.length + 6)).run { rest := text } with
  | error e => rw [hr] at h; cases h
  | ok result =>
    obtain ⟨part, st⟩ := result
    rw [hr] at h
    replace h : (if st.rest = [] then .ok (part.regex, st.groups) else .error PatternError.unopenedGroup) =
      Except.ok (r, n) := h
    split at h
    · cases h
      exact ⟨part, st, hr, ‹_›, rfl⟩
    · cases h

theorem readAnchored_eq_ok {source : String} {r : Regex} {n : Nat} (h : readAnchored source = .ok (r, n)) :
    ∃ first st₁ more st₂, r = (first.alternatives more).regex ∧
      readRow (6 * source.toList.length + 34) [.anchor .textStart]
        { rest := '(' :: '?' :: ':' :: (source.toList ++ [')']) } = .ok (first, st₁) ∧
      readMore (6 * source.toList.length + 35) st₁ = .ok (more, st₂) := by
  unfold readAnchored at h
  obtain ⟨part, st, hp, -, rfl⟩ := read_eq_ok h
  have hl : 6 * ("^(?:".toList ++ source.toList ++ ")".toList).length + 6 = 6 * source.toList.length + 36 := by
    simp only [List.length_append]
    show 6 * (4 + source.toList.length + 1) + 6 = _
    omega
  rw [hl] at hp
  obtain ⟨first, st₁, more, st₂, hf, hm, rfl⟩ := readAlternatives_eq_ok hp
  exact ⟨first, st₁, more, st₂, rfl, (readRow_wrapped _ _).symm.trans hf, hm⟩

end

/-- The first alternative of what a source is read as begins at the start of a text. -/
theorem anchored_of_readAnchored {source : String} {r : Regex} {n : Nat} (h : readAnchored source = .ok (r, n)) :
    r.Anchored ∨ ∃ first more, r = .alt first more ∧ first.Anchored := by
  obtain ⟨_, _, more, _, rfl, hf, -⟩ := readAnchored_eq_ok h
  obtain ⟨parts, rfl⟩ := readRow_eq_ok hf
  cases more with
  | nil => exact .inl (anchored_row parts)
  | cons p more => exact .inr ⟨_, _, rfl, anchored_row parts⟩

/-- A source that is a pattern of its own begins at the start of a text in all its alternatives. -/
theorem anchored_of_read {source : String} {r : Regex} {n : Nat} (h : readAnchored source = .ok (r, n))
    {alone : Regex × Nat} (hs : read source.toList = .ok alone) : r.Anchored := by
  obtain ⟨first, st₁, more, st₂, rfl, hf, hm⟩ := readAnchored_eq_ok h
  obtain ⟨part, st, hp, hr, -⟩ := read_eq_ok hs
  have hfuel : 6 * source.toList.length + 6 ≤ 6 * source.toList.length + 30 := by omega
  obtain ⟨parts, hrow⟩ := readRow_alone hp hr hfuel
  -- the group takes the whole text, so no bar is left for a further alternative
  cases hrow.symm.trans hf
  rw [readMore] at hm
  cases hm
  exact anchored_row parts

end Pattern

/-! ## Leaves for a whole match -/

theorem Pattern.exists_found {p : Pattern} {t passed rest : Text} {value : Value}
    (h : p.matchIn t = some (value, passed, rest)) : ∃ found, p.regex.search t = some found ∧
      value = p.extract found ∧ passed = found.skipped ++ found.text ∧ rest = found.rest := by
  obtain ⟨found, hf, he⟩ := Option.map_eq_some_iff.mp h
  cases he
  exact ⟨found, hf, rfl, rfl, rfl⟩

theorem Outcome.ofLeaf_eq_some {path : Path} {cursor : Cursor} {read : Text → Option (Value × Text × Text)}
    {o : Outcome} {value : Value} (h : (ofLeaf path cursor read).result = .ok o) (hv : o.value = some value) :
    ∃ t passed rest, cursor.rest = some t ∧ read t = some (value, passed, rest) ∧
      o.cursor = cursor.advance passed rest := by
  rw [ofLeaf] at h
  split at h
  · cases h
  · split at h
    · cases h
      cases hv
      exact ⟨_, _, _, ‹_›, ‹_›, rfl⟩
    · cases h
      cases hv

/-- What a leaf yields is the text from a place on up to the end of its match. Before it some text is skipped, unless
the expression matches at the place. Nothing is skipped by a source that can be read as a pattern of its own, and by any
other only where an alternative matches that is not the first. -/
theorem whole_match_reaches_its_end {b : Rulebook} {id : NodeId} {leaf : Pattern} (hn : b.node id = .pattern leaf)
    (hw : leaf.capture = .whole) {text : Text} {depth position : Nat} {path : Path} {o : Outcome} {value : Value}
    (h : (b.matchNode text depth id path (Cursor.ofOffset text position)).result = .ok o) (hv : o.value = some value) :
    ∃ before skipped read after, text = before ++ (skipped ++ read ++ after) ∧ Text.size before = position ∧
      Text.size (before ++ skipped ++ read) = o.cursor.offset ∧ value = .str (String.ofList read) ∧
      (skipped = [] ↔ (leaf.regex.matchAt [] (skipped ++ read ++ after)).isSome) ∧
      ((∃ alone, Pattern.read leaf.source.toList = .ok alone) → skipped = []) ∧
      (skipped ≠ [] → ∃ first more, leaf.regex = .alt first more ∧ first.Anchored) := by
  cases depth with
  | zero => cases h
  | succ depth =>
    simp only [Rulebook.matchNode, hn] at h
    obtain ⟨t, passed, rest, hc, hm, hcursor⟩ := Outcome.ofLeaf_eq_some h hv
    obtain ⟨⟨before, _⟩, hs, rfl⟩ := Option.map_eq_some_iff.mp hc
    obtain ⟨rfl, hbefore⟩ := Text.splitAt_eq_some hs
    obtain ⟨found, hf, rfl, rfl, rfl⟩ := Pattern.exists_found hm
    have ht := Regex.text_of_searchFrom hf
    rw [List.reverse_nil, List.nil_append] at ht
    refine ⟨before, found.skipped, found.text, found.rest, by rw [ht], hbefore, ?_, ?_, ?_, ?_, ?_⟩
    · rw [hcursor, List.append_assoc, Text.size_append, hbefore]
      rfl
    · exact Capture.yields_whole leaf found hw
    · rw [ht]
      exact Regex.skipped_eq_nil_iff hf
    · rintro ⟨alone, ha⟩
      exact (Pattern.anchored_of_read leaf.readAs ha).skipped_eq_nil hf
    · intro hne
      exact (Pattern.anchored_of_readAnchored leaf.readAs).resolve_left fun ha => hne (ha.skipped_eq_nil hf)

def Rulebook.ofPattern (leaf : Pattern) : Rulebook where
  graph := { nodes := #[.pattern leaf] }

def eitherStroke : Pattern where
  source := "ab|b"
  regex := .seq (.anchor .textStart)
    (.alt (.seq (.set (.single 'a' false)) (.set (.single 'b' false))) (.set (.single 'b' false)))
  groupCount := 0
  capture := .whole
  readAs := by decide +kernel

theorem stroke_after_accent_is_slice : ∃ o,
    ((Rulebook.ofPattern eitherStroke).matchNode ['é', 'b', 'c'] 1 0 (Path.root 0)
      (Cursor.ofOffset ['é', 'b', 'c'] 2)).result = .ok o ∧ o.value = some (.str "b") ∧
    ∃ before read after, ['é', 'b', 'c'] = before ++ (read ++ after) ∧ Text.size before = 2 ∧
      Text.size (before ++ read) = o.cursor.offset ∧ Value.str "b" = .str (String.ofList read) := by
  have hnode : (Rulebook.ofPattern eitherStroke).node 0 = .pattern eitherStroke := rfl
  have hmatch : ((Rulebook.ofPattern eitherStroke).matchNode ['é', 'b', 'c'] 1 0 (Path.root 0)
      (Cursor.ofOffset ['é', 'b', 'c'] 2)).result = .ok ⟨some (.str "b"), ⟨3, some ['c']⟩, some ⟨3, [⟨0, 0⟩]⟩⟩ := rfl
  refine ⟨_, hmatch, rfl, ?_⟩
  obtain ⟨before, skipped, read, after, ht, hb, he, hv, -, halone, -⟩ :=
    whole_match_reaches_its_end hnode rfl hmatch rfl
  have hread : Pattern.read eitherStroke.source.toList = .ok
      (.alt (.seq (.set (.single 'a' false)) (.set (.single 'b' false))) (.set (.single 'b' false)), 0) := by
    decide +kernel
  obtain rfl := halone ⟨_, hread⟩
  rw [List.append_nil] at he
  exact ⟨before, read, after, ht, hb, he, hv⟩

/-- The source closes the group that is put around it, so its second alternative matches anywhere. -/
def strayStroke : Pattern where
  source := "x)|(?:b"
  regex := .alt (.seq (.anchor .textStart) (.set (.single 'x' false))) (.set (.single 'b' false))
  groupCount := 0
  capture := .whole
  readAs := by decide +kernel

theorem stray_stroke_skips_text : ∃ o,
    ((Rulebook.ofPattern strayStroke).matchNode ['a', 'a', 'b'] 1 0 (Path.root 0)
      (Cursor.ofOffset ['a', 'a', 'b'] 0)).result = .ok o ∧ o.value = some (.str "b") ∧ o.cursor.offset = 3 ∧
    ¬∃ before read after, ['a', 'a', 'b'] = before ++ (read ++ after) ∧ Text.size before = 0 ∧
      Text.size (before ++ read) = o.cursor.offset ∧ Value.str "b" = .str (String.ofList read) := by
  refine ⟨_, rfl, rfl, rfl, ?_⟩
  rintro ⟨before, read, after, ht, hb, -, hv⟩
  obtain rfl := Text.size_eq_zero_iff.mp hb
  have hread : read = ['b'] := by
    rw [← String.toList_ofList (l := read), ← Value.str.inj hv]
    rfl
  rw [hread] at ht
  cases ht

end FurthestMatch
