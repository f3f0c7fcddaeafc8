import FurthestMatch.Proofs.Collapsing
import FurthestMatch.Proofs.Layout

/-!
# Excerpts of failed texts

An excerpt shows the end of what stands before a place and the start of what follows it, so the column of the place is
the length of what is shown before it. The cut is made with numbers that have a largest one, and none of them is passed
whatever the settings are.
-/

namespace FurthestMatch

namespace Text

/-! ## The first place of a mark -/

theorem isSuffix_of_afterFirst? {mark rest : Text} : ∀ {text : Text}, afterFirst? mark text = some rest → rest <:+ text
  | [], h => ⟨mark, (after?_eq_some_iff.mp h).symm⟩
  | c :: text, h => by
    rw [afterFirst?] at h
    cases ha : after? mark (c :: text) with
    | some found =>
      rw [ha] at h
      cases h
      exact ⟨mark, (after?_eq_some_iff.mp ha).symm⟩
    | none =>
      rw [ha] at h
      exact (isSuffix_of_afterFirst? h).trans (List.suffix_cons c text)

def find? (mark : Text) : Text → Option Nat
  | [] => (after? mark []).map fun _ => 0
  | c :: rest => (after? mark (c :: rest)).elim ((find? mark rest).map (c.utf8Size + ·)) fun _ => some 0

theorem find?_eq_some {mark : Text} {index : Nat} : ∀ {text : Text}, find? mark text = some index →
    ∃ front rest, text = (front ++ mark) ++ rest ∧ size front = index ∧ afterFirst? mark text = some rest
  | [], h => by
    rw [find?] at h
    obtain ⟨rest, ha, rfl⟩ := Option.map_eq_some_iff.mp h
    exact ⟨[], rest, after?_eq_some_iff.mp ha, rfl, ha⟩
  | c :: text, h => by
    rw [find?] at h
    cases ha : after? mark (c :: text) with
    | some rest =>
      rw [ha] at h
      cases h
      exact ⟨[], rest, after?_eq_some_iff.mp ha, rfl, by rw [afterFirst?, ha]; rfl⟩
    | none =>
      rw [ha] at h
      obtain ⟨n, hn, rfl⟩ := Option.map_eq_some_iff.mp h
      obtain ⟨front, rest, ht, hs, hr⟩ := find?_eq_some hn
      refine ⟨c :: front, rest, congrArg (c :: ·) ht, by rw [size, hs], ?_⟩
      rw [afterFirst?, ha]
      exact hr

theorem find?_eq_none {mark : Text} : ∀ {text : Text}, find? mark text = none → afterFirst? mark text = none
  | [], h => Option.map_eq_none_iff.mp h
  | c :: text, h => by
    rw [find?] at h
    cases ha : after? mark (c :: text) with
    | some rest =>
      rw [ha] at h
      cases h
    | none =>
      rw [ha] at h
      rw [afterFirst?, ha]
      exact find?_eq_none (Option.map_eq_none_iff.mp h)

end Text

namespace Excerpt

/-! ## What an excerpt shows -/

variable (config : Config)

def leadingDots (before : Text) : Text :=
  if config.excerptLead < before.length then dots else []

def shownBefore (before : Text) : Text :=
  if config.excerptLead < before.length then
    trim config.collapsePlaceholder (before.drop (before.length - config.excerptLead))
  else before

theorem around_eq (c : Collapsed) : around config c =
    let before := c.text.take c.caret
    let after := c.text.drop c.caret
    let width := config.excerptWidth - (shownBefore config before).length
    ⟨leadingDots config before ++ shownBefore config before ++ after.take width ++
        (if width < after.length then dots else []),
      (leadingDots config before).length + (shownBefore config before).length⟩ := by
  unfold around leadingDots shownBefore
  generalize c.text.take c.caret = before
  simp only [Nat.sub_pos_iff_lt]
  by_cases h : config.excerptLead < before.length
  · simp only [h, if_true]
  · simp only [h, if_false]

theorem trim_isSuffix (placeholder cut : Text) : trim placeholder cut <:+ cut := by
  unfold trim
  cases h : Text.afterFirst? placeholder cut with
  | none => exact List.dropWhile_suffix _
  | some rest => exact Text.isSuffix_of_afterFirst? h

theorem shownBefore_isSuffix (before : Text) : shownBefore config before <:+ before := by
  unfold shownBefore
  split
  · exact (trim_isSuffix _ _).trans (List.drop_suffix _ _)
  · exact List.suffix_rfl

theorem length_shownBefore_le (before : Text) : (shownBefore config before).length ≤ config.excerptLead := by
  unfold shownBefore
  split
  · have h := (trim_isSuffix config.collapsePlaceholder (before.drop (before.length - config.excerptLead))).length_le
    rw [List.length_drop] at h
    omega
  · exact Nat.le_of_not_lt ‹_›

/-- What an excerpt may show around a place: dots, the end of the text before it, the start of the text after it, and
dots again. -/
structure Shows (before after lead shown follows tail : Text) : Prop where
  shown_isSuffix : shown <:+ before
  length_shown_le : shown.length ≤ config.excerptLead
  follows_isPrefix : follows <+: after
  length_le : shown.length + follows.length ≤ max config.excerptLead config.excerptWidth
  lead_eq : lead = if config.excerptLead < before.length then dots else []
  shown_eq : before.length ≤ config.excerptLead → shown = before
  tail_eq : tail = if follows = after then [] else dots

theorem take_eq_self {n : Nat} {text : Text} : text.take n = text ↔ ¬n < text.length := by
  constructor
  · intro h hn
    have hl := congrArg List.length h
    rw [List.length_take, Nat.min_eq_left (Nat.le_of_lt hn)] at hl
    exact absurd hn (Nat.not_lt_of_le (Nat.le_of_eq hl.symm))
  · intro h
    exact List.take_of_length_le (Nat.le_of_not_lt h)

theorem shows_around (c : Collapsed) : ∃ lead shown follows tail,
    around config c = ⟨lead ++ shown ++ follows ++ tail, lead.length + shown.length⟩ ∧
      Shows config (c.text.take c.caret) (c.text.drop c.caret) lead shown follows tail := by
  refine ⟨_, _, _, _, around_eq config c, ?_⟩
  have hb := length_shownBefore_le config (c.text.take c.caret)
  refine ⟨shownBefore_isSuffix _ _, hb, List.take_prefix _ _, ?_, rfl, fun h => if_neg (Nat.not_lt_of_le h), ?_⟩
  · rw [List.length_take]
    omega
  · simp only [take_eq_self, ite_not]

/-! ## Numbers with a largest one -/

def word? (limit n : Nat) : Option Nat :=
  if n ≤ limit then some n else none

def window? (text : Text) (start stop : Nat) : Option Text :=
  if start ≤ stop ∧ stop ≤ text.length then some ((text.take stop).drop start) else none

def trim? (limit : Nat) (placeholder cut : Text) : Option Text :=
  match Text.find? placeholder cut with
  | some index => do
    let stop ← word? limit (index + Text.size placeholder)
    (Text.splitAt cut stop).map Prod.snd
  | none => some (cut.dropWhile isBlank)

def cut? (limit start : Nat) (before : Text) : Option (Text × Text) :=
  if 0 < start then (trim? limit config.collapsePlaceholder before).map fun cut => (dots, cut) else some ([], before)

/-- The excerpt, with every sum and every cut checked. Differences below zero are zero, and the place where the excerpt
ends is at most the largest number. -/
def around? (limit : Nat) (c : Collapsed) : Option Excerpt := do
  let caret := min c.caret c.text.length
  let start := caret - config.excerptLead
  let before ← window? c.text start caret
  let (lead, before) ← cut? config limit start before
  let stop := min (min (caret + (config.excerptWidth - before.length)) limit) c.text.length
  let after ← window? c.text caret stop
  let column ← word? limit (lead.length + before.length)
  let _ ← word? limit (7 + column)
  return ⟨lead ++ before ++ after ++ if stop < c.text.length then dots else [], column⟩

theorem trim?_eq {limit : Nat} {placeholder cut : Text} (h : Text.size cut ≤ limit) :
    trim? limit placeholder cut = some (trim placeholder cut) := by
  unfold trim? trim
  cases hf : Text.find? placeholder cut with
  | none => simp [Text.find?_eq_none hf]
  | some index =>
    obtain ⟨front, rest, rfl, rfl, hr⟩ := Text.find?_eq_some hf
    rw [Text.size_append] at h
    have hw : word? limit (Text.size front + Text.size placeholder) = some (Text.size (front ++ placeholder)) := by
      rw [word?, ← Text.size_append, if_pos (Nat.le_of_add_right_le h)]
    simp only [hw, hr, Option.bind_eq_bind, Option.bind_some, Text.splitAt_append, Option.map_some, Option.getD_some]

theorem window?_eq {text : Text} {start stop : Nat} (h : start ≤ stop) (h' : stop ≤ text.length) :
    window? text start stop = some ((text.take stop).drop start) :=
  if_pos ⟨h, h'⟩

theorem size_le_of_isInfix {s t : Text} (h : s <:+: t) : Text.size s ≤ Text.size t := by
  obtain ⟨u, v, rfl⟩ := h
  rw [Text.size_append, Text.size_append]
  omega

theorem length_le_size : ∀ t : Text, t.length ≤ Text.size t
  | [] => Nat.le_refl 0
  | c :: t => by
    have hc := c.utf8Size_pos
    have ht := length_le_size t
    rw [List.length_cons, Text.size]
    omega

theorem window?_before (before after : Text) (n : Nat) :
    window? (before ++ after) (before.length - n) before.length = some (before.drop (before.length - n)) := by
  rw [window?_eq (Nat.sub_le _ _) (by simp), List.take_left]

/-- Where the text after the place ends is at most the largest number, which is at least the length of the text. -/
theorem window?_after {before after : Text} {limit : Nat} (h : (before ++ after).length ≤ limit) (n : Nat) :
    let stop := min (min (before.length + n) limit) (before ++ after).length
    window? (before ++ after) before.length stop = some (after.take n) ∧
      (stop < (before ++ after).length ↔ n < after.length) := by
  rw [List.length_append] at h ⊢
  have hstop : min (min (before.length + n) limit) (before.length + after.length) =
      before.length + min n after.length := by omega
  intro stop
  constructor
  · rw [window?_eq (by omega) (by rw [List.length_append]; omega)]
    simp only [stop, hstop, List.take_length_add_append, List.drop_left, ← List.take_eq_take_min]
  · omega

theorem cut?_eq {limit : Nat} {before : Text} (h : Text.size before ≤ limit) :
    cut? config limit (before.length - config.excerptLead) (before.drop (before.length - config.excerptLead)) =
      some (leadingDots config before, shownBefore config before) := by
  have hd : Text.size (before.drop (before.length - config.excerptLead)) ≤ limit :=
    Nat.le_trans (size_le_of_isInfix (List.drop_suffix _ _).isInfix) h
  unfold cut? leadingDots shownBefore
  simp only [Nat.sub_pos_iff_lt]
  by_cases hl : config.excerptLead < before.length
  · simp [hl, trim?_eq hd]
  · simp [hl, Nat.sub_eq_zero_of_le (Nat.le_of_not_lt hl)]

theorem length_leadingDots_le (before : Text) : (leadingDots config before).length ≤ 3 := by
  unfold leadingDots
  split
  · exact Nat.le_refl 3
  · exact Nat.zero_le 3

theorem around?_eq {limit : Nat} {c : Collapsed} (h : Text.size c.text + 10 ≤ limit) :
    around? config limit c = some (around config c) := by
  have hlen := length_le_size c.text
  obtain ⟨before, after, ht, hb, ha⟩ : ∃ before after, c.text = before ++ after ∧ c.text.take c.caret = before ∧
      c.text.drop c.caret = after := ⟨_, _, (List.take_append_drop _ _).symm, rfl, rfl⟩
  have hcaret : min c.caret c.text.length = before.length := by rw [← hb, List.length_take]
  rw [around_eq, hb, ha]
  unfold around?
  rw [hcaret]
  rw [ht] at h hlen ⊢
  rw [Text.size_append] at h hlen
  have hbefore : Text.size before ≤ limit := by omega
  have hlimit : (before ++ after).length ≤ limit := by omega
  have hdots := length_leadingDots_le config before
  have hshown := (shownBefore_isSuffix config before).length_le
  have hcolumn : (leadingDots config before).length + (shownBefore config before).length + 7 ≤ limit := by
    rw [List.length_append] at hlen
    omega
  obtain ⟨hafter, htail⟩ := window?_after hlimit (config.excerptWidth - (shownBefore config before).length)
  simp only [window?_before, cut?_eq config hbefore, hafter, htail, word?, Nat.add_comm 7, hcolumn,
    Nat.le_of_add_right_le hcolumn, Option.bind_eq_bind, Option.bind_some, if_true]
  rfl

end Excerpt

/-! ## The lines of a report -/

namespace Collapsed

theorem caret?_le {placeholder : Text} : ∀ (pieces : List Text.Piece) (offset : Nat) {caret : Nat},
    caret? placeholder pieces offset = some caret → caret ≤ (join placeholder pieces).length
  | _, 0, caret, h => by
    rw [caret?] at h
    cases h
    exact Nat.zero_le _
  | [], _ + 1, _, h => by
    cases (h : some 0 = some _)
    exact Nat.zero_le _
  | .kept c :: pieces, n + 1, caret, h => by
    rw [caret?] at h
    split at h
    · obtain ⟨k, hk, rfl⟩ := Option.map_eq_some_iff.mp h
      exact Nat.succ_le_succ (caret?_le pieces _ hk)
    · cases h
  | .run blanks :: pieces, n + 1, caret, h => by
    rw [caret?] at h
    split at h
    · obtain ⟨k, hk, rfl⟩ := Option.map_eq_some_iff.mp h
      have := caret?_le pieces _ hk
      simp only [join, List.length_append]
      omega
    · cases h
      exact Nat.zero_le _

/-- A collapsed text comes apart at the place in it. -/
theorem exists_split_of_ofText? {placeholder text : Text} {offset : Nat} {c : Collapsed}
    (h : ofText? placeholder text offset = some c) :
    ∃ before after, c = ⟨before ++ after, before.length⟩ ∧ before ++ after = oneLine placeholder text := by
  obtain ⟨caret, hc, rfl⟩ := Option.map_eq_some_iff.mp h
  have hle : caret ≤ (oneLine placeholder text).length := caret?_le _ _ hc
  refine ⟨(oneLine placeholder text).take caret, (oneLine placeholder text).drop caret, ?_, List.take_append_drop _ _⟩
  rw [List.take_append_drop, List.length_take_of_le hle]
  rfl

end Collapsed

namespace Failure

variable (config : Config) (text : Text) (offset : Nat) (position : Position)

theorem unbroken_number (n : Nat) : '\n' ∉ (toString n).toList := by
  simpa using Text.unbroken_digits n

/-- What stands below an excerpt after the spaces, from the caret on. -/
theorem exists_pointed : ∃ pointed, '\n' ∉ pointed ∧
    s!"^ From here (line: {position.line}, column: {position.column}, offset: {offset})".toList ++
      (if offset = Text.size text then ", end of string".toList else []) = '^' :: pointed := by
  have hcaret : s!"^ From here (line: {position.line}, column: {position.column}, offset: {offset})" =
      "^" ++ s!" From here (line: {position.line}, column: {position.column}, offset: {offset})" := by
    simp only [← String.append_assoc]
    rfl
  have hend : '\n' ∉ if offset = Text.size text then ", end of string".toList else [] := by
    split <;> decide
  refine ⟨s!" From here (line: {position.line}, column: {position.column}, offset: {offset})".toList ++
    (if offset = Text.size text then ", end of string".toList else []), ?_, ?_⟩
  · simp only [String.toList_append, List.mem_append, not_or]
    exact ⟨⟨⟨⟨⟨⟨⟨by decide, unbroken_number _⟩, by decide⟩, unbroken_number _⟩, by decide⟩, unbroken_number _⟩,
      by decide⟩, hend⟩
  · have hone : "^".toList = ['^'] := by decide
    rw [hcaret, String.toList_append, List.append_assoc, hone, List.singleton_append]

theorem unbroken_around {collapsed : Collapsed} (h : '\n' ∉ collapsed.text) :
    '\n' ∉ (Excerpt.around config collapsed).text := by
  obtain ⟨lead, shown, follows, tail, he, hs⟩ := Excerpt.shows_around config collapsed
  have hdots : '\n' ∉ Excerpt.dots := by decide
  have hlead : '\n' ∉ lead := by
    rw [hs.lead_eq]
    split
    · exact hdots
    · exact List.not_mem_nil
  have htail : '\n' ∉ tail := by
    rw [hs.tail_eq]
    split
    · exact List.not_mem_nil
    · exact hdots
  have hshown : '\n' ∉ shown := fun hn => h (List.mem_of_mem_take (hs.shown_isSuffix.subset hn))
  have hfollows : '\n' ∉ follows := fun hn => h (List.mem_of_mem_drop (hs.follows_isPrefix.subset hn))
  simp [he, hlead, hshown, hfollows, htail]

/-- The part of a report that shows the text is four lines. -/
theorem lines_textPart {collapsed : Collapsed} (h : '\n' ∉ collapsed.text) : ∃ pointed,
    Text.lines (textPart config text offset position collapsed) =
      ["Could not parse: ".toList ++ collapsed.text.take config.summaryWidth, [],
        "Input: ".toList ++ (Excerpt.around config collapsed).text,
        List.replicate (7 + (Excerpt.around config collapsed).column) ' ' ++ '^' :: pointed, []] := by
  obtain ⟨pointed, hpointed, he⟩ := exists_pointed text offset position
  have hsummary : '\n' ∉ "Could not parse: ".toList ++ collapsed.text.take config.summaryWidth := by
    rw [List.mem_append, not_or]
    exact ⟨by decide, fun hn => h (List.mem_of_mem_take hn)⟩
  have hinput : '\n' ∉ "Input: ".toList ++ (Excerpt.around config collapsed).text := by
    rw [List.mem_append, not_or]
    exact ⟨by decide, unbroken_around config h⟩
  have hcaret : '\n' ∉ List.replicate (7 + (Excerpt.around config collapsed).column) ' ' ++ '^' :: pointed := by
    simp [hpointed]
  have ht : textPart config text offset position collapsed =
      ("Could not parse: ".toList ++ collapsed.text.take config.summaryWidth) ++ '\n' :: ([] ++ '\n' ::
        (("Input: ".toList ++ (Excerpt.around config collapsed).text) ++ '\n' ::
          ((List.replicate (7 + (Excerpt.around config collapsed).column) ' ' ++ '^' :: pointed) ++ '\n' :: []))) := by
    have hsplit : "\n\nInput: ".toList = '\n' :: ([] ++ '\n' :: "Input: ".toList) := by decide
    unfold textPart
    dsimp only
    rw [← he, hsplit]
    simp only [List.append_assoc, List.cons_append, List.nil_append]
  refine ⟨pointed, ?_⟩
  rw [ht, Text.lines_of_line hsummary, Text.lines_of_line List.not_mem_nil, Text.lines_of_line hinput,
    Text.lines_of_line hcaret]
  rfl

end Failure

open Excerpt in
/-- The report of a failed match without the drawing is four lines. The third shows the end of the collapsed text before
the place of the failure and the start of the text from there on, each next to the place and within its width, with dots
where text is left out. The caret of the fourth line stands below the place. No setting is so large that a number on the
way would be beyond the largest one, and no cut is out of order. -/
theorem caret_points_at_failure {config : Config} {text : Text} {o : Outcome} (h : text.IsBoundary o.reach)
    (hp : '\n' ∉ config.collapsePlaceholder) (b : Rulebook) (id : NodeId) :
    ∃ failure before after, (b.failure config id text false o).result = .ok failure ∧
      Collapsed.ofText? config.collapsePlaceholder text o.reach = some ⟨before ++ after, before.length⟩ ∧
      (∃ lead shown follows tail pointed, Shows config before after lead shown follows tail ∧
        Text.lines failure.message = ["Could not parse: ".toList ++ (before ++ after).take config.summaryWidth, [],
          "Input: ".toList ++ (lead ++ shown ++ follows ++ tail),
          List.replicate (7 + (lead ++ shown).length) ' ' ++ '^' :: pointed, []]) ∧
      ∀ limit, Text.size (before ++ after) + 10 ≤ limit →
        around? config limit ⟨before ++ after, before.length⟩ =
          some (around config ⟨before ++ after, before.length⟩) := by
  obtain ⟨c, hc⟩ := Option.isSome_iff_exists.mp (Collapsed.ofText?_isSome config.collapsePlaceholder h)
  obtain ⟨position, hposition⟩ := Option.isSome_iff_exists.mp (Text.position?_isSome h)
  obtain ⟨before, after, rfl, ht⟩ := Collapsed.exists_split_of_ofText? hc
  have hn : '\n' ∉ before ++ after := by
    rw [ht]
    exact Collapsed.unbroken_oneLine hp text
  obtain ⟨lead, shown, follows, tail, he, hs⟩ := shows_around config ⟨before ++ after, before.length⟩
  rw [List.take_left, List.drop_left] at hs
  obtain ⟨pointed, hlines⟩ : ∃ pointed,
      Text.lines (Failure.textPart config text o.reach position ⟨before ++ after, before.length⟩) = _ :=
    Failure.lines_textPart config text o.reach position hn
  rw [he] at hlines
  refine ⟨⟨Failure.textPart config text o.reach position ⟨before ++ after, before.length⟩, o.reach, position⟩, before,
    after, ?_, hc, ⟨lead, shown, follows, tail, pointed, hs, ?_⟩, fun limit hl => around?_eq config hl⟩
  · simp only [Rulebook.failure, hc, hposition, Rulebook.drawingPart, Bool.false_eq_true, if_false]
    simp only [Walk.result_bind, Walk.result_pure, Except.bind, List.append_nil]
  · rw [hlines, List.length_append]

/-- The first of two letters is read and the second is not. -/
theorem caret_between_letters : Text.IsBoundary ['a', 'b'] 1 ∧ '\n' ∉ ({} : Config).collapsePlaceholder ∧
    ∃ failure lead shown follows tail pointed,
      (Rulebook.failure { graph := { nodes := #[.literal "b"] } } {} 0 ['a', 'b'] false
        ⟨none, ⟨0, some ['a', 'b']⟩, some ⟨1, [⟨0, 0⟩]⟩⟩).result = .ok failure ∧
      Excerpt.Shows {} ['a'] ['b'] lead shown follows tail ∧
      Text.lines failure.message = ["Could not parse: ".toList ++ ['a', 'b'], [],
        "Input: ".toList ++ (lead ++ shown ++ follows ++ tail),
        List.replicate (7 + (lead ++ shown).length) ' ' ++ '^' :: pointed, []] := by
  have hb : Text.IsBoundary ['a', 'b'] 1 := ⟨['a'], ['b'], rfl, rfl⟩
  have hn : '\n' ∉ ({} : Config).collapsePlaceholder := by decide
  let o : Outcome := ⟨none, ⟨0, some ['a', 'b']⟩, some ⟨1, [⟨0, 0⟩]⟩⟩
  have ho : Text.IsBoundary ['a', 'b'] o.reach := hb
  obtain ⟨failure, before, after, hf, hc, ⟨lead, shown, follows, tail, pointed, hs, hm⟩, -⟩ :=
    caret_points_at_failure ho hn { graph := { nodes := #[.literal "b"] } } 0
  have hab : Collapsed.ofText? ({} : Config).collapsePlaceholder ['a', 'b'] 1 = some ⟨['a', 'b'], 1⟩ := by
    decide +kernel
  obtain ⟨ht, hl⟩ := Collapsed.mk.inj (Option.some.inj (hab.symm.trans hc))
  obtain ⟨c, rfl⟩ := List.length_eq_one_iff.mp hl.symm
  cases ht
  exact ⟨hb, hn, failure, lead, shown, follows, tail, pointed, hf, hs, hm⟩

end FurthestMatch
