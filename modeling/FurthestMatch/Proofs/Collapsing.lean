import FurthestMatch.Proofs.Runs

/-!
# Collapsing a text

The text before a place outside the runs is collapsed by itself, and so is the text after it. A place is taken along
to the end of the collapsed text before it, or before the run that it is in. Collapsing leaves nothing to collapse.
-/

namespace FurthestMatch

namespace Text

/-! ## Runs of a part of a text -/

theorem takeWhile_isPrefix {p : Char → Bool} {s t : Text} (h : s <+: t) : s.takeWhile p <+: t.takeWhile p := by
  obtain ⟨u, rfl⟩ := h
  rw [List.takeWhile_append]
  split
  · rename_i hl
    rw [(List.takeWhile_prefix p).eq_of_length hl]
    exact List.prefix_append _ _
  · exact List.prefix_rfl

theorem takeWhile_eq_of_isPrefix {p : Char → Bool} {s t : Text} (h : s <+: t) (ht : t.takeWhile p <+: s) :
    s.takeWhile p = t.takeWhile p := by
  obtain ⟨u, hu⟩ := ht
  have hl : (t.takeWhile p).length ≤ (s.takeWhile p).length := by
    have hp : ∀ c ∈ t.takeWhile p, p c = true := List.all_eq_true.mp List.all_takeWhile
    rw [← hu, List.takeWhile_append_of_pos hp, List.length_append]
    exact Nat.le_add_right _ _
  exact (takeWhile_isPrefix h).eq_of_length_le hl

/-- The run at the start of a text does not depend on what stands well after it. -/
theorem leadingRun_of_isPrefix {s t : Text} (h : s <+: t) (hr : leadingRun t <+: s) : leadingRun s = leadingRun t := by
  have hblank : '\n' ∉ t.takeWhile isBlank → '\n' ∉ s.takeWhile isBlank :=
    fun hn hs => hn ((takeWhile_isPrefix h).subset hs)
  rcases leadingRun_cases t with ⟨hn, ht⟩ | ⟨hn, hl, ht⟩ | ⟨hn, hl, ht⟩
  · rw [ht] at hr ⊢
    have he := takeWhile_eq_of_isPrefix h hr
    simp [leadingRun, he, hn]
  · rw [ht] at hr ⊢
    have he := takeWhile_eq_of_isPrefix h hr
    simp [leadingRun, he, hblank hn, hl]
  · have hs : (s.takeWhile (· = ' ')).length ≤ (t.takeWhile (· = ' ')).length := (takeWhile_isPrefix h).length_le
    rw [ht]
    simp [leadingRun, hblank hn, Nat.not_le_of_lt (Nat.lt_of_le_of_lt hs hl)]

theorem ne_nil_of_mem_pieces {text blanks : Text} (h : .run blanks ∈ pieces text) : blanks ≠ [] := by
  induction text using pieces_induction with
  | nil =>
    rw [pieces] at h
    cases h
  | kept c rest hr ih =>
    rw [pieces_of_kept hr] at h
    exact ih (by simpa using h)
  | run run rest hne hr ih =>
    rw [pieces_of_run hne hr] at h
    rcases List.mem_cons.mp h with h | h
    · cases h
      exact hne
    · exact ih h

theorem pieces_of_append {text : Text} : ∀ {ps qs : List Piece}, pieces text = ps ++ qs →
    pieces (ps.flatMap Piece.text) = ps ∧ pieces (qs.flatMap Piece.text) = qs := by
  induction text using pieces_induction with
  | nil =>
    intro ps qs h
    rw [pieces] at h
    obtain ⟨rfl, rfl⟩ := List.append_eq_nil_iff.mp h.symm
    simp [pieces]
  | kept c rest hr ih =>
    intro ps qs h
    cases ps with
    | nil =>
      rw [← show pieces (c :: rest) = qs from h, flatMap_pieces]
      simp [pieces]
    | cons x ps =>
      rw [pieces_of_kept hr] at h
      obtain ⟨rfl, hp⟩ := List.cons.inj h
      obtain ⟨hps, hqs⟩ := ih hp
      have hrest : ps.flatMap Piece.text ++ qs.flatMap Piece.text = rest := by
        rw [← List.flatMap_append, ← show pieces rest = ps ++ qs from hp, flatMap_pieces]
      have hrun : leadingRun (c :: ps.flatMap Piece.text) = leadingRun (c :: rest) :=
        leadingRun_of_isPrefix ⟨qs.flatMap Piece.text, congrArg (c :: ·) hrest⟩ (by rw [hr]; exact List.nil_prefix)
      exact ⟨(pieces_of_kept (hrun.trans hr)).trans (congrArg _ hps), hqs⟩
  | run blanks rest hne hr ih =>
    intro ps qs h
    cases ps with
    | nil =>
      rw [← show pieces (blanks ++ rest) = qs from h, flatMap_pieces]
      simp [pieces]
    | cons x ps =>
      rw [pieces_of_run hne hr] at h
      obtain ⟨rfl, hp⟩ := List.cons.inj h
      obtain ⟨hps, hqs⟩ := ih hp
      have hrest : ps.flatMap Piece.text ++ qs.flatMap Piece.text = rest := by
        rw [← List.flatMap_append, ← show pieces rest = ps ++ qs from hp, flatMap_pieces]
      have hrun : leadingRun (blanks ++ ps.flatMap Piece.text) = leadingRun (blanks ++ rest) :=
        leadingRun_of_isPrefix ⟨qs.flatMap Piece.text, by rw [List.append_assoc, hrest]⟩
          (by rw [hr]; exact List.prefix_append _ _)
      exact ⟨(pieces_of_run hne (hrun.trans hr)).trans (congrArg _ hps), hqs⟩

/-! ## Slices -/

/-- The characters from one byte offset to another; `none` for offsets that are out of order, beyond the end or inside
a character. -/
def slice? (text : Text) (start stop : Nat) : Option Text := do
  let (before, _) ← splitAt text stop
  let (_, found) ← splitAt before start
  return found

theorem splitAt_append_left (s t : Text) : ∀ {n : Nat}, n ≤ size s →
    splitAt (s ++ t) n = (splitAt s n).map fun w => (w.1, w.2 ++ t) := by
  induction s with
  | nil =>
    intro n h
    obtain rfl : n = 0 := Nat.le_zero.mp h
    cases t <;> rfl
  | cons c s ih =>
    intro n h
    cases n with
    | zero => rfl
    | succ n =>
      rw [size] at h
      by_cases hc : c.utf8Size ≤ n + 1
      · simp [splitAt, hc, ih (n := n + 1 - c.utf8Size) (by omega), Function.comp_def]
      · simp [splitAt, hc]

theorem splitAt_append_right (s t : Text) (n : Nat) :
    splitAt (s ++ t) (size s + n) = (splitAt t n).map fun w => (s ++ w.1, w.2) := by
  induction s with
  | nil => simp [size]
  | cons c s ih =>
    have hc := c.utf8Size_pos
    obtain ⟨m, hm⟩ : ∃ m, size (c :: s) + n = m + 1 := ⟨size (c :: s) + n - 1, by simp only [size]; omega⟩
    have hs : m + 1 - c.utf8Size = size s + n := by simp only [size] at hm; omega
    have hle : c.utf8Size ≤ m + 1 := by simp only [size] at hm; omega
    rw [List.cons_append, hm, splitAt, if_pos hle, hs, ih]
    simp [Function.comp_def]

theorem size_pos {t : Text} (h : t ≠ []) : 0 < size t :=
  Nat.pos_of_ne_zero (mt size_eq_zero_iff.mp h)

theorem slice?_append (front t : Text) (n : Nat) :
    slice? (front ++ t) (size front) (size front + n) = (splitAt t n).map Prod.fst := by
  rw [slice?, splitAt_append_right]
  cases splitAt t n with
  | none => rfl
  | some w => simp [splitAt_append]

end Text

namespace Collapsed

open Text

variable (placeholder : Text)

theorem join_append (ps qs : List Piece) :
    join placeholder (ps ++ qs) = join placeholder ps ++ join placeholder qs := by
  induction ps with
  | nil => rfl
  | cons x ps ih => cases x <;> simp [join, ih]

theorem join_kept (t : Text) : join placeholder (t.map .kept) = t := by
  induction t with
  | nil => rfl
  | cons c t ih => simp [join, ih]

theorem caret?_kept (ps : List Piece) : ∀ (t : Text) (n : Nat), caret? placeholder (t.map .kept ++ ps) n =
    if n < size t then (splitAt t n).map (·.1.length) else (caret? placeholder ps (n - size t)).map (· + t.length)
  | [], n => by simp [size]
  | c :: t, 0 => by
    have hc := c.utf8Size_pos
    simp [caret?, size, splitAt, Nat.add_pos_left hc]
  | c :: t, n + 1 => by
    rw [List.map_cons, List.cons_append, caret?, splitAt, size]
    by_cases hc : c.utf8Size ≤ n + 1
    · have hlt : n + 1 < c.utf8Size + size t ↔ n + 1 - c.utf8Size < size t := by omega
      rw [if_pos hc, if_pos hc, caret?_kept ps t, Nat.sub_add_eq]
      simp only [hlt]
      split <;> simp [Function.comp_def, Nat.add_assoc]
    · simp [hc, show n + 1 < c.utf8Size + size t by omega]

theorem caret?_all_kept {t : Text} {n : Nat} (h : n ≤ size t) :
    caret? placeholder (t.map .kept ++ []) n = (splitAt t n).map (·.1.length) := by
  rw [caret?_kept]
  split
  · rfl
  · obtain rfl : n = size t := by omega
    have hs := splitAt_append t []
    rw [List.append_nil] at hs
    simp [hs, caret?]

theorem caret?_past_kept (c : Char) (ps : List Piece) (n : Nat) :
    caret? placeholder (.kept c :: ps) (c.utf8Size + n) = (caret? placeholder ps n).map (· + 1) := by
  obtain ⟨m, hm⟩ := Nat.exists_eq_succ_of_ne_zero (Nat.ne_of_gt (Nat.add_pos_left c.utf8Size_pos n))
  rw [hm, caret?, ← Nat.succ_eq_add_one, ← hm, if_pos (Nat.le_add_right _ _), Nat.add_sub_cancel_left]

theorem caret?_past_run {blanks : Text} (hne : blanks ≠ []) (ps : List Piece) (n : Nat) :
    caret? placeholder (.run blanks :: ps) (size blanks + n) =
      (caret? placeholder ps n).map (· + placeholder.length) := by
  obtain ⟨m, hm⟩ := Nat.exists_eq_succ_of_ne_zero (Nat.ne_of_gt (Nat.add_pos_left (size_pos hne) n))
  rw [hm, caret?, ← Nat.succ_eq_add_one, ← hm, if_pos (Nat.le_add_right _ _), Nat.add_sub_cancel_left]

theorem caret?_in_run {blanks : Text} (ps : List Piece) {n : Nat} (h : n < size blanks) :
    caret? placeholder (.run blanks :: ps) n = some 0 := by
  cases n with
  | zero => rw [caret?]
  | succ n => rw [caret?, if_neg (Nat.not_le_of_lt h)]

/-- A place is counted past whole pieces by the text that they become. -/
theorem caret?_append {ps : List Piece} (qs : List Piece) (hne : ∀ blanks, .run blanks ∈ ps → blanks ≠ []) (n : Nat) :
    caret? placeholder (ps ++ qs) (size (ps.flatMap Piece.text) + n) =
      (caret? placeholder qs n).map (· + (join placeholder ps).length) := by
  induction ps with
  | nil => simp [size, join]
  | cons x ps ih =>
    have ih := ih fun blanks hb => hne blanks (List.mem_cons_of_mem _ hb)
    rw [List.flatMap_cons, size_append, Nat.add_assoc, List.cons_append]
    cases x with
    | kept c =>
      show caret? placeholder (.kept c :: (ps ++ qs)) (c.utf8Size + _) = _
      rw [caret?_past_kept, ih]
      simp [join, Function.comp_def, Nat.add_assoc]
    | run blanks =>
      rw [Piece.text, caret?_past_run placeholder (hne blanks List.mem_cons_self), ih]
      simp [join, Function.comp_def, Nat.add_assoc, Nat.add_comm placeholder.length]

end Collapsed

/-! ## The scan -/

/-- How far a scan has come: the collapsed text, the caret once it is known, and the offset after the last run. -/
structure Scan where
  text : Text
  caret : Option Nat
  last : Nat

namespace Scan

def place? (text : Text) (offset : Nat) (s : Scan) : Option Nat :=
  (text.slice? s.last offset).map fun kept => s.text.length + kept.length

def pass? (placeholder text : Text) (offset : Nat) (s : Scan) (run : Nat × Nat) : Option Scan := do
  let early ← if s.caret.isNone ∧ offset < run.1 then (s.place? text offset).map some else some s.caret
  let collapsed := s.text ++ (← text.slice? s.last run.1)
  let caret := if early.isNone ∧ offset < run.2 then some collapsed.length else early
  return ⟨collapsed ++ placeholder, caret, run.2⟩

def finish? (text : Text) (offset : Nat) (s : Scan) : Option Collapsed := do
  let caret ← s.caret.orElse fun _ => s.place? text offset
  return ⟨s.text ++ (← text.slice? s.last (Text.size text)), caret⟩

end Scan

def Collapsed.scan? (placeholder text : Text) (offset : Nat) : Option Collapsed := do
  let offset := min offset (Text.size text)
  let s ← text.runs.foldlM (Scan.pass? placeholder text offset) ⟨[], none, 0⟩
  s.finish? text offset

namespace Scan

open Text Collapsed

section
variable (placeholder u blanks back : Text) {front : Text} {s : Scan} (hl : s.last = size front)
include hl

theorem slice_of_last : (front ++ (u ++ back)).slice? s.last (size front + size u) = some u := by
  rw [hl, slice?_append, splitAt_append]
  rfl

theorem place_of_last (t : Text) (n : Nat) : s.place? (front ++ t) (size front + n) =
    (splitAt t n).map fun w => s.text.length + w.1.length := by
  rw [place?, hl, slice?_append, Option.map_map]
  rfl

theorem pass_known (offset : Nat) {k : Nat} (hk : s.caret = some k) :
    pass? placeholder (front ++ (u ++ back)) offset s (size front + size u, size front + size u + size blanks) =
      some ⟨s.text ++ u ++ placeholder, some k, size front + size u + size blanks⟩ := by
  simp [pass?, hk, slice_of_last u back hl]

/-- A run that is passed when the caret is not known: it is found before the run, at the run, or later. -/
theorem pass_open (hk : s.caret = none) (n : Nat) : pass? placeholder (front ++ (u ++ back)) (size front + n) s
    (size front + size u, size front + size u + size blanks) =
      if n < size u then (splitAt u n).map fun w =>
        ⟨s.text ++ u ++ placeholder, some (s.text.length + w.1.length), size front + size u + size blanks⟩
      else some ⟨s.text ++ u ++ placeholder, if n < size u + size blanks then some (s.text.length + u.length) else none,
        size front + size u + size blanks⟩ := by
  have hlt : size front + n < size front + size u ↔ n < size u := by omega
  have hlt' : size front + n < size front + size u + size blanks ↔ n < size u + size blanks := by omega
  by_cases hn : n < size u
  · have hp := place_of_last hl (u ++ back) n
    rw [splitAt_append_left u back (Nat.le_of_lt hn)] at hp
    simp only [pass?, hk, hp, slice_of_last u back hl, hlt, hn]
    cases splitAt u n <;> simp
  · simp [pass?, hk, slice_of_last u back hl, hlt, hlt', hn]

theorem slice_to_end : (front ++ u).slice? s.last (size (front ++ u)) = some u := by
  have h := slice_of_last u [] hl
  rwa [List.append_nil, ← size_append] at h

theorem finish_known (offset : Nat) {k : Nat} (hk : s.caret = some k) :
    finish? (front ++ u) offset s = some ⟨s.text ++ u, k⟩ := by
  simp [finish?, hk, slice_to_end u hl]

theorem finish_open (hk : s.caret = none) (n : Nat) : finish? (front ++ u) (size front + n) s =
    (splitAt u n).map fun w => ⟨s.text ++ u, s.text.length + w.1.length⟩ := by
  simp only [finish?, hk, place_of_last hl, slice_to_end u hl]
  cases splitAt u n <;> simp

end

section
variable (placeholder text : Text) (offset : Nat)

def complete? (start : Nat) (ps : List Piece) (s : Scan) : Option Collapsed :=
  ((spans start ps).foldlM (pass? placeholder text offset) s).bind (finish? text offset)

theorem complete?_run (start : Nat) (blanks : Text) (ps : List Piece) (s : Scan) :
    complete? placeholder text offset start (.run blanks :: ps) s =
      (pass? placeholder text offset s (start, start + size blanks)).bind
        (complete? placeholder text offset (start + size blanks) ps) := by
  simp only [complete?, spans, List.foldlM_cons, Option.bind_eq_bind, Option.bind_assoc]
  rfl

theorem size_add_kept (front u : Text) (c : Char) :
    size front + size u + c.utf8Size = size front + size (u ++ [c]) := by
  simp [size_append, size, Nat.add_assoc]

theorem size_add_run (front u blanks : Text) :
    size front + size u + size blanks = size (front ++ (u ++ blanks)) + size [] := by
  simp [size_append, size, Nat.add_assoc]

variable {placeholder text offset}

theorem complete_known {k : Nat} : ∀ (ps : List Piece) {front u : Text} {s : Scan}, s.last = size front →
    s.caret = some k → text = front ++ (u ++ ps.flatMap Piece.text) →
      complete? placeholder text offset (size front + size u) ps s = some ⟨s.text ++ u ++ join placeholder ps, k⟩
  | [], front, u, s, hl, hk, ht => by
    have hf := finish_known u hl offset hk
    rw [show text = front ++ u by simpa using ht, join, List.append_nil]
    exact hf
  | .kept c :: ps, front, u, s, hl, hk, ht => by
    have hnext := complete_known (u := u ++ [c]) ps hl hk (by simpa [Piece.text] using ht)
    show complete? placeholder text offset (size front + size u + c.utf8Size) ps s = _
    rw [size_add_kept, hnext]
    simp [join]
  | .run blanks :: ps, front, u, s, hl, hk, ht => by
    have hpass := pass_known placeholder u blanks (blanks ++ ps.flatMap Piece.text) hl offset hk
    rw [← show text = front ++ (u ++ (blanks ++ ps.flatMap Piece.text)) from ht] at hpass
    rw [complete?_run, hpass, Option.bind_some, size_add_run,
      complete_known ps rfl rfl (by simpa [Piece.text] using ht)]
    simp [join]

/-- A scan when the caret is not known yet: its place is counted on from the kept characters after the last run. -/
theorem complete_open : ∀ (ps : List Piece) {front u : Text} {s : Scan}, s.last = size front →
    s.caret = none → (∀ blanks, .run blanks ∈ ps → blanks ≠ []) → text = front ++ (u ++ ps.flatMap Piece.text) →
    ∀ {n : Nat}, offset = size front + n → n ≤ size u + size (ps.flatMap Piece.text) →
      complete? placeholder text offset (size front + size u) ps s =
        (caret? placeholder (u.map .kept ++ ps) n).map fun k => ⟨s.text ++ u ++ join placeholder ps, s.text.length + k⟩
  | [], front, u, s, hl, hk, _, ht, n, ho, hn => by
    have hf := finish_open u hl hk n
    rw [caret?_all_kept placeholder hn, show text = front ++ u by simpa using ht, ho, join, List.append_nil,
      Option.map_map]
    exact hf
  | .kept c :: ps, front, u, s, hl, hk, hne, ht, n, ho, hn => by
    have hn' : n ≤ size (u ++ [c]) + size (ps.flatMap Piece.text) := by
      simpa [size_append, Piece.text, size, Nat.add_assoc] using hn
    have hnext := complete_open (u := u ++ [c]) ps hl hk (fun blanks hb => hne blanks (List.mem_cons_of_mem _ hb))
      (by simpa [Piece.text] using ht) ho hn'
    show complete? placeholder text offset (size front + size u + c.utf8Size) ps s = _
    rw [size_add_kept, hnext]
    simp [join]
  | .run blanks :: ps, front, u, s, hl, hk, hne, ht, n, ho, hn => by
    have hpass := pass_open placeholder u blanks (blanks ++ ps.flatMap Piece.text) hl hk n
    rw [← show text = front ++ (u ++ (blanks ++ ps.flatMap Piece.text)) from ht, ← ho] at hpass
    have ht' : text = (front ++ (u ++ blanks)) ++ ([] ++ ps.flatMap Piece.text) := by simpa [Piece.text] using ht
    -- Once the caret is known, what follows the run does not change it.
    have hknown {k : Nat} : complete? placeholder text offset (size front + size u + size blanks) ps
        ⟨s.text ++ u ++ placeholder, some k, size front + size u + size blanks⟩ =
          some ⟨s.text ++ u ++ join placeholder (.run blanks :: ps), k⟩ := by
      rw [size_add_run, complete_known ps rfl rfl ht', List.append_nil, join, List.append_assoc]
    rw [complete?_run, hpass, caret?_kept]
    by_cases hu : n < size u
    · rw [if_pos hu, if_pos hu]
      cases splitAt u n with
      | none => rfl
      | some w => simp only [Option.map_some, Option.bind_some, hknown]
    · rw [if_neg hu, if_neg hu]
      by_cases hb : n < size u + size blanks
      · rw [if_pos hb, caret?_in_run placeholder ps (by omega)]
        simp only [Option.map_some, Option.bind_some, hknown, Nat.zero_add]
      · obtain ⟨m, rfl⟩ : ∃ m, n = size u + (size blanks + m) := ⟨n - size u - size blanks, by omega⟩
        have ho' : offset = size (front ++ (u ++ blanks)) + m := by simp [ho, size_append, Nat.add_assoc]
        have hn' : m ≤ size [] + size (ps.flatMap Piece.text) := by
          simp only [List.flatMap_cons, size_append, Piece.text, size] at hn ⊢
          omega
        have hnext := complete_open (s := ⟨s.text ++ u ++ placeholder, none, _⟩) ps rfl rfl
          (fun blanks hb => hne blanks (List.mem_cons_of_mem _ hb)) ht' ho' hn'
        rw [if_neg hb, Nat.add_sub_cancel_left, caret?_past_run placeholder (hne blanks List.mem_cons_self),
          Option.bind_some, size_add_run]
        refine hnext.trans ?_
        simp [join, Function.comp_def, Nat.add_assoc, Nat.add_comm]

end

end Scan

namespace Collapsed

open Text

variable (placeholder : Text)

theorem scan?_eq_ofText? (text : Text) (offset : Nat) :
    scan? placeholder text offset = ofText? placeholder text offset := by
  have ht : text = [] ++ ([] ++ text.pieces.flatMap Piece.text) := (flatMap_pieces text).symm
  have hn : min offset (size text) ≤ size [] + size (text.pieces.flatMap Piece.text) := by
    rw [flatMap_pieces, size, Nat.zero_add]
    exact Nat.min_le_right _ _
  rw [scan?, runs_eq_spans]
  refine (Scan.complete_open (s := ⟨[], none, 0⟩) text.pieces rfl rfl (fun _ => ne_nil_of_mem_pieces) ht
    (Nat.zero_add _).symm hn).trans ?_
  simp [ofText?]

/-! ## A text on one line -/

def oneLine (text : Text) : Text :=
  join placeholder text.pieces

theorem scan?_zero (text : Text) : scan? placeholder text 0 = some ⟨oneLine placeholder text, 0⟩ := by
  rw [scan?_eq_ofText?, ofText?, Nat.zero_min, caret?]
  rfl

section
variable {text : Text} {ps qs : List Piece} (h : text.pieces = ps ++ qs)
include h

theorem oneLine_of_append : oneLine placeholder (ps.flatMap Piece.text) = join placeholder ps ∧
    oneLine placeholder text =
      oneLine placeholder (ps.flatMap Piece.text) ++ oneLine placeholder (qs.flatMap Piece.text) := by
  obtain ⟨hps, hqs⟩ := pieces_of_append h
  simp [oneLine, hps, hqs, h, join_append]

/-- A place between two pieces, or in the run that comes next, is taken to the end of the collapsed text before it. -/
theorem scan?_of_append {n : Nat} (hc : caret? placeholder qs n = some 0)
    (hn : n ≤ size (qs.flatMap Piece.text)) : scan? placeholder text (size (ps.flatMap Piece.text) + n) =
      some ⟨oneLine placeholder text, (oneLine placeholder (ps.flatMap Piece.text)).length⟩ := by
  have hne : ∀ blanks, .run blanks ∈ ps → blanks ≠ [] :=
    fun blanks hb => ne_nil_of_mem_pieces (h ▸ List.mem_append_left qs hb)
  have hsize : size text = size (ps.flatMap Piece.text) + size (qs.flatMap Piece.text) := by
    rw [← size_append, ← List.flatMap_append, ← h, flatMap_pieces]
  rw [scan?_eq_ofText?, ofText?, Nat.min_eq_left (by omega), h, caret?_append placeholder qs hne, hc,
    (oneLine_of_append placeholder h).1, oneLine, h]
  simp

end

end Collapsed

namespace Text

/-- A place of a text is between two pieces, or strictly inside a run. -/
theorem exists_append_of_split : ∀ (ps : List Piece) {before after : Text} (start : Nat),
    ps.flatMap Piece.text = before ++ after →
    (∀ run ∈ spans start ps, ¬(run.1 < start + size before ∧ start + size before < run.2)) →
      ∃ qs rs, ps = qs ++ rs ∧ before = qs.flatMap Piece.text ∧ after = rs.flatMap Piece.text
  | [], before, after, _, h, _ => by
    obtain ⟨rfl, rfl⟩ := List.append_eq_nil_iff.mp h.symm
    exact ⟨[], [], rfl, rfl, rfl⟩
  | x :: ps, [], after, _, h, _ => ⟨[], x :: ps, rfl, rfl, h.symm⟩
  | .kept c :: ps, d :: before, after, start, h, hr => by
    obtain ⟨rfl, ht⟩ := List.cons.inj h
    rw [spans, size, ← Nat.add_assoc] at hr
    obtain ⟨qs, rs, rfl, rfl, rfl⟩ := exists_append_of_split ps _ ht hr
    exact ⟨.kept c :: qs, rs, rfl, rfl, rfl⟩
  | .run blanks :: ps, d :: before, after, start, h, hr => by
    rw [spans, List.forall_mem_cons] at hr
    rcases List.append_eq_append_iff.mp h with ⟨u, hu, ht⟩ | ⟨u, hu, ht⟩
    · have hs : start + size (d :: before) = start + size blanks + size u := by
        rw [hu, Piece.text, size_append, Nat.add_assoc]
      rw [hs] at hr
      obtain ⟨qs, rs, rfl, hq, rfl⟩ := exists_append_of_split ps _ ht hr.2
      exact ⟨.run blanks :: qs, rs, rfl, by rw [hu, hq]; rfl, rfl⟩
    · cases u with
      | nil => exact ⟨[.run blanks], ps, rfl, by simpa [Piece.text] using hu.symm, ht⟩
      | cons e u =>
        have hd := size_pos (List.cons_ne_nil d before)
        have he := size_pos (List.cons_ne_nil e u)
        have hs : size blanks = size (d :: before) + size (e :: u) := by rw [← size_append, ← hu, Piece.text]
        exact absurd ⟨by omega, by omega⟩ hr.1

theorem exists_append_of_mem_spans {span : Nat × Nat} : ∀ {ps : List Piece} {start : Nat}, span ∈ spans start ps →
    ∃ qs blanks rs, ps = qs ++ .run blanks :: rs ∧ span.1 = start + size (qs.flatMap Piece.text) ∧
      span.2 = span.1 + size blanks
  | [], _, h => nomatch h
  | .kept c :: ps, start, h => by
    obtain ⟨qs, blanks, rs, rfl, h₁, h₂⟩ := exists_append_of_mem_spans (show span ∈ spans _ ps from h)
    exact ⟨.kept c :: qs, blanks, rs, rfl, by simpa [Piece.text, size, Nat.add_assoc] using h₁, h₂⟩
  | .run blanks :: ps, start, h => by
    rcases List.mem_cons.mp h with rfl | h
    · exact ⟨[], blanks, ps, rfl, rfl, rfl⟩
    · obtain ⟨qs, blanks', rs, rfl, h₁, h₂⟩ := exists_append_of_mem_spans h
      exact ⟨.run blanks :: qs, blanks', rs, rfl, by simpa [Piece.text, size_append, Nat.add_assoc] using h₁, h₂⟩

/-! ## Nothing is left to collapse -/

/-- A text with no newline and with no six spaces in a row. -/
def Settled (text : Text) : Prop :=
  '\n' ∉ text ∧ ¬List.replicate 6 ' ' <:+: text

theorem le_length_spaces {n : Nat} {text : Text} :
    n ≤ (text.takeWhile (· = ' ')).length ↔ List.replicate n ' ' <+: text := by
  constructor
  · intro h
    have hall : ∀ c ∈ text.takeWhile (· = ' '), c = ' ' :=
      fun c hc => of_decide_eq_true (List.all_eq_true.mp List.all_takeWhile c hc)
    have hs : List.replicate n ' ' <+: text.takeWhile (· = ' ') := by
      rw [List.eq_replicate_iff.mpr ⟨rfl, hall⟩]
      exact List.prefix_replicate_iff.mpr (by simpa using h)
    exact hs.trans (List.takeWhile_prefix _)
  · intro h
    have hs := (takeWhile_isPrefix (p := (· = ' ')) h).length_le
    simpa using hs

theorem leadingRun_of_settled {text : Text} (h : text.Settled) : leadingRun text = [] := by
  refine leadingRun_eq_nil.mpr ⟨fun hn => h.1 ((List.takeWhile_prefix _).subset hn), ?_⟩
  by_contra hs
  exact h.2 (le_length_spaces.mp (Nat.le_of_not_lt hs)).isInfix

theorem pieces_of_settled : ∀ {text : Text}, text.Settled → pieces text = text.map .kept
  | [], _ => by rw [pieces]; rfl
  | c :: rest, h => by
    have hrest : Settled rest :=
      ⟨fun hn => h.1 (List.mem_cons_of_mem _ hn), fun hs => h.2 (hs.trans (List.suffix_cons c rest).isInfix)⟩
    rw [pieces_of_kept (leadingRun_of_settled h), pieces_of_settled hrest]
    rfl

/-- A run is followed by no run, and not by a space. -/
theorem after_run {blanks rest : Text} (hne : blanks ≠ []) (h : leadingRun (blanks ++ rest) = blanks) :
    rest = [] ∨ ∃ c t, rest = c :: t ∧ c ≠ ' ' ∧ leadingRun rest = [] := by
  cases rest with
  | nil => exact .inl rfl
  | cons c t =>
    right
    refine ⟨c, t, rfl, ?_⟩
    have hstop {p : Char → Bool} (hp : blanks = (blanks ++ c :: t).takeWhile p) : p c = false := by
      have hall : ∀ d ∈ blanks, p d = true := by
        rw [hp]
        exact List.all_eq_true.mp List.all_takeWhile
      rw [List.takeWhile_append_of_pos hall, List.self_eq_append_right] at hp
      simpa [List.takeWhile_cons] using hp
    rcases leadingRun_cases (blanks ++ c :: t) with ⟨-, hr⟩ | ⟨hn, -, hr⟩ | ⟨-, -, hr⟩
    · have hc : isBlank c = false := hstop (h.symm.trans hr)
      have hs : c ≠ ' ' := by
        rintro rfl
        exact absurd hc (by decide)
      exact ⟨hs, by simp [leadingRun, hc, hs]⟩
    · have hs : c ≠ ' ' := by simpa using hstop (h.symm.trans hr)
      have hall : ∀ d ∈ blanks, isBlank d = true := by
        intro d hd
        rw [← h, hr] at hd
        have := List.all_eq_true.mp List.all_takeWhile d hd
        rw [of_decide_eq_true this]
        decide
      rw [List.takeWhile_append_of_pos hall] at hn
      exact ⟨hs, by simp [leadingRun, mt (List.mem_append_right blanks) hn, hs]⟩
    · exact absurd (h.symm.trans hr) hne

theorem isInfix_of_append_cons {α : Type} {l s t : List α} {x : α} (hx : x ∉ l) (h : l <:+: s ++ x :: t) :
    l <:+: s ∨ l <:+: t := by
  obtain ⟨a, b, hab⟩ := h
  rcases List.append_eq_append_iff.mp hab with ⟨z, rfl, -⟩ | ⟨z, hz, ht⟩
  · exact .inl ⟨a, z, rfl⟩
  · cases z with
    | nil => exact .inl ⟨a, [], by simpa using hz⟩
    | cons y z =>
      obtain ⟨rfl, rfl⟩ := List.cons.inj ht
      rcases List.append_eq_append_iff.mp hz with ⟨w, rfl, hw⟩ | ⟨w, rfl, hw⟩
      · exact absurd (by simp [hw]) hx
      · cases w with
        | nil => exact absurd (by simp [← show x :: z = l from hw]) hx
        | cons v w =>
          obtain ⟨rfl, rfl⟩ := List.cons.inj hw
          exact .inr ⟨w, b, rfl⟩

end Text

namespace Collapsed

open Text

variable {placeholder : Text}

theorem isPrefix_of_join : ∀ {n : Nat} {text : Text}, leadingRun text = [] →
    List.replicate n ' ' <+: join placeholder text.pieces → List.replicate n ' ' <+: text
  | 0, _, _, _ => List.nil_prefix
  | n + 1, [], _, h => by
    rw [pieces] at h
    exact h
  | n + 1, c :: rest, hr, h => by
    rw [pieces_of_kept hr, join, List.replicate_succ, List.cons_prefix_cons] at h
    obtain ⟨rfl, h⟩ := h
    have hrest : leadingRun rest = [] := by
      obtain ⟨hn, hs⟩ := leadingRun_eq_nil.mp hr
      rw [List.takeWhile_cons_of_pos (by decide)] at hn hs
      exact leadingRun_eq_nil.mpr ⟨mt (List.mem_cons_of_mem _) hn, Nat.lt_of_succ_lt hs⟩
    rw [List.replicate_succ, List.cons_prefix_cons]
    exact ⟨rfl, isPrefix_of_join hrest h⟩

theorem unbroken_oneLine (hp : '\n' ∉ placeholder) (text : Text) : '\n' ∉ oneLine placeholder text := by
  unfold oneLine
  induction text using pieces_induction with
  | nil =>
    rw [pieces]
    exact List.not_mem_nil
  | kept c rest hr ih =>
    have hc : c ≠ '\n' := by
      rintro rfl
      apply (leadingRun_eq_nil.mp hr).1
      simp [List.takeWhile_cons_of_pos (show isBlank '\n' = true by decide)]
    rw [pieces_of_kept hr, join, List.mem_cons, not_or]
    exact ⟨hc.symm, ih⟩
  | run blanks rest hne hr ih =>
    rw [pieces_of_run hne hr, join, List.mem_append, not_or]
    exact ⟨hp, ih⟩

theorem settled_oneLine (hp : placeholder.Settled) (text : Text) : (oneLine placeholder text).Settled := by
  refine ⟨unbroken_oneLine hp.1 text, ?_⟩
  unfold oneLine
  induction text using pieces_induction with
  | nil =>
    rw [pieces, join]
    decide
  | kept c rest hr ih =>
    have hstart : ¬List.replicate 6 ' ' <+: join placeholder (pieces (c :: rest)) := fun h =>
      absurd (leadingRun_eq_nil.mp hr).2 (Nat.not_lt_of_le (le_length_spaces.mpr (isPrefix_of_join hr h)))
    rw [pieces_of_kept hr, join] at hstart ⊢
    rw [List.infix_cons_iff, not_or]
    exact ⟨hstart, ih⟩
  | run blanks rest hne hr ih =>
    rw [pieces_of_run hne hr, join]
    rcases after_run hne hr with rfl | ⟨c, t, rfl, hc, hk⟩
    · rw [pieces, join, List.append_nil]
      exact hp.2
    · rw [pieces_of_kept hk, join] at ih ⊢
      intro h
      rcases isInfix_of_append_cons (by simp [hc]) h with h | h
      · exact hp.2 h
      · exact ih (h.trans (List.suffix_cons _ _).isInfix)

theorem oneLine_of_settled {text : Text} (h : text.Settled) : oneLine placeholder text = text := by
  rw [oneLine, pieces_of_settled h, join_kept]

end Collapsed

namespace Collapsed

open Text

variable (placeholder : Text) {before after : Text}

theorem scan?_outside_runs (h : ∀ run ∈ (before ++ after).runs, ¬(run.1 < size before ∧ size before < run.2)) :
    oneLine placeholder (before ++ after) = oneLine placeholder before ++ oneLine placeholder after ∧
      scan? placeholder (before ++ after) (size before) =
        some ⟨oneLine placeholder (before ++ after), (oneLine placeholder before).length⟩ := by
  rw [runs_eq_spans] at h
  obtain ⟨ps, qs, hp, rfl, rfl⟩ := exists_append_of_split _ 0 (flatMap_pieces _) (by simpa using h)
  have hstart : caret? placeholder qs 0 = some 0 := by rw [caret?]
  exact ⟨(oneLine_of_append placeholder hp).2, scan?_of_append placeholder hp hstart (Nat.zero_le _)⟩

theorem scan?_inside_run {run : Nat × Nat} (h : run ∈ (before ++ after).runs) (hstart : run.1 < size before)
    (hstop : size before < run.2) : ∃ front back, before ++ after = front ++ back ∧ size front = run.1 ∧
      scan? placeholder (before ++ after) (size before) =
        some ⟨oneLine placeholder (before ++ after), (oneLine placeholder front).length⟩ := by
  rw [runs_eq_spans] at h
  obtain ⟨ps, blanks, qs, hp, h₁, h₂⟩ := exists_append_of_mem_spans h
  rw [Nat.zero_add] at h₁
  obtain ⟨n, hn⟩ : ∃ n, size before = size (ps.flatMap Piece.text) + n := ⟨size before - run.1, by omega⟩
  have hblanks : n < size blanks := by omega
  have hle : n ≤ size ((.run blanks :: qs).flatMap Piece.text) := by
    rw [List.flatMap_cons, size_append]
    exact Nat.le_add_right_of_le (Nat.le_of_lt hblanks)
  refine ⟨ps.flatMap Piece.text, (.run blanks :: qs).flatMap Piece.text, ?_, h₁.symm, ?_⟩
  · rw [← List.flatMap_append, ← hp, flatMap_pieces]
  · rw [hn]
    exact scan?_of_append placeholder hp (caret?_in_run placeholder qs hblanks) hle

end Collapsed

open Collapsed in
/-- A text is collapsed run by run without a slice that is out of order, and a place of it is taken along. Outside the
runs the texts before and after the place are collapsed by themselves, and the place comes to lie between them. Inside a
run it comes to the end of what the text before the run is collapsed to. With a placeholder that has no newline nothing
is left to collapse, unless the placeholder itself has a run of six spaces. -/
theorem collapsing_carries_places (placeholder before after : Text) :
    (∀ text, scan? placeholder text 0 = some ⟨oneLine placeholder text, 0⟩) ∧
    (∃ caret, scan? placeholder (before ++ after) (Text.size before) =
        some ⟨oneLine placeholder (before ++ after), caret⟩ ∧
      ofText? placeholder (before ++ after) (Text.size before) = some ⟨oneLine placeholder (before ++ after), caret⟩ ∧
      ((∀ run ∈ (before ++ after).runs, ¬(run.1 < Text.size before ∧ Text.size before < run.2)) →
        oneLine placeholder (before ++ after) = oneLine placeholder before ++ oneLine placeholder after ∧
        caret = (oneLine placeholder before).length) ∧
      ∀ run ∈ (before ++ after).runs, run.1 < Text.size before → Text.size before < run.2 →
        ∃ front back, before ++ after = front ++ back ∧ Text.size front = run.1 ∧
          caret = (oneLine placeholder front).length) ∧
    ('\n' ∉ placeholder → '\n' ∉ oneLine placeholder (before ++ after) ∧
      (¬List.replicate 6 ' ' <:+: placeholder →
        oneLine placeholder (oneLine placeholder (before ++ after)) = oneLine placeholder (before ++ after))) := by
  have hb : (before ++ after).IsBoundary (Text.size before) := ⟨before, after, rfl, rfl⟩
  obtain ⟨_, hc⟩ := Option.isSome_iff_exists.mp (ofText?_isSome placeholder hb)
  obtain ⟨caret, -, rfl⟩ := Option.map_eq_some_iff.mp hc
  have hscan := (scan?_eq_ofText? placeholder (before ++ after) (Text.size before)).trans hc
  have hcaret {n : Nat} (h : scan? placeholder (before ++ after) (Text.size before) =
      some ⟨oneLine placeholder (before ++ after), n⟩) : caret = n :=
    congrArg Collapsed.caret (Option.some.inj (hscan.symm.trans h))
  refine ⟨scan?_zero placeholder, ⟨caret, hscan, hc, ?_, ?_⟩, ?_⟩
  · intro h
    obtain ⟨hline, hplace⟩ := scan?_outside_runs placeholder h
    exact ⟨hline, hcaret hplace⟩
  · intro run h hstart hstop
    obtain ⟨front, back, ht, hs, hplace⟩ := scan?_inside_run placeholder h hstart hstop
    exact ⟨front, back, ht, hs, hcaret hplace⟩
  · intro hn
    exact ⟨unbroken_oneLine hn _, fun hs => oneLine_of_settled (settled_oneLine ⟨hn, hs⟩ _)⟩

/-- A newline and two spaces become one placeholder, and a place between them comes before it. -/
example : Collapsed.scan? "...".toList "a\n b".toList 2 = some ⟨"a...b".toList, 1⟩ := by
  rw [Collapsed.scan?_eq_ofText?]
  cbv

end FurthestMatch
