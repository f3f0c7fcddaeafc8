import FurthestMatch.Proofs.Lexemes
import FurthestMatch.Proofs.Reports

/-!
# The runs that are collapsed

The runs of a text are what one expression matches there, from the first match to the last. Its first alternative gives
blanks back until a newline follows them, so where that alternative matches it reads all blanks.
-/

namespace FurthestMatch

namespace Text

/-- The run at the start of a text is all blanks with a newline among them, all spaces when they are six or more, or
else empty. -/
theorem leadingRun_cases (text : Text) :
    ('\n' ∈ text.takeWhile isBlank ∧ leadingRun text = text.takeWhile isBlank) ∨
    ('\n' ∉ text.takeWhile isBlank ∧ 6 ≤ (text.takeWhile (· = ' ')).length ∧
      leadingRun text = text.takeWhile (· = ' ')) ∨
    ('\n' ∉ text.takeWhile isBlank ∧ (text.takeWhile (· = ' ')).length < 6 ∧ leadingRun text = []) := by
  unfold leadingRun
  by_cases hn : '\n' ∈ text.takeWhile isBlank
  · simp [hn]
  · by_cases hs : 6 ≤ (text.takeWhile (· = ' ')).length
    · simp [hn, hs]
    · simp [hn, hs, Nat.lt_of_not_le]

theorem leadingRun_eq_nil {text : Text} :
    leadingRun text = [] ↔ '\n' ∉ text.takeWhile isBlank ∧ (text.takeWhile (· = ' ')).length < 6 := by
  constructor
  · intro h
    rcases leadingRun_cases text with ⟨hn, hr⟩ | ⟨-, hs, hr⟩ | ⟨hn, hs, -⟩
    · rw [← hr, h] at hn
      cases hn
    · rw [← hr, h] at hs
      cases hs
    · exact ⟨hn, hs⟩
  · intro ⟨hn, hs⟩
    simp [leadingRun, hn, Nat.not_le_of_lt hs]

theorem pieces_of_kept {c : Char} {rest : Text} (h : leadingRun (c :: rest) = []) :
    pieces (c :: rest) = .kept c :: pieces rest := by
  rw [pieces, if_pos h]

theorem pieces_of_run {blanks rest : Text} (hne : blanks ≠ []) (h : leadingRun (blanks ++ rest) = blanks) :
    pieces (blanks ++ rest) = .run blanks :: pieces rest := by
  cases blanks with
  | nil => exact absurd rfl hne
  | cons c blanks =>
    rw [List.cons_append] at h ⊢
    rw [pieces, h, if_neg hne]
    simp

/-- Induction over a text piece by piece. -/
@[elab_as_elim]
theorem pieces_induction {motive : Text → Prop} (nil : motive [])
    (kept : ∀ c rest, leadingRun (c :: rest) = [] → motive rest → motive (c :: rest))
    (run : ∀ blanks rest, blanks ≠ [] → leadingRun (blanks ++ rest) = blanks → motive rest → motive (blanks ++ rest))
    (text : Text) : motive text := by
  induction text using pieces.induct with
  | case1 => exact nil
  | case2 c rest blanks hb ih => exact kept c rest hb ih
  | case3 c rest blanks hb ih =>
    have hd : (c :: rest).drop blanks.length = rest.drop (blanks.length - 1) := by
      obtain ⟨n, hn⟩ := Nat.exists_eq_succ_of_ne_zero (mt List.length_eq_zero_iff.mp hb)
      rw [hn]
      rfl
    have ht : blanks ++ rest.drop (blanks.length - 1) = c :: rest := by
      rw [← hd]
      exact List.prefix_iff_eq_append.mp (leadingRun_isPrefix (c :: rest))
    rw [← ht]
    exact run blanks _ hb (by rw [ht]) ih

end Text

namespace Regex

/-! ## Rows that are given back -/

section
variable {α : Type} (s : CharSet) (k : Progress → Option α) (g : List (Nat × Text))

def afterRow : (behind ahead : Text) → Option α
  | behind, [] => k ⟨behind, [], g⟩
  | behind, c :: rest =>
    (if s.contains c then afterRow (c :: behind) rest else none).orElse fun _ => k ⟨behind, c :: rest, g⟩

theorem run_set_cons (behind rest : Text) (c : Char) : run (.set s) k ⟨behind, c :: rest, g⟩ =
    if s.contains c then k ⟨c :: behind, rest, g⟩ else none := rfl

theorem further_set : ∀ {fuel : Nat} {behind ahead : Text}, ahead.length ≤ fuel →
    further (run (.set s)) true fuel k ⟨behind, ahead, g⟩ = afterRow s k g behind ahead
  | 0, _, [], _ => rfl
  | _ + 1, _, [], _ => rfl
  | fuel + 1, behind, c :: rest, h => by
    have hr : rest.length ≤ fuel := Nat.le_of_succ_le_succ h
    simp only [further, firstOf, if_true, run_set_cons, List.length_cons, Nat.lt_succ_self, further_set hr, afterRow]

theorem oneOrMore_set_cons (behind rest : Text) (c : Char) : oneOrMore (run (.set s)) true k ⟨behind, c :: rest, g⟩ =
    if s.contains c then afterRow s k g (c :: behind) rest else none := by
  simp only [oneOrMore, run_set_cons, List.length_cons, Nat.lt_succ_self, if_true,
    further_set s k g (Nat.le_succ rest.length)]

theorem run_row (behind ahead : Text) :
    run (.times (.set s) 0 none true) k ⟨behind, ahead, g⟩ = afterRow s k g behind ahead := by
  cases ahead with
  | nil => rfl
  | cons c rest =>
    show (oneOrMore (run (.set s)) true k ⟨behind, c :: rest, g⟩).orElse (fun _ => k ⟨behind, c :: rest, g⟩) = _
    rw [oneOrMore_set_cons, afterRow]

end

section
variable {α : Type} {s : CharSet} {k : Progress → Option α} {g : List (Nat × Text)}

theorem afterRow_append {a : α} : ∀ {u behind ahead : Text}, AllIn s u →
    afterRow s k g (u.reverse ++ behind) ahead = some a → afterRow s k g behind (u ++ ahead) = some a
  | [], _, _, _, h => h
  | c :: u, behind, ahead, hu, h => by
    have hc : s.contains c := hu c List.mem_cons_self
    have ih : afterRow s k g (c :: behind) (u ++ ahead) = some a :=
      afterRow_append (fun d hd => hu d (List.mem_cons_of_mem _ hd)) (by simpa using h)
    simp [afterRow, hc, ih]

theorem afterRow_eq_none : ∀ {behind ahead : Text}, (∀ u rest, AllIn s u → ahead = u ++ rest →
    k ⟨u.reverse ++ behind, rest, g⟩ = none) → afterRow s k g behind ahead = none
  | behind, [], h => h [] [] nofun rfl
  | behind, c :: ahead, h => by
    have hk : k ⟨behind, c :: ahead, g⟩ = none := h [] _ nofun rfl
    by_cases hc : s.contains c
    · have ih : afterRow s k g (c :: behind) ahead = none := by
        apply afterRow_eq_none
        intro u rest hu ha
        have hcu : AllIn s (c :: u) := List.forall_mem_cons.mpr ⟨hc, hu⟩
        simpa using h (c :: u) rest hcu (congrArg (c :: ·) ha)
      simp [afterRow, ih, hk]
    · simp [afterRow, hc, hk]

theorem exactly_set (rest : Text) : ∀ {u : Text} (behind : Text), AllIn s u →
    exactly (run (.set s)) u.length k ⟨behind, u ++ rest, g⟩ = k ⟨u.reverse ++ behind, rest, g⟩
  | [], _, _ => rfl
  | c :: u, behind, hu => by
    have hc : s.contains c := hu c List.mem_cons_self
    have ih := exactly_set rest (c :: behind) fun d hd => hu d (List.mem_cons_of_mem _ hd)
    simp [exactly, run_set_cons, hc, ih]

theorem takes_row (n : Nat) : (times (.set s) (n + 1) none true).Takes (fun t => n + 1 ≤ t.length ∧ AllIn s t)
    (StopsAt s) := by
  intro α k b g t rest a ⟨hl, ht⟩ hS hk
  have hu : AllIn s (t.take n) := fun c hc => ht c (List.mem_of_mem_take hc)
  have hv : 1 ≤ (t.drop n).length ∧ AllIn s (t.drop n) :=
    ⟨by rw [List.length_drop]; omega, fun c hc => ht c (List.mem_of_mem_drop hc)⟩
  have hn : (t.take n).length = n := List.length_take_of_le (by omega)
  have hfirst := exactly_set (k := oneOrMore (run (.set s)) true k) (g := g) (t.drop n ++ rest) b hu
  rw [hn, ← List.append_assoc, List.take_append_drop] at hfirst
  show exactly (run (.set s)) n (oneOrMore (run (.set s)) true k) ⟨b, t ++ rest, g⟩ = some a
  rw [hfirst]
  refine takes_run₁ s α k _ g (t.drop n) rest a hv hS ?_
  rwa [← List.append_assoc, ← List.reverse_append, List.take_append_drop]

end

/-! ## The expression -/

/-- Blanks with a newline among them, or six spaces or more. -/
def collapsible : Regex :=
  .alt (.seq blanks (.seq (char '\n') blanks)) (.times (char ' ') 6 none true)

example : Pattern.read "\\s*\\n\\s*| \x7b6,\x7d".toList = .ok (collapsible, 0) := by cbv

theorem stopsAt_newline {v rest x y : Text} (hv : '\n' ∉ v) (hS : StopsAt .blank rest) (hx : Blanks x)
    (h : v ++ rest = x ++ y) : StopsAt (.single '\n' false) y := by
  have hrest : '\n' ∉ rest.head? := fun hn => absurd (hS '\n' hn) (by decide)
  intro c hc
  apply Bool.eq_false_iff.mpr
  rw [ne_eq, contains_single]
  rintro rfl
  rcases List.append_eq_append_iff.mp h with ⟨z, rfl, hz⟩ | ⟨z, rfl, hz⟩
  · cases z with
    | nil => exact hrest (by rwa [hz])
    | cons d z =>
      have hd : isBlank d = false := hS d (by simp [hz])
      exact absurd (hx d (by simp)) (Bool.eq_false_iff.mp hd)
  · cases z with
    | nil => exact hrest (by rwa [← show y = rest from hz])
    | cons d z =>
      rw [hz] at hc
      cases hc
      exact hv (by simp)

theorem takes_newlines : (seq blanks (seq (char '\n') blanks)).Takes (Around '\n') (StopsAt .blank) := by
  intro α k b g t rest a ⟨w, w', hw, hw', ht⟩ hS hk
  -- Of the newlines the last is read by itself, since the blanks before it are the most that leave one.
  obtain ⟨u, v, huv, hn⟩ : ∃ u v, t = u ++ '\n' :: v ∧ '\n' ∉ v := by
    have hmem : '\n' ∈ t.reverse := by simp [ht]
    obtain ⟨v, u, hr, hn⟩ := List.eq_append_cons_of_mem hmem
    refine ⟨u.reverse, v.reverse, ?_, by simpa using hn⟩
    simpa using congrArg List.reverse hr
  have hall : Blanks t := by
    rw [ht]
    exact List.forall_mem_append.mpr ⟨hw, List.forall_mem_cons.mpr ⟨by decide, hw'⟩⟩
  subst huv
  have hu : Blanks u := fun c hc => hall c (by simp [hc])
  have hv : Blanks v := fun c hc => hall c (by simp [hc])
  have hlast : run (seq (char '\n') blanks) k ⟨u.reverse ++ b, '\n' :: v ++ rest, g⟩ = some a :=
    takes_opening α k _ g ('\n' :: v) rest a ⟨v, hv, rfl⟩ hS (by simpa using hk)
  have hlonger : afterRow .blank (run (seq (char '\n') blanks) k) g ('\n' :: (u.reverse ++ b)) (v ++ rest) = none := by
    apply afterRow_eq_none
    intro x y hx hxy
    exact (fails_set (stopsAt_newline hn hS hx hxy)).seq _ k _ g
  have hrow : afterRow .blank (run (seq (char '\n') blanks) k) g b (u ++ '\n' :: (v ++ rest)) = some a := by
    apply afterRow_append (s := .blank) hu
    rw [afterRow, hlonger, ite_self]
    exact hlast
  rw [List.append_assoc]
  exact (run_row .blank (run (seq (char '\n') blanks) k) g b _).trans hrow

/-! ## What it matches -/

theorem allIn_takeWhile {s : CharSet} {p : Char → Bool} (h : ∀ c, p c = s.contains c) (text : Text) :
    AllIn s (text.takeWhile p) ∧ StopsAt s (text.dropWhile p) := by
  constructor
  · intro c hc
    rw [← h]
    exact List.all_eq_true.mp (List.all_takeWhile) c hc
  · intro c hc
    have hd := List.head?_dropWhile_not p text
    rw [hc] at hd
    rw [← h]
    simpa using hd

theorem allIn_takeWhile_single (c : Char) (text : Text) :
    AllIn (.single c false) (text.takeWhile (· = c)) ∧ StopsAt (.single c false) (text.dropWhile (· = c)) := by
  apply allIn_takeWhile
  intro d
  rw [Bool.eq_iff_iff, contains_single, decide_eq_true_eq]

theorem run_of_takes {r : Regex} {U S : Text → Prop} (h : r.Takes U S) {text t rest : Text} (ht : text = t ++ rest)
    (hU : U t) (hS : S rest) (behind : Text) :
    run r some ⟨behind, text, []⟩ = some ⟨t.reverse ++ behind, rest, []⟩ := by
  subst ht
  exact h _ some behind [] t rest _ hU hS rfl

theorem fails_newlines {text : Text} (h : '\n' ∉ text.takeWhile isBlank) :
    (seq blanks (seq (char '\n') blanks)).Fails text := by
  apply fails_of_not_spells
  intro t rest ht hr
  obtain ⟨w, w', hw, -, rfl⟩ := spells_around.mp ht
  apply h
  rw [hr, List.append_assoc, List.takeWhile_append_of_pos hw]
  simp [show isBlank '\n' = true by decide]

theorem fails_spaces {text : Text} (h : (text.takeWhile (· = ' ')).length < 6) :
    (times (char ' ') 6 none true).Fails text := by
  apply fails_of_not_spells
  intro t rest ht hr
  obtain ⟨hl, hs⟩ := spells_run.mp ht
  have hall : ∀ c ∈ t, decide (c = ' ') = true := fun c hc => decide_eq_true (contains_single.mp (hs c hc))
  rw [hr, List.takeWhile_append_of_pos hall, List.length_append] at h
  omega

theorem run_collapsible (behind text : Text) : run collapsible some ⟨behind, text, []⟩ =
    if Text.leadingRun text = [] then none else
      some ⟨(Text.leadingRun text).reverse ++ behind, text.drop (Text.leadingRun text).length, []⟩ := by
  have hdrop (p : Char → Bool) : text.drop (text.takeWhile p).length = text.dropWhile p := by
    have h := congrArg (List.drop (text.takeWhile p).length) (List.takeWhile_append_dropWhile (p := p) (l := text))
    rw [← h, List.drop_left]
  have hblank := allIn_takeWhile (s := .blank) (p := isBlank) (fun c => rfl) text
  have hspace := allIn_takeWhile_single ' ' text
  show (run (seq blanks (seq (char '\n') blanks)) some ⟨behind, text, []⟩).orElse
    (fun _ => run (times (char ' ') 6 none true) some ⟨behind, text, []⟩) = _
  rcases Text.leadingRun_cases text with ⟨hn, hr⟩ | ⟨hn, hs, hr⟩ | ⟨hn, hs, hr⟩
  · have hne : text.takeWhile isBlank ≠ [] := List.ne_nil_of_mem hn
    obtain ⟨w, w', hw⟩ := List.append_of_mem hn
    have hU : Around '\n' (text.takeWhile isBlank) :=
      ⟨w, w', fun c hc => hblank.1 c (by simp [hw, hc]), fun c hc => hblank.1 c (by simp [hw, hc]), hw⟩
    rw [hr, if_neg hne, hdrop,
      run_of_takes takes_newlines List.takeWhile_append_dropWhile.symm hU hblank.2]
    rfl
  · have hne : text.takeWhile (· = ' ') ≠ [] := by
      intro h
      simp [h] at hs
    rw [fails_newlines hn, hr, if_neg hne, hdrop]
    exact run_of_takes (takes_row 5) List.takeWhile_append_dropWhile.symm ⟨hs, hspace.1⟩ hspace.2 behind
  · rw [fails_newlines hn, hr, if_pos rfl]
    exact fails_spaces hs _ some behind []

theorem matchAt_collapsible (behind text : Text) : matchAt collapsible behind text =
    if Text.leadingRun text = [] then none else
      some ⟨behind.reverse, Text.leadingRun text, text.drop (Text.leadingRun text).length, []⟩ := by
  have ht : Text.leadingRun text ++ text.drop (Text.leadingRun text).length = text :=
    List.prefix_iff_eq_append.mp (Text.leadingRun_isPrefix text)
  rw [matchAt, run_collapsible]
  by_cases h : Text.leadingRun text = []
  · simp [h]
  · have hs : Progress.since ⟨(Text.leadingRun text).reverse ++ behind, text.drop (Text.leadingRun text).length, []⟩
        ⟨behind, text, []⟩ = Text.leadingRun text := Progress.since_eq ⟨ht.symm, rfl⟩
    simp [h, hs]

/-- All matches from a place on, each searched for from the end of the one before. The expression is one that always
reads some text. -/
def foundFrom (r : Regex) (behind ahead : Text) : List Found :=
  match searchFrom r behind ahead with
  | none => []
  | some found =>
    if found.rest.length < ahead.length then
      found :: foundFrom r (found.text.reverse ++ found.skipped.reverse) found.rest
    else [found]
termination_by ahead.length

theorem searchFrom_cons (behind rest : Text) (c : Char) : searchFrom collapsible behind (c :: rest) =
    if Text.leadingRun (c :: rest) = [] then searchFrom collapsible (c :: behind) rest else
      some ⟨behind.reverse, Text.leadingRun (c :: rest), (c :: rest).drop (Text.leadingRun (c :: rest)).length,
        []⟩ := by
  rw [searchFrom, matchAt_collapsible]
  by_cases h : Text.leadingRun (c :: rest) = []
  · simp [h]
  · simp [h]

theorem length_lt_of_searchFrom {found : Found} : ∀ {behind ahead : Text},
    searchFrom collapsible behind ahead = some found → found.rest.length < ahead.length
  | _, [], h => nomatch h
  | behind, c :: rest, h => by
    rw [searchFrom_cons] at h
    split at h
    · exact Nat.lt_succ_of_lt (length_lt_of_searchFrom h)
    · rename_i hr
      cases h
      have := List.length_pos_iff.mpr hr
      simp only [List.length_drop, List.length_cons]
      omega

theorem foundFrom_of_kept {behind rest : Text} {c : Char} (h : Text.leadingRun (c :: rest) = []) :
    foundFrom collapsible behind (c :: rest) = foundFrom collapsible (c :: behind) rest := by
  have hs : searchFrom collapsible behind (c :: rest) = searchFrom collapsible (c :: behind) rest := by
    rw [searchFrom_cons, if_pos h]
  rw [foundFrom, hs, foundFrom]
  cases hf : searchFrom collapsible (c :: behind) rest with
  | none => rfl
  | some found =>
    have hl := length_lt_of_searchFrom hf
    simp [hl, Nat.lt_succ_of_lt hl]

theorem foundFrom_of_run {behind text : Text} (h : Text.leadingRun text ≠ []) : foundFrom collapsible behind text =
    ⟨behind.reverse, Text.leadingRun text, text.drop (Text.leadingRun text).length, []⟩ ::
      foundFrom collapsible ((Text.leadingRun text).reverse ++ behind) (text.drop (Text.leadingRun text).length) := by
  cases text with
  | nil => exact absurd rfl h
  | cons c rest =>
    have hs := searchFrom_cons behind rest c
    rw [if_neg h] at hs
    have hl := length_lt_of_searchFrom hs
    rw [foundFrom, hs]
    simp only [hl, if_true, List.reverse_reverse]

def Found.span (found : Found) : Nat × Nat :=
  (Text.size found.skipped, Text.size found.skipped + Text.size found.text)

end Regex

/-! ## The runs of a text -/

namespace Text

def runs (text : Text) : List (Nat × Nat) :=
  (Regex.foundFrom .collapsible [] text).map Regex.Found.span

def spans : Nat → List Piece → List (Nat × Nat)
  | _, [] => []
  | start, .kept c :: pieces => spans (start + c.utf8Size) pieces
  | start, .run blanks :: pieces => (start, start + size blanks) :: spans (start + size blanks) pieces

theorem size_reverse (t : Text) : size t.reverse = size t := by
  induction t with
  | nil => rfl
  | cons c t ih => simp [size_append, size, ih, Nat.add_comm]

theorem spans_foundFrom (text : Text) : ∀ behind : Text,
    (Regex.foundFrom .collapsible behind text).map Regex.Found.span = spans (size behind) (pieces text) := by
  induction text using pieces_induction with
  | nil =>
    intro behind
    rw [Regex.foundFrom, pieces]
    rfl
  | kept c rest hr ih =>
    intro behind
    rw [Regex.foundFrom_of_kept hr, ih, pieces_of_kept hr, spans, size, Nat.add_comm]
  | run blanks rest hne hr ih =>
    intro behind
    have hs : size (blanks.reverse ++ behind) = size behind + size blanks := by
      rw [size_append, size_reverse, Nat.add_comm]
    rw [Regex.foundFrom_of_run (by rw [hr]; exact hne), hr, List.drop_left, List.map_cons, ih, hs, pieces_of_run hne hr,
      spans]
    simp only [Regex.Found.span, size_reverse]

theorem runs_eq_spans (text : Text) : runs text = spans 0 (pieces text) :=
  spans_foundFrom text []

end Text

end FurthestMatch
