import Mathlib.Data.List.Forall2
import FurthestMatch.Proofs.Furthest
import FurthestMatch.Proofs.Termination

/-!
# Matches at another place with the same text ahead

A match sees the text that is ahead and nothing before it. Where the same text is ahead at two places, and no
continuation asks for more than the value that it is given, the two matches take the same course, and all their offsets
are apart by as much as the places are.
-/

namespace FurthestMatch

/-! ## Places and outcomes apart from each other -/

/-- The same text is ahead at two places. Their offsets become equal when the two numbers are added. -/
structure Cursor.Apart (i j : Nat) (c c' : Cursor) : Prop where
  offset : c.offset + i = c'.offset + j
  rest : c.rest = c'.rest

structure Furthest.Apart (i j : Nat) (f f' : Furthest) : Prop where
  offset : f.offset + i = f'.offset + j
  path : f.path = f'.path

structure Outcome.Apart (i j : Nat) (o o' : Outcome) : Prop where
  value : o.value = o'.value
  cursor : o.cursor.Apart i j o'.cursor

variable {i j : Nat} {o o' : Outcome} {c c' : Cursor}

theorem Cursor.Apart.advance (h : c.Apart i j c') (passed rest : Text) :
    (c.advance passed rest).Apart i j (c'.advance passed rest) := by
  have := h.offset
  exact ⟨by simp only [Cursor.advance]; omega, rfl⟩

theorem Outcome.Apart.succeeded (h : o.Apart i j o') : o.succeeded = o'.succeeded :=
  congrArg Option.isSome h.value

theorem Outcome.Apart.ofLook (h : o.Apart i j o') (hc : c.Apart i j c') (polarity : Polarity) :
    (Outcome.ofLook polarity c o).Apart i j (.ofLook polarity c' o') := by
  unfold Outcome.ofLook
  dsimp only
  rw [h.succeeded]
  split <;> exact ⟨rfl, hc⟩

theorem Outcome.Apart.endRounds {start start' : Cursor} (hs : start.Apart i j start') (hc : c.Apart i j c')
    (least : Nat) (values : List Value) (best best' : Option Furthest) :
    (Outcome.endRounds least start values c best).Apart i j (.endRounds least start' values c' best') := by
  unfold Outcome.endRounds
  split
  · exact ⟨rfl, hs⟩
  · exact ⟨rfl, hc⟩

theorem Outcome.value_ofStages (path : Path) (first second : Outcome) :
    (Outcome.ofStages path first second).value = second.value := by
  unfold Outcome.ofStages
  split <;> rfl

theorem Outcome.Apart.ofStages (h : o.Apart i j o') (path : Path) (first first' : Outcome) :
    (Outcome.ofStages path first o).Apart i j (.ofStages path first' o') := by
  refine ⟨?_, ?_⟩
  · rw [Outcome.value_ofStages, Outcome.value_ofStages, h.value]
  · rw [Outcome.cursor_ofStages, Outcome.cursor_ofStages]
    exact h.cursor

inductive Task.Apart (i j : Nat) : Task → Task → Prop
  | node {id} : Apart i j (.node id) (.node id)
  | items {ids slot values best best'} : Apart i j (.items ids slot values best) (.items ids slot values best')
  | options {ids slot best best'} : Apart i j (.options ids slot best) (.options ids slot best')
  | rounds {child least most start start' values best best'} (h : start.Apart i j start') :
      Apart i j (.rounds child least most start values best) (.rounds child least most start' values best')

/-! ## The course at a place apart -/

/-- No continuation that is asked on the way from a node makes use of the text or the place that it is given. -/
def Rulebook.AsksForValues (b : Rulebook) (id : NodeId) : Prop :=
  ∀ text b' id' child next, Visits text b id b' id' → b'.node id' = .chain child next →
    ∀ value t c t' c', b'.graph.continuation next value t c = b'.graph.continuation next value t' c'

open Rulebook

def Task.Shifts (text : Text) (i j : Nat) (b : Rulebook) (path : Path) (c : Cursor) (o : Outcome)
    (leaves : List Furthest) (task : Task) : Prop :=
  ∀ {task' c'}, task.Apart i j task' → c.Apart i j c' → ∃ o' leaves', Course text b task' path c' o' leaves' ∧
    o.Apart i j o' ∧ List.Forall₂ (Furthest.Apart i j) leaves leaves'

section
variable {text : Text} {b₀ b : Rulebook} {id₀ id : NodeId}
  (hv : ∀ id' ∈ (Task.node id).ids, Visits text b₀ id₀ b id')
include hv

theorem visits_children {n : Node} (hn : b.node id = n) : ∀ child ∈ n.children, Visits text b₀ id₀ b child := by
  intro child hc
  exact (hv id List.mem_cons_self).move (.child (by rw [hn]; exact hc))

theorem visits_inner {next : NodeId} (hi : b.inner? id = some next) :
    ∀ id' ∈ (Task.node next).ids, Visits text b₀ id₀ b id' :=
  List.forall_mem_singleton.mpr ((hv id List.mem_cons_self).move (.inner hi))

end

theorem Course.shifts {text : Text} {b₀ b : Rulebook} {id₀ : NodeId} (hb : b₀.AsksForValues id₀) {task : Task}
    {path : Path} {c : Cursor} {o : Outcome} {leaves : List Furthest} (h : Course text b task path c o leaves)
    (text' : Text) (i j : Nat) :
    (∀ id ∈ task.ids, Visits text b₀ id₀ b id) → c.IsOf text → task.Shifts text' i j b path c o leaves := by
  -- nodes are visited in the text of the first course only, as what is planted there is planted in the other too
  induction h with
  | @hit _ _ _ _ _ _ _ passed rest hn hc hr =>
    intro _ _ _ c' ht ha
    cases ht
    have ha' := ha.advance passed rest
    exact ⟨_, _, .hit hn (ha.rest ▸ hc) hr, ⟨rfl, ha'⟩, .cons ⟨ha'.offset, rfl⟩ .nil⟩
  | miss hn hc hr =>
    intro _ _ _ c' ht ha
    cases ht
    exact ⟨_, _, .miss hn (ha.rest ▸ hc) hr, ⟨rfl, ha⟩, .nil⟩
  | always hn =>
    intro _ _ _ c' ht ha
    cases ht
    exact ⟨_, _, .always hn, ⟨rfl, ha⟩, .cons ⟨ha.offset, rfl⟩ .nil⟩
  | never hn =>
    intro _ _ _ c' ht ha
    cases ht
    exact ⟨_, _, .never hn, ⟨rfl, ha⟩, .nil⟩
  | sequence hn _ ih =>
    intro hv hc _ c' ht ha
    cases ht
    obtain ⟨o', leaves', h', hs⟩ := ih (visits_children hv hn) hc .items ha
    exact ⟨o', leaves', .sequence hn h', hs⟩
  | choice hn _ ih =>
    intro hv hc _ c' ht ha
    cases ht
    obtain ⟨o', leaves', h', hs⟩ := ih (visits_children hv hn) hc .options ha
    exact ⟨o', leaves', .choice hn h', hs⟩
  | times hn _ ih =>
    intro hv hc _ c' ht ha
    cases ht
    obtain ⟨o', leaves', h', hs⟩ := ih (visits_children hv hn) hc (.rounds ha) ha
    exact ⟨o', leaves', .times hn h', hs⟩
  | itemsDone =>
    intro _ _ _ c' ht ha
    cases ht
    exact ⟨_, _, .itemsDone, ⟨rfl, ha⟩, .nil⟩
  | itemsFail _ hval ih =>
    intro hv hc _ c' ht ha
    cases ht
    obtain ⟨hitem, -⟩ := List.forall_mem_cons.mp hv
    obtain ⟨o', leaves', h', hs, hl⟩ := ih (List.forall_mem_singleton.mpr hitem) hc .node ha
    exact ⟨_, _, .itemsFail h' (hs.value ▸ hval), ⟨rfl, ha⟩, hl⟩
  | itemsNext h hval _ ih ih' =>
    intro hv hc _ c' ht ha
    cases ht
    obtain ⟨hitem, hitems⟩ := List.forall_mem_cons.mp hv
    obtain ⟨o', leaves', h', hs, hl⟩ := ih (List.forall_mem_singleton.mpr hitem) hc .node ha
    obtain ⟨o'', leaves'', h'', hs', hl'⟩ := ih' hitems (h.reaches.isOf hc) .items hs.cursor
    exact ⟨_, _, .itemsNext h' (hs.value ▸ hval) h'', hs', List.rel_append hl hl'⟩
  | optionsDone =>
    intro _ _ _ c' ht ha
    cases ht
    exact ⟨_, _, .optionsDone, ⟨rfl, ha⟩, .nil⟩
  | optionsTake _ hval ih =>
    intro hv hc _ c' ht ha
    cases ht
    obtain ⟨hoption, -⟩ := List.forall_mem_cons.mp hv
    obtain ⟨o', leaves', h', hs, hl⟩ := ih (List.forall_mem_singleton.mpr hoption) hc .node ha
    exact ⟨_, _, .optionsTake h' (hs.succeeded ▸ hval), ⟨hs.value, hs.cursor⟩, hl⟩
  | optionsNext _ hval _ ih ih' =>
    intro hv hc _ c' ht ha
    cases ht
    obtain ⟨hoption, hoptions⟩ := List.forall_mem_cons.mp hv
    obtain ⟨o', leaves', h', hs, hl⟩ := ih (List.forall_mem_singleton.mpr hoption) hc .node ha
    obtain ⟨o'', leaves'', h'', hs', hl'⟩ := ih' hoptions hc .options ha
    exact ⟨_, _, .optionsNext h' (hs.succeeded ▸ hval) h'', hs', List.rel_append hl hl'⟩
  | roundsFull hm =>
    intro _ _ _ c' ht ha
    obtain _ | _ | _ | hstart := ht
    exact ⟨_, _, .roundsFull hm, .endRounds hstart ha .., .nil⟩
  | roundsFail hm _ hval ih =>
    intro hv hc _ c' ht ha
    obtain _ | _ | _ | hstart := ht
    obtain ⟨o', leaves', h', hs, hl⟩ := ih hv hc .node ha
    exact ⟨_, _, .roundsFail hm h' (hs.value ▸ hval), .endRounds hstart ha .., hl⟩
  | roundsStop hm _ hval hstop ih =>
    intro hv hc _ c' ht ha
    obtain _ | _ | _ | hstart := ht
    obtain ⟨o', leaves', h', hs, hl⟩ := ih hv hc .node ha
    have := hs.cursor.offset
    have := ha.offset
    -- a round stops for want of progress, which is the same at either place
    exact ⟨_, _, .roundsStop hm h' (hs.value ▸ hval) ⟨by omega, hstop.2⟩, .endRounds hstart hs.cursor .., hl⟩
  | roundsNext hm h hval hgo _ ih ih' =>
    intro hv hc _ c' ht ha
    obtain _ | _ | _ | hstart := ht
    obtain ⟨o', leaves', h', hs, hl⟩ := ih hv hc .node ha
    have := hs.cursor.offset
    have := ha.offset
    obtain ⟨o'', leaves'', h'', hs', hl'⟩ := ih' hv (h.reaches.isOf hc) (.rounds hstart) hs.cursor
    exact ⟨_, _, .roundsNext hm h' (hs.value ▸ hval) (fun hstop => hgo ⟨by omega, hstop.2⟩) h'', hs',
      List.rel_append hl hl'⟩
  | map hn _ ih =>
    intro hv hc _ c' ht ha
    cases ht
    obtain ⟨o', leaves', h', hs, hl⟩ := ih (visits_children hv hn) hc .node ha
    exact ⟨_, _, .map hn h', ⟨congrArg (Option.map _) hs.value, hs.cursor⟩, hl⟩
  | chainFail hn _ hval ih =>
    intro hv hc _ c' ht ha
    cases ht
    obtain ⟨o', leaves', h', hs, hl⟩ := ih (visits_children hv hn) hc .node ha
    exact ⟨_, _, .chainFail hn h' (hs.value ▸ hval), hs, hl⟩
  | chain hn h hval hplant _ ih ih' =>
    intro hv hc _ c' ht ha
    cases ht
    have hid := hv _ List.mem_cons_self
    obtain ⟨o', leaves', h', hs, hl⟩ := ih (visits_children hv hn) hc .node ha
    have hc₁ := h.reaches.isOf hc
    rw [hc] at h
    have hstage := hid.move (.stage hn h hval hplant)
    obtain ⟨o'', leaves'', h'', hs', hl'⟩ := ih' (List.forall_mem_singleton.mpr hstage) hc₁ .node hs.cursor
    -- the second stage is planted from the value alone, so it is one and the same
    rw [hb _ _ _ _ _ hid hn _ _ _ text' o'.cursor] at hplant
    exact ⟨_, _, .chain hn h' (hs.value ▸ hval) hplant h'', hs'.ofStages .., List.rel_append hl
      (List.rel_map (fun _ _ hf => ⟨hf.offset, rfl⟩) hl')⟩
  | look hn _ ih =>
    intro hv hc _ c' ht ha
    cases ht
    obtain ⟨o', leaves', h', hs, hl⟩ := ih (visits_children hv hn) hc .node ha
    exact ⟨_, _, .look hn h', hs.ofLook ha _, hl⟩
  | deferred hn _ ih =>
    intro hv hc _ c' ht ha
    cases ht
    obtain ⟨o', leaves', h', hs⟩ := ih (visits_inner hv (inner?_deferred hn)) hc .node ha
    exact ⟨_, _, .deferred hn h', hs⟩
  | named hn _ ih =>
    intro hv hc _ c' ht ha
    cases ht
    obtain ⟨o', leaves', h', hs⟩ := ih (visits_inner hv (inner?_named hn)) hc .node ha
    exact ⟨_, _, .named hn h', hs⟩

/-! ## What is kept of leaf matches further on -/

namespace Furthest

variable {n : Nat} {a a' d d' : Option Furthest} {f f' : Furthest} {leaves leaves' : List Furthest}

def later (n : Nat) (f : Furthest) : Furthest :=
  ⟨f.offset + n, f.path⟩

/-- What is kept further on is the same leaf match. A leaf match that has read nothing at the start of a text can be
left out there, and then counts further on. -/
structure Later (n : Nat) (a a' : Option Furthest) : Prop where
  eq : 0 < reach a → a' = a.map (later n)
  le : reach a' ≤ reach a + n

theorem reach_later (h : 0 < reach a) : reach (a.map (later n)) = reach a + n := by
  cases a with
  | none => exact absurd h (Nat.lt_irrefl _)
  | some f => rfl

theorem Later.none : Later n none none :=
  ⟨fun _ => rfl, Nat.zero_le _⟩

theorem Later.some (h : f.Apart n 0 f') : Later n (some f) (some f') := by
  have ho : f'.offset = f.offset + n := h.offset.symm
  refine ⟨fun _ => ?_, Nat.le_of_eq ho⟩
  show Option.some (⟨f'.offset, f'.path⟩ : Furthest) = Option.some ⟨f.offset + n, f.path⟩
  rw [ho, h.path]

theorem Later.merge (h : Later n a a') (h' : Later n d d') : Later n (merge a d) (merge a' d') := by
  have hle := h.le
  have hle' := h'.le
  refine ⟨fun hp => ?_, by rw [reach_merge, reach_merge]; omega⟩
  by_cases hlt : reach a < reach d
  · have hd := h'.eq (by omega)
    have hr : reach d' = reach d + n := by rw [hd, reach_later (by omega)]
    rw [Furthest.merge, Furthest.merge, if_pos hlt, if_pos (by omega), hd]
  · rw [reach_merge] at hp
    have ha := h.eq (by omega)
    have hr : reach a' = reach a + n := by rw [ha, reach_later (by omega)]
    rw [Furthest.merge, Furthest.merge, if_neg hlt, if_neg (by omega), ha]

theorem Later.ofLeaves (h : List.Forall₂ (Apart n 0) leaves leaves') :
    Later n (Furthest.ofLeaves leaves) (Furthest.ofLeaves leaves') := by
  induction h with
  | nil => exact .none
  | cons hf _ ih =>
    rw [ofLeaves_cons, ofLeaves_cons]
    exact (Later.none.merge (.some hf)).merge ih

end Furthest

/-! ## Matches after other text -/

theorem Cursor.apart_ofOffset (before rest : Text) :
    (ofOffset rest 0).Apart (Text.size before) 0 (ofOffset (before ++ rest) (Text.size before)) := by
  refine ⟨Nat.zero_add _, ?_⟩
  rw [ofOffset, ofOffset, Text.splitAt_append]
  cases rest <;> rfl

theorem Cursor.Apart.symm (h : c.Apart i j c') : c'.Apart j i c :=
  ⟨h.offset.symm, h.rest.symm⟩

section
variable {b : Rulebook} {id : NodeId} (hb : b.AsksForValues id) {text text' : Text} {position position' depth : Nat}
  {path : Path} (ha : (Cursor.ofOffset text position).Apart i j (Cursor.ofOffset text' position'))
include hb ha

theorem exists_course_apart (h : (b.matchNode text depth id path (Cursor.ofOffset text position)).result = .ok o) :
    ∃ leaves o' leaves', Course text b (.node id) path (Cursor.ofOffset text position) o leaves ∧
      Course text' b (.node id) path (Cursor.ofOffset text' position') o' leaves' ∧ o.Apart i j o' ∧
        List.Forall₂ (Furthest.Apart i j) leaves leaves' := by
  obtain ⟨leaves, h⟩ := course_of_matchNode h
  have hv : ∀ id' ∈ (Task.node id).ids, Visits text b id b id' := List.forall_mem_singleton.mpr .start
  obtain ⟨o', leaves', h', hs⟩ := h.shifts hb text' i j hv (Cursor.isOf_ofOffset text position) .node ha
  exact ⟨leaves, o', leaves', h, h', hs⟩

theorem answers_apart (h : ∃ depth o, (b.matchNode text depth id path (Cursor.ofOffset text position)).result = .ok o) :
    ∃ depth o, (b.matchNode text' depth id path (Cursor.ofOffset text' position')).result = .ok o := by
  obtain ⟨depth, o, h⟩ := h
  obtain ⟨_, o', _, -, h', -⟩ := exists_course_apart hb ha h
  obtain ⟨depth', hd⟩ := h'.settles.matchNode
  exact ⟨depth', o', hd depth' (Nat.le_refl _)⟩

end

/-- Text before the place where a match is begun has no part in the match: without it the match comes to an end as well
and yields the same value, and its places and the furthest leaf match are as much earlier as that text is long. Only a
leaf match that has read nothing at the start of the text does not count there. -/
theorem text_before_is_ignored {b : Rulebook} {id : NodeId} (hb : b.AsksForValues id) (before rest : Text)
    (path : Path) :
    ((∃ depth o, (b.matchNode (before ++ rest) depth id path
        (Cursor.ofOffset (before ++ rest) (Text.size before))).result = .ok o) ↔
      ∃ depth o, (b.matchNode rest depth id path (Cursor.ofOffset rest 0)).result = .ok o) ∧
    ∀ depth depth' o o',
      (b.matchNode (before ++ rest) depth id path (Cursor.ofOffset (before ++ rest) (Text.size before))).result =
        .ok o → (b.matchNode rest depth' id path (Cursor.ofOffset rest 0)).result = .ok o' →
      o.succeeded = o'.succeeded ∧ o.value = o'.value ∧ o.cursor.offset = o'.cursor.offset + Text.size before ∧
      o.cursor.rest = o'.cursor.rest ∧
      (0 < o'.reach → o.reach = o'.reach + Text.size before ∧
        o.best = o'.best.map fun f => ⟨f.offset + Text.size before, f.path⟩) := by
  have ha := Cursor.apart_ofOffset before rest
  refine ⟨⟨answers_apart hb ha.symm, answers_apart hb ha⟩, fun depth depth' o o' h h' => ?_⟩
  obtain ⟨leaves', o₁, leaves, h', h₁, hs, hl⟩ := exists_course_apart hb ha h'
  obtain ⟨_, h⟩ := course_of_matchNode h
  obtain ⟨rfl, rfl⟩ := h₁.unique h
  refine ⟨hs.succeeded.symm, hs.value.symm, hs.cursor.offset.symm, hs.cursor.rest.symm, fun hp => ?_⟩
  have hp' : 0 < Furthest.reach (Furthest.ofLeaves leaves') := h'.reach_eq_reach_ofLeaves ▸ hp
  have hlater := (Furthest.Later.ofLeaves hl).eq hp'
  have hreach : o.reach = o'.reach + Text.size before := by
    rw [h.reach_eq_reach_ofLeaves, hlater, Furthest.reach_later hp', h'.reach_eq_reach_ofLeaves]
  refine ⟨hreach, ?_⟩
  rw [h.best_eq_ofLeaves (by omega), h'.best_eq_ofLeaves hp]
  exact hlater

def twins : Rulebook where
  graph := {
    nodes := #[.literal "a", .literal "b", .choice [0, 1], .chain 2 0]
    continuations := #[fun value _ _ => .literal (value.text?.getD "")] }

theorem twins_chain {id child : NodeId} {next : ContinuationId} (hn : twins.node id = .chain child next) :
    next = 0 := by
  match id with
  | 3 => cases hn; rfl
  | 0 | 1 | 2 | _ + 4 => cases hn

theorem twins_asksForValues : twins.AsksForValues 3 := by
  intro text b id child next hv hn value t c t' c'
  -- what the continuation plants is a leaf, so no other is asked
  have stands : b = twins ∨ ∃ letter, b.node id = .literal letter := by
    clear hn
    induction hv with
    | start => exact .inl rfl
    | move _ hm ih =>
      rcases ih with rfl | ⟨letter, hl⟩
      · cases hm with
        | inner | child => exact .inl rfl
        | stage hn _ _ hp =>
          obtain rfl := twins_chain hn
          cases hp
          exact .inr ⟨_, rfl⟩
      · cases hm with
        | inner hi => rw [inner?, hl] at hi; cases hi
        | child hc => rw [hl] at hc; cases hc
        | stage hn => cases hl.symm.trans hn
  rcases stands with rfl | ⟨letter, hl⟩
  · obtain rfl := twins_chain hn
    rfl
  · cases hl.symm.trans hn

theorem twins_ignore_text_before : ∃ o o',
    (twins.matchNode (['é'] ++ ['b', 'b']) 3 3 (Path.root 3)
      (Cursor.ofOffset (['é'] ++ ['b', 'b']) (Text.size ['é']))).result = .ok o ∧
    (twins.matchNode ['b', 'b'] 3 3 (Path.root 3) (Cursor.ofOffset ['b', 'b'] 0)).result = .ok o' ∧
    o'.value = some (.str "b") ∧ o.value = o'.value ∧ o.cursor.offset = o'.cursor.offset + 2 ∧ 0 < o'.reach ∧
    o.reach = o'.reach + 2 ∧ o.best = o'.best.map fun f => ⟨f.offset + 2, f.path⟩ := by
  have ho' : (twins.matchNode ['b', 'b'] 3 3 (Path.root 3) (Cursor.ofOffset ['b', 'b'] 0)).result =
    .ok ⟨some (.str "b"), ⟨2, some []⟩, some ⟨2, [⟨3, 0⟩]⟩⟩ := rfl
  obtain ⟨-, hsame⟩ := text_before_is_ignored twins_asksForValues ['é'] ['b', 'b'] (Path.root 3)
  obtain ⟨_, hv, hc, -, hb⟩ := hsame 3 3 _ _ rfl ho'
  exact ⟨_, _, rfl, ho', rfl, hv, hc, by decide, hb (by decide)⟩

end FurthestMatch
