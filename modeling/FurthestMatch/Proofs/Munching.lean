import FurthestMatch.Proofs.Endings
import FurthestMatch.Proofs.Termination

/-!
# Repetitions take as many matches as they may

A repetition matches its child again and again, each time from where the match before has ended. It ends with its
greatest number, or where the child can read no further, and of the matches that read nothing only the last may be one
more than the least number.
-/

namespace FurthestMatch

structure Round where
  start : Cursor
  value : Value
  stop : Cursor

namespace Rulebook

inductive Successive (b : Rulebook) (text : Text) (child : NodeId) : Cursor → List Round → Cursor → Prop
  | nil {c} : Successive b text child c [] c
  | cons {c v d rounds e} (h : b.Ends text child c (some (v, d))) (more : Successive b text child d rounds e) :
      Successive b text child c (⟨c, v, d⟩ :: rounds) e

/-- The rounds of a repetition that succeeds, from a place on up to another. -/
structure Munches (b : Rulebook) (text : Text) (child : NodeId) (least : Nat) (most : Option Nat) (c : Cursor)
    (rounds : List Round) (d : Cursor) : Prop where
  successive : b.Successive text child c rounds d
  least_le : least ≤ rounds.length
  le_most : ∀ m ∈ most, rounds.length ≤ m
  no_further : most = some rounds.length ∨ ∃ r, b.Ends text child d r ∧ ∀ v e, r = some (v, e) → e = d
  still_last : ∀ i round, rounds[i]? = some round → least ≤ i → round.stop = round.start → i + 1 = rounds.length

end Rulebook

section
variable {text : Text} {b : Rulebook} {child : NodeId} {least : Nat} {most : Option Nat} {c d : Cursor}

theorem Rulebook.Ends.reaches {v : Value} (h : b.Ends text child c (some (v, d))) : c.Reaches d := by
  obtain ⟨o, leaves, hcourse, ho⟩ := (ends_iff []).mp h
  obtain ⟨-, rfl⟩ := Outcome.ending_eq_some.mp ho
  exact hcourse.reaches

theorem Rulebook.Successive.reaches {rounds : List Round} (h : b.Successive text child c rounds d) : c.Reaches d := by
  induction h with
  | nil => exact .refl _
  | cons h _ ih => exact h.reaches.trans ih

/-! ## Which rounds are taken -/

/-- Where rounds are over that were begun after `count` others. -/
def Rulebook.RoundsOver (b : Rulebook) (text : Text) (child : NodeId) (least : Nat) (most : Option Nat) (count : Nat)
    (d : Cursor) : Prop :=
  most.any (· ≤ count) = true ∨ b.Ends text child d none ∨ least ≤ count ∧ ∃ v, b.Ends text child d (some (v, d))

theorem lt_of_any_le_eq_false {n m : Nat} (h : most.any (· ≤ n) = false) (hm : m ∈ most) : n < m := by
  cases hm
  exact Nat.not_le.mp (of_decide_eq_false h)

theorem successive_of_endRounds {vs ws : List Value} (h : b.EndRounds text child least most vs c ws d) :
    ∃ rounds, b.Successive text child c rounds d ∧ ws = (rounds.map Round.value).reverse ++ vs ∧
      b.RoundsOver text child least most ws.length d ∧
      (∀ m ∈ most, vs.length ≤ m → ws.length ≤ m) ∧
      ∀ i round, rounds[i]? = some round → least ≤ vs.length + i + 1 → round.stop = round.start →
        i + 1 = rounds.length := by
  induction h with
  | full hm => exact ⟨[], .nil, rfl, .inl hm, fun _ _ h => h, by simp⟩
  | fail hm h => exact ⟨[], .nil, rfl, .inr (.inl h), fun _ _ h => h, by simp⟩
  | @stop vs c v d hm h hs =>
    have hd : d = c := h.reaches.eq_or_lt.resolve_right (Nat.not_lt.mpr hs.1)
    subst hd
    refine ⟨[⟨d, v, d⟩], .cons h .nil, rfl, .inr (.inr ⟨hs.2, v, h⟩), ?_, ?_⟩
    · exact fun m hmost _ => lt_of_any_le_eq_false hm hmost
    · intro i round hi _ _
      cases i with
      | zero => rfl
      | succ i => simp at hi
  | @next vs c v d ws e hm h hs _ ih =>
    obtain ⟨rounds, hsucc, rfl, hover, hmost, hstill⟩ := ih
    refine ⟨⟨c, v, d⟩ :: rounds, .cons h hsucc, by simp, hover, ?_, ?_⟩
    · exact fun m hm' _ => hmost m hm' (lt_of_any_le_eq_false hm hm')
    · intro i round hi hl hst
      cases i with
      | zero =>
        -- the repetition has gone on, so this round has read text or was one of the least number
        simp only [List.getElem?_cons_zero, Option.some.injEq] at hi
        subst hi
        simp only at hst
        subst hst
        exact absurd ⟨Nat.le_refl _, by simpa using hl⟩ hs
      | succ i =>
        simp only [List.getElem?_cons_succ] at hi
        have := hstill i round hi (by simp only [List.length_cons]; omega) hst
        simp [this]

/-- No row of matches goes on beyond a place at which the child fails. -/
theorem Rulebook.Successive.length_le {rounds rounds' : List Round} {e : Cursor}
    (h : b.Successive text child c rounds d) (hd : b.Ends text child d none)
    (h' : b.Successive text child c rounds' e) : rounds'.length ≤ rounds.length := by
  induction h generalizing rounds' with
  | nil =>
    cases h' with
    | nil => exact Nat.le_refl _
    | cons h' => cases hd.unique h'
  | cons h _ ih =>
    cases h' with
    | nil => exact Nat.zero_le _
    | cons h' more' =>
      cases h.unique h'
      exact Nat.succ_le_succ (ih hd more')

/-- Rounds come to an end where every match of the child does. -/
theorem exists_endRounds (c : Cursor)
    (hends : ∀ rounds d, b.Successive text child c rounds d → ∃ r, b.Ends text child d r) (vs : List Value) :
    ∃ ws d, b.EndRounds text child least most vs c ws d := by
  by_cases hm : most.any (· ≤ vs.length) = true
  · exact ⟨vs, c, .full hm⟩
  rw [Bool.not_eq_true] at hm
  obtain ⟨r, hr⟩ := hends [] c .nil
  cases r with
  | none => exact ⟨vs, c, .fail hm hr⟩
  | some found =>
    obtain ⟨v, d⟩ := found
    by_cases hs : d.offset ≤ c.offset ∧ least ≤ (v :: vs).length
    · exact ⟨v :: vs, d, .stop hm hr hs⟩
    · have hlt := hr.reaches.length_lt
      have hle := hr.reaches.length_le
      obtain ⟨ws, e, h⟩ := exists_endRounds d (fun rounds e h => hends _ e (.cons hr h)) (v :: vs)
      exact ⟨ws, e, .next hm hr hs h⟩
termination_by least - vs.length + (c.rest.getD []).length
decreasing_by
  simp only [List.length_cons] at hs ⊢
  omega

/-! ## What a repetition comes to -/

theorem any_le_iff (n : Nat) : most.any (· ≤ n) = true ↔ ∃ m ∈ most, m ≤ n := by
  cases most <;> simp

theorem Outcome.cursor_endRounds {start : Cursor} {values : List Value} {best : Option Furthest}
    (h : (endRounds least start values c best).value = none) :
    (endRounds least start values c best).cursor = start := by
  unfold endRounds at h ⊢
  split at h <;> simp_all

theorem cursor_of_failed_rounds {task : Task} {path : Path} {o : Outcome} {leaves : List Furthest}
    (h : Course text b task path c o leaves) (hv : o.value = none) : ∀ {start : Cursor} {values : List Value}
      {best : Option Furthest}, task = .rounds child least most start values best → o.cursor = start := by
  induction h with
  | roundsFull | roundsFail | roundsStop =>
    intro start values best ht
    cases ht
    exact Outcome.cursor_endRounds hv
  | roundsNext _ _ _ _ _ _ ih =>
    intro start values best ht
    cases ht
    exact ih hv rfl
  | _ => exact fun ht => nomatch ht

variable {id : NodeId} (hn : b.node id = .times child least most)
include hn

theorem munches_of_ends {v : Value} (h : b.Ends text id c (some (v, d))) :
    ∃ rounds, b.Munches text child least most c rounds d ∧ v = .list (rounds.map Round.value) := by
  obtain ⟨ws, e, hrounds, he⟩ := (ends_times hn).mp h
  obtain ⟨rounds, hsucc, rfl, hover, hmost, hstill⟩ := successive_of_endRounds hrounds
  simp only [List.append_nil, List.length_reverse, List.length_map, List.reverse_reverse, List.length_nil] at *
  by_cases hl : rounds.length < least
  · simp [hl] at he
  · simp only [hl, if_false, Option.some.injEq, Prod.mk.injEq] at he
    obtain ⟨rfl, rfl⟩ := he
    refine ⟨rounds, ⟨hsucc, by omega, fun m hm => hmost m hm (Nat.zero_le _), ?_, ?_⟩, rfl⟩
    · rcases hover with hfull | hfail | ⟨-, v, hv⟩
      · left
        obtain ⟨m, hm, hle⟩ := (any_le_iff _).mp hfull
        have := hmost m hm (Nat.zero_le _)
        rw [Option.mem_def.mp hm]
        exact congrArg some (by omega)
      · exact .inr ⟨none, hfail, by simp⟩
      · exact .inr ⟨_, hv, by simp⟩
    · intro i round hi hle
      exact hstill i round hi (by omega)

theorem too_few_of_ends (h : b.Ends text id c none) : (∃ m ∈ most, m < least) ∨
    ∀ rounds d, b.Successive text child c rounds d → rounds.length < least := by
  obtain ⟨ws, e, hrounds, he⟩ := (ends_times hn).mp h
  obtain ⟨rounds, hsucc, rfl, hover, -, -⟩ := successive_of_endRounds hrounds
  simp only [List.append_nil, List.length_reverse, List.length_map] at hover he
  have hl : rounds.length < least := by
    by_cases hl : rounds.length < least
    · exact hl
    · simp [hl] at he
  rcases hover with hfull | hfail | ⟨hle, -⟩
  · left
    obtain ⟨m, hm, hle⟩ := (any_le_iff _).mp hfull
    exact ⟨m, hm, by omega⟩
  · right
    intro rounds' d h'
    have := hsucc.length_le hfail h'
    omega
  · omega

/-- A repetition comes to an outcome wherever its child does. When it succeeds, its list holds the values of all its
rounds; when it fails, it stands where it was begun, and there are too few matches of the child there or its bounds
exclude each other. -/
theorem repetition_is_maximal (path : Path) (text : Text) (c : Cursor) :
    ((∀ rounds d, b.Successive text child c rounds d → ∃ r, b.Ends text child d r) →
      ∃ depth o, ∀ n ≥ depth, (b.matchNode text n id path c).result = .ok o) ∧
    ∀ depth o, (b.matchNode text depth id path c).result = .ok o → match o.value with
      | some v => ∃ rounds, b.Munches text child least most c rounds o.cursor ∧ v = .list (rounds.map Round.value)
      | none => o.cursor = c ∧ ((∃ m ∈ most, m < least) ∨
          ∀ rounds d, b.Successive text child c rounds d → rounds.length < least) := by
  constructor
  · intro hends
    obtain ⟨ws, d, hrounds⟩ := exists_endRounds c hends []
    have h : b.Ends text id c _ := (ends_times hn).mpr ⟨ws, d, hrounds, rfl⟩
    obtain ⟨o, leaves, hcourse, -⟩ := (ends_iff path).mp h
    obtain ⟨depth, hd⟩ := hcourse.settles.matchNode
    exact ⟨depth, o, hd⟩
  · intro depth o h
    obtain ⟨leaves, hcourse⟩ := course_of_matchNode h
    have hends : b.Ends text id c o.ending := (ends_iff path).mpr ⟨o, leaves, hcourse, rfl⟩
    cases hv : o.value with
    | some v =>
      rw [Outcome.ending_of_value hv] at hends
      exact munches_of_ends hn hends
    | none =>
      rw [Outcome.ending_eq_none.mpr hv] at hends
      refine ⟨?_, too_few_of_ends hn hends⟩
      cases hcourse with
      | times hn' hcourse =>
        cases hn.symm.trans hn'
        exact cursor_of_failed_rounds hcourse hv rfl
      | _ => simp_all [Node.reader?]

end

/-! ## A child that reads nothing where it cannot read on -/

def stutter : Rulebook where
  graph := { nodes := #[.literal "a", .always, .choice [0, 1], .times 2 1 (some 4)] }

theorem exists_ends_of_reader {text ahead : Text} {b : Rulebook} {id : NodeId} {c : Cursor}
    {read : Text → Option (Value × Text × Text)} (hn : (b.node id).reader? = some read) (hc : c.rest = some ahead) :
    ∃ r, b.Ends text id c r := by
  cases hr : read ahead with
  | none => exact ⟨_, (ends_iff []).mpr ⟨_, _, .miss hn hc hr, rfl⟩⟩
  | some found =>
    obtain ⟨value, passed, rest⟩ := found
    exact ⟨_, (ends_iff []).mpr ⟨_, _, .hit hn hc hr, rfl⟩⟩

theorem exists_ends_stutter {text ahead : Text} {c : Cursor} (hc : c.rest = some ahead) :
    ∃ r, stutter.Ends text 2 c r := by
  have hchoice : stutter.node 2 = .choice [0, 1] := rfl
  have halways : stutter.node 1 = .always := rfl
  have hreader : (stutter.node 0).reader? = some (Rulebook.readLiteral "a") := rfl
  obtain ⟨first, hf⟩ := exists_ends_of_reader hreader hc
  cases first with
  | none => exact ⟨_, (ends_choice hchoice).mpr ⟨none, hf, _, (ends_always halways).mpr rfl, rfl⟩⟩
  | some found => exact ⟨_, (ends_choice hchoice).mpr ⟨some found, hf, rfl⟩⟩

theorem rounds_of_stutter :
    (∃ depth o, ∀ n ≥ depth, (stutter.matchNode ['é', 'a', 'a', 'b'] n 3 (Path.root 3)
      ⟨2, some ['a', 'a', 'b']⟩).result = .ok o) ∧
    (stutter.matchNode ['é', 'a', 'a', 'b'] 3 3 (Path.root 3) ⟨2, some ['a', 'a', 'b']⟩).result =
      .ok ⟨some (.list [.str "a", .str "a", .empty]), ⟨4, some ['b']⟩, some ⟨4, [⟨0, 0⟩, ⟨2, 0⟩, ⟨3, 0⟩]⟩⟩ ∧
    ∃ rounds, stutter.Munches ['é', 'a', 'a', 'b'] 2 1 (some 4) ⟨2, some ['a', 'a', 'b']⟩ rounds ⟨4, some ['b']⟩ ∧
      Value.list [.str "a", .str "a", .empty] = .list (rounds.map Round.value) := by
  have hn : stutter.node 3 = .times 2 1 (some 4) := rfl
  obtain ⟨hends, hrounds⟩ := repetition_is_maximal hn (Path.root 3) ['é', 'a', 'a', 'b'] ⟨2, some ['a', 'a', 'b']⟩
  have ho : (stutter.matchNode ['é', 'a', 'a', 'b'] 3 3 (Path.root 3) ⟨2, some ['a', 'a', 'b']⟩).result =
      .ok ⟨some (.list [.str "a", .str "a", .empty]), ⟨4, some ['b']⟩, some ⟨4, [⟨0, 0⟩, ⟨2, 0⟩, ⟨3, 0⟩]⟩⟩ := rfl
  refine ⟨hends fun rounds d h => ?_, ho, hrounds 3 _ ho⟩
  rcases h.reaches with rfl | ⟨passed, rest, -, rfl⟩
  · exact exists_ends_stutter rfl
  · exact exists_ends_stutter rfl

end FurthestMatch
