import FurthestMatch.Proofs.Course

/-!
# What matches come to

A match comes to a value and the place after it, or to nothing. The occurrence at which a node is matched has no part in
that, and neither has the depth to which the matcher may go, so there is one rule for each kind of node that says what
it comes to by what its children do.
-/

namespace FurthestMatch

def Outcome.ending (o : Outcome) : Option (Value × Cursor) :=
  o.value.map fun value => (value, o.cursor)

/-- Two outcomes with one ending: both have failed, or they have the same value and place. -/
theorem Outcome.cases_of_ending_eq {o o' : Outcome} (h : o.ending = o'.ending) :
    (o.value = none ∧ o'.value = none) ∨
      ∃ value, o.value = some value ∧ o'.value = some value ∧ o.cursor = o'.cursor := by
  unfold ending at h
  cases hv : o.value <;> cases hv' : o'.value <;> simp_all

theorem Outcome.ending_eq_none {o : Outcome} : o.ending = none ↔ o.value = none := by
  simp [ending]

theorem Outcome.ending_eq_some {o : Outcome} {value : Value} {cursor : Cursor} :
    o.ending = some (value, cursor) ↔ o.value = some value ∧ o.cursor = cursor := by
  unfold ending
  cases o.value <;> simp

theorem Outcome.ending_of_value {o : Outcome} {value : Value} (h : o.value = some value) :
    o.ending = some (value, o.cursor) :=
  ending_eq_some.mpr ⟨h, rfl⟩

theorem Outcome.ending_endRounds (least : Nat) (start : Cursor) (values : List Value) (cursor : Cursor)
    (best : Option Furthest) : (endRounds least start values cursor best).ending =
      if values.length < least then none else some (.list values.reverse, cursor) := by
  unfold endRounds
  split <;> rfl

/-! ## The occurrence has no part in it -/

def Walk.ending (w : Walk Outcome) : Except Halt (Option (Value × Cursor)) :=
  w.result.map Outcome.ending

theorem Walk.ending_bind {w w' : Walk Outcome} {f f' : Outcome → Walk Outcome} (h : w.ending = w'.ending)
    (hf : ∀ o o', o.ending = o'.ending → (f o).ending = (f' o').ending) :
    (w >>= f).ending = (w' >>= f').ending := by
  unfold ending at h hf ⊢
  rw [result_bind, result_bind]
  cases hw : w.result <;> cases hw' : w'.result <;> rw [hw, hw'] at h
  · exact h
  · cases h
  · cases h
  · exact hf _ _ (Except.ok.inj h)

section
variable {run : Matcher} (h : ∀ id path path' cursor, (run id path cursor).ending = (run id path' cursor).ending)
include h

theorem Outcome.ending_ofSequence (path path' : Path) : ∀ (items : List NodeId) (slot : Nat) (values : List Value)
    (cursor : Cursor) (best best' : Option Furthest),
      (ofSequence run path items slot values cursor best).ending =
        (ofSequence run path' items slot values cursor best').ending
  | [], _, _, _, _, _ => rfl
  | item :: items, slot, values, cursor, best, best' => by
    refine Walk.ending_bind (h _ _ _ _) fun o o' ho => ?_
    dsimp only
    obtain ⟨hv, hv'⟩ | ⟨value, hv, hv', hc⟩ := cases_of_ending_eq ho
    · simp only [hv, hv']
      rfl
    · simp only [hv, hv', hc]
      exact ending_ofSequence path path' items _ _ _ _ _

theorem Outcome.ending_ofChoice (path path' : Path) (cursor : Cursor) : ∀ (options : List NodeId) (slot : Nat)
    (best best' : Option Furthest), (ofChoice run path cursor options slot best).ending =
      (ofChoice run path' cursor options slot best').ending
  | [], _, _, _ => rfl
  | option :: options, slot, best, best' => by
    refine Walk.ending_bind (h _ _ _ _) fun o o' ho => ?_
    dsimp only [succeeded]
    obtain ⟨hv, hv'⟩ | ⟨value, hv, hv', hc⟩ := cases_of_ending_eq ho
    · simp only [hv, hv', Option.isSome_none, Bool.false_eq_true, if_false]
      exact ending_ofChoice path path' cursor options _ _ _
    · simp only [hv, hv', hc, Option.isSome_some, if_true]
      rfl

end

theorem Outcome.ending_ofRounds {round round' : Cursor → Walk Outcome}
    (h : ∀ cursor, (round cursor).ending = (round' cursor).ending) (least : Nat) (most : Option Nat) (start : Cursor) :
    ∀ (fuel : Nat) (values : List Value) (cursor : Cursor) (best best' : Option Furthest),
      (ofRounds round least most start fuel values cursor best).ending =
        (ofRounds round' least most start fuel values cursor best').ending
  | 0, _, _, _, _ => rfl
  | fuel + 1, values, cursor, best, best' => by
    have hend (values : List Value) (cursor : Cursor) (best best' : Option Furthest) :
        (endRounds least start values cursor best).ending = (endRounds least start values cursor best').ending := by
      rw [ending_endRounds, ending_endRounds]
    rw [ofRounds, ofRounds]
    split
    · exact congrArg Except.ok (hend _ _ _ _)
    · refine Walk.ending_bind (h cursor) fun o o' ho => ?_
      dsimp only
      obtain ⟨hv, hv'⟩ | ⟨value, hv, hv', hc⟩ := cases_of_ending_eq ho
      · simp only [hv, hv']
        exact congrArg Except.ok (hend _ _ _ _)
      · simp only [hv, hv', hc]
        split
        · exact congrArg Except.ok (hend _ _ _ _)
        · exact ending_ofRounds h least most start fuel _ _ _ _

theorem Outcome.ending_ofLeaf (path path' : Path) (cursor : Cursor) (read : Text → Option (Value × Text × Text)) :
    (ofLeaf path cursor read).ending = (ofLeaf path' cursor read).ending := by
  unfold ofLeaf
  cases cursor.rest with
  | none => rfl
  | some text =>
    dsimp only
    cases read text <;> rfl

theorem Outcome.ending_ofStages (path : Path) (first second : Outcome) :
    (ofStages path first second).ending = second.ending := by
  unfold ofStages
  split <;> rfl

theorem Outcome.ending_ofLook (polarity : Polarity) (cursor : Cursor) {o o' : Outcome} (h : o.ending = o'.ending) :
    (ofLook polarity cursor o).ending = (ofLook polarity cursor o').ending := by
  have hs : o.succeeded = o'.succeeded := by
    obtain ⟨hv, hv'⟩ | ⟨value, hv, hv', -⟩ := cases_of_ending_eq h <;> simp [succeeded, hv, hv']
  unfold ofLook
  dsimp only
  rw [hs]
  split <;> rfl

/-- A match at another occurrence comes to the same. -/
theorem ending_matchNode {text : Text} : ∀ {depth : Nat} (b : Rulebook) (id : NodeId) (path path' : Path)
    (cursor : Cursor), (b.matchNode text depth id path cursor).ending = (b.matchNode text depth id path' cursor).ending
  | 0, _, _, _, _, _ => rfl
  | depth + 1, b, id, path, path', cursor => by
    cases hn : b.node id with
    | literal t => simp only [Rulebook.matchNode, hn]; exact Outcome.ending_ofLeaf ..
    | pattern p => simp only [Rulebook.matchNode, hn]; exact Outcome.ending_ofLeaf ..
    | always => simp only [Rulebook.matchNode, hn]; rfl
    | never => simp only [Rulebook.matchNode, hn]
    | sequence items => simp only [Rulebook.matchNode, hn]; exact Outcome.ending_ofSequence (ending_matchNode b) ..
    | choice options => simp only [Rulebook.matchNode, hn]; exact Outcome.ending_ofChoice (ending_matchNode b) ..
    | times child least most =>
      simp only [Rulebook.matchNode, hn]
      exact Outcome.ending_ofRounds (ending_matchNode b child _ _) ..
    | map child mapper =>
      simp only [Rulebook.matchNode, hn]
      refine Walk.ending_bind (ending_matchNode ..) fun o o' ho => congrArg Except.ok ?_
      obtain ⟨hv, hv'⟩ | ⟨value, hv, hv', hc⟩ := Outcome.cases_of_ending_eq ho <;> simp [Outcome.ending, *]
    | chain child next =>
      simp only [Rulebook.matchNode, hn]
      refine Walk.ending_bind (ending_matchNode ..) fun first first' hf => ?_
      obtain ⟨hv, hv'⟩ | ⟨value, hv, hv', hc⟩ := Outcome.cases_of_ending_eq hf
      · simp only [hv, hv']
        exact congrArg Except.ok hf
      · simp only [hv, hv', hc]
        refine Walk.ending_bind (ending_matchNode ..) fun second second' hs => congrArg Except.ok ?_
        rw [Outcome.ending_ofStages, Outcome.ending_ofStages, hs]
    | look child polarity =>
      simp only [Rulebook.matchNode, hn]
      exact Walk.ending_bind (ending_matchNode ..) fun o o' ho => congrArg Except.ok (Outcome.ending_ofLook _ _ ho)
    | deferred target =>
      simp only [Rulebook.matchNode, hn]
      have hf (w : Walk Outcome) : (Walk.follow id >>= fun _ => w).ending = w.ending :=
        congrArg (Except.map _) (Walk.result_bind_of_ok (Walk.result_follow _) _)
      rw [hf, hf]
      exact ending_matchNode ..
    | named child label => simp only [Rulebook.matchNode, hn]; exact ending_matchNode ..

/-! ## Rules for the kinds of nodes -/

/-- At some depth, the matcher comes from a place to a value and the place after it, or to a failure. -/
def Rulebook.Ends (b : Rulebook) (text : Text) (id : NodeId) (cursor : Cursor) (r : Option (Value × Cursor)) : Prop :=
  ∃ depth o, (b.matchNode text depth id (Path.root id) cursor).result = .ok o ∧ o.ending = r

def Task.Ends (text : Text) (b : Rulebook) (path : Path) (cursor : Cursor) (r : Option (Value × Cursor))
    (task : Task) : Prop :=
  ∃ o leaves, Course text b task path cursor o leaves ∧ o.ending = r

variable {text : Text} {b : Rulebook} {id : NodeId} {cursor : Cursor} {r : Option (Value × Cursor)}

theorem ends_iff (path : Path) : b.Ends text id cursor r ↔ (Task.node id).Ends text b path cursor r := by
  have moved {depth : Nat} {path path' : Path} {o : Outcome}
      (h : (b.matchNode text depth id path cursor).result = .ok o) :
      ∃ o', (b.matchNode text depth id path' cursor).result = .ok o' ∧ o'.ending = o.ending := by
    have he : (b.matchNode text depth id path cursor).ending = (b.matchNode text depth id path' cursor).ending :=
      ending_matchNode ..
    unfold Walk.ending at he
    rw [h] at he
    cases hr : (b.matchNode text depth id path' cursor).result with
    | error halt => rw [hr] at he; cases he
    | ok o' => rw [hr] at he; exact ⟨o', rfl, (Except.ok.inj he).symm⟩
  constructor
  · intro ⟨depth, o, h, hr⟩
    obtain ⟨o', h', he⟩ := moved h
    obtain ⟨leaves, c⟩ := course_of_matchNode h'
    exact ⟨o', leaves, c, he.trans hr⟩
  · intro ⟨o, leaves, c, hr⟩
    obtain ⟨depth, hd⟩ := c.settles.matchNode
    obtain ⟨o', h', he⟩ := moved (hd depth (Nat.le_refl _))
    exact ⟨depth, o', h', he.trans hr⟩

theorem Rulebook.Ends.unique {r' : Option (Value × Cursor)} (h : b.Ends text id cursor r)
    (h' : b.Ends text id cursor r') : r' = r := by
  obtain ⟨o, leaves, c, rfl⟩ := (ends_iff []).mp h
  obtain ⟨o', leaves', c', rfl⟩ := (ends_iff []).mp h'
  rw [(c.unique c').1]

theorem ends_always (hn : b.node id = .always) : b.Ends text id cursor r ↔ r = some (.empty, cursor) := by
  have c : Course text b (.node id) [] cursor _ _ := .always hn
  constructor
  · intro h
    exact Rulebook.Ends.unique ((ends_iff []).mpr ⟨_, _, c, rfl⟩) h
  · intro h
    exact (ends_iff []).mpr ⟨_, _, c, h.symm⟩

theorem ends_map {child : NodeId} {mapper : MapperId} (hn : b.node id = .map child mapper) :
    b.Ends text id cursor r ↔
      ∃ first, b.Ends text child cursor first ∧ r = first.map fun (v, d) => (b.graph.mapper mapper v, d) := by
  constructor
  · intro h
    obtain ⟨o, leaves, c, rfl⟩ := (ends_iff []).mp h
    cases c with
    | map hn' c =>
      cases hn.symm.trans hn'
      exact ⟨_, (ends_iff _).mpr ⟨_, _, c, rfl⟩, by simp [Outcome.ending, Function.comp_def]⟩
    | _ => simp_all [Node.reader?]
  · intro h
    obtain ⟨first, h, hr⟩ := h
    obtain ⟨o, leaves, c, rfl⟩ := (ends_iff (Path.child [] child 0)).mp h
    exact (ends_iff []).mpr ⟨_, _, .map hn c, by simp [Outcome.ending, hr, Function.comp_def]⟩

def Rulebook.EndAll (b : Rulebook) (text : Text) : List NodeId → Cursor → Option (List Value × Cursor) → Prop
  | [], c, r => r = some ([], c)
  | id :: ids, c, r => ∃ first, b.Ends text id c first ∧ match first with
    | none => r = none
    | some (v, d) => ∃ more, b.EndAll text ids d more ∧ r = more.map fun (vs, e) => (v :: vs, e)

theorem ends_items {path : Path} : ∀ {ids : List NodeId} {slot : Nat} {values : List Value} {best : Option Furthest}
    {cursor : Cursor}, (Task.items ids slot values best).Ends text b path cursor r ↔
      ∃ more, b.EndAll text ids cursor more ∧ r = more.map fun (vs, d) => (.list (values.reverse ++ vs), d)
  | [], slot, values, best, cursor => by
    constructor
    · intro ⟨o, leaves, c, hr⟩
      cases c
      exact ⟨_, rfl, by simp [← hr, Outcome.ending]⟩
    · intro ⟨more, hm, hr⟩
      cases hm
      exact ⟨_, _, .itemsDone, by simp [hr, Outcome.ending]⟩
  | item :: ids, slot, values, best, cursor => by
    constructor
    · intro ⟨o, leaves, c, hr⟩
      cases c with
      | itemsFail c hv => exact ⟨none, ⟨none, (ends_iff _).mpr ⟨_, _, c, Outcome.ending_eq_none.mpr hv⟩, rfl⟩, hr.symm⟩
      | itemsNext c hv c' =>
        obtain ⟨more, hm, rfl⟩ := ends_items.mp ⟨_, _, c', hr⟩
        refine ⟨_, ⟨_, (ends_iff _).mpr ⟨_, _, c, Outcome.ending_of_value hv⟩, more, hm, rfl⟩, ?_⟩
        simp [Function.comp_def]
    · intro ⟨more, ⟨first, hf, hm⟩, hr⟩
      obtain ⟨o, leaves, c, ho⟩ := (ends_iff (Path.child path item slot)).mp hf
      cases first with
      | none =>
        cases hm
        exact ⟨_, _, .itemsFail c (Outcome.ending_eq_none.mp ho), hr.symm⟩
      | some found =>
        obtain ⟨v, d⟩ := found
        obtain ⟨hv, rfl⟩ := Outcome.ending_eq_some.mp ho
        obtain ⟨rest, hrest, rfl⟩ := hm
        have h : (Task.items ids (slot + 1) (v :: values) (Furthest.merge best o.best)).Ends text b path o.cursor r :=
          ends_items.mpr ⟨rest, hrest, by simp [hr, Function.comp_def]⟩
        obtain ⟨o', leaves', c', ho'⟩ := h
        exact ⟨o', _, .itemsNext c hv c', ho'⟩

theorem ends_sequence {items : List NodeId} (hn : b.node id = .sequence items) : b.Ends text id cursor r ↔
    ∃ all, b.EndAll text items cursor all ∧ r = all.map fun (vs, d) => (.list vs, d) := by
  constructor
  · intro h
    obtain ⟨o, leaves, c, hr⟩ := (ends_iff []).mp h
    cases c with
    | sequence hn' c =>
      cases hn.symm.trans hn'
      exact ends_items.mp ⟨o, leaves, c, hr⟩
    | _ => simp_all [Node.reader?]
  · intro h
    obtain ⟨all, ha, hr⟩ := h
    have h : (Task.items items 0 [] none).Ends text b [] cursor r := ends_items.mpr ⟨all, ha, hr⟩
    obtain ⟨o, leaves, c, hr⟩ := h
    exact (ends_iff []).mpr ⟨o, leaves, .sequence hn c, hr⟩

def Rulebook.EndFirst (b : Rulebook) (text : Text) : List NodeId → Cursor → Option (Value × Cursor) → Prop
  | [], _, r => r = none
  | id :: ids, c, r => ∃ first, b.Ends text id c first ∧ match first with
    | none => b.EndFirst text ids c r
    | some _ => r = first

theorem ends_options {path : Path} : ∀ {ids : List NodeId} {slot : Nat} {best : Option Furthest},
    (Task.options ids slot best).Ends text b path cursor r ↔ b.EndFirst text ids cursor r
  | [], slot, best => by
    constructor
    · intro ⟨o, leaves, c, hr⟩
      cases c
      exact hr.symm
    · intro hr
      exact ⟨_, _, .optionsDone, hr.symm⟩
  | option :: ids, slot, best => by
    constructor
    · intro ⟨o, leaves, c, hr⟩
      cases c with
      | optionsTake c hv =>
        obtain ⟨value, hv⟩ := Option.isSome_iff_exists.mp hv
        exact ⟨_, (ends_iff _).mpr ⟨_, _, c, Outcome.ending_of_value hv⟩, by simp [← hr, Outcome.ending, hv]⟩
      | optionsNext c hv c' =>
        have hv := Option.not_isSome_iff_eq_none.mp (Bool.eq_false_iff.mp hv)
        exact ⟨none, (ends_iff _).mpr ⟨_, _, c, Outcome.ending_eq_none.mpr hv⟩, ends_options.mp ⟨_, _, c', hr⟩⟩
    · intro ⟨first, hf, hm⟩
      obtain ⟨o, leaves, c, ho⟩ := (ends_iff (Path.child path option slot)).mp hf
      cases first with
      | none =>
        have hv : o.succeeded = false := by simp [Outcome.succeeded, Outcome.ending_eq_none.mp ho]
        obtain ⟨o', leaves', c', hr⟩ := ends_options.mpr hm
        exact ⟨_, _, .optionsNext c hv c', hr⟩
      | some found =>
        have hv : o.succeeded = true := by simp [Outcome.succeeded, (Outcome.ending_eq_some.mp ho).1]
        exact ⟨_, _, .optionsTake c hv, ho.trans hm.symm⟩

theorem ends_choice {options : List NodeId} (hn : b.node id = .choice options) :
    b.Ends text id cursor r ↔ b.EndFirst text options cursor r := by
  constructor
  · intro h
    obtain ⟨o, leaves, c, hr⟩ := (ends_iff []).mp h
    cases c with
    | choice hn' c =>
      cases hn.symm.trans hn'
      exact ends_options.mp ⟨o, leaves, c, hr⟩
    | _ => simp_all [Node.reader?]
  · intro h
    have h : (Task.options options 0 none).Ends text b [] cursor r := ends_options.mpr h
    obtain ⟨o, leaves, c, hr⟩ := h
    exact (ends_iff []).mpr ⟨o, leaves, .choice hn c, hr⟩

/-- Rounds of a node after some have been made, with all their values and the place after the last of them. The values
stand latest first. -/
inductive Rulebook.EndRounds (b : Rulebook) (text : Text) (child : NodeId) (least : Nat) (most : Option Nat) :
    List Value → Cursor → List Value → Cursor → Prop
  | full {vs c} (hm : most.any (· ≤ vs.length) = true) : EndRounds b text child least most vs c vs c
  | fail {vs c} (hm : most.any (· ≤ vs.length) = false) (h : b.Ends text child c none) :
      EndRounds b text child least most vs c vs c
  | stop {vs c v d} (hm : most.any (· ≤ vs.length) = false) (h : b.Ends text child c (some (v, d)))
      (hs : d.offset ≤ c.offset ∧ least ≤ (v :: vs).length) : EndRounds b text child least most vs c (v :: vs) d
  | next {vs c v d ws e} (hm : most.any (· ≤ vs.length) = false) (h : b.Ends text child c (some (v, d)))
      (hs : ¬(d.offset ≤ c.offset ∧ least ≤ (v :: vs).length))
      (h' : EndRounds b text child least most (v :: vs) d ws e) : EndRounds b text child least most vs c ws e

section
variable {child : NodeId} {least : Nat} {most : Option Nat} {path : Path} {start : Cursor}

theorem endRounds_of_course {task : Task} {cursor : Cursor} {o : Outcome} {leaves : List Furthest}
    (c : Course text b task path cursor o leaves) : ∀ {values : List Value} {best : Option Furthest},
      task = .rounds child least most start values best →
        ∃ vs d, b.EndRounds text child least most values cursor vs d ∧
          o.ending = if vs.length < least then none else some (.list vs.reverse, d) := by
  induction c with
  | roundsFull hm =>
    intro values best ht
    cases ht
    exact ⟨_, _, .full hm, Outcome.ending_endRounds ..⟩
  | roundsFail hm c hv =>
    intro values best ht
    cases ht
    exact ⟨_, _, .fail hm ((ends_iff _).mpr ⟨_, _, c, Outcome.ending_eq_none.mpr hv⟩), Outcome.ending_endRounds ..⟩
  | roundsStop hm c hv hs =>
    intro values best ht
    cases ht
    exact ⟨_, _, .stop hm ((ends_iff _).mpr ⟨_, _, c, Outcome.ending_of_value hv⟩) hs, Outcome.ending_endRounds ..⟩
  | roundsNext hm c hv hs _ _ ih =>
    intro values best ht
    cases ht
    obtain ⟨vs, d, h, hr⟩ := ih rfl
    exact ⟨vs, d, .next hm ((ends_iff _).mpr ⟨_, _, c, Outcome.ending_of_value hv⟩) hs h, hr⟩
  | _ => exact fun ht => nomatch ht

theorem Rulebook.EndRounds.ends {values vs : List Value} {cursor d : Cursor}
    (h : b.EndRounds text child least most values cursor vs d) : ∀ best : Option Furthest,
      (Task.rounds child least most start values best).Ends text b path cursor
        (if vs.length < least then none else some (.list vs.reverse, d)) := by
  induction h with
  | full hm => exact fun _ => ⟨_, _, .roundsFull hm, Outcome.ending_endRounds ..⟩
  | fail hm h =>
    intro best
    obtain ⟨o, leaves, c, ho⟩ := (ends_iff (path.child child 0)).mp h
    exact ⟨_, _, .roundsFail hm c (Outcome.ending_eq_none.mp ho), Outcome.ending_endRounds ..⟩
  | stop hm h hs =>
    intro best
    obtain ⟨o, leaves, c, ho⟩ := (ends_iff (path.child child 0)).mp h
    obtain ⟨hv, rfl⟩ := Outcome.ending_eq_some.mp ho
    exact ⟨_, _, .roundsStop hm c hv hs, Outcome.ending_endRounds ..⟩
  | next hm h hs _ ih =>
    intro best
    obtain ⟨o, leaves, c, ho⟩ := (ends_iff (path.child child 0)).mp h
    obtain ⟨hv, rfl⟩ := Outcome.ending_eq_some.mp ho
    obtain ⟨o', leaves', c', hr⟩ := ih (Furthest.merge best o.best)
    exact ⟨_, _, .roundsNext hm c hv hs c', hr⟩

theorem ends_times (hn : b.node id = .times child least most) : b.Ends text id cursor r ↔
    ∃ vs d, b.EndRounds text child least most [] cursor vs d ∧
      r = if vs.length < least then none else some (.list vs.reverse, d) := by
  rw [ends_iff []]
  constructor
  · intro h
    obtain ⟨o, leaves, c, hr⟩ := h
    cases c with
    | times hn' c =>
      cases hn.symm.trans hn'
      rw [← hr]
      exact endRounds_of_course c rfl
    | _ => simp_all [Node.reader?]
  · intro h
    obtain ⟨vs, d, h, hr⟩ := h
    have h : (Task.rounds child least most cursor [] none).Ends text b [] cursor _ := h.ends none
    obtain ⟨o, leaves, c, ho⟩ := h
    exact ⟨o, leaves, .times hn c, ho.trans hr.symm⟩

end

end FurthestMatch
