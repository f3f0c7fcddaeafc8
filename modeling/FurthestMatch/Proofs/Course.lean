import FurthestMatch.Proofs.Reading

/-!
# The course of a match

The matcher takes a bound on its depth and stops when the bound is used up. A course says the same without a
bound: it derives the outcome of a task from those of the tasks inside it. Along the way it keeps the matches of
leaves in the order in which they happen. A task has a course exactly when the matcher answers at some depth, and
then it answers the same at every greater one.
-/

namespace FurthestMatch

/-- What is to be matched: a node, or what is left of the items, options or rounds of one. -/
inductive Task where
  | node (id : NodeId)
  | items (ids : List NodeId) (slot : Nat) (values : List Value) (best : Option Furthest)
  | options (ids : List NodeId) (slot : Nat) (best : Option Furthest)
  | rounds (child : NodeId) (least : Nat) (most : Option Nat) (start : Cursor) (values : List Value)
      (best : Option Furthest)

def Task.ids : Task → List NodeId
  | .node id | .rounds id .. => [id]
  | .items ids .. | .options ids .. => ids

/-- A task at an occurrence and a place comes to an outcome, and `leaves` are the leaf matches on the way. Those of
the second stage of a chain are put down to the chain. -/
inductive Course (text : Text) : Rulebook → Task → Path → Cursor → Outcome → List Furthest → Prop
  | hit {b id path cursor read ahead value passed rest} (hn : (b.node id).reader? = some read)
      (hc : cursor.rest = some ahead) (hr : read ahead = some (value, passed, rest)) :
      Course text b (.node id) path cursor (.matched value (cursor.advance passed rest) path)
        [⟨(cursor.advance passed rest).offset, path⟩]
  | miss {b id path cursor read ahead} (hn : (b.node id).reader? = some read) (hc : cursor.rest = some ahead)
      (hr : read ahead = none) : Course text b (.node id) path cursor (.failed cursor) []
  | always {b id path cursor} (hn : b.node id = .always) :
      Course text b (.node id) path cursor (.matched .empty cursor path) [⟨cursor.offset, path⟩]
  | never {b id path cursor} (hn : b.node id = .never) : Course text b (.node id) path cursor (.failed cursor) []
  | sequence {b id path cursor items o leaves} (hn : b.node id = .sequence items)
      (h : Course text b (.items items 0 [] none) path cursor o leaves) :
      Course text b (.node id) path cursor o leaves
  | itemsDone {b slot values best path cursor} :
      Course text b (.items [] slot values best) path cursor ⟨some (.list values.reverse), cursor, best⟩ []
  | itemsFail {b item items slot values best path cursor o leaves}
      (h : Course text b (.node item) (path.child item slot) cursor o leaves) (hv : o.value = none) :
      Course text b (.items (item :: items) slot values best) path cursor
        ⟨none, cursor, Furthest.merge best o.best⟩ leaves
  | itemsNext {b item items slot values best path cursor o value leaves o' leaves'}
      (h : Course text b (.node item) (path.child item slot) cursor o leaves) (hv : o.value = some value)
      (h' : Course text b (.items items (slot + 1) (value :: values) (Furthest.merge best o.best)) path o.cursor
        o' leaves') :
      Course text b (.items (item :: items) slot values best) path cursor o' (leaves ++ leaves')
  | choice {b id path cursor options o leaves} (hn : b.node id = .choice options)
      (h : Course text b (.options options 0 none) path cursor o leaves) :
      Course text b (.node id) path cursor o leaves
  | optionsDone {b slot best path cursor} :
      Course text b (.options [] slot best) path cursor ⟨none, cursor, best⟩ []
  | optionsTake {b option options slot best path cursor o leaves}
      (h : Course text b (.node option) (path.child option slot) cursor o leaves) (hv : o.succeeded = true) :
      Course text b (.options (option :: options) slot best) path cursor
        { o with best := Furthest.merge best o.best } leaves
  | optionsNext {b option options slot best path cursor o leaves o' leaves'}
      (h : Course text b (.node option) (path.child option slot) cursor o leaves) (hv : o.succeeded = false)
      (h' : Course text b (.options options (slot + 1) (Furthest.merge best o.best)) path cursor o' leaves') :
      Course text b (.options (option :: options) slot best) path cursor o' (leaves ++ leaves')
  | times {b id path cursor child least most o leaves} (hn : b.node id = .times child least most)
      (h : Course text b (.rounds child least most cursor [] none) path cursor o leaves) :
      Course text b (.node id) path cursor o leaves
  | roundsFull {b child least most start values best path cursor} (hm : most.any (· ≤ values.length) = true) :
      Course text b (.rounds child least most start values best) path cursor
        (.endRounds least start values cursor best) []
  | roundsFail {b child least most start values best path cursor o leaves}
      (hm : most.any (· ≤ values.length) = false)
      (h : Course text b (.node child) (path.child child 0) cursor o leaves) (hv : o.value = none) :
      Course text b (.rounds child least most start values best) path cursor
        (.endRounds least start values cursor (Furthest.merge best o.best)) leaves
  | roundsStop {b child least most start values best path cursor o value leaves}
      (hm : most.any (· ≤ values.length) = false)
      (h : Course text b (.node child) (path.child child 0) cursor o leaves) (hv : o.value = some value)
      (hs : o.cursor.offset ≤ cursor.offset ∧ least ≤ (value :: values).length) :
      Course text b (.rounds child least most start values best) path cursor
        (.endRounds least start (value :: values) o.cursor (Furthest.merge best o.best)) leaves
  | roundsNext {b child least most start values best path cursor o value leaves o' leaves'}
      (hm : most.any (· ≤ values.length) = false)
      (h : Course text b (.node child) (path.child child 0) cursor o leaves) (hv : o.value = some value)
      (hs : ¬(o.cursor.offset ≤ cursor.offset ∧ least ≤ (value :: values).length))
      (h' : Course text b (.rounds child least most start (value :: values) (Furthest.merge best o.best)) path
        o.cursor o' leaves') :
      Course text b (.rounds child least most start values best) path cursor o' (leaves ++ leaves')
  | map {b id path cursor child mapper o leaves} (hn : b.node id = .map child mapper)
      (h : Course text b (.node child) (path.child child 0) cursor o leaves) :
      Course text b (.node id) path cursor { o with value := o.value.map (b.graph.mapper mapper) } leaves
  | chainFail {b id path cursor child next first leaves} (hn : b.node id = .chain child next)
      (h : Course text b (.node child) (path.child child 0) cursor first leaves) (hv : first.value = none) :
      Course text b (.node id) path cursor first leaves
  | chain {b id path cursor child next first value leaves stage b' second leaves'}
      (hn : b.node id = .chain child next)
      (h : Course text b (.node child) (path.child child 0) cursor first leaves) (hv : first.value = some value)
      (hp : b.plant (b.graph.continuation next value text first.cursor) = (stage, b'))
      (h' : Course text b' (.node stage) (path.child stage 1) first.cursor second leaves') :
      Course text b (.node id) path cursor (.ofStages path first second)
        (leaves ++ leaves'.map fun f => ⟨f.offset, path⟩)
  | look {b id path cursor child polarity o leaves} (hn : b.node id = .look child polarity)
      (h : Course text b (.node child) (path.child child 0) cursor o leaves) :
      Course text b (.node id) path cursor (.ofLook polarity cursor o) leaves
  | deferred {b id path cursor target o leaves} (hn : b.node id = .deferred target)
      (h : Course text b (.node (b.target id target)) path cursor o leaves) :
      Course text b (.node id) path cursor o leaves
  | named {b id path cursor child label o leaves} (hn : b.node id = .named child label)
      (h : Course text b (.node child) path cursor o leaves) : Course text b (.node id) path cursor o leaves

/-! ## From the matcher to a course -/

section
variable {text : Text} {b : Rulebook} {run : Matcher} (hr : ∀ {id path cursor o},
  (run id path cursor).result = .ok o → ∃ leaves, Course text b (.node id) path cursor o leaves)
include hr

theorem course_of_ofSequence {path : Path} : ∀ {items : List NodeId} {slot : Nat} {values : List Value}
    {cursor : Cursor} {best : Option Furthest} {o : Outcome},
    (Outcome.ofSequence run path items slot values cursor best).result = .ok o →
      ∃ leaves, Course text b (.items items slot values best) path cursor o leaves
  | [], _, _, _, _, _, h => by
    cases h
    exact ⟨_, .itemsDone⟩
  | item :: items, slot, values, cursor, best, o, h => by
    obtain ⟨o₁, h₁, h⟩ := Walk.result_bind_eq_ok.mp h
    obtain ⟨leaves, c₁⟩ := hr h₁
    dsimp only at h
    split at h
    · rename_i hv
      cases h
      exact ⟨leaves, .itemsFail c₁ hv⟩
    · rename_i value hv
      obtain ⟨leaves', c⟩ := course_of_ofSequence h
      exact ⟨leaves ++ leaves', .itemsNext c₁ hv c⟩

theorem course_of_ofChoice {path : Path} {cursor : Cursor} : ∀ {options : List NodeId} {slot : Nat}
    {best : Option Furthest} {o : Outcome}, (Outcome.ofChoice run path cursor options slot best).result = .ok o →
      ∃ leaves, Course text b (.options options slot best) path cursor o leaves
  | [], _, _, _, h => by
    cases h
    exact ⟨_, .optionsDone⟩
  | option :: options, slot, best, o, h => by
    obtain ⟨o₁, h₁, h⟩ := Walk.result_bind_eq_ok.mp h
    obtain ⟨leaves, c₁⟩ := hr h₁
    dsimp only at h
    split at h
    · rename_i hv
      cases h
      exact ⟨leaves, .optionsTake c₁ hv⟩
    · rename_i hv
      obtain ⟨leaves', c⟩ := course_of_ofChoice h
      exact ⟨leaves ++ leaves', .optionsNext c₁ (Bool.not_eq_true _ ▸ hv) c⟩

theorem course_of_ofRounds {path : Path} {child : NodeId} {least : Nat} {most : Option Nat} {start : Cursor} :
    ∀ {fuel : Nat} {values : List Value} {cursor : Cursor} {best : Option Furthest} {o : Outcome},
      (Outcome.ofRounds (run child (path.child child 0)) least most start fuel values cursor best).result = .ok o →
        ∃ leaves, Course text b (.rounds child least most start values best) path cursor o leaves
  | 0, _, _, _, _, h => by cases h
  | fuel + 1, values, cursor, best, o, h => by
    rw [Outcome.ofRounds] at h
    split at h
    · rename_i hm
      cases h
      exact ⟨_, .roundsFull hm⟩
    · rename_i hm
      rw [Bool.not_eq_true] at hm
      obtain ⟨o₁, h₁, h⟩ := Walk.result_bind_eq_ok.mp h
      obtain ⟨leaves, c₁⟩ := hr h₁
      dsimp only at h
      split at h
      · rename_i hv
        cases h
        exact ⟨leaves, .roundsFail hm c₁ hv⟩
      · rename_i value hv
        split at h
        · rename_i hs
          cases h
          exact ⟨leaves, .roundsStop hm c₁ hv hs⟩
        · rename_i hs
          obtain ⟨leaves', c⟩ := course_of_ofRounds h
          exact ⟨leaves ++ leaves', .roundsNext hm c₁ hv hs c⟩

end

theorem course_of_ofLeaf {text : Text} {b : Rulebook} {id : NodeId} {path : Path} {cursor : Cursor}
    {read : Text → Option (Value × Text × Text)} (hn : (b.node id).reader? = some read) {o : Outcome}
    (h : (Outcome.ofLeaf path cursor read).result = .ok o) :
    ∃ leaves, Course text b (.node id) path cursor o leaves := by
  rw [Outcome.ofLeaf] at h
  split at h
  · cases h
  · rename_i ahead hc
    split at h
    · rename_i hr
      cases h
      exact ⟨_, .hit hn hc hr⟩
    · rename_i hr
      cases h
      exact ⟨_, .miss hn hc hr⟩

/-- What the matcher answers at any depth has a course. -/
theorem course_of_matchNode {text : Text} : ∀ {depth : Nat} {b : Rulebook} {id : NodeId} {path : Path}
    {cursor : Cursor} {o : Outcome}, (b.matchNode text depth id path cursor).result = .ok o →
      ∃ leaves, Course text b (.node id) path cursor o leaves
  | 0, _, _, _, _, _, h => by cases h
  | depth + 1, b, id, path, cursor, o, h => by
    cases hn : b.node id with
    | literal t => simp only [Rulebook.matchNode, hn] at h; exact course_of_ofLeaf (by rw [hn]; rfl) h
    | pattern p => simp only [Rulebook.matchNode, hn] at h; exact course_of_ofLeaf (by rw [hn]; rfl) h
    | always => simp only [Rulebook.matchNode, hn] at h; cases h; exact ⟨_, .always hn⟩
    | never => simp only [Rulebook.matchNode, hn] at h; cases h; exact ⟨_, .never hn⟩
    | sequence items =>
      simp only [Rulebook.matchNode, hn] at h
      obtain ⟨leaves, c⟩ := course_of_ofSequence course_of_matchNode h
      exact ⟨leaves, .sequence hn c⟩
    | choice options =>
      simp only [Rulebook.matchNode, hn] at h
      obtain ⟨leaves, c⟩ := course_of_ofChoice course_of_matchNode h
      exact ⟨leaves, .choice hn c⟩
    | times child least most =>
      simp only [Rulebook.matchNode, hn] at h
      obtain ⟨leaves, c⟩ := course_of_ofRounds course_of_matchNode h
      exact ⟨leaves, .times hn c⟩
    | map child mapper =>
      simp only [Rulebook.matchNode, hn] at h
      obtain ⟨o₁, h₁, h⟩ := Walk.result_bind_eq_ok.mp h
      obtain ⟨leaves, c⟩ := course_of_matchNode h₁
      cases h
      exact ⟨leaves, .map hn c⟩
    | chain child next =>
      simp only [Rulebook.matchNode, hn] at h
      obtain ⟨first, h₁, h⟩ := Walk.result_bind_eq_ok.mp h
      obtain ⟨leaves, c⟩ := course_of_matchNode h₁
      split at h
      · rename_i hv
        cases h
        exact ⟨leaves, .chainFail hn c hv⟩
      · rename_i value hv
        obtain ⟨second, h₂, h⟩ := Walk.result_bind_eq_ok.mp h
        obtain ⟨leaves', c'⟩ := course_of_matchNode h₂
        cases h
        exact ⟨_, .chain hn c hv rfl c'⟩
    | look child polarity =>
      simp only [Rulebook.matchNode, hn] at h
      obtain ⟨o₁, h₁, h⟩ := Walk.result_bind_eq_ok.mp h
      obtain ⟨leaves, c⟩ := course_of_matchNode h₁
      cases h
      exact ⟨leaves, .look hn c⟩
    | deferred target =>
      simp only [Rulebook.matchNode, hn] at h
      obtain ⟨_, -, h⟩ := Walk.result_bind_eq_ok.mp h
      obtain ⟨leaves, c⟩ := course_of_matchNode h
      exact ⟨leaves, .deferred hn c⟩
    | named child label =>
      simp only [Rulebook.matchNode, hn] at h
      obtain ⟨leaves, c⟩ := course_of_matchNode h
      exact ⟨leaves, .named hn c⟩

/-! ## Courses move onward -/

/-- Where a task was begun: a repetition is begun before the rounds that are over. -/
def Task.origin (cursor : Cursor) : Task → Cursor
  | .rounds _ _ _ start _ _ => start
  | _ => cursor

theorem Cursor.reaches_endRounds {start cursor : Cursor} (h : start.Reaches cursor) (least : Nat)
    (values : List Value) (best : Option Furthest) :
    start.Reaches (Outcome.endRounds least start values cursor best).cursor := by
  unfold Outcome.endRounds
  split
  · exact .refl _
  · exact h

theorem Outcome.cursor_ofStages (path : Path) (first second : Outcome) :
    (Outcome.ofStages path first second).cursor = second.cursor := by
  unfold Outcome.ofStages
  split <;> rfl

theorem Outcome.cursor_ofLook (polarity : Polarity) (cursor : Cursor) (o : Outcome) :
    (Outcome.ofLook polarity cursor o).cursor = cursor := by
  unfold Outcome.ofLook
  dsimp only
  split <;> rfl

theorem Course.reaches_of_origin {text : Text} {b : Rulebook} {task : Task} {path : Path} {cursor : Cursor}
    {o : Outcome} {leaves : List Furthest} (h : Course text b task path cursor o leaves) :
    (task.origin cursor).Reaches cursor → (task.origin cursor).Reaches o.cursor := by
  induction h with
  | hit hn hc hr => exact fun _ => Cursor.reaches_of_read hn hc hr
  | miss | always | never | itemsDone | itemsFail | optionsDone => exact id
  | sequence _ _ ih | choice _ _ ih | times _ _ ih | deferred _ _ ih | named _ _ ih => exact fun _ => ih (.refl _)
  | map _ _ ih | chainFail _ _ _ ih | optionsTake _ _ ih => exact fun _ => ih (.refl _)
  | optionsNext _ _ _ _ ih => exact ih
  | itemsNext _ _ _ ih ih' => exact fun _ => (ih (.refl _)).trans (ih' (.refl _))
  | roundsFull => exact fun h => Cursor.reaches_endRounds h ..
  | roundsFail => exact fun h => Cursor.reaches_endRounds h ..
  | roundsStop _ _ _ _ ih => exact fun h => Cursor.reaches_endRounds (h.trans (ih (.refl _))) ..
  | roundsNext _ _ _ _ _ ih ih' => exact fun h => ih' (h.trans (ih (.refl _)))
  | chain _ _ _ _ _ ih ih' =>
    intro _
    rw [Outcome.cursor_ofStages]
    exact (ih (.refl _)).trans (ih' (.refl _))
  | look =>
    intro _
    rw [Outcome.cursor_ofLook]
    exact .refl _

theorem Course.reaches {text : Text} {b : Rulebook} {id : NodeId} {path : Path} {cursor : Cursor} {o : Outcome}
    {leaves : List Furthest} (h : Course text b (.node id) path cursor o leaves) : cursor.Reaches o.cursor :=
  h.reaches_of_origin (.refl _)

/-! ## From a course to the matcher -/

def Task.walk (run : Matcher) (path : Path) (cursor : Cursor) (fuel : Nat) : Task → Walk Outcome
  | .node id => run id path cursor
  | .items ids slot values best => Outcome.ofSequence run path ids slot values cursor best
  | .options ids slot best => Outcome.ofChoice run path cursor ids slot best
  | .rounds child least most start values best =>
    Outcome.ofRounds (run child (path.child child 0)) least most start fuel values cursor best

def Task.enough (cursor : Cursor) : Task → Nat
  | .rounds _ least _ _ values _ => least - values.length + (cursor.rest.getD []).length + 2
  | _ => 0

def Task.Settles (text : Text) (b : Rulebook) (path : Path) (cursor : Cursor) (o : Outcome) (task : Task) : Prop :=
  ∃ depth, ∀ n ≥ depth, ∀ fuel ≥ task.enough cursor,
    (task.walk (b.matchNode text n) path cursor fuel).result = .ok o

section
variable {text : Text} {b : Rulebook} {path : Path} {cursor : Cursor} {o : Outcome}

theorem settles_of_succ {id : NodeId} (depth : Nat)
    (h : ∀ n ≥ depth, (b.matchNode text (n + 1) id path cursor).result = .ok o) :
    (Task.node id).Settles text b path cursor o := by
  refine ⟨depth + 1, fun n hn fuel _ => ?_⟩
  obtain ⟨m, rfl⟩ : ∃ m, n = m + 1 := ⟨n - 1, by omega⟩
  exact h m (by omega)

theorem settles_of_reader {id : NodeId} {read : Text → Option (Value × Text × Text)}
    (hn : (b.node id).reader? = some read) (h : (Outcome.ofLeaf path cursor read).result = .ok o) :
    (Task.node id).Settles text b path cursor o := by
  refine settles_of_succ 0 fun n _ => ?_
  cases hb : b.node id <;> rw [hb] at hn <;> cases hn <;> simp only [Rulebook.matchNode, hb] <;> exact h

theorem Task.Settles.matchNode {id : NodeId} (h : (Task.node id).Settles text b path cursor o) :
    ∃ depth, ∀ n ≥ depth, (b.matchNode text n id path cursor).result = .ok o := by
  obtain ⟨depth, h⟩ := h
  exact ⟨depth, fun n hn => h n hn 0 (Nat.le_refl _)⟩

end

theorem Task.enough_eq_succ {child : NodeId} {least : Nat} {most : Option Nat} {start cursor : Cursor}
    {values : List Value} {best : Option Furthest} {fuel : Nat}
    (h : fuel ≥ (Task.rounds child least most start values best).enough cursor) : ∃ rest, fuel = rest + 1 :=
  ⟨fuel - 1, by simp only [Task.enough] at h; omega⟩

/-- What has a course is answered at every depth from some depth on. -/
theorem Course.settles {text : Text} {b : Rulebook} {task : Task} {path : Path} {cursor : Cursor} {o : Outcome}
    {leaves : List Furthest} (h : Course text b task path cursor o leaves) : task.Settles text b path cursor o := by
  induction h with
  | hit hn hc hr => exact settles_of_reader hn (by simp only [Outcome.ofLeaf, hc, hr]; rfl)
  | miss hn hc hr => exact settles_of_reader hn (by simp only [Outcome.ofLeaf, hc, hr]; rfl)
  | always hn => exact settles_of_succ 0 fun n _ => by simp only [Rulebook.matchNode, hn]; rfl
  | never hn => exact settles_of_succ 0 fun n _ => by simp only [Rulebook.matchNode, hn]; rfl
  | sequence hn _ ih | choice hn _ ih =>
    obtain ⟨d, hd⟩ := ih
    refine settles_of_succ d fun n hn' => ?_
    simp only [Rulebook.matchNode, hn]
    exact hd n hn' 0 (Nat.le_refl _)
  | times hn _ ih =>
    obtain ⟨d, hd⟩ := ih
    refine settles_of_succ d fun n hn' => ?_
    simp only [Rulebook.matchNode, hn]
    exact hd n hn' _ (Nat.le_refl _)
  | named hn _ ih =>
    obtain ⟨d, hd⟩ := ih.matchNode
    refine settles_of_succ d fun n hn' => ?_
    simp only [Rulebook.matchNode, hn]
    exact hd n hn'
  | deferred hn _ ih =>
    obtain ⟨d, hd⟩ := ih.matchNode
    refine settles_of_succ d fun n hn' => ?_
    simp only [Rulebook.matchNode, hn]
    rw [Walk.result_bind_of_ok (Walk.result_follow _)]
    exact hd n hn'
  | map hn _ ih | look hn _ ih =>
    obtain ⟨d, hd⟩ := ih.matchNode
    refine settles_of_succ d fun n hn' => ?_
    simp only [Rulebook.matchNode, hn]
    rw [Walk.result_bind_of_ok (hd n hn')]
    rfl
  | chainFail hn _ hv ih =>
    obtain ⟨d, hd⟩ := ih.matchNode
    refine settles_of_succ d fun n hn' => ?_
    simp only [Rulebook.matchNode, hn]
    rw [Walk.result_bind_of_ok (hd n hn')]
    simp only [hv]
    rfl
  | chain hn _ hv hp _ ih ih' =>
    obtain ⟨d, hd⟩ := ih.matchNode
    obtain ⟨d', hd'⟩ := ih'.matchNode
    refine settles_of_succ (max d d') fun n hn' => ?_
    simp only [Rulebook.matchNode, hn]
    rw [Walk.result_bind_of_ok (hd n (by omega))]
    simp only [hv, hp]
    rw [Walk.result_bind_of_ok (hd' n (by omega))]
    rfl
  | itemsDone => exact ⟨0, fun _ _ _ _ => rfl⟩
  | itemsFail _ hv ih =>
    obtain ⟨d, hd⟩ := ih.matchNode
    refine ⟨d, fun n hn fuel _ => ?_⟩
    simp only [Task.walk, Outcome.ofSequence]
    rw [Walk.result_bind_of_ok (hd n hn)]
    simp only [hv]
    rfl
  | itemsNext _ hv _ ih ih' =>
    obtain ⟨d, hd⟩ := ih.matchNode
    obtain ⟨d', hd'⟩ := ih'
    refine ⟨max d d', fun n hn fuel _ => ?_⟩
    simp only [Task.walk, Outcome.ofSequence]
    rw [Walk.result_bind_of_ok (hd n (by omega))]
    simp only [hv]
    exact hd' n (by omega) 0 (Nat.le_refl _)
  | optionsDone => exact ⟨0, fun _ _ _ _ => rfl⟩
  | optionsTake _ hv ih =>
    obtain ⟨d, hd⟩ := ih.matchNode
    refine ⟨d, fun n hn fuel _ => ?_⟩
    simp only [Task.walk, Outcome.ofChoice]
    rw [Walk.result_bind_of_ok (hd n hn), if_pos hv]
    rfl
  | optionsNext _ hv _ ih ih' =>
    obtain ⟨d, hd⟩ := ih.matchNode
    obtain ⟨d', hd'⟩ := ih'
    refine ⟨max d d', fun n hn fuel _ => ?_⟩
    simp only [Task.walk, Outcome.ofChoice]
    rw [Walk.result_bind_of_ok (hd n (by omega)), if_neg (by rw [hv]; exact Bool.false_ne_true)]
    exact hd' n (by omega) 0 (Nat.le_refl _)
  | roundsFull hm =>
    refine ⟨0, fun n _ fuel hf => ?_⟩
    obtain ⟨fuel, rfl⟩ := Task.enough_eq_succ hf
    simp only [Task.walk, Outcome.ofRounds]
    rw [if_pos hm]
    rfl
  | roundsFail hm _ hv ih =>
    obtain ⟨d, hd⟩ := ih.matchNode
    refine ⟨d, fun n hn fuel hf => ?_⟩
    obtain ⟨fuel, rfl⟩ := Task.enough_eq_succ hf
    simp only [Task.walk, Outcome.ofRounds]
    rw [if_neg (by rw [hm]; exact Bool.false_ne_true), Walk.result_bind_of_ok (hd n hn)]
    simp only [hv]
    rfl
  | roundsStop hm _ hv hs ih =>
    obtain ⟨d, hd⟩ := ih.matchNode
    refine ⟨d, fun n hn fuel hf => ?_⟩
    obtain ⟨fuel, rfl⟩ := Task.enough_eq_succ hf
    simp only [Task.walk, Outcome.ofRounds]
    rw [if_neg (by rw [hm]; exact Bool.false_ne_true), Walk.result_bind_of_ok (hd n hn)]
    simp only [hv]
    rw [if_pos hs]
    rfl
  | roundsNext hm h hv hs _ ih ih' =>
    obtain ⟨d, hd⟩ := ih.matchNode
    obtain ⟨d', hd'⟩ := ih'
    refine ⟨max d d', fun n hn fuel hf => ?_⟩
    obtain ⟨fuel, rfl⟩ := Task.enough_eq_succ hf
    simp only [Task.walk, Outcome.ofRounds]
    rw [if_neg (by rw [hm]; exact Bool.false_ne_true),
      Walk.result_bind_of_ok (hd n (by omega))]
    simp only [hv]
    rw [if_neg hs]
    refine hd' n (by omega) fuel ?_
    -- a round that is not the last reads text or is one of the least number
    have hl := h.reaches.length_le
    have hlt := h.reaches.length_lt
    simp only [Task.enough, List.length_cons] at hf hs ⊢
    omega

/-! ## One course for each task -/

theorem Course.unique {text : Text} {b : Rulebook} {task : Task} {path : Path} {cursor : Cursor} {o o' : Outcome}
    {leaves leaves' : List Furthest} (h : Course text b task path cursor o leaves)
    (h' : Course text b task path cursor o' leaves') : o' = o ∧ leaves' = leaves := by
  induction h generalizing o' leaves' with
  | hit hn hc hr => cases h' <;> simp_all [Node.reader?]
  | miss hn hc hr => cases h' <;> simp_all [Node.reader?]
  | always hn => cases h' <;> simp_all [Node.reader?]
  | never hn => cases h' <;> simp_all [Node.reader?]
  | sequence hn _ ih =>
    cases h' with
    | sequence hn' h' => cases hn.symm.trans hn'; exact ih h'
    | _ => simp_all [Node.reader?]
  | choice hn _ ih =>
    cases h' with
    | choice hn' h' => cases hn.symm.trans hn'; exact ih h'
    | _ => simp_all [Node.reader?]
  | times hn _ ih =>
    cases h' with
    | times hn' h' => cases hn.symm.trans hn'; exact ih h'
    | _ => simp_all [Node.reader?]
  | deferred hn _ ih =>
    cases h' with
    | deferred hn' h' => cases hn.symm.trans hn'; exact ih h'
    | _ => simp_all [Node.reader?]
  | named hn _ ih =>
    cases h' with
    | named hn' h' => cases hn.symm.trans hn'; exact ih h'
    | _ => simp_all [Node.reader?]
  | map hn _ ih =>
    cases h' with
    | map hn' h' => cases hn.symm.trans hn'; obtain ⟨rfl, rfl⟩ := ih h'; exact ⟨rfl, rfl⟩
    | _ => simp_all [Node.reader?]
  | look hn _ ih =>
    cases h' with
    | look hn' h' => cases hn.symm.trans hn'; obtain ⟨rfl, rfl⟩ := ih h'; exact ⟨rfl, rfl⟩
    | _ => simp_all [Node.reader?]
  | chainFail hn _ hv ih =>
    cases h' with
    | chainFail hn' h' => cases hn.symm.trans hn'; exact ih h'
    | chain hn' h' hv' => cases hn.symm.trans hn'; obtain ⟨rfl, rfl⟩ := ih h'; cases hv.symm.trans hv'
    | _ => simp_all [Node.reader?]
  | chain hn _ hv hp _ ih ih' =>
    cases h' with
    | chainFail hn' h' hv' => cases hn.symm.trans hn'; obtain ⟨rfl, rfl⟩ := ih h'; cases hv.symm.trans hv'
    | chain hn' h' hv' hp' h'' =>
      cases hn.symm.trans hn'
      obtain ⟨rfl, rfl⟩ := ih h'
      cases hv.symm.trans hv'
      cases hp.symm.trans hp'
      obtain ⟨rfl, rfl⟩ := ih' h''
      exact ⟨rfl, rfl⟩
    | _ => simp_all [Node.reader?]
  | itemsDone => cases h'; exact ⟨rfl, rfl⟩
  | itemsFail _ hv ih =>
    cases h' with
    | itemsFail h' => obtain ⟨rfl, rfl⟩ := ih h'; exact ⟨rfl, rfl⟩
    | itemsNext h' hv' => obtain ⟨rfl, rfl⟩ := ih h'; cases hv.symm.trans hv'
  | itemsNext _ hv _ ih ih' =>
    cases h' with
    | itemsFail h' hv' => obtain ⟨rfl, rfl⟩ := ih h'; cases hv.symm.trans hv'
    | itemsNext h' hv' h'' =>
      obtain ⟨rfl, rfl⟩ := ih h'
      cases hv.symm.trans hv'
      obtain ⟨rfl, rfl⟩ := ih' h''
      exact ⟨rfl, rfl⟩
  | optionsDone => cases h'; exact ⟨rfl, rfl⟩
  | optionsTake _ hv ih =>
    cases h' with
    | optionsTake h' => obtain ⟨rfl, rfl⟩ := ih h'; exact ⟨rfl, rfl⟩
    | optionsNext h' hv' => obtain ⟨rfl, rfl⟩ := ih h'; cases hv.symm.trans hv'
  | optionsNext _ hv _ ih ih' =>
    cases h' with
    | optionsTake h' hv' => obtain ⟨rfl, rfl⟩ := ih h'; cases hv.symm.trans hv'
    | optionsNext h' hv' h'' =>
      obtain ⟨rfl, rfl⟩ := ih h'
      obtain ⟨rfl, rfl⟩ := ih' h''
      exact ⟨rfl, rfl⟩
  | roundsFull hm => cases h' <;> simp_all
  | roundsFail hm _ hv ih =>
    cases h' with
    | roundsFull hm' => cases hm.symm.trans hm'
    | roundsFail _ h' => obtain ⟨rfl, rfl⟩ := ih h'; exact ⟨rfl, rfl⟩
    | roundsStop _ h' hv' => obtain ⟨rfl, rfl⟩ := ih h'; cases hv.symm.trans hv'
    | roundsNext _ h' hv' => obtain ⟨rfl, rfl⟩ := ih h'; cases hv.symm.trans hv'
  | roundsStop hm _ hv hs ih =>
    cases h' with
    | roundsFull hm' => cases hm.symm.trans hm'
    | roundsFail _ h' hv' => obtain ⟨rfl, rfl⟩ := ih h'; cases hv.symm.trans hv'
    | roundsStop _ h' hv' => obtain ⟨rfl, rfl⟩ := ih h'; cases hv.symm.trans hv'; exact ⟨rfl, rfl⟩
    | roundsNext _ h' hv' hs' => obtain ⟨rfl, rfl⟩ := ih h'; cases hv.symm.trans hv'; exact absurd hs hs'
  | roundsNext hm _ hv hs _ ih ih' =>
    cases h' with
    | roundsFull hm' => cases hm.symm.trans hm'
    | roundsFail _ h' hv' => obtain ⟨rfl, rfl⟩ := ih h'; cases hv.symm.trans hv'
    | roundsStop _ h' hv' hs' => obtain ⟨rfl, rfl⟩ := ih h'; cases hv.symm.trans hv'; exact absurd hs' hs
    | roundsNext _ h' hv' _ h'' =>
      obtain ⟨rfl, rfl⟩ := ih h'
      cases hv.symm.trans hv'
      obtain ⟨rfl, rfl⟩ := ih' h''
      exact ⟨rfl, rfl⟩

end FurthestMatch
