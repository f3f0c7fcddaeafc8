import FurthestMatch.Proofs.Surfacing

/-!
# Matches come to an end

A match runs on for ever only by coming back to a node at the place where it was before. Where the nodes can be ranked
so that the rank falls on every way that reads nothing, that cannot happen: what is left of the text becomes shorter,
or the rank falls. A repetition may take rounds that read nothing, but none after the least number.
-/

namespace FurthestMatch

/-! ## Walks at greater and greater depth -/

/-- From some depth on a walk comes to the same end, and not for want of depth. -/
def Settled {α : Type} (w : Nat → Walk α) : Prop :=
  ∃ depth last, last ≠ .error .exhausted ∧ ∀ n ≥ depth, (w n).result = last

namespace Settled

variable {α β : Type} {w : Nat → Walk α}

theorem const {w : Walk α} (h : w.result ≠ .error .exhausted) : Settled fun _ => w :=
  ⟨0, w.result, h, fun _ _ => rfl⟩

theorem of_ok {w : Walk α} {a : α} (h : w.result = .ok a) : Settled fun _ => w := by
  refine const fun he => ?_
  cases h.symm.trans he

theorem pure (a : α) : Settled fun _ => (Pure.pure a : Walk α) :=
  of_ok rfl

theorem succ (h : Settled fun n => w (n + 1)) : Settled w := by
  obtain ⟨depth, last, hl, hw⟩ := h
  refine ⟨depth + 1, last, hl, fun n hn => ?_⟩
  obtain ⟨m, rfl⟩ : ∃ m, n = m + 1 := ⟨n - 1, by omega⟩
  exact hw m (by omega)

theorem bind {f : Nat → α → Walk β} (h : Settled w) (hf : ∀ n a, (w n).result = .ok a → Settled fun n => f n a) :
    Settled fun n => w n >>= f n := by
  obtain ⟨depth, last, hl, hw⟩ := h
  cases last with
  | error halt =>
    refine ⟨depth, .error halt, by simpa using hl, fun n hn => ?_⟩
    rw [Walk.result_bind, hw n hn]
    rfl
  | ok a =>
    obtain ⟨depth', last', hl', hw'⟩ := hf depth a (hw depth (Nat.le_refl _))
    refine ⟨max depth depth', last', hl', fun n hn => ?_⟩
    rw [Walk.result_bind_of_ok (hw n (by omega))]
    exact hw' n (by omega)

end Settled

/-! ## Places reached from a place -/

namespace Cursor

variable {text : Text} {c d : Cursor}

def IsOf (text : Text) (c : Cursor) : Prop :=
  c = ofOffset text c.offset

theorem isOf_ofOffset (text : Text) (position : Nat) : (ofOffset text position).IsOf text := rfl

theorem Reaches.isOf (h : c.Reaches d) (hc : c.IsOf text) : d.IsOf text := by
  rcases h with rfl | ⟨passed, rest, hr, rfl⟩
  · exact hc
  · have hw : c.Within text := by
      rw [hc] at hr ⊢
      obtain ⟨⟨before, after⟩, hs, -⟩ := Option.map_eq_some_iff.mp hr
      obtain ⟨ht, hb⟩ := Text.splitAt_eq_some hs
      exact .ofOffset ⟨before, after, ht, hb⟩
    exact (hw.reaches (.inr ⟨passed, rest, hr, rfl⟩)).eq_ofOffset

theorem Reaches.eq_or_lt (h : c.Reaches d) : d = c ∨ c.offset < d.offset := by
  rcases h with rfl | ⟨passed, rest, hr, rfl⟩
  · exact .inl rfl
  · by_cases hp : passed = []
    · subst hp
      left
      rw [List.nil_append] at hr
      obtain ⟨offset, ahead⟩ := c
      simp only at hr
      rw [hr]
      rfl
    · right
      have : Text.size passed ≠ 0 := fun h => hp (Text.size_eq_zero_iff.mp h)
      simp only [advance]
      omega

end Cursor

/-! ## From node to node -/

namespace Rulebook

variable {text : Text} {b b' : Rulebook} {id id' : NodeId}

def CanPass (b : Rulebook) (text : Text) (id : NodeId) : Prop :=
  ∃ path position o leaves, Course text b (.node id) path (Cursor.ofOffset text position) o leaves ∧
    o.succeeded = true ∧ o.cursor.offset = position

/-- What the matcher may go on to from a node. A node that a continuation plants stands in a rulebook of its own. -/
inductive Moves (text : Text) (b : Rulebook) (id : NodeId) : Rulebook → NodeId → Prop
  | inner {next} (h : b.inner? id = some next) : Moves text b id b next
  | child {child} (h : child ∈ (b.node id).children) : Moves text b id b child
  | stage {child next path position first leaves value stage b'} (hn : b.node id = .chain child next)
      (h : Course text b (.node child) path (Cursor.ofOffset text position) first leaves)
      (hv : first.value = some value)
      (hp : b.plant (b.graph.continuation next value text first.cursor) = (stage, b')) : Moves text b id b' stage

inductive MovesAtOnce (text : Text) (b : Rulebook) (id : NodeId) : Rulebook → NodeId → Prop
  | inner {next} (h : b.inner? id = some next) : MovesAtOnce text b id b next
  | item {before item after} (hn : b.node id = .sequence (before ++ item :: after))
      (h : ∀ earlier ∈ before, b.CanPass text earlier) : MovesAtOnce text b id b item
  | option {options option} (hn : b.node id = .choice options) (h : option ∈ options) : MovesAtOnce text b id b option
  | wrapped {child} (h : (b.node id).wrapped? = some child) : MovesAtOnce text b id b child
  | stage {child next path position first leaves value stage b'} (hn : b.node id = .chain child next)
      (h : Course text b (.node child) path (Cursor.ofOffset text position) first leaves)
      (hv : first.value = some value) (hs : first.cursor.offset = position)
      (hp : b.plant (b.graph.continuation next value text first.cursor) = (stage, b')) : MovesAtOnce text b id b' stage

theorem MovesAtOnce.moves (h : MovesAtOnce text b id b' id') : Moves text b id b' id' := by
  cases h with
  | inner h => exact .inner h
  | item hn => exact .child (by simp [hn, Node.children])
  | option hn h => exact .child (by rw [hn]; exact h)
  | wrapped h => exact .child (by simp [Node.children_of_wrapped h])
  | stage hn h hv _ hp => exact .stage hn h hv hp

/-- The nodes that the matcher may come to from a node, with the rulebooks that they stand in. -/
inductive Visits (text : Text) (b : Rulebook) (id : NodeId) : Rulebook → NodeId → Prop
  | start : Visits text b id b id
  | move {b₁ id₁ b₂ id₂} (h : Visits text b id b₁ id₁) (hm : Moves text b₁ id₁ b₂ id₂) : Visits text b id b₂ id₂

/-- The nodes that the matcher may come to can be ranked so that the rank falls wherever nothing is read. -/
def NotLeftRecursive (text : Text) (b : Rulebook) (id : NodeId) : Prop :=
  ∃ rank : Rulebook → NodeId → Nat, ∀ b₁ id₁ b₂ id₂, Visits text b id b₁ id₁ → MovesAtOnce text b₁ id₁ b₂ id₂ →
    rank b₂ id₂ < rank b₁ id₁

/-- Whatever the matcher goes on to from a node at a place settles; at that place itself only what it may go on to
at once is asked for. -/
def SettlesFrom (text : Text) (b : Rulebook) (id : NodeId) (place : Cursor) : Prop :=
  ∀ b' id' path cursor, Moves text b id b' id' → place.Reaches cursor →
    (cursor = place → MovesAtOnce text b id b' id') → Settled fun n => b'.matchNode text n id' path cursor

end Rulebook

/-! ## One node after what it goes on to -/

theorem settled_ofLeaf (path : Path) (cursor : Cursor) (read : Text → Option (Value × Text × Text)) :
    Settled fun _ => Outcome.ofLeaf path cursor read := by
  rw [Outcome.ofLeaf]
  split
  · exact .const (by simp)
  · split
    · exact .pure _
    · exact .pure _

section
variable {text : Text} {b : Rulebook} {id : NodeId} {place : Cursor} (hs : b.SettlesFrom text id place)
include hs

theorem settled_ofSequence {items : List NodeId} (hn : b.node id = .sequence items) (hp : place.IsOf text)
    {path : Path} : ∀ (rest before : List NodeId) (slot : Nat) (values : List Value) (cursor : Cursor)
      (best : Option Furthest), items = before ++ rest → place.Reaches cursor →
        (cursor = place → ∀ item ∈ before, b.CanPass text item) →
          Settled fun n => Outcome.ofSequence (b.matchNode text n) path rest slot values cursor best
  | [], _, _, _, _, _, _, _, _ => .pure _
  | item :: rest, before, slot, values, cursor, best, hi, hc, hb => by
    have hm : item ∈ (b.node id).children := by simp [hn, hi, Node.children]
    refine .bind (hs b item _ cursor (.child hm) hc fun he => .item (hi ▸ hn) (hb he)) fun n o ho => ?_
    dsimp only
    split
    · exact .pure _
    · rename_i value hv
      have hr := reaches_of_matchNode ho
      refine settled_ofSequence hn hp rest (before ++ [item]) _ _ _ _ (by simp [hi]) (hc.trans hr) fun he => ?_
      -- nothing is read on a way back to the place
      have hcursor : cursor = place := hc.eq_or_lt.resolve_right fun hl => by
        have := hr.le
        rw [he] at this
        omega
      intro earlier hm'
      rcases List.mem_append.mp hm' with h | h
      · exact hb hcursor earlier h
      · rw [List.mem_singleton.mp h]
        subst hcursor
        obtain ⟨leaves, c⟩ := course_of_matchNode ho
        rw [hp] at c
        exact ⟨_, _, o, leaves, c, by rw [Outcome.succeeded, hv]; rfl, by rw [he]⟩

theorem settled_ofChoice {options : List NodeId} (hn : b.node id = .choice options) {path : Path} :
    ∀ (rest : List NodeId) (slot : Nat) (best : Option Furthest), (∀ option ∈ rest, option ∈ options) →
      Settled fun n => Outcome.ofChoice (b.matchNode text n) path place rest slot best
  | [], _, _, _ => .pure _
  | option :: rest, slot, best, hm => by
    have ho : option ∈ options := hm option (by simp)
    refine .bind (hs b option _ place (.child (by rw [hn]; exact ho)) (.refl _) fun _ => .option hn ho) fun n o _ => ?_
    dsimp only
    split
    · exact .pure _
    · exact settled_ofChoice hn rest _ _ fun option h => hm option (by simp [h])

theorem settled_ofRounds {child : NodeId} {least : Nat} {most : Option Nat} (hn : b.node id = .times child least most)
    {start : Cursor} {path : Path} : ∀ (fuel : Nat) (values : List Value) (cursor : Cursor) (best : Option Furthest),
      place.Reaches cursor → (Task.rounds child least most start values best).enough cursor ≤ fuel →
        Settled fun n =>
          Outcome.ofRounds (b.matchNode text n child (path.child child 0)) least most start fuel values cursor best
  | 0, _, _, _, _, hf => absurd hf (by simp [Task.enough])
  | fuel + 1, values, cursor, best, hc, hf => by
    simp only [Outcome.ofRounds]
    split
    · exact .pure _
    · have hm : Rulebook.Moves text b id b child := .child (by simp [hn, Node.children])
      refine .bind (hs b child _ cursor hm hc fun _ => .wrapped (by rw [hn]; rfl)) fun n o ho => ?_
      split
      · exact .pure _
      · split
        · exact .pure _
        · rename_i hstop
          have hr := reaches_of_matchNode ho
          refine settled_ofRounds hn fuel _ _ _ (hc.trans hr) ?_
          -- the round was one of the least number, or less is left of the text
          have hl := hr.length_le
          have := hr.length_lt
          simp only [Task.enough, List.length_cons] at hf hstop ⊢
          omega

theorem settled_of_settlesFrom (hp : place.IsOf text) (path : Path) :
    Settled fun n => b.matchNode text n id path place := by
  refine .succ ?_
  have wrapped {child : NodeId} (h : (b.node id).wrapped? = some child) :
      Settled fun n => b.matchNode text n child (path.child child 0) place :=
    hs b child _ place (.child (by simp [Node.children_of_wrapped h])) (.refl _) fun _ => .wrapped h
  have inner {next : NodeId} (h : b.inner? id = some next) : Settled fun n => b.matchNode text n next path place :=
    hs b next path place (.inner h) (.refl _) fun _ => .inner h
  cases hn : b.node id with
  | literal | pattern => simp only [Rulebook.matchNode, hn]; exact settled_ofLeaf _ _ _
  | always | never => simp only [Rulebook.matchNode, hn]; exact .pure _
  | sequence items =>
    simp only [Rulebook.matchNode, hn]
    exact settled_ofSequence hs hn hp items [] 0 [] place none rfl (.refl _) fun _ => by simp
  | choice options =>
    simp only [Rulebook.matchNode, hn]
    exact settled_ofChoice hs hn options 0 none fun _ h => h
  | times child least most =>
    simp only [Rulebook.matchNode, hn]
    exact settled_ofRounds hs hn _ [] place none (.refl _) (by simp [Task.enough, Outcome.roundLimit])
  | map | look =>
    simp only [Rulebook.matchNode, hn]
    exact .bind (wrapped (by rw [hn]; rfl)) fun _ _ _ => .pure _
  | chain child next =>
    simp only [Rulebook.matchNode, hn]
    refine .bind (wrapped (by rw [hn]; rfl)) fun n first hf => ?_
    split
    · exact .pure _
    · rename_i value hv
      obtain ⟨leaves, c⟩ := course_of_matchNode hf
      rw [hp] at c
      refine .bind (hs _ _ _ first.cursor (.stage hn c hv rfl) (reaches_of_matchNode hf) fun he => ?_)
        fun _ _ _ => .pure _
      exact .stage hn c hv (by rw [he]) rfl
  | deferred target =>
    simp only [Rulebook.matchNode, hn]
    exact .bind (.of_ok (Walk.result_follow id)) fun _ _ _ => inner (Rulebook.inner?_deferred hn)
  | named child =>
    simp only [Rulebook.matchNode, hn]
    exact inner (Rulebook.inner?_named hn)

end

/-! ## The whole match -/

theorem settled_of_visits {text : Text} {b : Rulebook} {id : NodeId} {rank : Rulebook → NodeId → Nat}
    (hrank : ∀ b₁ id₁ b₂ id₂, Rulebook.Visits text b id b₁ id₁ → Rulebook.MovesAtOnce text b₁ id₁ b₂ id₂ →
      rank b₂ id₂ < rank b₁ id₁) (b₁ : Rulebook) (id₁ : NodeId) (hv : Rulebook.Visits text b id b₁ id₁) (path : Path)
    (place : Cursor) (hp : place.IsOf text) : Settled fun n => b₁.matchNode text n id₁ path place := by
  refine settled_of_settlesFrom (fun b₂ id₂ path₂ cursor hm hc hat => ?_) hp path
  -- wherever the matcher goes on to, less is left of the text, or the rank is lower
  rcases hc.eq_or_lt with he | hl
  · exact settled_of_visits hrank b₂ id₂ (.move hv hm) path₂ cursor (he ▸ hp)
  · exact settled_of_visits hrank b₂ id₂ (.move hv hm) path₂ cursor (hc.isOf hp)
termination_by ((place.rest.getD []).length, rank b₁ id₁)
decreasing_by
  · rw [he]
    exact .right _ (hrank b₁ id₁ b₂ id₂ hv (hat he))
  · exact .left _ _ (hc.length_lt hl)

/-- Where the nodes can be ranked, a match comes to an end at every offset: from some depth on the matcher comes to one
and the same result, which is an outcome wherever the offset is a place of the text. -/
theorem terminates_of_notLeftRecursive {text : Text} {b : Rulebook} {id : NodeId}
    (h : b.NotLeftRecursive text id) (path : Path) (position : Nat) :
    ∃ depth last, last ≠ .error .exhausted ∧ (text.IsBoundary position → ∃ o, last = .ok o) ∧
      ∀ n ≥ depth, (b.matchNode text n id path (Cursor.ofOffset text position)).result = last := by
  obtain ⟨rank, hrank⟩ := h
  obtain ⟨depth, last, hl, hd⟩ := settled_of_visits hrank b id .start path _ (Cursor.isOf_ofOffset text position)
  refine ⟨depth, last, hl, fun hb => ?_, hd⟩
  have ha : (b.matchNode text depth id path (Cursor.ofOffset text position)).Aligned :=
    aligned_matchNode depth (.ofOffset hb)
  have := ha.ne
  rw [hd depth (Nat.le_refl _)] at this
  match last, hl, this with
  | .ok o, _, _ => exact ⟨o, rfl⟩
  | .error .exhausted, hl, _ => exact absurd rfl hl
  | .error .misaligned, _, hm => exact absurd rfl hm

theorem not_canPass_of_literal {text : Text} {b : Rulebook} {id : NodeId} {literal : String}
    (hn : b.node id = .literal literal) (hl : literal.toList ≠ []) : ¬b.CanPass text id := by
  rintro ⟨path, position, o, leaves, c, hs, ho⟩
  have hreader : (b.node id).reader? = some (Rulebook.readLiteral literal) := by rw [hn]; rfl
  cases c with
  | hit hr hc hv =>
    cases hreader.symm.trans hr
    obtain ⟨rest, -, he⟩ := Option.map_eq_some_iff.mp hv
    cases he
    have : Text.size literal.toList ≠ 0 := fun h => hl (Text.size_eq_zero_iff.mp h)
    simp only [Outcome.matched, Cursor.advance, Cursor.ofOffset] at ho
    omega
  | miss => cases hs
  | _ => simp_all

def rows : Rulebook where
  graph := {
    nodes := #[.literal "a", .always, .times 1 0 none, .sequence [2, 0, 4], .deferred (.node 5), .choice [3, 6],
      .chain 1 0]
    continuations := #[fun _ _ _ => .times .always 0 none] }

def rowsEnd : Rulebook :=
  (rows.plant (.times .always 0 none)).2

def rowsRank (id : NodeId) : Nat :=
  [0, 0, 1, 2, 4, 3, 2, 0, 1].getD id 0

theorem rows_moves {text : Text} {b : Rulebook} {id id' : NodeId} (h : id < 7)
    (hm : Rulebook.Moves text rows id b id') :
    b = rows ∧ id' < 7 ∧ (id = 3 ∨ rowsRank id' < rowsRank id) ∨ b = rowsEnd ∧ id = 6 ∧ id' = 8 := by
  cases hm with
  | inner hi =>
    have : ∀ id < 7, ∀ next ∈ rows.inner? id, next < 7 ∧ (id = 3 ∨ rowsRank next < rowsRank id) := by decide
    exact .inl ⟨rfl, this id h _ hi⟩
  | child hc =>
    have : ∀ id < 7, ∀ child ∈ (rows.node id).children, child < 7 ∧ (id = 3 ∨ rowsRank child < rowsRank id) := by
      decide
    exact .inl ⟨rfl, this id h _ hc⟩
  | stage hn _ _ hp =>
    have : ∀ id < 7, (rows.node id).kind = "Chain" → id = 6 := by decide
    obtain rfl := this id h (by rw [hn]; rfl)
    cases hn
    cases hp
    exact .inr ⟨rfl, rfl, rfl⟩

theorem rowsEnd_moves {text : Text} {b : Rulebook} {id id' : NodeId} (h : 7 ≤ id ∧ id < 9)
    (hm : Rulebook.Moves text rowsEnd id b id') : b = rowsEnd ∧ (7 ≤ id' ∧ id' < 9) ∧ rowsRank id' < rowsRank id := by
  have none (id) (h : id < 9) : 7 ≤ id → rowsEnd.inner? id = none ∧ (rowsEnd.node id).kind ≠ "Chain" := by
    revert id
    decide
  cases hm with
  | inner hi => cases (none id h.2 h.1).1.symm.trans hi
  | child hc =>
    have : ∀ id < 9, 7 ≤ id → ∀ child ∈ (rowsEnd.node id).children,
      (7 ≤ child ∧ child < 9) ∧ rowsRank child < rowsRank id := by decide
    exact ⟨rfl, this id h.2 h.1 _ hc⟩
  | stage hn => exact absurd (by rw [hn]; rfl) (none id h.2 h.1).2

theorem rowsRank_of_item {text : Text} {before after : List NodeId} {item : NodeId}
    (hn : rows.node 3 = .sequence (before ++ item :: after)) (hb : ∀ earlier ∈ before, rows.CanPass text earlier) :
    rowsRank item < rowsRank 3 := by
  have hi : [2, 0, 4] = before ++ item :: after := Node.sequence.inj hn
  rcases before with _ | ⟨first, _ | ⟨second, before⟩⟩
  · cases hi
    decide
  · cases hi
    decide
  · -- the item that refers back to the rule comes after an `a`
    simp only [List.cons_append, List.cons.injEq] at hi
    exact absurd (hb 0 (by simp [hi.2.1])) (not_canPass_of_literal rfl (by decide))

theorem rows_notLeftRecursive (text : Text) : rows.NotLeftRecursive text 5 := by
  refine ⟨fun _ => rowsRank, fun b₁ id₁ b₂ id₂ hv hm => ?_⟩
  have stands : b₁ = rows ∧ id₁ < 7 ∨ b₁ = rowsEnd ∧ 7 ≤ id₁ ∧ id₁ < 9 := by
    clear hm
    induction hv with
    | start => exact .inl ⟨rfl, by decide⟩
    | move _ hm ih =>
      rcases ih with ⟨rfl, h⟩ | ⟨rfl, h⟩
      · rcases rows_moves h hm with ⟨rfl, h', -⟩ | ⟨rfl, -, rfl⟩
        · exact .inl ⟨rfl, h'⟩
        · exact .inr ⟨rfl, by decide⟩
      · obtain ⟨rfl, h', -⟩ := rowsEnd_moves h hm
        exact .inr ⟨rfl, h'⟩
  rcases stands with ⟨rfl, h⟩ | ⟨rfl, h⟩
  · rcases rows_moves h hm.moves with ⟨-, -, rfl | hr⟩ | ⟨-, rfl, rfl⟩
    · cases hm with
      | inner hi => cases hi
      | option hn => cases hn
      | wrapped hw => cases hw
      | stage hn => cases hn
      | item hn hb => exact rowsRank_of_item hn hb
    · exact hr
    · exact (by decide : rowsRank 8 < rowsRank 6)
  · exact (rowsEnd_moves h hm.moves).2.2

theorem terminates_of_rows : ∃ depth o, ∀ n ≥ depth,
    (rows.matchNode ['a', 'a', 'b'] n 5 (Path.root 5) (Cursor.ofOffset ['a', 'a', 'b'] 1)).result = .ok o := by
  obtain ⟨depth, last, -, hb, hd⟩ :=
    terminates_of_notLeftRecursive (rows_notLeftRecursive ['a', 'a', 'b']) (Path.root 5) 1
  obtain ⟨o, rfl⟩ := hb ⟨['a'], ['a', 'b'], rfl, rfl⟩
  exact ⟨depth, o, hd⟩

end FurthestMatch
