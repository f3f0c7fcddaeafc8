import FurthestMatch.Proofs.Surfacing

/-!
# Where a kept match stands

The occurrence of the match that is kept lies below the one that was matched. The way down to it goes from child to
child of the grammar as it was before the match. It never goes into the second stage of a chain, since whatever is
reached there is put down to the chain.
-/

namespace FurthestMatch

/-- A leaf that may match, or a chain. -/
def Node.IsKept (n : Node) : Prop :=
  (∃ text, n = .literal text) ∨ (∃ leaf, n = .pattern leaf) ∨ n = .always ∨ ∃ child next, n = .chain child next

theorem Node.isKept_of_reader? {n : Node} {read : Text → Option (Value × Text × Text)} (h : n.reader? = some read) :
    n.IsKept := by
  cases n with
  | literal text => exact .inl ⟨text, rfl⟩
  | pattern leaf => exact .inr (.inl ⟨leaf, rfl⟩)
  | _ => cases h

namespace Rulebook

variable {b : Rulebook} {id next final : NodeId} {start path : Path}

theorem inner?_of_isKept (h : (b.node id).IsKept) : b.inner? id = none := by
  unfold inner?
  rcases h with ⟨_, h⟩ | ⟨_, h⟩ | h | ⟨_, _, h⟩ <;> rw [h]

/-- A path leads down from an occurrence, where a node is matched, to one where the last node is. -/
inductive Below (b : Rulebook) (id : NodeId) (start : Path) : Path → NodeId → Prop
  | here {last} (h : b.Resolves id last) : Below b id start start last
  | child {path outer child slot last} (h : Below b id start path outer)
      (hc : (b.node outer).children[slot]? = some child) (hr : b.Resolves child last) :
      Below b id start (path.child child slot) last

theorem Below.of_inner (hi : b.inner? id = some next) (h : b.Below next start path final) :
    b.Below id start path final := by
  induction h with
  | here h => exact .here (.of_leads (.step hi (.refl _)) h)
  | child _ hc hr ih => exact .child ih hc hr

theorem Below.of_child {child : NodeId} {slot : Nat} (hc : (b.node id).children[slot]? = some child)
    (h : b.Below child (start.child child slot) path final) : b.Below id start path final := by
  induction h with
  | here h => exact .child (.here (.refl (inner?_of_children hc))) hc h
  | child _ hc hr ih => exact .child ih hc hr

end Rulebook

open Rulebook

/-! ## What a match keeps -/

def Furthest.KeptBelow (b : Rulebook) (id : NodeId) (start : Path) (best : Option Furthest) : Prop :=
  ∀ f, best = some f → ∃ last, b.Below id start f.path last ∧ (b.node last).IsKept

namespace Furthest.KeptBelow

variable {b : Rulebook} {id next child : NodeId} {start : Path} {best best' : Option Furthest}

theorem none : KeptBelow b id start none := by
  intro f hf
  cases hf

theorem own (h : (b.node id).IsKept) (best : Option Furthest) :
    KeptBelow b id start (best.map (putDownTo start)) := by
  intro f hf
  obtain ⟨g, -, rfl⟩ := Option.map_eq_some_iff.mp hf
  exact ⟨id, .here (.refl (inner?_of_isKept h)), h⟩

theorem merge (h : KeptBelow b id start best) (h' : KeptBelow b id start best') :
    KeptBelow b id start (Furthest.merge best best') := by
  unfold Furthest.merge
  split
  · exact h'
  · exact h

theorem of_inner (hi : b.inner? id = some next) (h : KeptBelow b next start best) : KeptBelow b id start best := by
  intro f hf
  obtain ⟨last, hl, hk⟩ := h f hf
  exact ⟨last, hl.of_inner hi, hk⟩

theorem of_child {slot : Nat} (hc : (b.node id).children[slot]? = some child)
    (h : KeptBelow b child (start.child child slot) best) : KeptBelow b id start best := by
  intro f hf
  obtain ⟨last, hl, hk⟩ := h f hf
  exact ⟨last, hl.of_child hc, hk⟩

theorem of_wrapped (hw : (b.node id).wrapped? = some child) (h : KeptBelow b child (start.child child 0) best) :
    KeptBelow b id start best := by
  refine .of_child ?_ h
  rw [Node.children_of_wrapped hw]
  rfl

end Furthest.KeptBelow

def Task.KeepsBelow (b : Rulebook) (path : Path) (best : Option Furthest) : Task → Prop
  | .node id => Furthest.KeptBelow b id path best
  | .items ids slot _ before | .options ids slot before => ∀ parent,
      (∀ i child, ids[i]? = some child → (b.node parent).children[slot + i]? = some child) →
        Furthest.KeptBelow b parent path before → Furthest.KeptBelow b parent path best
  | .rounds child _ _ _ _ before => ∀ parent, (b.node parent).children[0]? = some child →
      Furthest.KeptBelow b parent path before → Furthest.KeptBelow b parent path best

theorem children_tail {b : Rulebook} {parent child : NodeId} {ids : List NodeId} {slot : Nat}
    (h : ∀ i c, (child :: ids)[i]? = some c → (b.node parent).children[slot + i]? = some c) :
    (b.node parent).children[slot]? = some child ∧
      ∀ i c, ids[i]? = some c → (b.node parent).children[slot + 1 + i]? = some c := by
  refine ⟨h 0 child rfl, fun i c hc => ?_⟩
  rw [Nat.add_assoc, Nat.add_comm 1 i]
  exact h (i + 1) c hc

open Furthest in
/-- What a match keeps has come up from child to parent, or was put down to a chain on the way. -/
theorem Course.keepsBelow {text : Text} {b : Rulebook} {task : Task} {path : Path} {cursor : Cursor} {o : Outcome}
    {leaves : List Furthest} (h : Course text b task path cursor o leaves) : task.KeepsBelow b path o.best := by
  induction h with
  | hit hn => exact .own (Node.isKept_of_reader? hn) (some ⟨_, []⟩)
  | always hn => exact .own (.inr (.inr (.inl hn))) (some ⟨_, []⟩)
  | miss | never => exact .none
  | sequence hn _ ih | choice hn _ ih => exact ih _ (fun i c hc => by simpa [hn, Node.children] using hc) .none
  | times hn _ ih => exact ih _ (by rw [hn]; rfl) .none
  | itemsDone | optionsDone => exact fun parent _ hb => hb
  | itemsFail _ _ ih | optionsTake _ _ ih =>
    intro parent hc hb
    exact hb.merge (ih.of_child (children_tail hc).1)
  | itemsNext _ _ _ ih ih' | optionsNext _ _ _ ih ih' =>
    intro parent hc hb
    obtain ⟨hfirst, hothers⟩ := children_tail hc
    exact ih' parent hothers (hb.merge (ih.of_child hfirst))
  | roundsFull =>
    intro parent _ hb
    rw [Outcome.best_endRounds]
    exact hb
  | roundsFail _ _ _ ih | roundsStop _ _ _ _ ih =>
    intro parent hc hb
    rw [Outcome.best_endRounds]
    exact hb.merge (ih.of_child hc)
  | roundsNext _ _ _ _ _ ih ih' => exact fun parent hc hb => ih' parent hc (hb.merge (ih.of_child hc))
  | map hn _ ih | chainFail hn _ _ ih => exact ih.of_wrapped (by rw [hn]; rfl)
  | chain hn _ _ _ _ ih =>
    show KeptBelow _ _ _ _
    rw [Outcome.best_ofStages]
    -- the second stage may have come from anywhere, but only its offset is kept
    exact .merge (ih.of_wrapped (by rw [hn]; rfl)) (.own (.inr (.inr (.inr ⟨_, _, hn⟩))) _)
  | look hn _ ih =>
    show KeptBelow _ _ _ _
    rw [Outcome.best_ofLook]
    exact KeptBelow.none.merge (ih.of_wrapped (by rw [hn]; rfl))
  | deferred hn _ ih => exact ih.of_inner (inner?_deferred hn)
  | named hn _ ih => exact ih.of_inner (inner?_named hn)

/-! ## The way down to it -/

namespace Rulebook

variable {b : Rulebook} {id top final : NodeId} {start path : Path}

theorem lt_size_of_resolves (hr : b.Resolves id final) (h : b.node final ≠ .never) : id < b.graph.size := by
  refine Nat.lt_of_not_le fun hl => h ?_
  have hn : b.node id = .never := by
    rw [node, Graph.node, Array.getElem?_eq_none hl]
    rfl
  have hi : b.inner? id = none := by rw [inner?, hn]
  rw [hr.leads.eq_of_ends hi, hn]

def nodeAt (id : NodeId) (steps : List Step) : NodeId :=
  (steps.map Step.node).headD id

theorem Below.inside (h : b.Below id start path final) : ∃ inside, path = inside ++ start ∧
    b.Resolves (nodeAt id inside) final ∧ ∀ lower s upper, inside = lower ++ s :: upper →
      ∃ parent, b.Resolves (nodeAt id upper) parent ∧ (b.node parent).children[s.slot]? = some s.node := by
  induction h with
  | here h => exact ⟨[], rfl, h, by simp⟩
  | @child path outer child slot last h hc hr ih =>
    obtain ⟨inside, rfl, ho, hi⟩ := ih
    refine ⟨⟨child, slot⟩ :: inside, rfl, hr, fun lower s upper he => ?_⟩
    cases lower with
    | nil =>
      cases he
      exact ⟨outer, ho, hc⟩
    | cons t lower =>
      cases he
      exact hi lower s upper rfl

/-- Every step on the way down is one of the grammar as it stands: something is matched below it. -/
theorem lt_size_of_inside {inside : List Step} (hf : b.Resolves (nodeAt id inside) final) (hk : (b.node final).IsKept)
    (hi : ∀ lower s upper, inside = lower ++ s :: upper →
      ∃ parent, b.Resolves (nodeAt id upper) parent ∧ (b.node parent).children[s.slot]? = some s.node) :
    ∀ s ∈ inside, s.node < b.graph.size := by
  intro s hs
  obtain ⟨lower, upper, rfl⟩ := List.append_of_mem hs
  rcases List.eq_nil_or_concat lower with rfl | ⟨lower, t, rfl⟩
  · have hr : b.Resolves s.node final := hf
    refine lt_size_of_resolves hr fun hn => ?_
    rw [hn] at hk
    simp [Node.IsKept] at hk
  · obtain ⟨parent, hp, hc⟩ := hi lower t (s :: upper) (by simp)
    have hr : b.Resolves s.node parent := hp
    refine lt_size_of_resolves hr fun hn => ?_
    rw [hn] at hc
    cases hc

theorem resolves_nodeAt {own : NodeId} (hl : b.Leads own id) : ∀ {steps : List Step},
    b.Resolves (nodeAt id steps) final → b.Resolves (nodeAt own steps) final
  | [], h => .of_leads hl h
  | _ :: _, h => h

end Rulebook

/-- The occurrence that a match keeps lies below the one that was matched, or is that one. Every step on the way
down to it is the child in its slot of what the next step outwards resolves to; that is never the second stage of a
chain, and never a node that a continuation has planted. What is kept is a leaf that may match, or a chain. The node
`own` of the occurrence that was matched may be a name or a reference that leads to the node that is matched there. -/
theorem kept_occurrence_stands {text : Text} {depth : Nat} {b : Rulebook} {id : NodeId} {start : Path} {cursor : Cursor}
    {o : Outcome} {f : Furthest} (h : (b.matchNode text depth id start cursor).result = .ok o) (hf : o.best = some f) :
    ∃ inside, f.path = inside ++ start ∧ (∀ s ∈ inside, s.node < b.graph.size) ∧
      ∀ own, b.Leads own id →
        (∀ lower s upper, inside = lower ++ s :: upper → ∃ parent, b.Resolves (nodeAt own upper) parent ∧
          (b.node parent).children[s.slot]? = some s.node ∧
          ((∃ child next, b.node parent = .chain child next) → s.slot = 0)) ∧
        ∃ last, b.Resolves (nodeAt own inside) last ∧ (b.node last).IsKept := by
  obtain ⟨leaves, c⟩ := course_of_matchNode h
  obtain ⟨last, hl, hk⟩ := c.keepsBelow f hf
  obtain ⟨inside, hp, hr, hi⟩ := hl.inside
  refine ⟨inside, hp, lt_size_of_inside hr hk hi, fun own hown => ⟨?_, last, resolves_nodeAt hown hr, hk⟩⟩
  intro lower s upper he
  obtain ⟨parent, hparent, hc⟩ := hi lower s upper he
  refine ⟨parent, resolves_nodeAt hown hparent, hc, ?_⟩
  rintro ⟨child, next, hn⟩
  rw [hn] at hc
  cases hs : s.slot with
  | zero => rfl
  | succ slot => rw [hs] at hc; cases hc

def stages : Rulebook where
  graph := {
    nodes := #[.literal "a", .named 0 "first", .chain 1 0, .deferred (.node 2), .sequence [3, 5], .literal "z"]
    continuations := #[fun _ _ _ => .chain (.literal "b") fun _ _ _ => .literal "c"] }

theorem kept_of_stages : (stages.matchNode ['a', 'b', 'c'] 5 4 (Path.root 4) (Cursor.start ['a', 'b', 'c'])).result =
      .ok ⟨none, ⟨3, some []⟩, some ⟨3, [⟨3, 0⟩, ⟨4, 0⟩]⟩⟩ ∧
    ∃ inside, [⟨3, 0⟩, ⟨4, 0⟩] = inside ++ Path.root 4 ∧ (∀ s ∈ inside, s.node < 6) ∧
      ∃ last, stages.Resolves (nodeAt 4 inside) last ∧ (stages.node last).IsKept := by
  have h : (stages.matchNode ['a', 'b', 'c'] 5 4 (Path.root 4) (Cursor.start ['a', 'b', 'c'])).result =
      .ok ⟨none, ⟨3, some []⟩, some ⟨3, [⟨3, 0⟩, ⟨4, 0⟩]⟩⟩ := by rfl
  obtain ⟨inside, hp, hs, hown⟩ := kept_occurrence_stands h rfl
  exact ⟨h, inside, hp, hs, (hown 4 (.refl 4)).2⟩

end FurthestMatch
