import FurthestMatch.Proofs.Framing
import FurthestMatch.Proofs.Session
import FurthestMatch.Proofs.Simulation

/-!
# Runs repeat

A run ties every reference that it follows, so a later run of the same grammar on the same text meets the same nodes.
The graph may have grown in between, and then the second stages of chains are planted at other numbers. The two runs
still come to the same outcome, because such nodes never show in it.
-/

namespace FurthestMatch

/-! ## Closed rulebooks -/

mutual
def Recipe.Within (g : Graph) : Recipe → Prop
  | .node id => id < g.size
  | .literal _ | .pattern _ | .always | .never => True
  | .sequence items | .choice items => Recipe.AllWithin g items
  | .times child _ _ | .map child _ | .look child _ | .named child _ => child.Within g
  | .mapBy child mapper => child.Within g ∧ mapper < g.mappers.size
  | .chain child next => child.Within g ∧ ∀ value text cursor, (next value text cursor).Within g
  | .chainBy child next => child.Within g ∧ next < g.continuations.size

def Recipe.AllWithin (g : Graph) : List Recipe → Prop
  | [] => True
  | r :: rs => r.Within g ∧ Recipe.AllWithin g rs
end

def Node.Resourced (g : Graph) : Node → Prop
  | .map _ mapper => mapper < g.mappers.size
  | .chain _ next => next < g.continuations.size
  | .deferred (.rule _ absent) => absent < g.size
  | .deferred (.node id) => id < g.size
  | .named child _ => child < g.size
  | _ => True

/-- All that is named in a rulebook is in its graph. -/
structure Rulebook.Closed (b : Rulebook) : Prop where
  children : ∀ id, ∀ child ∈ (b.node id).children, child < b.graph.size
  resources : ∀ id, (b.node id).Resourced b.graph
  continuations : ∀ k value text cursor, (b.graph.continuation k value text cursor).Within b.graph
  rules : ∀ name id, b.rule? name = some id → id < b.graph.size
  tied : ∀ id target, b.tied.lookup id = some target → target < b.graph.size

namespace Rulebook

variable {b b' : Rulebook} {g g' : Graph}

theorem Closed.target_lt (hb : b.Closed) {id : NodeId} {target : Target} (hn : b.node id = .deferred target) :
    b.target id target < b.graph.size := by
  have hr := hb.resources id
  rw [hn] at hr
  unfold Rulebook.target
  cases ht : b.tied.lookup id with
  | some last => exact hb.tied id last ht
  | none =>
    cases target with
    | node last => exact hr
    | rule name absent =>
      rw [lookTarget]
      cases hl : b.rule? name with
      | some last => exact hb.rules name last hl
      | none => exact hr

theorem Closed.lt_of_inside (hb : b.Closed) {root id : NodeId} (hroot : root < b.graph.size) (h : b.Inside root id) :
    id < b.graph.size := by
  induction h with
  | root => exact hroot
  | child _ hc _ => exact hb.children _ _ hc
  | @inner id next _ hi _ =>
    rw [inner?] at hi
    split at hi
    · rename_i hn
      cases hi
      have hr := hb.resources id
      rw [hn] at hr
      exact hr
    · rename_i hn
      cases hi
      exact hb.target_lt hn
    · cases hi

/-! ## Twins -/

/-- Two nodes of two later graphs that stand for one recipe: a node of the rulebook, or nodes planted on top of it. -/
def Twin (b : Rulebook) (g g' : Graph) (x y : NodeId) : Prop :=
  ∃ r : Recipe, r.Within b.graph ∧ g.Holds b.graph.size r x ∧ g'.Holds b.graph.size r y

theorem Twin.of_lt {x : NodeId} (h : x < b.graph.size) : b.Twin g g' x x :=
  ⟨.node x, h, rfl, rfl⟩

theorem Twin.mono {h h' : Graph} (hg : g.GrowsTo h) (hg' : g'.GrowsTo h') {x y : NodeId} (ht : b.Twin g g' x y) :
    b.Twin h h' x y := by
  obtain ⟨r, hr, hx, hy⟩ := ht
  exact ⟨r, hr, hx.mono hg, hy.mono hg'⟩

/-- A node that was there before is its own twin only. -/
theorem Twin.eq_of_lt {x y : NodeId} (ht : b.Twin g g' x y) (hx : x < b.graph.size) : y = x := by
  obtain ⟨r, -, h, h'⟩ := ht
  have fresh {n : Node} (hf : g.Has b.graph.size n x) : False := Nat.not_le_of_lt hx hf.1
  cases r with
  | node id => exact h'.trans h.symm
  | literal | pattern | always | never => exact (fresh h).elim
  | sequence | choice | times | mapBy | chainBy | look | named =>
    obtain ⟨_, -, hf⟩ := h
    exact (fresh hf).elim
  | map | chain =>
    obtain ⟨_, _, -, -, hf⟩ := h
    exact (fresh hf).elim

theorem twins_of_holdsAll : ∀ {rs : List Recipe} {xs ys : List NodeId}, Recipe.AllWithin b.graph rs →
    g.HoldsAll b.graph.size rs xs → g'.HoldsAll b.graph.size rs ys → List.Forall₂ (b.Twin g g') xs ys
  | [], [], [], _, _, _ => .nil
  | _ :: _, _ :: _, _ :: _, ⟨hr, hrs⟩, ⟨hx, hxs⟩, ⟨hy, hys⟩ => .cons ⟨_, hr, hx, hy⟩ (twins_of_holdsAll hrs hxs hys)

theorem twins_of_lt {xs : List NodeId} (h : ∀ x ∈ xs, x < b.graph.size) : List.Forall₂ (b.Twin g g') xs xs :=
  List.forall₂_same.mpr fun x hx => .of_lt (h x hx)

/-- Two nodes of the same kind and data in two graphs, with twins below them. Only a node of the rulebook is a
reference. -/
inductive Matched (b : Rulebook) (g g' : Graph) (x y : NodeId) : Node → Node → Prop
  | literal {text} : Matched b g g' x y (.literal text) (.literal text)
  | pattern {leaf} : Matched b g g' x y (.pattern leaf) (.pattern leaf)
  | always : Matched b g g' x y .always .always
  | never : Matched b g g' x y .never .never
  | sequence {xs ys} (h : List.Forall₂ (b.Twin g g') xs ys) : Matched b g g' x y (.sequence xs) (.sequence ys)
  | choice {xs ys} (h : List.Forall₂ (b.Twin g g') xs ys) : Matched b g g' x y (.choice xs) (.choice ys)
  | times {c d least most} (h : b.Twin g g' c d) : Matched b g g' x y (.times c least most) (.times d least most)
  | map {c d m m'} (h : b.Twin g g' c d) (hm : g.mapper m = g'.mapper m') : Matched b g g' x y (.map c m) (.map d m')
  | chain {c d k k'} (h : b.Twin g g' c d) (hk : g.continuation k = g'.continuation k')
      (hw : ∀ value text cursor, (g.continuation k value text cursor).Within b.graph) :
      Matched b g g' x y (.chain c k) (.chain d k')
  | look {c d polarity} (h : b.Twin g g' c d) : Matched b g g' x y (.look c polarity) (.look d polarity)
  | named {c d label} (h : b.Twin g g' c d) : Matched b g g' x y (.named c label) (.named d label)
  | deferred {target} (he : x = y) (hn : b.node x = .deferred target) :
      Matched b g g' x y (.deferred target) (.deferred target)

section
variable (hb : b.Closed) (hg : b.graph.GrowsTo g) (hg' : b.graph.GrowsTo g')
include hb hg hg'

theorem matched_of_lt {x : NodeId} (hx : x < b.graph.size) : b.Matched g g' x x (g.node x) (g'.node x) := by
  rw [hg.node_eq hx, hg'.node_eq hx]
  have hc := hb.children x
  have hr := hb.resources x
  rw [node] at hc hr
  cases hn : b.graph.node x <;> rw [hn] at hc hr
  case literal => exact .literal
  case pattern => exact .pattern
  case always => exact .always
  case never => exact .never
  case sequence => exact .sequence (twins_of_lt hc)
  case choice => exact .choice (twins_of_lt hc)
  case times child _ _ => exact .times (.of_lt (hc child List.mem_cons_self))
  case map child mapper =>
    exact .map (.of_lt (hc child List.mem_cons_self)) ((hg.mapper_eq hr).trans (hg'.mapper_eq hr).symm)
  case chain child next =>
    refine .chain (.of_lt (hc child List.mem_cons_self))
      ((hg.continuation_eq hr).trans (hg'.continuation_eq hr).symm) fun value text cursor => ?_
    rw [hg.continuation_eq hr]
    exact hb.continuations next value text cursor
  case look child _ => exact .look (.of_lt (hc child List.mem_cons_self))
  case named child _ => exact .named (.of_lt hr)
  case deferred => exact .deferred rfl hn

theorem Twin.matched {x y : NodeId} (h : b.Twin g g' x y) : b.Matched g g' x y (g.node x) (g'.node y) := by
  obtain ⟨r, hr, hx, hy⟩ := h
  cases r with
  | node id =>
    cases hx
    cases hy
    exact matched_of_lt hb hg hg' hr
  | literal => rw [Graph.Has.node_eq hx, Graph.Has.node_eq hy]; exact .literal
  | pattern => rw [Graph.Has.node_eq hx, Graph.Has.node_eq hy]; exact .pattern
  | always => rw [Graph.Has.node_eq hx, Graph.Has.node_eq hy]; exact .always
  | never => rw [Graph.Has.node_eq hx, Graph.Has.node_eq hy]; exact .never
  | sequence | choice =>
    obtain ⟨xs, hxs, hx⟩ := hx
    obtain ⟨ys, hys, hy⟩ := hy
    rw [hx.node_eq, hy.node_eq]
    constructor
    exact twins_of_holdsAll hr hxs hys
  | times child | look child | named child =>
    obtain ⟨c, hc, hx⟩ := hx
    obtain ⟨d, hd, hy⟩ := hy
    rw [hx.node_eq, hy.node_eq]
    constructor
    exact ⟨child, hr, hc, hd⟩
  | map child mapper =>
    obtain ⟨c, m, hc, hm, hx⟩ := hx
    obtain ⟨d, m', hd, hm', hy⟩ := hy
    rw [hx.node_eq, hy.node_eq]
    exact .map ⟨child, hr, hc, hd⟩ (by rw [Graph.mapper, Graph.mapper, hm, hm'])
  | mapBy child mapper =>
    obtain ⟨c, hc, hx⟩ := hx
    obtain ⟨d, hd, hy⟩ := hy
    rw [hx.node_eq, hy.node_eq]
    exact .map ⟨_, hr.1, hc, hd⟩ ((hg.mapper_eq hr.2).trans (hg'.mapper_eq hr.2).symm)
  | chain child next =>
    obtain ⟨c, k, hc, hk, hx⟩ := hx
    obtain ⟨d, k', hd, hk', hy⟩ := hy
    rw [hx.node_eq, hy.node_eq]
    have hnext : g.continuation k = next := by rw [Graph.continuation, hk]; rfl
    have hnext' : g'.continuation k' = next := by rw [Graph.continuation, hk']; rfl
    refine .chain ⟨_, hr.1, hc, hd⟩ (hnext.trans hnext'.symm) ?_
    rw [hnext]
    exact hr.2
  | chainBy child next =>
    obtain ⟨c, hc, hx⟩ := hx
    obtain ⟨d, hd, hy⟩ := hy
    rw [hx.node_eq, hy.node_eq]
    refine .chain ⟨_, hr.1, hc, hd⟩ ((hg.continuation_eq hr.2).trans (hg'.continuation_eq hr.2).symm) ?_
    rw [hg.continuation_eq hr.2]
    exact hb.continuations next

end

end Rulebook

/-! ## Walks that repeat -/

namespace Walk

variable {α β : Type} {settled : NodeId → Prop}

structure Yields (w : Walk α) (settled : NodeId → Prop) (a : α) : Prop where
  result : w.result = .ok a
  followed : ∀ id ∈ w.followed, settled id

theorem Yields.eq_of_pure {a a' : α} (h : (Pure.pure a : Walk α).Yields settled a') : a' = a := by
  cases h.result
  rfl

theorem Yields.of_bind {w : Walk α} {f : α → Walk β} {y : β} (h : (w >>= f).Yields settled y) :
    ∃ a, w.Yields settled a ∧ (f a).Yields settled y := by
  obtain ⟨hr, hf⟩ := h
  obtain ⟨a, ha, hy⟩ := result_bind_eq_ok.mp hr
  have he : (w >>= f).followed = (f a).followed ++ w.followed := by
    show (Walk.bind w f).followed = _
    rw [Walk.bind, ha]
  rw [he] at hf
  exact ⟨a, ⟨ha, fun id hid => hf id (List.mem_append_right _ hid)⟩, hy, fun id hid =>
    hf id (List.mem_append_left _ hid)⟩

def Repeats (settled : NodeId → Prop) (R : α → β → Prop) (w : Walk α) (w' : Walk β) : Prop :=
  ∀ a, w.Yields settled a → ∃ b, w'.result = .ok b ∧ R a b

namespace Repeats

variable {α' β' : Type} {R : α → α' → Prop} {S : β → β' → Prop}

theorem pure {a : α} {a' : α'} (h : R a a') : Repeats settled R (Pure.pure a) (Pure.pure a') := by
  intro _ ha
  rw [ha.eq_of_pure]
  exact ⟨a', rfl, h⟩

theorem bind {w : Walk α} {w' : Walk α'} {f : α → Walk β} {f' : α' → Walk β'} (h : Repeats settled R w w')
    (hf : ∀ a a', R a a' → Repeats settled S (f a) (f' a')) : Repeats settled S (w >>= f) (w' >>= f') := by
  intro y hy
  obtain ⟨a, ha, hy⟩ := hy.of_bind
  obtain ⟨a', ha', hR⟩ := h a ha
  obtain ⟨y', hy', hS⟩ := hf a a' hR y hy
  exact ⟨y', (result_bind_of_ok ha' f').trans hy', hS⟩

theorem halt {why : Halt} {w' : Walk α'} : Repeats settled R (Walk.halt why) w' :=
  fun _ ha => nomatch ha.result

end Repeats

end Walk

open Walk

section
variable {settled : NodeId → Prop} {P : Path → Path → Prop} {R : NodeId → NodeId → Prop} {run run' : Matcher}
  (hchild : ∀ path path' x y slot, P path path' → R x y → P (path.child x slot) (path'.child y slot))
  (hrun : ∀ x y path path' cursor, R x y → P path path' →
    Repeats settled (Outcome.Related P) (run x path cursor) (run' y path' cursor))
  {path path' : Path} (hp : P path path')

theorem repeats_ofLeaf (hp : P path path') (cursor : Cursor) (read : Text → Option (Value × Text × Text)) :
    Repeats settled (Outcome.Related P) (Outcome.ofLeaf path cursor read) (Outcome.ofLeaf path' cursor read) := by
  unfold Outcome.ofLeaf
  cases cursor.rest with
  | none => exact .halt
  | some text =>
    dsimp only
    cases read text with
    | none => exact .pure ⟨rfl, rfl, .none⟩
    | some found => exact .pure ⟨rfl, rfl, .some rfl hp⟩

include hchild hrun hp

theorem repeats_ofSequence : ∀ {xs ys : List NodeId} {slot : Nat} {values : List Value} {cursor : Cursor}
    {best best' : Option Furthest}, List.Forall₂ R xs ys → Furthest.Related P best best' →
      Repeats settled (Outcome.Related P) (Outcome.ofSequence run path xs slot values cursor best)
        (Outcome.ofSequence run' path' ys slot values cursor best')
  | [], _, _, _, _, _, _, .nil, hb => .pure ⟨rfl, rfl, hb⟩
  | x :: xs, _, slot, values, cursor, best, best', .cons hx hxs, hb => by
    refine .bind (hrun _ _ _ _ _ hx (hchild _ _ _ _ _ hp hx)) fun o o' ho => ?_
    obtain ⟨v, _, _⟩ := o
    obtain ⟨_, _, _⟩ := o'
    obtain ⟨hv, hc, hbest⟩ := ho
    cases hv
    cases hc
    cases v with
    | none => exact .pure ⟨rfl, rfl, hb.merge hbest⟩
    | some value => exact repeats_ofSequence hxs (hb.merge hbest)

theorem repeats_ofChoice {cursor : Cursor} : ∀ {xs ys : List NodeId} {slot : Nat} {best best' : Option Furthest},
    List.Forall₂ R xs ys → Furthest.Related P best best' →
      Repeats settled (Outcome.Related P) (Outcome.ofChoice run path cursor xs slot best)
        (Outcome.ofChoice run' path' cursor ys slot best')
  | [], _, _, _, _, .nil, hb => .pure ⟨rfl, rfl, hb⟩
  | x :: xs, _, slot, best, best', .cons hx hxs, hb => by
    refine .bind (hrun _ _ _ _ _ hx (hchild _ _ _ _ _ hp hx)) fun o o' ho => ?_
    dsimp only
    rw [ho.succeeded]
    split
    · exact .pure ⟨ho.value, ho.cursor, hb.merge ho.best⟩
    · exact repeats_ofChoice hxs (hb.merge ho.best)

theorem repeats_ofRounds {x y : NodeId} (hx : R x y) {least : Nat} {most : Option Nat} {start : Cursor} :
    ∀ {fuel : Nat} {values : List Value} {cursor : Cursor} {best best' : Option Furthest},
      Furthest.Related P best best' → Repeats settled (Outcome.Related P)
        (Outcome.ofRounds (run x (path.child x 0)) least most start fuel values cursor best)
        (Outcome.ofRounds (run' y (path'.child y 0)) least most start fuel values cursor best')
  | 0, _, _, _, _, _ => .halt
  | fuel + 1, values, cursor, best, best', hb => by
    unfold Outcome.ofRounds
    split
    · exact .pure (.endRounds hb ..)
    · refine .bind (hrun _ _ _ _ _ hx (hchild _ _ _ _ _ hp hx)) fun o o' ho => ?_
      obtain ⟨v, _, _⟩ := o
      obtain ⟨_, _, _⟩ := o'
      obtain ⟨hv, hc, hbest⟩ := ho
      cases hv
      cases hc
      cases v with
      | none => exact .pure (.endRounds (hb.merge hbest) ..)
      | some value =>
        dsimp only
        split
        · exact .pure (.endRounds (hb.merge hbest) ..)
        · exact repeats_ofRounds hx (hb.merge hbest)

end

namespace Rulebook

variable {b b' : Rulebook} {g g' : Graph} {text : Text}

/-! ## Matching again -/

def Fixes (b b' : Rulebook) (id : NodeId) : Prop :=
  ∀ target, b.node id = .deferred target → b'.target id target = b.target id target

def TwinPath (b : Rulebook) (g g' : Graph) : Path → Path → Prop :=
  List.Forall₂ fun s t => b.Twin g g' s.node t.node ∧ s.slot = t.slot

theorem TwinPath.child {path path' : Path} {x y : NodeId} (h : b.TwinPath g g' path path') (hxy : b.Twin g g' x y)
    (slot : Nat) : b.TwinPath g g' (path.child x slot) (path'.child y slot) :=
  .cons ⟨hxy, rfl⟩ h

theorem TwinPath.mono {h h' : Graph} (hg : g.GrowsTo h) (hg' : g'.GrowsTo h') {path path' : Path}
    (hp : b.TwinPath g g' path path') : b.TwinPath h h' path path' :=
  List.Forall₂.imp (fun _ _ hs => ⟨hs.1.mono hg hg', hs.2⟩) hp

/-- In two rulebooks in which the same references are settled, twins match alike. -/
theorem repeats_matchNode (hb : b.Closed) : ∀ {depth depth' : Nat} {g g' : Graph} {x y : NodeId} {path path' : Path}
    {cursor : Cursor}, depth ≤ depth' → b.graph.GrowsTo g → b.graph.GrowsTo g' → b.Twin g g' x y →
      b.TwinPath g g' path path' → Repeats (b.Fixes b') (Outcome.Related (b.TwinPath g g'))
        (({ b with graph := g } : Rulebook).matchNode text depth x path cursor)
        (({ b' with graph := g' } : Rulebook).matchNode text depth' y path' cursor)
  | 0, _, _, _, _, _, _, _, _, _, _, _, _, _ => .halt
  | depth + 1, 0, _, _, _, _, _, _, _, hd, _, _, _, _ => absurd hd (Nat.not_succ_le_zero _)
  | depth + 1, depth' + 1, g, g', x, y, path, path', cursor, hd, hg, hg', hxy, hp => by
    have hd := Nat.le_of_succ_le_succ hd
    have hm := hxy.matched hb hg hg'
    have child (path path' : Path) (x y : NodeId) (slot : Nat) (hp : b.TwinPath g g' path path')
        (hxy : b.Twin g g' x y) : b.TwinPath g g' (path.child x slot) (path'.child y slot) := hp.child hxy slot
    have again (x y : NodeId) (path path' : Path) (cursor : Cursor) (hxy : b.Twin g g' x y)
        (hp : b.TwinPath g g' path path') : Repeats (b.Fixes b') (Outcome.Related (b.TwinPath g g'))
          (({ b with graph := g } : Rulebook).matchNode text depth x path cursor)
          (({ b' with graph := g' } : Rulebook).matchNode text depth' y path' cursor) :=
      repeats_matchNode hb hd hg hg' hxy hp
    generalize hn : g.node x = n at hm
    generalize hn' : g'.node y = n' at hm
    cases hm with
    | literal | pattern =>
      simp only [matchNode, node, hn, hn']
      exact repeats_ofLeaf hp cursor _
    | always =>
      simp only [matchNode, node, hn, hn']
      exact .pure ⟨rfl, rfl, .some rfl hp⟩
    | never =>
      simp only [matchNode, node, hn, hn']
      exact .pure ⟨rfl, rfl, .none⟩
    | sequence h =>
      simp only [matchNode, node, hn, hn']
      exact repeats_ofSequence child again hp h .none
    | choice h =>
      simp only [matchNode, node, hn, hn']
      exact repeats_ofChoice child again hp h .none
    | times h =>
      simp only [matchNode, node, hn, hn']
      exact repeats_ofRounds child again hp h .none
    | map h hmap =>
      simp only [matchNode, node, hn, hn']
      refine .bind (again _ _ _ _ _ h (hp.child h 0)) fun o o' ho => .pure ⟨?_, ho.cursor, ho.best⟩
      rw [ho.value, hmap]
    | look h =>
      simp only [matchNode, node, hn, hn']
      exact .bind (again _ _ _ _ _ h (hp.child h 0)) fun o o' ho => .pure (ho.ofLook _ _)
    | named h =>
      simp only [matchNode, node, hn, hn']
      exact again _ _ _ _ _ h hp
    | @chain c d k k' h hk hw =>
      simp only [matchNode, node, hn, hn']
      refine .bind (again _ _ _ _ _ h (hp.child h 0)) fun o o' ho => ?_
      obtain ⟨v, cursor', best⟩ := o
      obtain ⟨_, _, best'⟩ := o'
      obtain ⟨hv, hc, hbest⟩ := ho
      cases hv
      cases hc
      cases v with
      | none => exact .pure ⟨rfl, rfl, hbest⟩
      | some value =>
        -- the same recipe is planted at whatever numbers are free in the two graphs
        have hr : (g.continuation k value text cursor').Within b.graph := hw value text cursor'
        have htwin := Graph.growsTo_plant g (g.continuation k value text cursor')
        have htwin' := Graph.growsTo_plant g' (g.continuation k value text cursor')
        have hstage : b.Twin (g.plant (g.continuation k value text cursor')).2
            (g'.plant (g.continuation k value text cursor')).2 (g.plant (g.continuation k value text cursor')).1
            (g'.plant (g.continuation k value text cursor')).1 :=
          ⟨_, hr, Graph.holds_plant _ hg.size_le, Graph.holds_plant _ hg'.size_le⟩
        simp only [plant_eq, ← hk]
        refine .bind (repeats_matchNode hb hd (hg.trans htwin) (hg'.trans htwin') hstage
          ((hp.mono htwin htwin').child hstage 1)) fun second second' hs => ?_
        exact .pure (.ofStages hp hbest hs)
    | @deferred target he hnode =>
      subst he
      simp only [matchNode, node, hn, hn']
      intro o ho
      obtain ⟨_, hfollow, ho⟩ := ho.of_bind
      have hfix : b'.target x target = b.target x target := hfollow.followed x List.mem_cons_self target hnode
      have hlast : b.Twin g g' (b.target x target) (b.target x target) := .of_lt (hb.target_lt hnode)
      obtain ⟨o', ho', hR⟩ := again _ _ _ _ cursor hlast hp o ho
      rw [← hfix] at ho'
      exact ⟨o', (Walk.result_bind_of_ok (Walk.result_follow _) _).trans ho', hR⟩

/-! ## Runs of the same grammar -/

theorem TwinPath.eq_of_lt {path path' : Path} (h : b.TwinPath g g' path path')
    (hl : ∀ s ∈ path, s.node < b.graph.size) : path' = path := by
  induction h with
  | nil => rfl
  | @cons s t path path' hst _ ih =>
    obtain ⟨ht, hslot⟩ := hst
    have hnode := ht.eq_of_lt (hl s List.mem_cons_self)
    have hrest := ih fun s hs => hl s (List.mem_cons_of_mem _ hs)
    obtain ⟨_, _⟩ := s
    obtain ⟨_, _⟩ := t
    cases hnode
    cases hslot
    rw [hrest]

theorem eq_of_related {P : Path → Path → Prop} {o o' : Outcome} (h : o.Related P o')
    (hp : ∀ f path, o.best = some f → P f.path path → path = f.path) : o' = o := by
  obtain ⟨value, cursor, best⟩ := o
  obtain ⟨_, _, best'⟩ := o'
  obtain ⟨hv, hc, hb⟩ := h
  cases hv
  cases hc
  cases hb with
  | none => rfl
  | @some f f' ho hpath =>
    obtain ⟨_, _⟩ := f
    obtain ⟨_, _⟩ := f'
    cases ho
    cases hp _ _ rfl hpath
    rfl

theorem repeats_runWithin (hb : b.Closed) {depth depth' : Nat} (hd : depth ≤ depth') {id : NodeId}
    (hid : id < b.graph.size) (hg : b.graph.GrowsTo b'.graph) : Repeats (b.Fixes b')
      (Outcome.Related (b.TwinPath b.graph b'.graph)) (b.runWithin depth id text) (b'.runWithin depth' id text) := by
  have hroot : b.TwinPath b.graph b'.graph (Path.root id) (Path.root id) := .cons ⟨.of_lt hid, rfl⟩ .nil
  refine .bind (repeats_matchNode hb hd (.refl _) hg (.of_lt hid) hroot) fun o o' ho => ?_
  rw [ho.succeeded, ho.cursor]
  split
  · exact .pure ⟨rfl, rfl, ho.best⟩
  · exact .pure ho

/-- A run comes to the same outcome wherever the references that it followed still stand for the same nodes. -/
theorem runWithin_eq_ok_of_fixes (hb : b.Closed) {depth depth' : Nat} (hd : depth ≤ depth') {id : NodeId}
    (hid : id < b.graph.size) (hg : b.graph.GrowsTo b'.graph) {o : Outcome}
    (h : (b.runWithin depth id text).result = .ok o) (hf : ∀ x ∈ (b.runWithin depth id text).followed, b.Fixes b' x) :
    (b'.runWithin depth' id text).result = .ok o := by
  obtain ⟨o', ho', hR⟩ := repeats_runWithin hb hd hid hg o ⟨h, hf⟩
  rw [ho', eq_of_related hR fun f path hbest hp => ?_]
  obtain ⟨steps, hdescent, -⟩ := descent_of_runWithin h hbest
  exact TwinPath.eq_of_lt hp fun s hs => hb.lt_of_inside hid (hdescent.inside.1 s hs)

theorem runWithin_unique {depth depth' : Nat} {id : NodeId} {o o' : Outcome}
    (h : (b.runWithin depth id text).result = .ok o) (h' : (b.runWithin depth' id text).result = .ok o') : o' = o := by
  obtain ⟨o₁, h₁, h⟩ := Walk.result_bind_eq_ok.mp h
  obtain ⟨o₂, h₂, h'⟩ := Walk.result_bind_eq_ok.mp h'
  obtain ⟨_, c⟩ := course_of_matchNode h₁
  obtain ⟨_, c'⟩ := course_of_matchNode h₂
  cases (c.unique c').1
  cases h
  cases h'
  rfl

theorem Continues.matchLimit_le (h : b.Continues b') (text : Text) : b.matchLimit text ≤ b'.matchLimit text := by
  have hs := h.graph.size_le
  exact Nat.mul_le_mul_right _ (by omega)

/-- Whatever is done with a rulebook, no tied reference is tied anew. And whatever is done after a run, another run of
the same grammar on the same text comes to the same outcome. -/
theorem later_runs_repeat (operations : List Operation) :
    b.Continues (b.performAll operations) ∧
    ∀ {depth : Nat} {id : NodeId} {o : Outcome}, b.Closed → id < b.graph.size →
      (b.runWithin depth id text).result = .ok o →
        let b' := b.performAll (.run depth id text :: operations)
        (∀ depth' ≥ depth, (b'.runWithin depth' id text).result = .ok o) ∧
        (∀ depth' o', (b'.runWithin depth' id text).result = .ok o' → o' = o) ∧
        (depth ≤ b.matchLimit text → (b'.run id text).result = .ok o) := by
  refine ⟨continues_performAll operations b, fun {depth id o} hb hid h => ?_⟩
  have hsettle := continues_settle (b := b) (b.runWithin depth id text)
  have hlater := continues_performAll operations (b.settle (b.runWithin depth id text)).2
  have hfix : ∀ x ∈ (b.runWithin depth id text).followed, b.Fixes (b.performAll (.run depth id text :: operations)) x :=
    fun x hx target hn => hlater.target_eq (lookup_foldl_tie hn hx) target
  have again : ∀ depth' ≥ depth,
      ((b.performAll (.run depth id text :: operations)).runWithin depth' id text).result = .ok o := fun depth' hd =>
    runWithin_eq_ok_of_fixes hb hd hid (hsettle.trans hlater).graph h hfix
  refine ⟨again, fun depth' o' ho' => ?_, fun hd => ?_⟩
  · exact runWithin_unique (again depth (Nat.le_refl _)) ho'
  · exact again _ (Nat.le_trans hd ((hsettle.trans hlater).matchLimit_le text))

def renamed : Rulebook where
  graph := {
    nodes := #[.literal "a", .never, .deferred (.rule "x" 1), .sequence [0, 2], .literal "b", .literal "c", .chain 3 0],
    continuations := #[fun _ _ _ => .sequence [.literal "d", .node 4]] }
  rules := [("x", 4)]

theorem closed_renamed : renamed.Closed := by
  refine ⟨fun id => ?_, fun id => ?_, fun k value text cursor => ?_, fun name id h => ?_, nofun⟩
  · match id with
    | 0 | 1 | 2 | 3 | 4 | 5 | 6 => decide
    | _ + 7 => exact nofun
  · match id with
    | 0 | 1 | 2 | 3 | 4 | 5 | 6 => first | exact trivial | exact Nat.lt_of_sub_pos (by decide)
    | _ + 7 => exact trivial
  · match k with
    | 0 => exact ⟨trivial, Nat.lt_of_sub_pos (by decide), trivial⟩
    | _ + 1 => exact trivial
  · rw [rule?, renamed, List.lookup_cons] at h
    split at h <;> cases h
    decide

/-- The name comes to stand for another letter, but not for a run that has been made. -/
theorem renamed_runs_repeat : renamed.Closed ∧ 6 < renamed.graph.size ∧
    (renamed.runWithin 9 6 ['a', 'b', 'd', 'b']).result =
      .ok ⟨some (.list [.str "d", .str "b"]), ⟨4, some []⟩, some ⟨4, [⟨6, 0⟩]⟩⟩ ∧
    (((renamed.define "x" 5).runWithin 9 6 ['a', 'b', 'd', 'b']).result.map Outcome.succeeded) = .ok false ∧
    ∀ depth ≥ 9, ((renamed.performAll [.run 9 6 ['a', 'b', 'd', 'b'], .define "x" 5, .build (.literal "e"), .refer "x",
      .run 9 6 ['a', 'c'], .equal false 3 6]).runWithin depth 6 ['a', 'b', 'd', 'b']).result =
      .ok ⟨some (.list [.str "d", .str "b"]), ⟨4, some []⟩, some ⟨4, [⟨6, 0⟩]⟩⟩ := by
  have hid : 6 < renamed.graph.size := Nat.lt_of_sub_pos (by decide)
  have hrun : (renamed.runWithin 9 6 ['a', 'b', 'd', 'b']).result =
      .ok ⟨some (.list [.str "d", .str "b"]), ⟨4, some []⟩, some ⟨4, [⟨6, 0⟩]⟩⟩ := by rfl
  refine ⟨closed_renamed, hid, hrun, by rfl, ?_⟩
  exact ((later_runs_repeat _).2 closed_renamed hid hrun).1

end Rulebook

end FurthestMatch
