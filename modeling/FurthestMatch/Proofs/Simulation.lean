import FurthestMatch.Proofs.Bisimulation
import FurthestMatch.Proofs.Furthest

/-!
# Simulations between nodes

A simulation pairs nodes that match alike: what the first of a pair hands on to is paired with the second, and where
the first is matched itself, the second stands for a node of the same kind and data with paired children. A match of
the first is then a match of the second, step by step. The second stages of chains are the same on both sides, and
there every node simulates itself.
-/

namespace FurthestMatch

namespace Node

inductive Alike (R : NodeId → NodeId → Prop) : Node → Node → Prop
  | literal {text} : Alike R (.literal text) (.literal text)
  | pattern {p q} (hs : p.source = q.source) (hc : p.capture = q.capture) : Alike R (.pattern p) (.pattern q)
  | always : Alike R .always .always
  | never : Alike R .never .never
  | sequence {xs ys} (h : List.Forall₂ R xs ys) : Alike R (.sequence xs) (.sequence ys)
  | choice {xs ys} (h : List.Forall₂ R xs ys) : Alike R (.choice xs) (.choice ys)
  | times {x y least most} (h : R x y) : Alike R (.times x least most) (.times y least most)
  | map {x y mapper} (h : R x y) : Alike R (.map x mapper) (.map y mapper)
  | chain {x y next} (h : R x y) : Alike R (.chain x next) (.chain y next)
  | look {x y polarity} (h : R x y) : Alike R (.look x polarity) (.look y polarity)

namespace Alike

variable {R R' : NodeId → NodeId → Prop} {m n : Node}

theorem mono (h : Alike R m n) (hR : ∀ x y, R x y → R' x y) : Alike R' m n := by
  cases h with
  | literal => exact .literal
  | pattern hs hc => exact .pattern hs hc
  | always => exact .always
  | never => exact .never
  | sequence h => exact .sequence (h.imp hR)
  | choice h => exact .choice (h.imp hR)
  | times h => exact .times (hR _ _ h)
  | map h => exact .map (hR _ _ h)
  | chain h => exact .chain (hR _ _ h)
  | look h => exact .look (hR _ _ h)

theorem symm (h : Alike R m n) : Alike (flip R) n m := by
  cases h with
  | literal => exact .literal
  | pattern hs hc => exact .pattern hs.symm hc.symm
  | always => exact .always
  | never => exact .never
  | sequence h => exact .sequence h.flip
  | choice h => exact .choice h.flip
  | times h => exact .times h
  | map h => exact .map h
  | chain h => exact .chain h
  | look h => exact .look h

end Alike

end Node

namespace Rulebook

variable {b : Rulebook}

/-- A relation whose pairs match alike as far as their children do. -/
def IsSimulation (b : Rulebook) (R : NodeId → NodeId → Prop) : Prop :=
  ∀ x y, R x y → (∃ x', b.inner? x = some x' ∧ R x' y) ∨
    b.inner? x = none ∧ ∃ y', b.Leads y y' ∧ (b.node x).Alike R (b.node y')

theorem alike_of_head {R : NodeId → NodeId → Prop} {x y : NodeId} (h : (b.node x).head = (b.node y).head)
    (hi : b.inner? x = none) (hc : List.Forall₂ R (b.node x).children (b.node y).children) :
    (b.node x).Alike R (b.node y) := by
  rw [inner?] at hi
  cases hx : b.node x <;> cases hy : b.node y <;> rw [hx, hy] at h hc <;> simp [Node.head, Node.children] at h hc
  case literal.literal => rw [h]; exact .literal
  case pattern.pattern => exact .pattern h.1 h.2
  case always.always => exact .always
  case never.never => exact .never
  case sequence.sequence => exact .sequence hc
  case choice.choice => exact .choice hc
  case times.times => rw [h.1, h.2]; exact .times hc
  case map.map => rw [h]; exact .map hc
  case chain.chain => rw [h]; exact .chain hc
  case look.look => rw [h]; exact .look hc
  case deferred.deferred => rw [hx] at hi; cases hi
  case named.named => rw [hx] at hi; cases hi

theorem alike_refl {x : NodeId} (h : b.inner? x = none) {R : NodeId → NodeId → Prop} (hR : ∀ x, R x x) :
    (b.node x).Alike R (b.node x) :=
  alike_of_head rfl h (List.forall₂_same.mpr fun x _ => hR x)

theorem isSimulation_leads (b : Rulebook) : b.IsSimulation fun x y => b.Leads y x := by
  intro x y h
  cases hi : b.inner? x with
  | some x' => exact .inl ⟨x', rfl, h.trans (.step hi (.refl _))⟩
  | none => exact .inr ⟨rfl, x, h, alike_refl hi fun x => .refl x⟩

end Rulebook

/-! ## Leaves that read alike -/

theorem Pattern.matchIn_congr {p q : Pattern} (hs : p.source = q.source) (hc : p.capture = q.capture) :
    p.matchIn = q.matchIn := by
  have h := p.readAs.symm.trans ((congrArg Pattern.readAnchored hs).trans q.readAs)
  obtain ⟨hr, hg⟩ := Prod.mk.inj (Except.ok.inj h)
  funext text
  rw [Pattern.matchIn, Pattern.matchIn, hr]
  congr 1
  funext found
  rw [Pattern.extract, Pattern.extract, hc, hg]

theorem Node.Alike.reader?_eq {R : NodeId → NodeId → Prop} {m n : Node} (h : m.Alike R n) : m.reader? = n.reader? := by
  cases h with
  | pattern hs hc => exact congrArg some (Pattern.matchIn_congr hs hc)
  | _ => rfl

/-! ## Outcomes with related paths -/

inductive Furthest.Related (P : Path → Path → Prop) : Option Furthest → Option Furthest → Prop
  | none : Related P none none
  | some {f g} (ho : f.offset = g.offset) (hp : P f.path g.path) : Related P (some f) (some g)

namespace Furthest.Related

variable {P Q : Path → Path → Prop} {a a' c c' : Option Furthest}

theorem reach_eq (h : Related P a a') : reach a = reach a' := by
  cases h with
  | none => rfl
  | some ho => exact ho

theorem isSome_eq (h : Related P a a') : a.isSome = a'.isSome := by
  cases h <;> rfl

theorem merge (h : Related P a a') (h' : Related P c c') : Related P (Furthest.merge a c) (Furthest.merge a' c') := by
  unfold Furthest.merge
  rw [h.reach_eq, h'.reach_eq]
  split
  · exact h'
  · exact h

/-- What is put down to other places is related as they are. -/
theorem putDownTo {path path' : Path} (h : Related P a a') (hp : Q path path') :
    Related Q (a.map (Furthest.putDownTo path)) (a'.map (Furthest.putDownTo path')) := by
  cases h with
  | none => exact .none
  | some ho => exact .some ho hp

end Furthest.Related

structure Outcome.Related (P : Path → Path → Prop) (o o' : Outcome) : Prop where
  value : o.value = o'.value
  cursor : o.cursor = o'.cursor
  best : Furthest.Related P o.best o'.best

namespace Outcome.Related

variable {P Q : Path → Path → Prop} {o o' : Outcome}

theorem succeeded (h : o.Related P o') : o.succeeded = o'.succeeded := by
  rw [Outcome.succeeded, Outcome.succeeded, h.value]

theorem endRounds {best best' : Option Furthest} (h : Furthest.Related P best best') (least : Nat)
    (start : Cursor) (values : List Value) (cursor : Cursor) :
    (Outcome.endRounds least start values cursor best).Related P (.endRounds least start values cursor best') := by
  unfold Outcome.endRounds
  split <;> exact ⟨rfl, rfl, h⟩

theorem ofStages {path path' : Path} {first first' second second' : Outcome} (hp : P path path')
    (h : Furthest.Related P first.best first'.best) (h' : second.Related Q second') :
    (Outcome.ofStages path first second).Related P (.ofStages path' first' second') := by
  refine ⟨?_, ?_, ?_⟩
  · unfold Outcome.ofStages
    split <;> split <;> exact h'.value
  · rw [Outcome.cursor_ofStages, Outcome.cursor_ofStages, h'.cursor]
  · rw [Outcome.best_ofStages, Outcome.best_ofStages]
    exact h.merge (h'.best.putDownTo hp)

theorem ofLook (h : o.Related P o') (polarity : Polarity) (cursor : Cursor) :
    (Outcome.ofLook polarity cursor o).Related P (.ofLook polarity cursor o') := by
  have hb := Furthest.Related.none.merge h.best
  unfold Outcome.ofLook
  dsimp only
  rw [h.succeeded]
  split <;> exact ⟨rfl, rfl, hb⟩

end Outcome.Related

abbrev Path.SeenAlike (path path' : Path) : Prop :=
  path.map Step.slot = path'.map Step.slot

abbrev Furthest.SeenAlike := Furthest.Related Path.SeenAlike

abbrev Outcome.SeenAlike := Outcome.Related Path.SeenAlike

theorem Furthest.Related.slots_eq {a a' : Option Furthest} (h : SeenAlike a a') :
    (a.map fun f => f.path.map Step.slot) = a'.map fun f => f.path.map Step.slot := by
  cases h with
  | none => rfl
  | some _ hs => exact congrArg Option.some hs

inductive Task.Related (R : NodeId → NodeId → Prop) : Task → Task → Prop
  | node {x y} (h : R x y) : Related R (.node x) (.node y)
  | items {xs ys slot values best best'} (h : List.Forall₂ R xs ys) (hb : Furthest.SeenAlike best best') :
      Related R (.items xs slot values best) (.items ys slot values best')
  | options {xs ys slot best best'} (h : List.Forall₂ R xs ys) (hb : Furthest.SeenAlike best best') :
      Related R (.options xs slot best) (.options ys slot best')
  | rounds {x y least most start values best best'} (h : R x y) (hb : Furthest.SeenAlike best best') :
      Related R (.rounds x least most start values best) (.rounds y least most start values best')

/-! ## Matching the second of a pair -/

open Rulebook

theorem Course.of_leads {text : Text} {b : Rulebook} {y y' : NodeId} {path : Path} {cursor : Cursor} {o : Outcome}
    {leaves : List Furthest} (hl : b.Leads y y') (h : Course text b (.node y') path cursor o leaves) :
    Course text b (.node y) path cursor o leaves := by
  induction hl with
  | refl => exact h
  | step hi _ ih =>
    rw [inner?] at hi
    split at hi
    · rename_i hn
      cases hi
      exact .named hn (ih h)
    · rename_i hn
      cases hi
      exact .deferred hn (ih h)
    · cases hi

theorem Rulebook.IsSimulation.exists_alike {b : Rulebook} {R : NodeId → NodeId → Prop} (hR : b.IsSimulation R)
    {x y : NodeId} (h : R x y) (hi : b.inner? x = none) :
    ∃ y' n, b.Leads y y' ∧ b.node y' = n ∧ (b.node x).Alike R n := by
  rcases hR x y h with ⟨_, hi', -⟩ | ⟨-, y', hl, ha⟩
  · cases hi.symm.trans hi'
  · exact ⟨y', _, hl, rfl, ha⟩

theorem Rulebook.IsSimulation.inner {b : Rulebook} {R : NodeId → NodeId → Prop} (hR : b.IsSimulation R)
    {x x' y : NodeId} (h : R x y) (hi : b.inner? x = some x') : R x' y := by
  rcases hR x y h with ⟨_, hi', h'⟩ | ⟨hi', -⟩
  · cases hi.symm.trans hi'
    exact h'
  · cases hi.symm.trans hi'

theorem Path.slots_child {path path' : Path} (hp : path.map Step.slot = path'.map Step.slot) (x y : NodeId)
    (slot : Nat) : (path.child x slot).map Step.slot = (path'.child y slot).map Step.slot :=
  congrArg (slot :: ·) hp

/-- Whatever a simulation relates to a task comes to an outcome that is seen alike. -/
def Simulated (text : Text) (b : Rulebook) (task : Task) (path : Path) (cursor : Cursor) (o : Outcome) : Prop :=
  ∀ R, b.IsSimulation R → ∀ task' path', task.Related R task' → path.map Step.slot = path'.map Step.slot →
    ∃ o' leaves', Course text b task' path' cursor o' leaves' ∧ o.SeenAlike o'

section
variable {text : Text} {b : Rulebook} {id : NodeId} {path : Path} {cursor : Cursor} {o : Outcome}

theorem simulated_of_alike {m : Node} (hn : b.node id = m) (hi : b.inner? id = none)
    (h : ∀ R, b.IsSimulation R → ∀ y n path', b.node y = n → m.Alike R n →
      path.map Step.slot = path'.map Step.slot →
        ∃ o' leaves', Course text b (.node y) path' cursor o' leaves' ∧ o.SeenAlike o') :
    Simulated text b (.node id) path cursor o := by
  rintro R hR _ path' ⟨hxy⟩ hp
  obtain ⟨y, n, hl, hy, ha⟩ := hR.exists_alike hxy hi
  rw [hn] at ha
  obtain ⟨o', leaves', c, hs⟩ := h R hR y n path' hy ha hp
  exact ⟨o', leaves', c.of_leads hl, hs⟩

theorem simulated_of_inner {next : NodeId} (hi : b.inner? id = some next)
    (h : Simulated text b (.node next) path cursor o) : Simulated text b (.node id) path cursor o := by
  rintro R hR _ path' ⟨hxy⟩ hp
  exact h R hR _ path' (.node (hR.inner hxy hi)) hp

theorem simulated_of_reader {read : Text → Option (Value × Text × Text)} (hn : (b.node id).reader? = some read)
    (h : ∀ y path', (b.node y).reader? = some read → path.map Step.slot = path'.map Step.slot →
      ∃ o' leaves', Course text b (.node y) path' cursor o' leaves' ∧ o.SeenAlike o') :
    Simulated text b (.node id) path cursor o := by
  have hi : b.inner? id = none := by
    rw [inner?]
    cases hb : b.node id <;> rw [hb] at hn <;> cases hn
  refine simulated_of_alike rfl hi fun R hR y n path' hy ha hp => h y path' ?_ hp
  rw [hy, ← ha.reader?_eq, hn]

end

/-- What the first of a simulated pair comes to, the second comes to as well, through the same slots. -/
theorem Course.simulated {text : Text} {b : Rulebook} {task : Task} {path : Path} {cursor : Cursor} {o : Outcome}
    {leaves : List Furthest} (h : Course text b task path cursor o leaves) : Simulated text b task path cursor o := by
  induction h with
  | hit hn hc hr =>
    exact simulated_of_reader hn fun y path' hy hp => ⟨_, _, .hit hy hc hr, rfl, rfl, .some rfl hp⟩
  | miss hn hc hr => exact simulated_of_reader hn fun y path' hy hp => ⟨_, _, .miss hy hc hr, rfl, rfl, .none⟩
  | always hn =>
    refine simulated_of_alike hn (by rw [inner?, hn]) fun R hR y n path' hy ha hp => ?_
    cases ha
    exact ⟨_, _, .always hy, rfl, rfl, .some rfl hp⟩
  | never hn =>
    refine simulated_of_alike hn (by rw [inner?, hn]) fun R hR y n path' hy ha hp => ?_
    cases ha
    exact ⟨_, _, .never hy, rfl, rfl, .none⟩
  | sequence hn _ ih =>
    refine simulated_of_alike hn (by rw [inner?, hn]) fun R hR y n path' hy ha hp => ?_
    cases ha with
    | sequence hxy =>
      obtain ⟨o', leaves', c, hs⟩ := ih R hR _ path' (.items hxy .none) hp
      exact ⟨o', leaves', .sequence hy c, hs⟩
  | choice hn _ ih =>
    refine simulated_of_alike hn (by rw [inner?, hn]) fun R hR y n path' hy ha hp => ?_
    cases ha with
    | choice hxy =>
      obtain ⟨o', leaves', c, hs⟩ := ih R hR _ path' (.options hxy .none) hp
      exact ⟨o', leaves', .choice hy c, hs⟩
  | times hn _ ih =>
    refine simulated_of_alike hn (by rw [inner?, hn]) fun R hR y n path' hy ha hp => ?_
    cases ha with
    | times hxy =>
      obtain ⟨o', leaves', c, hs⟩ := ih R hR _ path' (.rounds hxy .none) hp
      exact ⟨o', leaves', .times hy c, hs⟩
  | map hn _ ih =>
    refine simulated_of_alike hn (by rw [inner?, hn]) fun R hR y n path' hy ha hp => ?_
    cases ha with
    | map hxy =>
      obtain ⟨o', leaves', c, hs⟩ := ih R hR _ _ (.node hxy) (Path.slots_child hp _ _ 0)
      exact ⟨_, leaves', .map hy c, congrArg (Option.map _) hs.value, hs.cursor, hs.best⟩
  | look hn _ ih =>
    refine simulated_of_alike hn (by rw [inner?, hn]) fun R hR y n path' hy ha hp => ?_
    cases ha with
    | look hxy =>
      obtain ⟨o', leaves', c, hs⟩ := ih R hR _ _ (.node hxy) (Path.slots_child hp _ _ 0)
      exact ⟨_, leaves', .look hy c, hs.ofLook _ _⟩
  | chainFail hn _ hv ih =>
    refine simulated_of_alike hn (by rw [inner?, hn]) fun R hR y n path' hy ha hp => ?_
    cases ha with
    | chain hxy =>
      obtain ⟨o', leaves', c, hs⟩ := ih R hR _ _ (.node hxy) (Path.slots_child hp _ _ 0)
      exact ⟨_, leaves', .chainFail hy c (hs.value ▸ hv), hs⟩
  | chain hn _ hv hstage _ ih ih' =>
    refine simulated_of_alike hn (by rw [inner?, hn]) fun R hR y n path' hy ha hp => ?_
    cases ha with
    | chain hxy =>
      obtain ⟨o', leaves', c, hs⟩ := ih R hR _ _ (.node hxy) (Path.slots_child hp _ _ 0)
      -- both sides plant the same second stage, in the same rulebook
      obtain ⟨o'', leaves'', c', hs'⟩ := ih' _ (isSimulation_leads _) _ _ (.node (.refl _)) (Path.slots_child hp _ _ 1)
      rw [hs.cursor] at hstage c'
      exact ⟨_, _, .chain hy c (hs.value ▸ hv) hstage c', .ofStages hp hs.best hs'⟩
  | deferred hn _ ih => exact simulated_of_inner (inner?_deferred hn) ih
  | named hn _ ih => exact simulated_of_inner (inner?_named hn) ih
  | itemsDone =>
    intro R hR task' path' ht hp
    obtain _ | ⟨⟨⟩, hb⟩ := ht
    exact ⟨_, _, .itemsDone, rfl, rfl, hb⟩
  | itemsFail _ hv ih =>
    intro R hR task' path' ht hp
    obtain _ | ⟨_ | ⟨hxy, hxs⟩, hb⟩ := ht
    obtain ⟨o', leaves', c, hs⟩ := ih R hR _ _ (.node hxy) (Path.slots_child hp _ _ _)
    exact ⟨_, _, .itemsFail c (hs.value ▸ hv), rfl, rfl, hb.merge hs.best⟩
  | itemsNext _ hv _ ih ih' =>
    intro R hR task' path' ht hp
    obtain _ | ⟨_ | ⟨hxy, hxs⟩, hb⟩ := ht
    obtain ⟨o', leaves', c, hs⟩ := ih R hR _ _ (.node hxy) (Path.slots_child hp _ _ _)
    obtain ⟨o'', leaves'', c', hs'⟩ := ih' R hR _ path' (.items hxs (hb.merge hs.best)) hp
    exact ⟨o'', _, .itemsNext c (hs.value ▸ hv) (hs.cursor ▸ c'), hs'⟩
  | optionsDone =>
    intro R hR task' path' ht hp
    obtain _ | _ | ⟨⟨⟩, hb⟩ := ht
    exact ⟨_, _, .optionsDone, rfl, rfl, hb⟩
  | optionsTake _ hv ih =>
    intro R hR task' path' ht hp
    obtain _ | _ | ⟨_ | ⟨hxy, hxs⟩, hb⟩ := ht
    obtain ⟨o', leaves', c, hs⟩ := ih R hR _ _ (.node hxy) (Path.slots_child hp _ _ _)
    exact ⟨_, _, .optionsTake c (hs.succeeded ▸ hv), hs.value, hs.cursor, hb.merge hs.best⟩
  | optionsNext _ hv _ ih ih' =>
    intro R hR task' path' ht hp
    obtain _ | _ | ⟨_ | ⟨hxy, hxs⟩, hb⟩ := ht
    obtain ⟨o', leaves', c, hs⟩ := ih R hR _ _ (.node hxy) (Path.slots_child hp _ _ _)
    obtain ⟨o'', leaves'', c', hs'⟩ := ih' R hR _ path' (.options hxs (hb.merge hs.best)) hp
    exact ⟨o'', _, .optionsNext c (hs.succeeded ▸ hv) c', hs'⟩
  | roundsFull hm =>
    intro R hR task' path' ht hp
    obtain _ | _ | _ | ⟨hxy, hb⟩ := ht
    exact ⟨_, _, .roundsFull hm, .endRounds hb ..⟩
  | roundsFail hm _ hv ih =>
    intro R hR task' path' ht hp
    obtain _ | _ | _ | ⟨hxy, hb⟩ := ht
    obtain ⟨o', leaves', c, hs⟩ := ih R hR _ _ (.node hxy) (Path.slots_child hp _ _ _)
    exact ⟨_, _, .roundsFail hm c (hs.value ▸ hv), .endRounds (hb.merge hs.best) ..⟩
  | roundsStop hm _ hv hstop ih =>
    intro R hR task' path' ht hp
    obtain _ | _ | _ | ⟨hxy, hb⟩ := ht
    obtain ⟨o', leaves', c, hs⟩ := ih R hR _ _ (.node hxy) (Path.slots_child hp _ _ _)
    rw [hs.cursor] at hstop ⊢
    exact ⟨_, _, .roundsStop hm c (hs.value ▸ hv) hstop, .endRounds (hb.merge hs.best) ..⟩
  | roundsNext hm _ hv hgo _ ih ih' =>
    intro R hR task' path' ht hp
    obtain _ | _ | _ | ⟨hxy, hb⟩ := ht
    obtain ⟨o', leaves', c, hs⟩ := ih R hR _ _ (.node hxy) (Path.slots_child hp _ _ _)
    obtain ⟨o'', leaves'', c', hs'⟩ := ih' R hR _ path' (.rounds hxy (hb.merge hs.best)) hp
    rw [hs.cursor] at hgo c'
    exact ⟨o'', _, .roundsNext hm c (hs.value ▸ hv) hgo c', hs'⟩

end FurthestMatch
