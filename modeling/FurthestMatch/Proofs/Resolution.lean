import FurthestMatch.Grammar.Occurrence

/-!
# What stands where

Names and references lead to the node that is matched and drawn in their place. A trail is a row of steps from a
node out to the root in which every node stands in its slot of the next; the steps of a path that follows the
children of nodes are one.
-/

namespace FurthestMatch

def Node.children : Node → List NodeId
  | .sequence items | .choice items => items
  | .times child .. | .map child _ | .chain child _ | .look child _ => [child]
  | _ => []

namespace Rulebook

variable {b : Rulebook}

def inner? (b : Rulebook) (id : NodeId) : Option NodeId :=
  match b.node id with
  | .named child _ => some child
  | .deferred target => some (b.target id target)
  | _ => none

inductive Leads (b : Rulebook) : NodeId → NodeId → Prop
  | refl (id) : Leads b id id
  | step {id next last} (h : b.inner? id = some next) (h' : Leads b next last) : Leads b id last

/-- The second node is what is matched and drawn where the first stands. -/
structure Resolves (b : Rulebook) (id last : NodeId) : Prop where
  leads : b.Leads id last
  ends : b.inner? last = none

theorem Leads.trans {id next last : NodeId} (h : b.Leads id next) (h' : b.Leads next last) : b.Leads id last := by
  induction h with
  | refl => exact h'
  | step h _ ih => exact .step h (ih h')

theorem Leads.eq_of_ends {id last : NodeId} (h : b.Leads id last) (he : b.inner? id = none) : last = id := by
  cases h with
  | refl => rfl
  | step h => cases he.symm.trans h

theorem Resolves.refl {id : NodeId} (h : b.inner? id = none) : b.Resolves id id :=
  ⟨.refl id, h⟩

theorem Resolves.of_leads {id next last : NodeId} (h : b.Leads id next) (h' : b.Resolves next last) :
    b.Resolves id last :=
  ⟨h.trans h'.leads, h'.ends⟩

/-- On the way to what it resolves to a node only leads to nodes that resolve alike. -/
theorem Resolves.after {id next last : NodeId} (h : b.Resolves id last) (hl : b.Leads id next) :
    b.Resolves next last := by
  induction hl with
  | refl => exact h
  | step hi _ ih =>
    refine ih ⟨?_, h.ends⟩
    cases h.leads with
    | refl => cases hi.symm.trans h.ends
    | step hi' h' => cases hi.symm.trans hi'; exact h'

theorem Resolves.unique {id last last' : NodeId} (h : b.Resolves id last) (h' : b.Resolves id last') : last = last' :=
  (h.after h'.leads).leads.eq_of_ends h'.ends

theorem inner?_named {id child : NodeId} {label : String} (h : b.node id = .named child label) :
    b.inner? id = some child := by
  rw [inner?, h]

theorem inner?_deferred {id : NodeId} {target : Target} (h : b.node id = .deferred target) :
    b.inner? id = some (b.target id target) := by
  rw [inner?, h]

theorem inner?_eq_none {id : NodeId} (hn : ∀ child label, b.node id ≠ .named child label)
    (hd : ∀ target, b.node id ≠ .deferred target) : b.inner? id = none := by
  rw [inner?]
  split
  · exact absurd ‹_› (hn _ _)
  · exact absurd ‹_› (hd _)
  · rfl

theorem resolves_of_resolveFrom : ∀ {fuel : Nat} {id last : NodeId}, (b.resolveFrom fuel id).result = .ok last →
    b.Resolves id last
  | 0, _, _, h => nomatch h
  | fuel + 1, id, last, h => by
    rw [resolveFrom] at h
    split at h
    · rename_i hn
      exact .of_leads (.step (inner?_named hn) (.refl _)) (resolves_of_resolveFrom h)
    · rename_i hn
      obtain ⟨_, -, h⟩ := Walk.result_bind_eq_ok.mp h
      exact .of_leads (.step (inner?_deferred hn) (.refl _)) (resolves_of_resolveFrom h)
    · rename_i hd hr
      cases h
      exact .refl (inner?_eq_none hd hr)

theorem resolves_of_resolve {id last : NodeId} (h : (b.resolve id).result = .ok last) : b.Resolves id last :=
  resolves_of_resolveFrom h

/-- The second option of a choice that amounts to the first one or no characters. -/
def Hides (b : Rulebook) (id : NodeId) (slot : Nat) : Prop :=
  slot = 1 ∧ ∃ first second last, b.node id = .choice [first, second] ∧ b.Resolves second last ∧
    b.node last = .always

/-! ## Trails -/

def Fills (b : Rulebook) (id : NodeId) (slot : Nat) (parent : NodeId) : Prop :=
  ∃ child, (b.node parent).children[slot]? = some child ∧ b.Resolves child id

/-- Resolved steps from a node out to the root. -/
inductive Trail (b : Rulebook) (root : NodeId) : List Step → Prop
  | root {id} (h : b.Resolves root id) : Trail b root [⟨id, 0⟩]
  | child {step outer steps} (h : Trail b root (outer :: steps)) (hf : b.Fills step.node step.slot outer.node) :
      Trail b root (step :: outer :: steps)

theorem Fills.unique {id id' parent : NodeId} {slot : Nat} (h : b.Fills id slot parent) (h' : b.Fills id' slot parent) :
    id = id' := by
  obtain ⟨child, hc, hr⟩ := h
  obtain ⟨child', hc', hr'⟩ := h'
  cases hc.symm.trans hc'
  exact hr.unique hr'

namespace Trail

variable {root : NodeId} {s t : Step} {steps outside : List Step}

theorem tail (h : Trail b root (s :: t :: steps)) : Trail b root (t :: steps) := by
  cases h with
  | child h _ => exact h

theorem fills (h : Trail b root (s :: t :: steps)) : b.Fills s.node s.slot t.node := by
  cases h with
  | child _ hf => exact hf

theorem of_append : ∀ {inside : List Step}, Trail b root (inside ++ s :: steps) → Trail b root (s :: steps)
  | [], h => h
  | [_], h => h.tail
  | _ :: t :: inside, h =>
    have h' : Trail b root (t :: inside ++ s :: steps) := h.tail
    of_append h'

theorem ends_with_root (h : Trail b root steps) : ∃ inside id, b.Resolves root id ∧ steps = inside ++ [⟨id, 0⟩] := by
  induction h with
  | root h => exact ⟨[], _, h, rfl⟩
  | @child step _ _ _ _ ih =>
    obtain ⟨inside, id, hr, he⟩ := ih
    exact ⟨step :: inside, id, hr, by rw [he]; rfl⟩

theorem resolves_of_singleton (h : Trail b root [s]) : b.Resolves root s.node ∧ s.slot = 0 := by
  cases h with
  | root h => exact ⟨h, rfl⟩

theorem eq_nil_of_root (h : Trail b root (s :: steps)) (hn : ((s :: steps).map Step.node).Nodup)
    (hr : b.Resolves root s.node) : steps = [] := by
  cases h with
  | root => rfl
  | child h =>
    obtain ⟨inside, id, hi, he⟩ := h.ends_with_root
    rw [he, List.map_cons, List.map_append, List.nodup_cons] at hn
    exact absurd (by rw [hr.unique hi]; simp) hn.1

theorem children_ne_nil : ∀ {s : Step} {outside : List Step}, Trail b root (s :: outside) →
    ∀ t ∈ outside, (b.node t.node).children ≠ []
  | _, u :: outside, h, t, ht => by
    rcases List.mem_cons.mp ht with rfl | ht
    · obtain ⟨child, hc, -⟩ := h.fills
      intro he
      rw [he] at hc
      cases hc
    · exact children_ne_nil h.tail t ht

end Trail

/-- A path from a node out to the root along children, with its steps resolved. -/
inductive Descent (b : Rulebook) (root : NodeId) : Path → List Step → Prop
  | root {id} (h : b.Resolves root id) : Descent b root (Path.root root) [⟨id, 0⟩]
  | child {path outer steps child slot id} (h : Descent b root path (outer :: steps))
      (hc : (b.node outer.node).children[slot]? = some child) (hr : b.Resolves child id) :
      Descent b root (path.child child slot) (⟨id, slot⟩ :: outer :: steps)

theorem Descent.trail {root : NodeId} {path : Path} {steps : List Step} (h : Descent b root path steps) :
    Trail b root steps := by
  induction h with
  | root h => exact .root h
  | child _ hc hr ih => exact .child ih ⟨_, hc, hr⟩

theorem Descent.steps_eq {root : NodeId} {path : Path} {steps steps' : List Step} (h : Descent b root path steps)
    (hs : (b.steps path).result = .ok steps') : steps' = steps := by
  induction h generalizing steps' with
  | root hr =>
    obtain ⟨id, hi, h⟩ := Walk.result_bind_eq_ok.mp hs
    cases h
    rw [hr.unique (resolves_of_resolve hi)]
  | child _ _ hr ih =>
    obtain ⟨id, hi, h⟩ := Walk.result_bind_eq_ok.mp hs
    obtain ⟨outer, ho, h⟩ := Walk.result_bind_eq_ok.mp h
    cases h
    rw [ih ho, hr.unique (resolves_of_resolve hi)]

theorem isMatchedAt_eq {id : NodeId} {path : Path} {steps : List Step} (hd : Descent b root path steps) {r : Bool}
    (h : (b.isMatchedAt id path).result = .ok r) : r = true ↔ id ∈ steps.map Step.node := by
  induction hd generalizing r with
  | root hr =>
    obtain ⟨last, hl, h⟩ := Walk.result_bind_eq_ok.mp h
    cases hr.unique (resolves_of_resolve hl)
    split at h
    · rename_i he
      cases h
      simp [he]
    · rename_i he
      cases h
      simp [Ne.symm he]
  | child hd _ hr ih =>
    obtain ⟨last, hl, h⟩ := Walk.result_bind_eq_ok.mp h
    cases hr.unique (resolves_of_resolve hl)
    split at h
    · rename_i he
      cases h
      simp [he]
    · rename_i he
      rw [ih h]
      simp [Ne.symm he]

theorem isEnclosed_eq {id : NodeId} {path : Path} {s : Step} {outside : List Step}
    (hd : Descent b root path (s :: outside)) {r : Bool} (h : (b.isEnclosed path id).result = .ok r) :
    r = true ↔ id ∈ outside.map Step.node := by
  cases hd with
  | root => cases h; simp
  | child hd => exact isMatchedAt_eq hd h

end Rulebook

end FurthestMatch
