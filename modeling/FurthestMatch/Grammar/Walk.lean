import FurthestMatch.Grammar.Node

/-!
# Walks

A walk over a grammar answers, or stops, and along the way it follows references. The walk itself changes
nothing: it reports the references, and the rulebook ties them to what they stood for afterwards.
-/

namespace FurthestMatch

inductive Halt where
  /-- The walk went deeper than any walk over a grammar without left recursion. -/
  | exhausted
  /-- The text was needed at an offset beyond its end or inside a character. -/
  | misaligned
deriving DecidableEq, Repr

/-- What a walk came to, and the references it followed, the latest first. -/
structure Walk (α : Type) where
  result : Except Halt α
  followed : List NodeId

namespace Walk

variable {α β : Type}

protected def pure (a : α) : Walk α :=
  ⟨.ok a, []⟩

protected def bind (w : Walk α) (f : α → Walk β) : Walk β :=
  match w.result with
  | .ok a => ⟨(f a).result, (f a).followed ++ w.followed⟩
  | .error halt => ⟨.error halt, w.followed⟩

instance : Monad Walk where
  pure := Walk.pure
  bind := Walk.bind

def halt (why : Halt) : Walk α :=
  ⟨.error why, []⟩

def follow (id : NodeId) : Walk Unit :=
  ⟨.ok (), [id]⟩

@[simp] theorem result_pure (a : α) : (pure a : Walk α).result = .ok a := rfl

theorem result_bind (w : Walk α) (f : α → Walk β) :
    (w >>= f).result = w.result.bind fun a => (f a).result := by
  show (Walk.bind w f).result = _
  unfold Walk.bind
  cases w.result <;> rfl

theorem result_bind_eq_ok {w : Walk α} {f : α → Walk β} {y : β} :
    (w >>= f).result = .ok y ↔ ∃ a, w.result = .ok a ∧ (f a).result = .ok y := by
  rw [result_bind]
  cases w.result <;> simp [Except.bind]

theorem result_bind_of_ok {w : Walk α} {a : α} (h : w.result = .ok a) (f : α → Walk β) :
    (w >>= f).result = (f a).result := by
  rw [result_bind, h]
  rfl

@[simp] theorem result_halt (why : Halt) : (halt why : Walk α).result = .error why := rfl

@[simp] theorem result_follow (id : NodeId) : (follow id).result = .ok () := rfl

end Walk

end FurthestMatch
