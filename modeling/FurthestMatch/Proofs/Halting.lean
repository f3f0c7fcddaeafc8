import FurthestMatch.Grammar.Walk

/-!
# Why a walk stops

A walk of several parts stops only for what its parts stop for. With no reason to stop at all it answers.
-/

namespace FurthestMatch

namespace Walk

variable {α β : Type} {why : Halt → Prop}

def StopsFor (why : Halt → Prop) (w : Walk α) : Prop :=
  ∀ halt, w.result = .error halt → why halt

namespace StopsFor

theorem of_ok {w : Walk α} {a : α} (h : w.result = .ok a) : w.StopsFor why :=
  fun _ he => nomatch h.symm.trans he

theorem pure (a : α) : (Pure.pure a : Walk α).StopsFor why :=
  of_ok rfl

theorem follow (id : NodeId) : (Walk.follow id).StopsFor why :=
  of_ok rfl

theorem halt {reason : Halt} (h : why reason) : (Walk.halt reason : Walk α).StopsFor why := by
  rintro _ ⟨⟩
  exact h

theorem bind {w : Walk α} {f : α → Walk β} (h : w.StopsFor why) (hf : ∀ a, w.result = .ok a → (f a).StopsFor why) :
    (w >>= f).StopsFor why := by
  rw [StopsFor, result_bind]
  cases hw : w.result with
  | ok a => exact hf a hw
  | error halt =>
    rintro _ ⟨⟩
    exact h halt hw

theorem answers {w : Walk α} (h : w.StopsFor fun _ => False) : ∃ a, w.result = .ok a := by
  cases hw : w.result with
  | ok a => exact ⟨a, rfl⟩
  | error halt => exact absurd hw (h halt)

end StopsFor

/-- The walk does not stop for want of a text. -/
abbrev Aligned (w : Walk α) : Prop :=
  w.StopsFor (· ≠ .misaligned)

abbrev Answers (w : Walk α) : Prop :=
  w.StopsFor fun _ => False

theorem Aligned.exhausted : (halt .exhausted : Walk α).Aligned :=
  .halt nofun

theorem Aligned.ne {w : Walk α} (h : w.Aligned) : w.result ≠ .error .misaligned :=
  fun he => h _ he rfl

end Walk

end FurthestMatch
