import Inference.Routine
import Mathlib.Tactic.Common

/-!
The steps of programs that run together: a program begins, or the next action of one of them
happens.
-/

namespace Inference

namespace Routine

variable {σ α β : Type} {p : Routine σ α} {act : σ → σ}

@[simp]
theorem alone_bind (p : Routine σ α) (q : α → Routine σ β) (s : σ) :
    (p >>= q).alone s = (q (p.alone s).1).alone (p.alone s).2 := by
  change (p.bind q).alone s = _
  induction p generalizing s
  case done    => rfl
  case step hi => exact hi _ _

@[simp]
theorem alone_atomic (f : σ → α × σ) (s : σ) : (atomic f).alone s = f s := rfl

@[simp]
theorem alone_pure (a : α) (s : σ) : (pure a : Routine σ α).alone s = (a, s) := rfl

@[simp]
theorem alone_map (f : α → β) (p : Routine σ α) (s : σ) :
    (f <$> p).alone s = (f (p.alone s).1, (p.alone s).2) :=
  alone_bind p (pure ∘ f) s

@[simp]
theorem alone_change (f : σ → σ) (s : σ) : (change f).alone s = ((), f s) := rfl

@[simp]
theorem alone_read (f : σ → α) (s : σ) : (read f).alone s = (f s, s) := rfl

@[simp]
theorem advance?_atomic_bind (f : σ → α × σ) (q : α → Routine σ β) (s : σ) :
    (atomic f >>= q).advance? s = some (q (f s).1, (f s).2) := rfl

@[simp]
theorem advance?_read_bind (f : σ → α) (q : α → Routine σ β) (s : σ) :
    (read f >>= q).advance? s = some (q (f s), s) := rfl

-- The next action.
def Awaits (act : σ → σ) : Routine σ α → Prop
  | done _ => False
  | step act' _ => act' = act

theorem Awaits.bind (h : p.Awaits act) (q : α → Routine σ β) : (p.bind q).Awaits act := by
  cases p
  case done => exact h.elim
  case step => exact h

theorem not_awaits_of_result? (h : p.result?.isSome) (act : σ → σ) : ¬p.Awaits act := by
  cases p
  case done => exact id
  case step => cases h

end Routine

namespace Crowd

variable {σ α : Type}

inductive Step (c : Crowd σ α) : Action σ α → Crowd σ α → Prop
  | start (p) : Step c (.start p) { c with routines := c.routines ++ [p] }
  | advance {i act next} : c.routines[i]? = some (.step act next) →
      Step c (.advance i) ⟨act c.state, c.routines.set i (next c.state)⟩

theorem step_of_act {c c' : Crowd σ α} {a : Action σ α} (h : c.act a = some c') : c.Step a c' := by
  cases a
  case start p => exact Option.some.inj h ▸ .start p
  case advance i =>
    simp only [act, Option.bind_eq_bind, Option.bind_eq_some_iff] at h
    obtain ⟨p, hp, ⟨q, s⟩, hq, h⟩ := h
    cases p
    case done => cases hq
    case step act next =>
      cases hq
      exact Option.some.inj h ▸ .advance hp

-- A routine that is not done can go on.
theorem exists_advance {c : Crowd σ α} {p : Routine σ α} (hi : c.routines[i]? = some p)
    (hp : p.result? = none) : ∃ c', c.act (.advance i) = some c' := by
  cases p
  case done => cases hp
  case step act next =>
    exact ⟨⟨act c.state, c.routines.set i (next c.state)⟩,
      by simp [Crowd.act, hi, Routine.advance?]⟩

end Crowd
end Inference
