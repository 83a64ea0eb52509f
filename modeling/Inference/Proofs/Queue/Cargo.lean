import Inference.Proofs.Queue.Turns

/-!
What a caller of a queue carries: the item that it brings, until the queue has it, or the item that
it was given. No lock section of a queue without a bound loses an item, unless it clears the queue.
-/

namespace Inference

variable {α : Type}

def Request.cargo : Request α → List α
  | push x => [x]
  | _ => []

def Answer.cargo : Answer α → List α
  | item (some x) => [x]
  | _ => []

namespace Caller

variable {q q' : Queue α} {k k' : Caller α} {r : Request α} {c : Cond} {x : α}

def cargo : Caller α → List α
  | entering r | parked r _ | woken r => r.cargo
  | notifying _ a | returned a => a.cargo

-- The requests that are about the queue and not about an item.
def Tends (k : Caller α) : Prop := k.Serves .clear ∨ k.Serves .close ∨ k.Serves .reopen

theorem length_cargo_le (k : Caller α) : k.cargo.length ≤ 1 := by
  have hr (r : Request α) : r.cargo.length ≤ 1 := by cases r <;> simp [Request.cargo]
  have ha (a : Answer α) : a.cargo.length ≤ 1 := by
    cases a
    case item x => cases x <;> simp [Answer.cargo]
    all_goals simp [Answer.cargo]
  cases k
  case entering r | parked r _ | woken r => exact hr r
  case notifying a | returned a          => exact ha a

@[simp]
theorem cargo_owing (owed : List Wake) (a : Answer α) : (owing owed a).cargo = a.cargo := by
  rw [owing]
  split <;> rfl

@[simp]
theorem cargo_wake (c : Cond) (k : Caller α) : (k.wake c).cargo = k.cargo := by
  cases k <;> simp only [Caller.wake]
  case parked =>
    split <;> rfl

theorem Serves.cargo_eq_nil (hk : k.Serves r) (hr : r.cargo = [])
    (ha : ∀ {a}, r.Answers a → a.cargo = []) : k.cargo = [] := by
  cases k
  case entering       => exact hk ▸ hr
  case parked | woken => exact hk.left ▸ hr
  case notifying      => exact ha hk.answers
  case returned       => exact ha hk

theorem Tends.cargo (hk : k.Tends) : k.cargo = [] := by
  have ha {r : Request α} (hr : r = .clear ∨ r = .close ∨ r = .reopen) {a : Answer α}
      (h : r.Answers a) : a.cargo = [] := by
    rcases hr with rfl | rfl | rfl <;> cases a <;> simp_all [Request.Answers, Answer.cargo]
  rcases hk with hk | hk | hk
  · exact hk.cargo_eq_nil rfl (ha (by simp))
  · exact hk.cargo_eq_nil rfl (ha (by simp))
  · exact hk.cargo_eq_nil rfl (ha (by simp))

theorem lock?_cargo (hk : k.Serves r) (h : k.lock? q = some (q', k')) : k.cargo = r.cargo := by
  have ⟨_, hk⟩ := lock?_eq hk h
  rcases hk with rfl | rfl <;> rfl

-- What is taken out of a queue was in it.
theorem lock?_pop_perm (hk : k.Serves .pop) (h : k.lock? q = some (q', k')) :
    q.items.Perm (k'.cargo ++ q'.items) := by
  cases lock?_pop hk h
  case miss | wait => exact .refl _
  case take hp     => exact hp

theorem lock?_push_unbounded (hk : k.Serves (.push x)) (hq : q.capacity = none)
    (h : k.lock? q = some (q', k')) : q'.items = q.items ++ [x] ∧ k'.cargo = [] := by
  cases lock?_push hk h
  case wait hf _   => simp [Queue.isFull, hq] at hf
  case bounce hc _ => simp [hq] at hc
  case put         => exact ⟨rfl, rfl⟩

-- A queue keeps its items, unless they are cleared away.
theorem Tends.lock? (hk : k.Tends) (h : k.lock? q = some (q', k')) :
    k = entering .clear ∧ q'.items = [] ∨ q'.items = q.items := by
  rcases hk with hk | hk | hk
  · obtain ⟨rfl, rfl, _⟩ := lock?_clear hk h
    exact .inl ⟨rfl, rfl⟩
  · exact .inr <| (lock?_close hk h).left ▸ rfl
  · exact .inr <| (lock?_reopen hk h).left ▸ rfl

end Caller
end Inference
