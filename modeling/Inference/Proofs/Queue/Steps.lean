import Inference.Proofs.Queue.Turns
import Inference.Proofs.Machine
import Inference.Proofs.Tally

/-!
The steps of a queue and its callers: a call begins, a caller takes a turn while it holds the lock,
or a caller gives the next of its notifications.
-/

namespace Inference.Monitor

variable {α : Type} {m m' : Monitor α}

-- What a notification does to the callers.
inductive Wakes (l : List (Caller α)) : Wake → List (Caller α) → Prop
  | all (c) : Wakes l (.all c) (l.map (.wake c))
  | none (c) : (∀ k ∈ l, k.isParkedAt c = false) → Wakes l (.one c) l
  | one {k} (c) (j : ℕ) : l[j]? = some k → k.isParkedAt c → Wakes l (.one c) (l.set j (k.wake c))

theorem wakes {l l' : List (Caller α)} {w : Wake} {target : Option ℕ}
    (h : wake w target l = some l') : Wakes l w l' := by
  cases w <;> cases target <;> simp only [wake, Option.some.injEq, reduceCtorEq] at h
  case all.none c => exact h ▸ .all c
  case one.none c =>
    split at h <;> simp only [Option.some.injEq, reduceCtorEq] at h
    exact h ▸ .none c (by simp_all)
  case one.some c j =>
    split at h <;> simp only [Option.some.injEq, reduceCtorEq] at h
    case isTrue hj =>
      have ⟨k, hk, hp⟩ := Option.any_eq_true _ _ |>.mp hj
      subst h
      simp only [List.modify_eq_set_getElem?, hk]
      exact .one c j hk hp

theorem Wakes.roused {l l' : List (Caller α)} {w : Wake} (h : Wakes l w l') :
    ∃ c, (w = .all c ∨ w = .one c) ∧ Roused (Caller.wake c) l l' := by
  cases h
  case all c  => exact ⟨c, .inl rfl, .map _⟩
  case none c _ => exact ⟨c, .inr rfl, .refl _⟩
  case one k c j hk _ =>
    refine ⟨c, .inr rfl, ?_⟩
    have h : Roused (Caller.wake c) l (l.modify j (Caller.wake c)) := .modify l j
    simpa [List.modify_eq_set_getElem?, hk] using h

inductive Step (m : Monitor α) : Action α → Monitor α → Prop
  | call (r) : Step m (.call r) { m with callers := m.callers ++ [.entering r] }
  | lock {i k k' q'} : m.callers[i]? = some k → k.lock? m.queue = some (q', k') →
      Step m (.lock i) ⟨q', m.callers.set i k'⟩
  | notify {i target owed a l} {w : Wake} : m.callers[i]? = some (.notifying (w :: owed) a) →
      Wakes m.callers w l →
      Step m (.notify i target) { m with callers := l.set i (.owing owed a) }

theorem step {a : Action α} (h : m.act a = some m') : m.Step a m' := by
  cases a
  case call r =>
    simp only [act, Option.some.injEq] at h
    exact h ▸ .call r
  case lock i =>
    simp only [act, lock, Option.bind_eq_bind, Option.bind_eq_some_iff, Option.pure_def,
      Option.some.injEq] at h
    obtain ⟨k, hk, ⟨q', k'⟩, hl, rfl⟩ := h
    exact .lock hk hl
  case notify i target =>
    simp only [act, notify, Option.bind_eq_bind, Option.bind_eq_some_iff, Option.pure_def,
      Option.some.injEq] at h
    obtain ⟨k, hk, ⟨w, k'⟩, hn, l, hw, rfl⟩ := h
    obtain ⟨owed, a, rfl, rfl⟩ := Caller.notify?_eq hn
    exact .notify hk (wakes hw)

-- Every caller stands where its request can lead it.
def Sound (m : Monitor α) : Prop := ∀ k ∈ m.callers, ∃ r, k.Serves r

theorem Step.sound {a : Action α} (h : m.Step a m') (hm : m.Sound) : m'.Sound := by
  cases h
  case call r => exact List.forall_mem_append.mpr ⟨hm, List.forall_mem_singleton.mpr ⟨r, rfl⟩⟩
  case lock hk hl =>
    have ⟨r, hr⟩ := hm _ <| List.mem_of_getElem? hk
    exact forall_mem_set _ hm ⟨r, hr.lock? hl⟩
  case notify hk hw =>
    have ⟨_, _, hw⟩ := hw.roused
    have ⟨r, hr⟩ := hm _ <| List.mem_of_getElem? hk
    refine forall_mem_set _ (hw.forall_mem (fun _ ⟨r, hr⟩ => ⟨r, hr.wake⟩) hm) ⟨r, ?_⟩
    exact hr.notify? rfl

theorem Step.capacity {a : Action α} (h : m.Step a m') :
    m'.queue.capacity = m.queue.capacity := by
  cases h
  case lock _ hl => exact Caller.lock?_capacity hl
  all_goals rfl

theorem Step.size_le {a : Action α} {b : ℕ} (h : m.Step a m') (hm : m.Sound)
    (hb : m.queue.capacity = some b) (hq : m.queue.size ≤ b) : m'.queue.size ≤ b := by
  cases h
  case lock hk hl =>
    have ⟨r, hr⟩ := hm _ <| List.mem_of_getElem? hk
    exact Caller.takeTurn_size_le (Caller.lock?_eq hr hl).left hb hq
  all_goals exact hq

end Inference.Monitor
