import Inference.Queue.Monitor
import Mathlib.Data.List.Perm.Basic

/-!
What a caller can do while it holds the lock of a queue, and which requests, answers and conditions
go together where a caller stands. Later modules read a lock section off these statements and do not
open its definition.
-/

namespace Inference

namespace Order

variable {α : Type} {o : Order α} {l rest : List α} {x : α}

theorem takeGreatest_eq_none {le : α → α → Bool} (h : takeGreatest le l = none) : l = [] := by
  cases l
  case nil => rfl
  case cons => grind [takeGreatest]

theorem takeGreatest_perm {le : α → α → Bool} (h : takeGreatest le l = some (x, rest)) :
    l.Perm (x :: rest) := by
  induction l generalizing x rest
  case nil => simp [takeGreatest] at h
  case cons y l hi =>
    unfold takeGreatest at h
    split at h
    case h_1 hl =>
      simp only [Option.some.injEq, Prod.mk.injEq] at h
      rw [takeGreatest_eq_none hl, ← h.left, ← h.right]
    case h_2 z zs hz =>
      split at h <;> simp only [Option.some.injEq, Prod.mk.injEq] at h
      · rw [h.left, h.right]
      · rw [← h.left, ← h.right]
        exact (hi hz).cons y |>.trans <| .swap ..

theorem take?_perm (h : o.take? l = some (x, rest)) : l.Perm (x :: rest) := by
  cases l <;> cases o <;> simp only [take?, Option.some.injEq, Prod.mk.injEq, reduceCtorEq] at h
  case cons.arrival    => exact h.left ▸ h.right ▸ .refl _
  case cons.priority y => exact takeGreatest_perm h

theorem eq_nil_of_take? (h : o.take? l = none) : l = [] := by
  cases l <;> cases o <;> simp only [take?, reduceCtorEq] at h ⊢
  exact List.cons_ne_nil _ _ <| takeGreatest_eq_none h

end Order

namespace Request

variable {α : Type}

-- The condition at which a caller waits, if its request ever makes it wait.
def cond? : Request α → Option Cond
  | push _ => some .notFull
  | pop | front => some .notEmpty
  | _ => none

def Answers : Request α → Answer α → Prop
  | push _, .accepted _ => True
  | pop, .item _ | tryPop, .item _ | front, .item _ => True
  | clear, .done | close, .done | reopen, .done => True
  | _, _ => False

-- The answers of lock sections that leave notifications owed.
def AnswersOwing : Request α → Answer α → Prop
  | push _, .accepted b => b
  | pop, .item x | tryPop, .item x => x.isSome
  | clear, .done | close, .done => True
  | _, _ => False

theorem AnswersOwing.pop {a : Answer α} (h : pop.AnswersOwing a) : ∃ x, a = .item (some x) := by
  cases a
  case item x =>
    cases x
    case none   => simp [AnswersOwing] at h
    case some x => exact ⟨x, rfl⟩
  all_goals exact h.elim

theorem AnswersOwing.push {a : Answer α} {x : α} (h : (push x).AnswersOwing a) :
    a = .accepted true := by
  cases a
  case accepted b => exact congrArg _ h
  all_goals exact h.elim

theorem AnswersOwing.done {r : Request α} {a : Answer α} (h : r.AnswersOwing a)
    (hr : r = close ∨ r = clear) : a = .done := by
  rcases hr with rfl | rfl <;> cases a <;> first | rfl | exact h.elim

theorem AnswersOwing.answers {r : Request α} {a : Answer α} (h : r.AnswersOwing a) :
    r.Answers a := by
  cases r <;> cases a <;> simp_all [AnswersOwing, Answers]

end Request

namespace Queue

variable {α : Type} {q : Queue α}

theorem le_size_of_isFull {b : ℕ} (h : q.isFull) (hb : q.capacity = some b) : b ≤ q.size := by
  simpa [isFull, hb] using h

theorem size_lt_of_not_isFull {b : ℕ} (h : q.isFull = false) (hb : q.capacity = some b) :
    q.size < b := by
  simpa [isFull, hb] using h

-- The turns that a caller can take, by its request.
inductive Turns (q : Queue α) : Request α → Turn α → Prop
  | full (x) : q.isFull → q.ended = false → Turns q (.push x) (.wait .notFull)
  | refused (x) : q.capacity.isSome → q.ended → Turns q (.push x) (.leave q [] (.accepted false))
  | accepted (x) : q.capacity = none ∨ q.isFull = false ∧ q.ended = false →
      Turns q (.push x)
        (.leave { q with items := q.items ++ [x] } [.one .notEmpty] (.accepted true))
  | withheld (r) : r = .pop ∨ r = .tryPop ∨ r = .front → q.ended →
      Turns q r (.leave q [] (.item none))
  | empty (r) : r = .pop ∨ r = .front → q.items = [] → q.ended = false →
      Turns q r (.wait .notEmpty)
  | lacking : q.items = [] → q.ended = false → Turns q .tryPop (.leave q [] (.item none))
  | taken (r x rest) : r = .pop ∨ r = .tryPop → q.items.Perm (x :: rest) → q.ended = false →
      Turns q r (.leave { q with items := rest } [.one .notFull] (.item (some x)))
  | shown (x) : x ∈ q.items → q.ended = false →
      Turns q .front (.leave q [] (.item (some x)))
  | cleared : Turns q .clear (.leave { q with items := [] } [.all .notFull] .done)
  | closed : Turns q .close
      (.leave { q with ended := true } [.all .notEmpty, .all .notFull] .done)
  | reopened : Turns q .reopen (.leave { q with ended := false } [] .done)

theorem turns_push (q : Queue α) (x : α) : q.Turns (.push x) (q.turn (.push x)) := by
  simp only [turn, push]
  split
  case isTrue h =>
    simp only [Bool.and_eq_true, Bool.not_eq_eq_eq_not, Bool.not_true] at h
    exact .full x h.left h.right
  case isFalse h =>
    split
    case isTrue hc =>
      simp only [Bool.and_eq_true] at hc
      exact .refused x hc.left hc.right
    case isFalse hc =>
      refine .accepted x ?_
      cases hq : q.capacity <;> simp_all

theorem turns_take {r : Request α} (hr : r = .pop ∨ r = .tryPop) (he : q.ended = false)
    (hi : q.items = [] → r = .tryPop) : q.Turns r q.take := by
  simp only [take]
  split
  case h_1 h =>
    have h := Order.eq_nil_of_take? h
    exact hi h ▸ .lacking h he
  case h_2 h => exact .taken r _ _ hr (Order.take?_perm h) he

theorem turns (q : Queue α) (r : Request α) : q.Turns r (q.turn r) := by
  cases r
  case push x => exact turns_push q x
  case pop =>
    simp only [turn]
    split
    case isTrue he => exact .withheld _ (by simp) he
    case isFalse he =>
      split
      case isTrue h  => exact .empty _ (by simp) (by simpa using h) (by simpa using he)
      case isFalse h => exact turns_take (by simp) (by simpa using he) (by simp_all)
  case tryPop =>
    simp only [turn]
    split
    case isTrue he  => exact .withheld _ (by simp) he
    case isFalse he => exact turns_take (by simp) (by simpa using he) (by simp)
  case front =>
    simp only [turn]
    split
    case isTrue he => exact .withheld _ (by simp) he
    case isFalse he =>
      split
      case isTrue h => exact .empty _ (by simp) (by simpa using h) (by simpa using he)
      case isFalse h =>
        cases ht : q.order.take? q.items
        case none => simp [Order.eq_nil_of_take? ht] at h
        case some p =>
          have hp := (Order.take?_perm ht).mem_iff.mpr List.mem_cons_self
          exact .shown p.1 hp (by simpa using he)
  case clear  => exact .cleared
  case close  => exact .closed
  case reopen => exact .reopened

end Queue

namespace Caller

variable {α : Type} {q q' : Queue α} {k k' : Caller α} {r : Request α} {c : Cond}

-- Where a caller with a request can stand.
def Serves (r : Request α) : Caller α → Prop
  | entering r' => r' = r
  | parked r' c => r' = r ∧ r.cond? = some c
  | woken r' => r' = r ∧ r.cond?.isSome
  | notifying _ a => r.AnswersOwing a
  | returned a => r.Answers a

theorem takeTurn_serves (q : Queue α) (r : Request α) : (takeTurn q r).2.Serves r := by
  have h := q.turns r
  rw [takeTurn]
  generalize q.turn r = t at h
  cases h
  case empty hr    => rcases hr with rfl | rfl <;> simp [Serves, Request.cond?]
  case withheld hr => rcases hr with rfl | rfl | rfl <;> trivial
  case taken hr    => rcases hr with rfl | rfl <;> simp [Serves, owing, Request.AnswersOwing]
  all_goals simp [Serves, owing, Request.cond?, Request.Answers, Request.AnswersOwing]

theorem takeTurn_front (h : takeTurn q .front = (q', k')) : q' = q := by
  have ht := q.turns .front
  rw [takeTurn] at h
  generalize q.turn .front = t at h ht
  cases ht
  case taken hr => simp at hr
  all_goals exact (Prod.mk.inj h).left.symm

theorem takeTurn_capacity (h : takeTurn q r = (q', k')) : q'.capacity = q.capacity := by
  have ht := q.turns r
  rw [takeTurn] at h
  generalize q.turn r = t at h ht
  cases ht <;> exact (Prod.mk.inj h).left ▸ rfl

-- A bounded queue never takes more than it has places for.
theorem takeTurn_size_le {b : ℕ} (h : takeTurn q r = (q', k')) (hb : q.capacity = some b)
    (hq : q.size ≤ b) : q'.size ≤ b := by
  have ht := q.turns r
  rw [takeTurn] at h
  generalize q.turn r = t at h ht
  cases ht <;> obtain ⟨rfl, rfl⟩ := Prod.mk.inj h
  case accepted x hx =>
    have hx := hx.resolve_left (by simp [hb])
    have := Queue.size_lt_of_not_isFull hx.left hb
    rw [Queue.size, List.length_append]
    exact this
  case taken hp _ _ =>
    have : q.size = _ + 1 := hp.length_eq
    simp only [Queue.size] at this hq ⊢
    omega
  case cleared => simp [Queue.size]
  all_goals exact hq

-- Nobody waits at a queue that is ended.
theorem takeTurn_not_parked (c : Cond) (h : takeTurn q r = (q', k')) (he : q.ended) :
    k'.isParkedAt c = false := by
  have ht := q.turns r
  rw [takeTurn] at h
  generalize q.turn r = t at h ht
  cases ht <;> obtain ⟨rfl, rfl⟩ := Prod.mk.inj h <;> simp_all [owing, isParkedAt]

theorem lock?_eq (hk : k.Serves r) (h : k.lock? q = some (q', k')) :
    takeTurn q r = (q', k') ∧ (k = entering r ∨ k = woken r) := by
  cases k <;> simp_all [lock?, Serves]

@[simp]
theorem entering_ne_owing (r : Request α) (owed : List Wake) (a : Answer α) :
    entering r ≠ owing owed a := by
  rw [owing]
  split <;> simp

theorem lock?_ne_entering (h : k.lock? q = some (q', k')) (r : Request α) : entering r ≠ k' := by
  have ht {r'} (h : takeTurn q r' = (q', k')) : entering r ≠ k' := by
    rw [takeTurn] at h
    split at h <;> obtain ⟨rfl, rfl⟩ := Prod.mk.inj h <;> simp
  cases k <;> simp only [lock?, Option.some.injEq, reduceCtorEq] at h <;> exact ht h

theorem lock?_capacity (h : k.lock? q = some (q', k')) : q'.capacity = q.capacity := by
  cases k <;> simp only [lock?, Option.some.injEq, reduceCtorEq] at h <;> exact takeTurn_capacity h

theorem Serves.lock? (hk : k.Serves r) (h : k.lock? q = some (q', k')) : k'.Serves r := by
  have hs := takeTurn_serves q r
  rwa [(lock?_eq hk h).left] at hs

-- What the lock section of a caller that wants an item comes to.
inductive Pops (q : Queue α) : Queue α → Caller α → Prop
  | miss : q.ended → Pops q q (returned (.item none))
  | wait : q.ended = false → q.items = [] → Pops q q (parked .pop .notEmpty)
  | take (x rest) : q.ended = false → q.items.Perm (x :: rest) →
      Pops q { q with items := rest } (notifying [.one .notFull] (.item (some x)))

-- What the lock section of a caller that brings an item comes to.
inductive Pushes (q : Queue α) (x : α) : Queue α → Caller α → Prop
  | wait : q.isFull → q.ended = false → Pushes q x q (parked (.push x) .notFull)
  | bounce : q.capacity.isSome → q.ended → Pushes q x q (returned (.accepted false))
  | put : q.capacity = none ∨ q.isFull = false ∧ q.ended = false →
      Pushes q x { q with items := q.items ++ [x] } (notifying [.one .notEmpty] (.accepted true))

theorem lock?_pop (hk : k.Serves .pop) (h : k.lock? q = some (q', k')) : Pops q q' k' := by
  have ⟨h, _⟩ := lock?_eq hk h
  have ht := q.turns .pop
  rw [takeTurn] at h
  generalize q.turn .pop = t at h ht
  cases ht <;> obtain ⟨rfl, rfl⟩ := Prod.mk.inj h
  case withheld he _ _        => exact .miss he
  case empty hi he _ _        => exact .wait he hi
  case taken x rest hp he _ _ => exact .take x rest he hp

theorem lock?_push {x : α} (hk : k.Serves (.push x)) (h : k.lock? q = some (q', k')) :
    Pushes q x q' k' := by
  have ⟨h, _⟩ := lock?_eq hk h
  have ht := q.turns (.push x)
  rw [takeTurn] at h
  generalize q.turn (.push x) = t at h ht
  cases ht <;> obtain ⟨rfl, rfl⟩ := Prod.mk.inj h
  case full hf he _    => exact .wait hf he
  case refused hc he _ => exact .bounce hc he
  case accepted hc _   => exact .put hc
  all_goals simp_all

theorem lock?_close (hk : k.Serves .close) (h : k.lock? q = some (q', k')) :
    q' = { q with ended := true } ∧ k' = notifying [.all .notEmpty, .all .notFull] .done :=
  have h := Prod.mk.inj (lock?_eq hk h).left
  ⟨h.left.symm, h.right.symm⟩

theorem lock?_clear (hk : k.Serves .clear) (h : k.lock? q = some (q', k')) :
    k = entering .clear ∧ q' = { q with items := [] } ∧ k' = notifying [.all .notFull] .done := by
  have ⟨h, hk'⟩ := lock?_eq hk h
  have h := Prod.mk.inj h
  refine ⟨hk'.resolve_right ?_, h.left.symm, h.right.symm⟩
  rintro rfl
  simp [Serves, Request.cond?] at hk

theorem lock?_reopen (hk : k.Serves .reopen) (h : k.lock? q = some (q', k')) :
    q' = { q with ended := false } ∧ k' = returned .done :=
  have h := Prod.mk.inj (lock?_eq hk h).left
  ⟨h.left.symm, h.right.symm⟩

theorem notify?_eq {w : Wake} (h : k.notify? = some (w, k')) :
    ∃ owed a, k = notifying (w :: owed) a ∧ k' = owing owed a := by
  cases k <;> simp_all [notify?]
  case notifying owed a => cases owed <;> simp_all

theorem Serves.notify? {w : Wake} (hk : k.Serves r) (h : k.notify? = some (w, k')) :
    k'.Serves r := by
  obtain ⟨owed, a, rfl, rfl⟩ := notify?_eq h
  rw [owing]
  split
  · exact Request.AnswersOwing.answers hk
  · exact hk

theorem Serves.wake (hk : k.Serves r) : (k.wake c).Serves r := by
  cases k
  case parked r' d =>
    rw [Caller.wake]
    split
    · exact ⟨hk.left, hk.right ▸ rfl⟩
    · exact hk
  all_goals exact hk

end Caller
end Inference
