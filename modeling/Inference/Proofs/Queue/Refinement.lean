import Inference.Proofs.Queue.Shelf
import Inference.Proofs.Queue.Waiting

/-!
The queue answers as the shelf does. Each lock section of the queue is one of the shelf, and between
two of them the queue holds the items that are on the shelf. So no item is lost or doubled, the
items leave in their order, and the end of the queue only hides them.
-/

namespace Inference

namespace Order

variable {α : Type} {le : α → α → Bool} {l rest : List α} {x y : α}

-- Any two items compare, and the comparison is transitive.
def Ranks : Order α → Prop
  | arrival => True
  | priority le => (∀ x y, le x y ∨ le y x) ∧ ∀ x y z, le x y → le y z → le x z

theorem takeGreatest_eraseIdx (h : takeGreatest le l = some (x, rest)) :
    ∃ i, l[i]? = some x ∧ rest = l.eraseIdx i := by
  induction l generalizing x rest
  case nil => simp [takeGreatest] at h
  case cons y l hi =>
    unfold takeGreatest at h
    split at h
    case h_1 hl =>
      simp only [Option.some.injEq, Prod.mk.injEq] at h
      exact ⟨0, by simp [h.left], by simp [← h.right, takeGreatest_eq_none hl]⟩
    case h_2 z zs hz =>
      split at h <;> simp only [Option.some.injEq, Prod.mk.injEq] at h
      · exact ⟨0, by simp [h.left], by simp [← h.right]⟩
      · obtain ⟨i, hi, he⟩ := hi hz
        exact ⟨i + 1, by simp [hi, h.left], by simp [← h.right, he]⟩

theorem le_of_takeGreatest (ho : (priority le).Ranks) (h : takeGreatest le l = some (x, rest))
    (hy : y ∈ l) : le y x := by
  have ⟨htotal, htrans⟩ := ho
  induction l generalizing x y rest
  case nil => cases hy
  case cons w l hi =>
    unfold takeGreatest at h
    split at h
    case h_1 hl =>
      simp only [takeGreatest_eq_none hl, List.mem_singleton] at hy
      simp only [Option.some.injEq, Prod.mk.injEq] at h
      simpa [← h.left, hy] using htotal w w
    case h_2 z zs hz =>
      split at h <;> simp only [Option.some.injEq, Prod.mk.injEq] at h
      case isTrue hzw =>
        apply List.mem_cons.mp hy |>.elim <;> intro hy
        · simpa [← h.left, hy] using htotal w w
        · exact h.left ▸ htrans _ _ _ (hi hz hy) hzw
      case isFalse hzw =>
        apply List.mem_cons.mp hy |>.elim <;> intro hy
        · exact h.left ▸ hy ▸ (htotal w z).resolve_right hzw
        · exact h.left ▸ hi hz hy

@[simp]
theorem take?_nil (o : Order α) : o.take? [] = none := by
  cases o <;> rfl

theorem take?_next {o : Order α} (ho : o.Ranks) (h : o.take? l = some (x, rest)) :
    ∃ i, l[i]? = some x ∧ rest = l.eraseIdx i ∧
      match o with
      | arrival => i = 0
      | priority le => ∀ y ∈ l, le y x := by
  cases l <;> cases o <;> simp only [take?, Option.some.injEq, Prod.mk.injEq, reduceCtorEq] at h
  case cons.arrival => exact ⟨0, by simp [h.left], by simp [h.right], rfl⟩
  case cons.priority =>
    obtain ⟨i, hi, he⟩ := takeGreatest_eraseIdx h
    exact ⟨i, hi, he, fun y hy => le_of_takeGreatest ho h hy⟩

end Order

namespace Shelf

variable {α : Type}

-- The queue holds the items that are on the shelf.
structure Shows (o : Order α) (bound : Option ℕ) (s : Shelf α) (q : Queue α) : Prop where
  order    : q.order = o
  capacity : q.capacity = bound.map (max · 1)
  items    : s.present.map (s.accepted[·]?) = q.items.map some
  ended    : s.ended = q.ended

variable {s : Shelf α} {q : Queue α} {o : Order α} {bound : Option ℕ} {x : α} {n i : ℕ}

namespace Shows

theorem length (h : s.Shows o bound q) : s.present.length = q.items.length := by
  simpa using congrArg List.length h.items

theorem present_eq_nil (h : s.Shows o bound q) : s.present = [] ↔ q.items = [] := by
  rw [← List.length_eq_zero_iff, h.length, List.length_eq_zero_iff]

theorem isFull (h : s.Shows o bound q) : q.isFull ↔ s.Full bound := by
  rw [Queue.isFull, h.capacity, Queue.size, ← h.length]
  cases bound <;> simp [Full]

theorem getElem? (h : s.Shows o bound q) (hx : q.items[i]? = some x) :
    ∃ n, s.present[i]? = some n ∧ s.accepted[n]? = some x := by
  have hx : (s.present.map (s.accepted[·]?))[i]? = some (some x) := by
    simp [h.items, hx]
  simpa using hx

theorem mem (h : s.Shows o bound q) (hn : n ∈ s.present) (hx : s.accepted[n]? = some x) :
    x ∈ q.items := by
  have hx : some x ∈ s.present.map (s.accepted[·]?) := List.mem_map.mpr ⟨n, hn, hx⟩
  simpa [h.items] using hx

-- The item that leaves the queue may be the next one to leave.
theorem next {rest : List α} (h : s.Shows o bound q) (ho : o.Ranks)
    (ht : q.order.take? q.items = some (x, rest)) :
    ∃ n i, s.present[i]? = some n ∧ s.Next n x o ∧ rest = q.items.eraseIdx i := by
  have ⟨i, hi, he, hl⟩ := Order.take?_next ho (h.order ▸ ht)
  have ⟨n, hn, hx⟩ := h.getElem? hi
  have hm := List.mem_of_getElem? hn
  refine ⟨n, i, hn, ?_, he⟩
  cases o
  case arrival =>
    refine ⟨hm, hx, fun m hm' => ?_⟩
    obtain ⟨j, hj, rfl⟩ := List.mem_iff_getElem.mp hm'
    obtain ⟨hi, rfl⟩ := List.getElem?_eq_some_iff.mp hn
    subst hl
    cases j
    case zero   => exact Nat.le_refl _
    case succ j =>
      exact Nat.le_of_lt <| List.pairwise_iff_getElem.mp s.sorted_present 0 _ hi hj j.succ_pos
  case priority le => exact ⟨hm, hx, fun m hm y hy => hl y <| h.mem hm hy⟩

theorem take (h : s.Shows o bound q) (hn : s.present[i]? = some n) :
    ({ s with taken := s.taken ++ [n] } : Shelf α).Shows o bound
      { q with items := q.items.eraseIdx i } where
  order    := h.order
  capacity := h.capacity
  items    := by
    rw [present_take hn, ← List.eraseIdx_map, h.items, List.eraseIdx_map]
  ended    := h.ended

theorem accept (h : s.Shows o bound q) (ht : s.Tidy) (x : α) :
    ({ s with accepted := s.accepted ++ [x] } : Shelf α).Shows o bound
      { q with items := q.items ++ [x] } where
  order    := h.order
  capacity := h.capacity
  items    := by
    have hp : s.present.map ((s.accepted ++ [x])[·]?) = s.present.map (s.accepted[·]?) :=
      List.map_congr_left fun n hn => List.getElem?_append_left (mem_present.mp hn).left
    rw [present_accept ht, List.map_append, List.map_append, hp, h.items]
    simp
  ended    := h.ended

theorem sweep (h : s.Shows o bound q) :
    ({ s with swept := s.swept ++ s.present } : Shelf α).Shows o bound { q with items := [] } where
  order    := h.order
  capacity := h.capacity
  items    := by
    rw [present_sweep]
    rfl
  ended    := h.ended

theorem turnOver (h : s.Shows o bound q) (b : Bool) :
    ({ s with ended := b } : Shelf α).Shows o bound { q with ended := b } :=
  ⟨h.order, h.capacity, h.items, rfl⟩

end Shows

-- The queue answers as the shelf allows.
theorem Shows.visit_take {r : Request α} (h : s.Shows o bound q) (ho : o.Ranks) (ht : s.Tidy)
    (hr : r = .pop ∨ r = .tryPop) (he : q.ended = false) (hq : q.turn r = q.take)
    (hi : q.items = [] → r = .tryPop) :
    ∃ t, s.Serves o bound (q.visit r).1 t ∧ t.Tidy ∧ t.Shows o bound (q.visit r).2 := by
  have hs : s.ended = false := h.ended.trans he
  have hv {a : Answer α} {q' : Queue α} {owed : List Wake} (hq : q.turn r = .leave q' owed a) :
      q.visit r = (⟨r, some a, []⟩, q') := by
    rw [Queue.visit, hq]
    rcases hr with rfl | rfl <;> rfl
  rw [Queue.take] at hq
  split at hq
  case h_1 hn =>
    have hn := Order.eq_nil_of_take? hn
    obtain rfl := hi hn
    rw [hv hq]
    exact ⟨s, .lack hs (h.present_eq_nil.mpr hn), ht, h⟩
  case h_2 x rest hx =>
    obtain ⟨n, i, hn, hx, he⟩ := h.next ho hx
    rw [hv hq, he]
    exact ⟨_, .take hr hs hx, ht.take (List.mem_of_getElem? hn), h.take hn⟩

theorem Shows.visit (h : s.Shows o bound q) (ho : o.Ranks) (ht : s.Tidy) (r : Request α) :
    ∃ t, s.Serves o bound (q.visit r).1 t ∧ t.Tidy ∧ t.Shows o bound (q.visit r).2 := by
  have he {b : Bool} (hq : q.ended = b) : s.ended = b := h.ended.trans hq
  cases r
  case push x =>
    have hu := q.turns_push x
    rw [Queue.visit]
    generalize q.turn (.push x) = u at hu
    cases hu
    case full hf hq     => exact ⟨s, .delay x (h.isFull.mp hf) (he hq), ht, h⟩
    case refused hc hq  =>
      exact ⟨s, .refuse x (by simpa [h.capacity] using hc) (he hq), ht, h⟩
    case accepted hc    =>
      refine ⟨_, .accept x ?_, ht.accept x, h.accept ht x⟩
      apply hc.imp
      · simp [h.capacity]
      · exact fun hc => ⟨he hc.right, fun hf => by simp [h.isFull.mpr hf] at hc⟩
    all_goals simp_all
  case pop =>
    cases hq : q.ended
    case true => simpa [Queue.visit, Queue.turn, hq] using ⟨s, .withhold (by simp) (he hq), ht, h⟩
    case false =>
      by_cases hi : q.items = []
      case pos =>
        simpa [Queue.visit, Queue.turn, hq, hi] using
          ⟨s, .await (by simp) (he hq) (h.present_eq_nil.mpr hi), ht, h⟩
      case neg => exact h.visit_take ho ht (by simp) hq (by simp [Queue.turn, hq, hi]) (absurd · hi)
  case tryPop =>
    cases hq : q.ended
    case true  => simpa [Queue.visit, Queue.turn, hq] using ⟨s, .withhold (by simp) (he hq), ht, h⟩
    case false => exact h.visit_take ho ht (by simp) hq (by simp [Queue.turn, hq]) fun _ => rfl
  case front =>
    cases hq : q.ended
    case true => simpa [Queue.visit, Queue.turn, hq] using ⟨s, .withhold (by simp) (he hq), ht, h⟩
    case false =>
      by_cases hi : q.items = []
      case pos =>
        simpa [Queue.visit, Queue.turn, hq, hi] using
          ⟨s, .await (by simp) (he hq) (h.present_eq_nil.mpr hi), ht, h⟩
      case neg =>
        obtain ⟨⟨x, rest⟩, hx⟩ := Option.ne_none_iff_exists'.mp (mt Order.eq_nil_of_take? hi)
        obtain ⟨n, i, _, hn, _⟩ := h.next ho hx
        simpa [Queue.visit, Queue.turn, hq, hi, hx] using ⟨s, .show (he hq) hn, ht, h⟩
  case clear  => exact ⟨_, .sweep h.items, ht.sweep, h.sweep⟩
  case close  => exact ⟨_, .close, ⟨ht.once, ht.known⟩, h.turnOver true⟩
  case reopen => exact ⟨_, .reopen, ⟨ht.once, ht.known⟩, h.turnOver false⟩

theorem Shows.visits (h : s.Shows o bound q) (ho : o.Ranks) (ht : s.Tidy) (rs : List (Request α)) :
    ∃ t, Runs o bound s (q.visits rs).1 t ∧ t.Tidy ∧ t.Shows o bound (q.visits rs).2 := by
  induction rs generalizing s q
  case nil => exact ⟨s, .nil s, ht, h⟩
  case cons r rs hi =>
    have ⟨_, hr, ht, h⟩ := h.visit ho ht r
    have ⟨t, hr', ht, h⟩ := hi h ht
    exact ⟨t, .cons hr hr', ht, h⟩

theorem shows_new (o : Order α) (bound : Option ℕ) : empty.Shows o bound (.new o bound) := by
  cases bound <;> exact ⟨rfl, rfl, rfl, rfl⟩

-- Every accepted item was taken, was swept away, or is there.
theorem Shows.perm {vs : List (Visit α)} (h : s.Shows o bound q) (ht : s.Tidy)
    (ha : empty.Accounts vs s) :
    (vs.flatMap Visit.accepted).Perm
      (vs.flatMap Visit.taken ++ vs.flatMap Visit.swept ++ q.items) := by
  have hp := ht.perm.map (s.accepted[·]?)
  have hl : (List.range s.accepted.length).map (s.accepted[·]?) = s.accepted.map some := by
    apply List.ext_getElem <;> simp
  rw [hl, List.map_append, List.map_append, h.items, ha.taken, ha.swept, ha.accepted] at hp
  apply (List.map_perm_map_iff (fun _ _ => Option.some.inj)).mp
  simpa [empty] using hp.symm

end Shelf

namespace Queue

variable {α : Type} {q : Queue α} {r : Request α} {x : α}

theorem visits_append (q : Queue α) (rs : List (Request α)) (r : Request α) :
    (q.visits (rs ++ [r])).2 = ((q.visits rs).2.visit r).2 := by
  induction rs generalizing q
  case nil     => rfl
  case cons hi => exact hi _

-- To look at the front takes nothing out, and shows the item that a consumer would get.
theorem visit_front (q : Queue α) : (q.visit .front).2 = q ∧
    (∀ x, (q.visit .front).1.answer = some (.item x) ↔ (q.visit .pop).1.answer = some (.item x)) ∧
    ∀ x, (q.visit .front).1.answer = some (.item (some x)) ↔
      (q.visit .tryPop).1.answer = some (.item (some x)) := by
  cases hq : q.ended <;> by_cases hi : q.items = [] <;>
    cases hx : q.order.take? q.items <;> simp [visit, turn, take, hq, hi, hx]

theorem takeTurn_visit (q : Queue α) (r : Request α) :
    (Caller.takeTurn q r).1 = (q.visit r).2 := by
  rw [Caller.takeTurn, visit]
  cases q.turn r
  case wait  => rfl
  case leave => cases r <;> rfl

-- Whatever its callers do, a queue goes through lock sections and nothing else.
theorem visits_of_reaches {m : Monitor α} (h : Monitor.machine.Reaches (.start q) m) :
    ∃ rs, m.queue = (q.visits rs).2 := by
  have hl {q' : Queue α} {k k' : Caller α} {rs : List (Request α)}
      (h : k.lock? (q.visits rs).2 = some (q', k')) : ∃ rs, q' = (q.visits rs).2 := by
    cases k <;> simp only [Caller.lock?, Option.some.injEq, reduceCtorEq] at h
    case entering r | woken r => exact ⟨rs ++ [r], by rw [visits_append, ← takeTurn_visit, h]⟩
  refine h.preserves (I := fun m => ∃ rs, m.queue = (q.visits rs).2) ⟨[], rfl⟩ fun hm ha => ?_
  obtain ⟨rs, hq⟩ := hm
  cases Monitor.step ha
  case call          => exact ⟨rs, hq⟩
  case lock hk hlock => exact hl (hq ▸ hlock)
  case notify        => exact ⟨rs, hq⟩

-- In every run the answers are those of the shelf, every accepted item is accounted for, and
-- `front` shows what a consumer would get. The runs are those of any callers.
theorem visits_refine_shelf (o : Order α) (ho : o.Ranks) (bound : Option ℕ) :
    (∀ rs,
      let vs := ((Queue.new o bound).visits rs).1
      let q := ((Queue.new o bound).visits rs).2
      (∃ s, Shelf.Runs o bound .empty vs s ∧ s.Shows o bound q ∧
        (s.taken ++ s.swept ++ s.present).Perm (.range s.accepted.length)) ∧
      (vs.flatMap Visit.accepted).Perm
        (vs.flatMap Visit.taken ++ vs.flatMap Visit.swept ++ q.items) ∧
      (q.visit .front).2 = q ∧
      (∀ x, (q.visit .front).1.answer = some (.item x) ↔
        (q.visit .pop).1.answer = some (.item x)) ∧
      ∀ x, (q.visit .front).1.answer = some (.item (some x)) ↔
        (q.visit .tryPop).1.answer = some (.item (some x))) ∧
    ∀ m, Monitor.machine.Reaches (.start (.new o bound)) m →
      ∃ rs, m.queue = ((Queue.new o bound).visits rs).2 := by
  refine ⟨fun rs => ?_, fun _ => visits_of_reaches⟩
  have ⟨s, hr, ht, hs⟩ := (Shelf.shows_new o bound).visits ho Shelf.tidy_empty rs
  exact ⟨⟨s, hr, hs, ht.perm⟩, hs.perm ht (hr.accounts Shelf.tidy_empty), visit_front _⟩

-- A bounded queue that gives the greatest item first is full, is ended, and is opened again.
theorem visits_greatest_first :
    let o : Order ℕ := .priority fun x y => decide (x ≤ y)
    let rs := [.push 1, .push 3, .push 2, .front, .close, .push 4, .pop, .reopen, .pop, .push 2,
      .clear]
    let run := (Queue.new o (some 2)).visits rs
    o.Ranks ∧ run.1.map (·.answer) = [some (.accepted true), some (.accepted true), none,
      some (.item (some 3)), some .done, some (.accepted false), some (.item none), some .done,
      some (.item (some 3)), some (.accepted true), some .done] ∧
    [1, 3, 2].Perm ([3] ++ [1, 2] ++ []) := by
  intro o rs run
  have ho : o.Ranks := by
    simp only [o, Order.Ranks, decide_eq_true_eq]
    exact ⟨Nat.le_total, fun _ _ _ => Nat.le_trans⟩
  exact ⟨ho, rfl, ((visits_refine_shelf o ho (some 2)).left rs).right.left⟩

end Queue
end Inference
