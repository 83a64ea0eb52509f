import Inference.Proofs.Queue.Steps

/-!
No caller of a queue sleeps while it could go on, as long as notifications are not wasted. For each
condition the notifications under way are counted against the callers that the queue has room for:
places for producers, items for consumers.

A producer that is notified uses up the place or finds none, so a bounded queue never strands one.
A consumer that only looks at the front uses a notification and leaves the item, and a consumer that
is parked beside it then sleeps on.
-/

namespace Inference

-- A queue as it is made, with or without a bound.
def Queue.new {α : Type} (o : Order α) (bound : Option ℕ) : Queue α :=
  bound.elim (.unbounded o) (.clamped o)

-- How many callers that wait for a condition the queue could let go on.
def Queue.room {α : Type} (q : Queue α) : Cond → ℕ
  | .notEmpty => q.size
  | .notFull => q.capacity.elim 0 (· - q.size)

namespace Caller

variable {α : Type} {q q' : Queue α} {k k' : Caller α} {r : Request α} {c d : Cond}

def parks (c : Cond) (k : Caller α) : ℕ := if k.isParkedAt c then 1 else 0

theorem parks_eq_zero (h : k.isParkedAt c = false) : k.parks c = 0 := by
  simp [parks, h]

theorem parks_pos_iff : 0 < k.parks c ↔ k.isParkedAt c := by
  rw [parks]
  split <;> simp_all

-- The notifications for one caller each that are still to be given, and one that is just received.
def signals (c : Cond) : Caller α → ℕ
  | woken r => if r.cond? = some c then 1 else 0
  | notifying owed _ => owed.count (.one c)
  | _ => 0

-- The notifications for all callers that are still to be given.
def heralds (c : Cond) : Caller α → ℕ
  | notifying owed _ => owed.count (.all c)
  | _ => 0

@[simp]
theorem parks_notifying (owed : List Wake) (a : Answer α) : (notifying owed a).parks c = 0 := rfl

@[simp]
theorem signals_notifying (owed : List Wake) (a : Answer α) :
    (notifying owed a).signals c = owed.count (.one c) := rfl

@[simp]
theorem heralds_notifying (owed : List Wake) (a : Answer α) :
    (notifying owed a).heralds c = owed.count (.all c) := rfl

@[simp]
theorem parks_owing (owed : List Wake) (a : Answer α) : (owing owed a).parks c = 0 := by
  rw [owing]
  split <;> rfl

@[simp]
theorem signals_owing (owed : List Wake) (a : Answer α) :
    (owing owed a).signals c = owed.count (.one c) := by
  rw [owing]
  split <;> simp_all [signals]

@[simp]
theorem heralds_owing (owed : List Wake) (a : Answer α) :
    (owing owed a).heralds c = owed.count (.all c) := by
  rw [owing]
  split <;> simp_all [heralds]

theorem heralds_wake : (k.wake d).heralds c = k.heralds c := by
  cases k <;> simp only [Caller.wake]
  split <;> rfl

theorem parks_wake : (k.wake c).parks c = 0 := by
  cases k <;> simp only [Caller.wake]
  case parked => split <;> simp_all [parks, isParkedAt]
  all_goals rfl

theorem parks_wake_of_ne (h : d ≠ c) : (k.wake d).parks c = k.parks c := by
  cases k <;> simp only [Caller.wake]
  split <;> simp_all [parks, isParkedAt, eq_comm]

theorem signals_wake_of_ne (hk : k.Serves r) (h : d ≠ c) :
    (k.wake d).signals c = k.signals c := by
  cases k <;> simp only [Caller.wake]
  case parked r' e =>
    split
    case isTrue he =>
      obtain ⟨rfl, hr⟩ := hk
      simp [signals, hr, ← he, h]
    case isFalse => rfl

theorem signals_wake_of_parked (hk : k.Serves r) (h : k.isParkedAt c) :
    (k.wake c).signals c = k.signals c + 1 := by
  cases k <;> simp only [isParkedAt, Bool.false_eq_true, decide_eq_true_eq] at h
  obtain ⟨rfl, hr⟩ := hk
  simp [Caller.wake, signals, hr, h]

-- Before it has the lock a caller counts at most as one that was notified.
theorem weights_before (h : k = entering r ∨ k = woken r) :
    k.parks c = 0 ∧ k.heralds c = 0 ∧ k.signals c ≤ if r.cond? = some c then 1 else 0 := by
  rcases h with rfl | rfl <;> simp [parks, isParkedAt, heralds, signals]

-- A turn makes no more room than it owes notifications. One that began with a notification and does
-- not end in a wait uses up room, unless it only looks at the front.
theorem takeTurn_room {n : ℕ} (h : takeTurn q r = (q', k')) (he : q.ended = false)
    (hc : c = .notFull → q.capacity.isSome) (hn : n ≤ if r.cond? = some c then 1 else 0)
    (hf : r = .front → q.items ≠ [] → n = 0) :
    k'.parks c = 1 ∧ q'.room c = 0 ∧ q'.ended = false ∨
    k'.parks c = 0 ∧ 0 < k'.heralds c ∨
    k'.parks c = 0 ∧ q'.ended = false ∧ q'.room c + n ≤ q.room c + k'.signals c := by
  have ht := q.turns r
  rw [takeTurn] at h
  generalize q.turn r = t at h ht
  cases ht <;> obtain ⟨rfl, rfl⟩ := Prod.mk.inj h
  case full hq _ =>
    cases c
    case notEmpty => simp_all [parks, isParkedAt, Request.cond?]
    case notFull  =>
      obtain ⟨b, hb⟩ := Option.isSome_iff_exists.mp (hc rfl)
      have := Queue.le_size_of_isFull hq hb
      simp [parks, isParkedAt, Queue.room, hb, he]
      omega
  case refused he' => simp_all
  case accepted x hx =>
    cases c
    case notEmpty => simp_all [Queue.room, Queue.size, Request.cond?]
    case notFull  =>
      obtain ⟨b, hb⟩ := Option.isSome_iff_exists.mp (hc rfl)
      have hx := hx.resolve_left (by simp [hb])
      have := Queue.size_lt_of_not_isFull hx.left hb
      simp_all [Queue.room, Queue.size, Request.cond?]
      omega
  case withheld he' => simp_all
  case empty hi _ hr =>
    rcases hr with rfl | rfl <;> cases c <;>
      simp_all [parks, isParkedAt, Queue.room, Queue.size, Request.cond?]
  case lacking => simp_all [Request.cond?]
  case taken x rest hp _ hr =>
    have := hp.length_eq
    rcases hr with rfl | rfl <;> cases c
    case inl.notFull | inr.notFull =>
      obtain ⟨b, hb⟩ := Option.isSome_iff_exists.mp (hc rfl)
      simp_all [Queue.room, Queue.size, Request.cond?]
      omega
    all_goals simp_all [Queue.room, Queue.size, Request.cond?]
  case shown x hx _ =>
    have := hf rfl (List.ne_nil_of_mem hx)
    simp_all
  case cleared => cases c <;> simp_all [Queue.room, Queue.size, Request.cond?]
  case closed => cases c <;> simp
  case reopened => simp_all [Request.cond?, Queue.room, Queue.size]

end Caller

namespace Monitor

variable {α : Type} {m m' : Monitor α} {c : Cond}

def Waiting (m : Monitor α) (c : Cond) : Prop := ∃ k ∈ m.callers, k.isParkedAt c

theorem waiting_iff : m.Waiting c ↔ 0 < tally (Caller.parks c) m.callers := by
  simp only [tally_pos_iff, Caller.parks_pos_iff, Waiting]

theorem pending_of_tally
    (h : 0 < tally (Caller.heralds c) m.callers ∨ 0 < tally (Caller.signals c) m.callers) :
    m.pending c := by
  simp only [pending, List.any_eq_true]
  rcases h with h | h <;> have ⟨k, hk, h⟩ := tally_pos_iff.mp h <;> refine ⟨k, hk, ?_⟩
  case inl =>
    cases k <;> simp [Caller.heralds] at h
    case notifying => simpa using ⟨_, h, .inr rfl⟩
  case inr =>
    cases k <;> simp [Caller.signals] at h
    case notifying => simpa using ⟨_, h, .inl rfl⟩
    case woken r => cases r <;> simp_all [Request.cond?, Nat.pos_iff_ne_zero]

-- A notified caller of `front` leaves with the item, and another consumer stays parked.
def Steals (m : Monitor α) : Action α → Prop
  | .lock i => m.callers[i]? = some (.woken .front) ∧
      m.queue.ended = false ∧ m.queue.items ≠ [] ∧ m.Waiting .notEmpty
  | _ => False

-- Either all waiting callers are about to be notified, or enough of them.
structure Attentive (m : Monitor α) (c : Cond) : Prop where
  sound : m.Sound
  bounded : c = .notFull → m.queue.capacity.isSome
  noticed : m.Waiting c → 0 < tally (Caller.heralds c) m.callers ∨
    m.queue.ended = false ∧ m.queue.room c ≤ tally (Caller.signals c) m.callers

end Monitor

namespace Monitor.Wakes

variable {α : Type} {l l' : List (Caller α)} {c d : Cond} {w : Wake}

theorem getElem?_notifying {i : ℕ} {owed : List Wake} {a : Answer α} (h : Wakes l w l')
    (hi : l[i]? = some (.notifying owed a)) : l'[i]? = some (.notifying owed a) := by
  have ⟨_, _, hr⟩ := h.roused
  have ⟨_, hi', h⟩ := hr.getElem? hi
  rcases h with rfl | rfl <;> exact hi'

theorem heralds_eq (h : Wakes l w l') :
    tally (Caller.heralds c) l' = tally (Caller.heralds c) l :=
  have ⟨_, _, hr⟩ := h.roused
  hr.tally_eq fun _ _ => Caller.heralds_wake

-- A notification of another condition changes nothing for this one.
theorem notice_of_ne (h : Wakes l w l') (hl : ∀ k ∈ l, ∃ r, k.Serves r) (ha : w ≠ .all c)
    (ho : w ≠ .one c) : tally (Caller.parks c) l' = tally (Caller.parks c) l ∧
      tally (Caller.signals c) l' = tally (Caller.signals c) l := by
  have ⟨d, hw, hr⟩ := h.roused
  have hd : d ≠ c := by
    rintro rfl
    exact hw.elim ha ho
  exact ⟨hr.tally_eq fun _ _ => Caller.parks_wake_of_ne hd,
    hr.tally_eq fun k hk => Caller.signals_wake_of_ne (hl k hk).choose_spec hd⟩

theorem notice_all (h : Wakes l (.all c) l') : tally (Caller.parks c) l' = 0 := by
  cases h
  simp [tally_eq_zero_iff, Caller.parks_wake]

-- The notification becomes that of the caller that it goes to.
theorem notice_one (h : Wakes l (.one c) l') (hl : ∀ k ∈ l, ∃ r, k.Serves r) :
    tally (Caller.parks c) l' = 0 ∨
    0 < tally (Caller.parks c) l ∧
      tally (Caller.signals c) l' = tally (Caller.signals c) l + 1 := by
  cases h
  case none h =>
    exact .inl <| tally_eq_zero_iff.mpr fun k hk => Caller.parks_eq_zero (h k hk)
  case one k j hj hp =>
    have hk := List.mem_of_getElem? hj
    have hs := tally_set (f := Caller.signals c) (b := k.wake c) hj
    rw [Caller.signals_wake_of_parked (hl k hk).choose_spec hp] at hs
    exact .inr ⟨tally_pos_iff.mpr ⟨k, hk, Caller.parks_pos_iff.mpr hp⟩, by omega⟩

end Monitor.Wakes

namespace Monitor

variable {α : Type} {m m' : Monitor α} {c : Cond}

namespace Attentive

theorem pending (h : m.Attentive c) (hw : m.Waiting c) (hr : 0 < m.queue.room c) :
    m.pending c := by
  apply pending_of_tally
  have := h.noticed hw
  omega

theorem notice_call {r : Request α} (hm : m.Attentive c) (h : m.Step (.call r) m') :
    m'.Waiting c → 0 < tally (Caller.heralds c) m'.callers ∨
      m'.queue.ended = false ∧ m'.queue.room c ≤ tally (Caller.signals c) m'.callers := by
  cases h
  have hn := hm.noticed
  simp only [waiting_iff, tally_append, tally_cons, tally_nil] at hn ⊢
  simpa [Caller.parks, Caller.isParkedAt, Caller.heralds, Caller.signals] using hn

theorem notice_lock {i : ℕ} (hm : m.Attentive c) (h : m.Step (.lock i) m')
    (hs : c = .notEmpty → ¬m.Steals (.lock i)) :
    m'.Waiting c → 0 < tally (Caller.heralds c) m'.callers ∨
      m'.queue.ended = false ∧ m'.queue.room c ≤ tally (Caller.signals c) m'.callers := by
  cases h
  case lock k k' q' hl hk =>
  have ⟨r, hr⟩ := hm.sound _ <| List.mem_of_getElem? hk
  have ⟨ht, hb⟩ := Caller.lock?_eq hr hl
  have ⟨hp, hh, hn⟩ := Caller.weights_before (c := c) hb
  have hP := tally_set (f := Caller.parks c) (b := k') hk
  have hH := tally_set (f := Caller.heralds c) (b := k') hk
  have hS := tally_set (f := Caller.signals c) (b := k') hk
  have hm' := hm.noticed
  rw [waiting_iff] at hm' ⊢
  intro hw
  simp only at hw ⊢
  cases he : m.queue.ended
  case true =>
    have := Caller.parks_eq_zero <| Caller.takeTurn_not_parked c ht he
    have := hm' (by omega)
    simp only [he, Bool.true_eq_false, false_and, or_false] at this
    exact .inl (by omega)
  case false =>
    simp only [he, true_and] at hm'
    by_cases hf : k = .woken .front ∧ c = .notEmpty ∧ m.queue.items ≠ []
    case pos =>
      -- Nobody else was parked, so nobody is passed over.
      obtain ⟨rfl, rfl, hi⟩ := hf
      have : ¬m.Waiting .notEmpty := fun hw => hs rfl ⟨hk, he, hi, hw⟩
      rw [waiting_iff] at this
      rcases Caller.takeTurn_room ht he hm.bounded (Nat.zero_le _) (by simp) with h | h | h
      · exact .inr ⟨h.right.right, by omega⟩
      all_goals omega
    case neg =>
      have hn' : r = .front → m.queue.items ≠ [] → k.signals c = 0 := by
        rintro rfl hi
        rcases hb with rfl | rfl
        · rfl
        · have hc : .notEmpty ≠ c := fun hc => hf ⟨rfl, hc.symm, hi⟩
          simp [Caller.signals, Request.cond?, hc]
      rcases Caller.takeTurn_room ht he hm.bounded hn hn' with h | h | h
      · exact .inr ⟨h.right.right, by omega⟩
      · exact .inl (by omega)
      · exact (hm' (by omega)).imp (by omega) fun hr => ⟨h.right.left, by omega⟩

theorem notice_notify {i : ℕ} {target : Option ℕ} (hm : m.Attentive c)
    (h : m.Step (.notify i target) m') :
    m'.Waiting c → 0 < tally (Caller.heralds c) m'.callers ∨
      m'.queue.ended = false ∧ m'.queue.room c ≤ tally (Caller.signals c) m'.callers := by
  cases h
  case notify owed a l w hw hk =>
  have hi := hw.getElem?_notifying hk
  have hP := tally_set (f := Caller.parks c) (b := .owing owed a) hi
  have hH := tally_set (f := Caller.heralds c) (b := .owing owed a) hi
  have hS := tally_set (f := Caller.signals c) (b := .owing owed a) hi
  have hh := hw.heralds_eq (c := c)
  have hm' := hm.noticed
  rw [waiting_iff] at hm' ⊢
  intro hp
  simp only [Caller.parks_owing, Caller.heralds_owing, Caller.signals_owing,
    Caller.parks_notifying, Caller.heralds_notifying, Caller.signals_notifying, List.count_cons,
    beq_iff_eq] at hP hH hS
  simp only at hp ⊢
  by_cases ha : w = .all c
  case pos =>
    have := (ha ▸ hw).notice_all
    omega
  case neg =>
    by_cases ho : w = .one c
    case pos =>
      subst ho
      rcases hw.notice_one hm.sound with h | ⟨h, _⟩
      · omega
      · simp only [reduceCtorEq, if_false, if_true] at hH hS
        exact (hm' h).imp (by omega) fun hr => ⟨hr.left, by omega⟩
    case neg =>
      have := hw.notice_of_ne hm.sound ha ho
      simp only [ha, ho, if_false] at hH hS
      exact (hm' (by omega)).imp (by omega) fun hr => ⟨hr.left, by omega⟩

theorem step {a : Action α} (hm : m.Attentive c) (h : m.Step a m')
    (hs : c = .notEmpty → ¬m.Steals a) : m'.Attentive c where
  sound := h.sound hm.sound
  bounded hc := h.capacity ▸ hm.bounded hc
  noticed := by
    cases a
    case call   => exact hm.notice_call h
    case lock   => exact hm.notice_lock h hs
    case notify => exact hm.notice_notify h

theorem start {q : Queue α} (hq : c = .notFull → q.capacity.isSome) :
    (Monitor.start q).Attentive c where
  sound    := by simp [Monitor.start, Sound]
  bounded  := hq
  noticed  := by simp [Monitor.start, Waiting]

end Attentive

-- A bounded queue keeps to its bound, and no producer sleeps beside a free place.
theorem clamped_bounded_and_noticed (o : Order α) (n : ℕ)
    (h : machine.Reaches (start (.clamped o n)) m) :
    m.queue.size ≤ max n 1 ∧
    (m.queue.ended = false → m.queue.size < max n 1 → m.Waiting .notFull → m.pending .notFull) := by
  have ⟨ha, hb, hs⟩ := h.preserves
    (I := fun m => m.Attentive .notFull ∧ m.queue.capacity = some (max n 1) ∧
      m.queue.size ≤ max n 1)
    ⟨.start fun _ => rfl, rfl, Nat.zero_le _⟩ fun ⟨ha, hb, hs⟩ hi =>
      have hi := Monitor.step hi
      ⟨ha.step hi (by simp), hi.capacity ▸ hb, hi.size_le ha.sound hb hs⟩
  refine ⟨hs, fun _ hl hw => ha.pending hw ?_⟩
  simp only [Queue.room, hb, Option.elim_some]
  omega

-- The place of the item that was taken is free, and the second producer is not notified yet.
theorem clamped_zero_noticed :
    let m : Monitor ℕ := ⟨⟨.arrival, some 1, [], false⟩,
      [.notifying [.one .notEmpty] (.accepted true), .parked (.push 2) .notFull,
        .notifying [.one .notFull] (.item (some 1))]⟩
    machine.Reaches (start (.clamped .arrival 0)) m ∧ m.queue.ended = false ∧
      m.queue.size < max 0 1 ∧ m.Waiting .notFull ∧ m.queue.size ≤ max 0 1 ∧
      m.pending .notFull := by
  intro m
  have hr : machine.Reaches (start (.clamped .arrival 0)) m :=
    .of_run [.call (.push 1), .lock 0, .call (.push 2), .lock 1, .call .pop, .lock 2] rfl
  have hw : m.Waiting .notFull := ⟨.parked (.push 2) .notFull, by simp [m], rfl⟩
  have h := clamped_bounded_and_noticed .arrival 0 hr
  exact ⟨hr, rfl, by decide, hw, h.left, h.right rfl (by decide) hw⟩

-- An item is there and a consumer is parked, and nothing will wake it.
structure Overlooks (m : Monitor α) : Prop where
  opened  : m.queue.ended = false
  present : m.queue.items ≠ []
  waiting : m.Waiting .notEmpty
  silent  : m.pending .notEmpty = false

theorem Attentive.not_overlooks (h : m.Attentive .notEmpty) : ¬m.Overlooks := by
  intro ho
  have hp := h.pending ho.waiting (List.length_pos_iff.mpr ho.present)
  simp [ho.silent] at hp

theorem Step.overlooks_of_steals {a : Action α} (h : m.Step a m') (hs : m.Steals a)
    (hp : m'.pending .notEmpty = false) : m'.Overlooks := by
  cases h
  case lock i k k' q' hk hl =>
    obtain ⟨hf, he, hi, hw⟩ := hs
    cases hk.symm.trans hf
    have hq := Caller.takeTurn_front (Option.some.inj hl)
    have hP := tally_set (f := Caller.parks .notEmpty) (b := k') hk
    have hw' : Monitor.Waiting ⟨q', m.callers.set i k'⟩ .notEmpty := by
      rw [waiting_iff] at hw ⊢
      exact Nat.lt_of_lt_of_le hw <| Nat.le.intro hP.symm
    exact ⟨hq ▸ he, hq ▸ hi, hw', hp⟩
  all_goals exact hs.elim

-- A caller of `front` and a consumer wait, and an item wakes the former.
def thieving (x : α) : List (Action α) :=
  [.call .front, .lock 0, .call .pop, .lock 1, .call (.push x), .lock 2, .notify 2 (some 0),
    .lock 0]

theorem run_thieving (o : Order α) (bound : Option ℕ) (x : α) :
    ∃ m, machine.run (start (.new o bound)) (thieving x) = some m ∧ m.Overlooks := by
  have hp : (Queue.new o bound).push x =
      .leave { Queue.new o bound with items := [x] } [.one .notEmpty] (.accepted true) := by
    cases bound <;>
      simp [Queue.new, Queue.push, Queue.unbounded, Queue.clamped, Queue.isFull, Queue.size]
  have hq : (Queue.new o bound).ended = false ∧ (Queue.new o bound).items = [] ∧
      (Queue.new o bound).order = o := by
    cases bound <;> exact ⟨rfl, rfl, rfl⟩
  have ho : o.take? [x] = some (x, []) := by
    cases o <;> rfl
  refine ⟨⟨{ Queue.new o bound with items := [x] }, [.returned (.item (some x)),
    .parked .pop .notEmpty, .returned (.accepted true)]⟩, ?_, ?_⟩
  · simp [thieving, Machine.run, machine, act, lock, notify, wake, start, Caller.lock?,
      Caller.takeTurn, Caller.notify?, Caller.owing, Caller.isParkedAt, Caller.wake, Queue.turn,
      List.modify_eq_set_getElem?, hp, hq, ho]
  · exact ⟨hq.left, by simp, ⟨.parked .pop .notEmpty, by simp, rfl⟩, rfl⟩

-- From a state that no theft led to, exactly a theft with nothing else under way has an item
-- overlooked, and every queue can come to that.
theorem overlooks_iff_steals (o : Order α) (bound : Option ℕ) :
    (∀ m, machine.ReachesBy (fun m a => ¬m.Steals a) (start (.new o bound)) m →
      ¬m.Overlooks ∧ ∀ a m', m.act a = some m' →
        (m'.Overlooks ↔ m.Steals a ∧ m'.pending .notEmpty = false)) ∧
    ∀ x : α, ∃ m, machine.run (start (.new o bound)) (thieving x) = some m ∧ m.Overlooks := by
  refine ⟨fun m h => ?_, run_thieving o bound⟩
  have hm := h.preserves (I := fun m => m.Attentive .notEmpty) (.start (by simp))
    fun hm hs hi => hm.step (Monitor.step hi) fun _ => hs
  refine ⟨hm.not_overlooks, fun a m' hi => ⟨fun ho => ⟨?_, ho.silent⟩, fun hs => ?_⟩⟩
  · by_contra hs
    exact (hm.step (Monitor.step hi) fun _ => hs).not_overlooks ho
  · exact (Monitor.step hi).overlooks_of_steals hs.left hs.right

-- The item stays, and the consumer sleeps until another one comes.
theorem front_takes_wake :
    let m : Monitor ℕ := ⟨⟨.arrival, none, [1], false⟩,
      [.returned (.item (some 1)), .parked .pop .notEmpty, .returned (.accepted true)]⟩
    machine.run (start (.unbounded .arrival)) (thieving 1) = some m ∧
      m.queue.ended = false ∧ m.queue.items ≠ [] ∧ m.Waiting .notEmpty ∧
      m.pending .notEmpty = false :=
  ⟨rfl, rfl, by decide, ⟨.parked .pop .notEmpty, by simp, rfl⟩, rfl⟩

end Monitor
end Inference
