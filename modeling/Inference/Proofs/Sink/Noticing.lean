import Inference.Proofs.Queue.Waiting
import Inference.Proofs.Sink.Exact

/-!
Nobody at the queue of a sink waits for what is there. As long as the queue is open, a worker that
waits for an item is matched by notifications for all items in the queue, and a producer that waits
for room by notifications for all free places.
-/

namespace Inference

variable {α : Type}

namespace Worker

def weigh (f : Caller α → ℕ) (w : Worker α) : ℕ := w.caller?.elim 0 f

-- Where a worker can stand between two actions. A call to the queue that has returned has led on at
-- once, and one that has an item owes the one notification for its place.
def Poised : Worker α → Prop
  | popping (.notifying owed _) => owed = [.one .notFull]
  | popping (.returned _) | stopping (.returned _) => False
  | _ => True

end Worker

namespace Producer

def weigh (f : Caller α → ℕ) (p : Producer α) : ℕ := p.caller?.elim 0 f

def Poised : Producer α → Prop
  | pushing _ (.notifying owed _) => owed = [.one .notEmpty]
  | pushing _ (.returned _) => False
  | _ => True

end Producer

-- A weight that is given to those who wait or notify.
structure Caller.Light (f : Caller α → ℕ) : Prop where
  entering : ∀ r, f (entering r) = 0
  returned : ∀ a, f (returned a) = 0

theorem Caller.light_parks (c : Cond) : Light (α := α) (parks c) := ⟨fun _ => rfl, fun _ => rfl⟩

theorem Caller.light_signals (c : Cond) : Light (α := α) (signals c) := ⟨fun _ => rfl, fun _ => rfl⟩

-- Somebody who is woken counts as notified instead of parked, and only for its own condition. `m`
-- and `m'` are what it has of each weight before and after.
structure Woken (c : Cond) (m m' : (Caller α → ℕ) → ℕ) : Prop where
  parked   : m (Caller.parks c) = 1
  left     : m' (Caller.parks c) = 0
  notified : m' (Caller.signals c) = m (Caller.signals c) + 1
  others   : ∀ d, d ≠ c → m' (Caller.parks d) = m (Caller.parks d) ∧
    m' (Caller.signals d) = m (Caller.signals d)

theorem Caller.woken_wake {k : Caller α} {r : Request α} {c : Cond} (hk : k.Serves r)
    (hp : k.isParkedAt c) : Woken c (fun f => f k) (fun f => f (k.wake c)) where
  parked   := if_pos hp
  left     := parks_wake
  notified := signals_wake_of_parked hk hp
  others   := fun _ h => ⟨parks_wake_of_ne h.symm, signals_wake_of_ne hk h.symm⟩

namespace Worker

variable {s s' : Sink α} {w w' : Worker α} {f : Caller α → ℕ} {c d : Cond}

theorem woken_wake (hw : w.Serves) (hp : w.isParkedAt c) :
    Woken c (weigh · w) (weigh · (w.wake c)) := by
  cases w
  case popping k | stopping k => exact Caller.woken_wake hw hp
  all_goals simp [isParkedAt] at hp

theorem weigh_resumed (hf : Caller.Light f) (w : Worker α) : w.resumed.weigh f = w.weigh f := by
  have h := w.resumes
  generalize w.resumed = w' at h ⊢
  cases h
  case same   => rfl
  case handed => exact (hf.returned _).symm
  case sent   => exact (hf.entering _).trans (hf.returned _).symm
  case closed => exact (hf.returned _).symm

theorem Poised.wake (hw : w.Poised) (c : Cond) : (w.wake c).Poised := by
  cases w
  case popping k | stopping k =>
    cases k
    case parked =>
      simp only [Worker.wake, Caller.wake]
      split <;> trivial
    all_goals exact hw
  all_goals trivial

theorem weigh_parks (w : Worker α) :
    w.weigh (Caller.parks c) = if w.isParkedAt c then 1 else 0 := by
  cases w <;> rfl

theorem Moves.poised (h : w.Moves s s' w') : w'.resumed.Poised := by
  cases h
  case release again => cases again <;> trivial
  case take          => exact rfl
  all_goals trivial

theorem Tells.poised (h : w.Tells w') (hw : w.Poised) : w'.resumed.Poised := by
  cases h
  case pop owed x =>
    obtain rfl : owed = [] := (List.cons.inj hw).right
    trivial
  case close owed =>
    rw [Caller.owing]
    split <;> trivial

-- A step of a worker uses up the room that it was notified of, or notifies others of the room that
-- it makes, or it finds no room.
theorem Moves.notice (h : w.Moves s s' w')
    (hk : ∀ k, w = popping k → k = .entering .pop ∨ k = .woken .pop) (he : s'.queue.ended = false) :
    s'.queue.room c = 0 ∨ w'.weigh (Caller.parks c) = 0 ∧
      s'.queue.room c + w.weigh (Caller.signals c) ≤
        s.queue.room c + w'.weigh (Caller.signals c) := by
  cases h
  case wait k _ _ hi =>
    cases c
    case notEmpty => simp [Queue.room, Queue.size, hi]
    case notFull  => rcases hk k rfl with rfl | rfl <;> exact .inr ⟨rfl, Nat.le_refl _⟩
  case miss he' => simp [he] at he'
  case take k x rest _ _ hp =>
    have hn : s.queue.size = rest.length + 1 := hp.length_eq
    refine .inr ⟨rfl, ?_⟩
    cases c
    case notEmpty =>
      have hs : (popping k).weigh (Caller.signals .notEmpty) ≤ 1 := by
        rcases hk k rfl with rfl | rfl
        · exact Nat.zero_le _
        · exact Nat.le_refl _
      simp only [Queue.room, hn]
      exact Nat.add_le_add_left hs _
    case notFull =>
      have hs : (popping k).weigh (Caller.signals .notFull) = 0 := by
        rcases hk k rfl with rfl | rfl <;> rfl
      have hs' : (popping (.notifying [.one .notFull] (.item (some x)))).weigh
          (Caller.signals .notFull) = 1 := rfl
      rw [hs, hs']
      simp only [Queue.size] at hn
      cases hc : s.queue.capacity <;>
        simp only [Queue.room, hc, Option.elim, Queue.size, hn] <;> omega
  case release again => cases again <;> exact .inr ⟨rfl, Nat.le_refl _⟩
  case close => cases he
  all_goals exact .inr ⟨rfl, Nat.le_refl _⟩

end Worker

namespace Producer

variable {s s' : Sink α} {p p' : Producer α} {c d : Cond}

theorem woken_wake (hk : p.Serves) (hp : p.isParkedAt c) :
    Woken c (weigh · p) (weigh · (p.wake c)) := by
  cases p
  case pushing k => exact Caller.woken_wake hk hp
  all_goals simp [isParkedAt] at hp

theorem Poised.wake (hp : p.Poised) (c : Cond) : (p.wake c).Poised := by
  cases p
  case pushing x k =>
    cases k
    case parked =>
      simp only [Producer.wake, Caller.wake]
      split <;> trivial
    all_goals exact hp
  all_goals trivial

theorem isParkedAt_wake (hp : p.isParkedAt d = false) (c : Cond) :
    (p.wake c).isParkedAt d = false := by
  cases p
  case pushing x k =>
    cases k
    case parked =>
      simp only [Producer.wake, Caller.wake]
      split
      · rfl
      · exact hp
    all_goals rfl
  all_goals rfl

theorem weigh_parks (p : Producer α) :
    p.weigh (Caller.parks c) = if p.isParkedAt c then 1 else 0 := by
  cases p <;> rfl

theorem Moves.notice (h : p.Moves s s' p') (he : s.queue.ended = false) :
    s'.queue.room c = 0 ∨ p'.weigh (Caller.parks c) = 0 ∧
      s'.queue.room c + p.weigh (Caller.signals c) ≤
        s.queue.room c + p'.weigh (Caller.signals c) := by
  cases h
  case wait x k hk hf _ =>
    cases c
    case notEmpty => rcases hk with rfl | rfl <;> exact .inr ⟨rfl, Nat.le_refl _⟩
    case notFull =>
      cases hc : s.queue.capacity
      case none   => simp [Queue.room, hc]
      case some b => simp [Queue.room, hc, Nat.sub_eq_zero_of_le (Queue.le_size_of_isFull hf hc)]
  case bounce he' => simp [he] at he'
  case put x k hk hc =>
    cases c
    case notEmpty =>
      have hs : (pushing x k).weigh (Caller.signals .notEmpty) = 0 := by
        rcases hk with rfl | rfl <;> rfl
      have hs' : (pushing x (.notifying [.one .notEmpty] (.accepted true))).weigh
          (Caller.signals .notEmpty) = 1 := rfl
      rw [hs, hs']
      simp [Queue.room, Queue.size]
      exact rfl
    case notFull =>
      cases hb : s.queue.capacity
      case none => simp [Queue.room, hb]
      case some b =>
        have hs : (pushing x k).weigh (Caller.signals .notFull) ≤ 1 := by
          rcases hk with rfl | rfl
          · exact Nat.zero_le _
          · exact Nat.le_refl _
        have hc := hc.resolve_left (by simp [hb])
        have := Queue.size_lt_of_not_isFull hc.left hb
        refine .inr ⟨rfl, ?_⟩
        simp [Queue.room, hb, Queue.size] at this ⊢
        omega
  all_goals exact .inr ⟨rfl, Nat.le_refl _⟩

theorem Moves.poised (h : p.Moves s s' p') :
    p'.Poised ∨ ∃ x b, p' = pushing x (.returned (.accepted b)) := by
  cases h
  case bounce => exact .inr ⟨_, _, rfl⟩
  case put    => exact .inl rfl
  all_goals exact .inl trivial

end Producer

namespace Sink

variable {s s₁ s' : Sink α} {a : Action α} {i : ℕ} {c d : Cond} {w w' : Worker α}
  {p p' : Producer α} {f : Caller α → ℕ}

def weigh (f : Caller α → ℕ) (s : Sink α) : ℕ :=
  tally (Worker.weigh f) s.workers + tally (Producer.weigh f) s.producers

structure Poised (s : Sink α) : Prop where
  workers   : ∀ w ∈ s.workers, w.Poised
  producers : ∀ p ∈ s.producers, p.Poised
  bounded   : s.queue.capacity = none → ∀ p ∈ s.producers, p.isParkedAt .notFull = false

-- If somebody waits at a condition while the queue is open, then there are notifications under way
-- for all whom there is room for.
def Noticed (s : Sink α) (c : Cond) : Prop := s.queue.ended = false →
  0 < s.weigh (Caller.parks c) → s.queue.room c ≤ s.weigh (Caller.signals c)

-- What a notification for one caller does.
inductive Calls (s : Sink α) : Cond → Sink α → Prop
  | nobody (c : Cond) : s.weigh (Caller.parks c) = 0 → Calls s c s
  | worker {j w} : s.workers[j]? = some w → w.isParkedAt .notEmpty →
      Calls s .notEmpty { s with workers := s.workers.set j (w.wake .notEmpty) }
  | producer {j p} : s.producers[j]? = some p → p.isParkedAt .notFull →
      Calls s .notFull { s with producers := s.producers.set j (p.wake .notFull) }

-- The notifications that are given while the queue is open.
inductive Notifies (s : Sink α) : Action α → Sink α → Prop
  | worker {i target x s₁} :
      s.workers[i]? = some (.popping (.notifying [.one .notFull] (.item (some x)))) →
      s.Calls .notFull s₁ → Notifies s (.notify (.worker i) target) (s₁.setWorker i (.holding x))
  | producer {i target x s₁} :
      s.producers[i]? = some (.pushing x (.notifying [.one .notEmpty] (.accepted true))) →
      s.Calls .notEmpty s₁ → Notifies s (.notify (.producer i) target)
        ({ s₁ with producers := s₁.producers.eraseIdx i }.record (.accepted x))

theorem weigh_setWorker (hf : Caller.Light f) (ha : s.Alike s₁) (hi : s.workers[i]? = some w)
    (w' : Worker α) : (s₁.setWorker i w').weigh f + w.weigh f = s.weigh f + w'.weigh f := by
  have ht := tally_setWorker (Worker.weigh_resumed hf) ha hi w'
  have hp : (s₁.setWorker i w').producers = s.producers := ha.producers
  simp only [weigh, hp]
  omega

theorem weigh_setProducer (hf : Caller.Light f) (ha : s.Alike s₁) (hi : s.producers[i]? = some p)
    (p' : Producer α) : (s₁.setProducer i p').weigh f + p.weigh f = s.weigh f + p'.weigh f := by
  have ht := tally_setProducer (f := Producer.weigh f) (fun _ => hf.returned _)
    (fun _ _ _ => hf.returned _) ha hi p'
  simp only [weigh, setProducer_workers, ha.workers]
  omega

theorem weigh_parks_eq_zero_iff : s.weigh (Caller.parks c) = 0 ↔
    (∀ w ∈ s.workers, w.isParkedAt c = false) ∧ ∀ p ∈ s.producers, p.isParkedAt c = false := by
  simp only [weigh, Nat.add_eq_zero_iff, tally_eq_zero_iff, Worker.weigh_parks,
    Producer.weigh_parks, ite_eq_right_iff, Nat.one_ne_zero, imp_false, Bool.not_eq_true]

theorem calls_of_wake {target : Option ℕ} (h : s.wake (.one c) target = some s') :
    s.Calls c s' := by
  cases target
  case none =>
    simp only [wake, Option.ite_none_left_eq_some, Option.some.injEq, Bool.or_eq_true,
      List.any_eq_true, not_or, not_exists, not_and, Bool.not_eq_true] at h
    obtain ⟨⟨hw, hp⟩, rfl⟩ := h
    exact .nobody c (weigh_parks_eq_zero_iff.mpr ⟨hw, hp⟩)
  case some j =>
    cases c <;> simp only [wake, Option.ite_none_right_eq_some, Option.some.injEq,
      Option.any_eq_true] at h
    case notEmpty =>
      obtain ⟨⟨w, hj, hw⟩, rfl⟩ := h
      simp only [List.modify_eq_set_getElem?, hj]
      exact .worker hj hw
    case notFull =>
      obtain ⟨⟨p, hj, hp⟩, rfl⟩ := h
      simp only [List.modify_eq_set_getElem?, hj]
      exact .producer hj hp

theorem weigh_of_woken {m m' : (Caller α → ℕ) → ℕ} (hw : Woken c m m')
    (hm : ∀ f, s₁.weigh f + m f = s.weigh f + m' f) :
    (s₁.weigh (Caller.parks c) + 1 = s.weigh (Caller.parks c) ∧
      s₁.weigh (Caller.signals c) = s.weigh (Caller.signals c) + 1) ∧
    ∀ d, d ≠ c → s₁.weigh (Caller.parks d) = s.weigh (Caller.parks d) ∧
      s₁.weigh (Caller.signals d) = s.weigh (Caller.signals d) := by
  obtain ⟨hp, hp', hs, ho⟩ := hw
  have hmp := hm (Caller.parks c)
  have hms := hm (Caller.signals c)
  refine ⟨by omega, fun d hd => ?_⟩
  have ho := ho d hd
  have hmp := hm (Caller.parks d)
  have hms := hm (Caller.signals d)
  omega

-- A worker is woken at no other condition than that at which it waits, and counts as notified then.
theorem Calls.weigh (h : s.Calls c s₁) (hs : s.Serving) :
    (s₁.weigh (Caller.parks c) = 0 ∨ s₁.weigh (Caller.parks c) + 1 = s.weigh (Caller.parks c) ∧
      s₁.weigh (Caller.signals c) = s.weigh (Caller.signals c) + 1) ∧
    ∀ d, d ≠ c → s₁.weigh (Caller.parks d) = s.weigh (Caller.parks d) ∧
      s₁.weigh (Caller.signals d) = s.weigh (Caller.signals d) := by
  cases h
  case nobody h => exact ⟨.inl h, fun _ _ => ⟨rfl, rfl⟩⟩
  case worker j w hj hw =>
    have hw := Worker.woken_wake (hs.workers w <| List.mem_of_getElem? hj) hw
    refine (weigh_of_woken hw fun f => ?_).imp_left .inr
    have ht := tally_set (f := Worker.weigh f) (b := w.wake .notEmpty) hj
    simp only [Sink.weigh]
    omega
  case producer j p hj hp =>
    have hp := Producer.woken_wake (hs.producers p <| List.mem_of_getElem? hj) hp
    refine (weigh_of_woken hp fun f => ?_).imp_left .inr
    have ht := tally_set (f := Producer.weigh f) (b := p.wake .notFull) hj
    simp only [Sink.weigh]
    omega

theorem notifies_of_act {party : Party} {target : Option ℕ} (hr : s.Regular) (hp : s.Poised)
    (he : s.queue.ended = false) (h : machine.act s (.notify party target) = some s') :
    s.Notifies (.notify party target) s' := by
  change s.notify party target = some s' at h
  cases party <;> simp only [notify, Option.bind_eq_bind] at h
  case worker i =>
    rw [Option.bind_eq_some_iff] at h
    obtain ⟨w, hi, h⟩ := h
    have hw := List.mem_of_getElem? hi
    have hk := hr.workers w hw
    have hpw := hp.workers w hw
    cases w <;> simp only [Option.bind_eq_some_iff, Option.pure_def, Option.some.injEq,
      reduceCtorEq] at h
    case popping k =>
      obtain ⟨⟨w, k'⟩, hn, s₁, hw, rfl⟩ := h
      obtain ⟨owed, a, rfl, rfl⟩ := Caller.notify?_eq hn
      obtain ⟨x, rfl⟩ := Request.AnswersOwing.pop hk
      cases hpw
      exact .worker hi (calls_of_wake hw)
    case stopping k =>
      obtain ⟨⟨w, k'⟩, hn, s₁, _, rfl⟩ := h
      obtain ⟨owed, a, rfl, rfl⟩ := Caller.notify?_eq hn
      simp [hr.closed _ hw rfl] at he
  case producer i =>
    rw [Option.bind_eq_some_iff] at h
    obtain ⟨p, hi, h⟩ := h
    have hk := hr.producers p <| List.mem_of_getElem? hi
    have hpp := hp.producers p <| List.mem_of_getElem? hi
    cases p <;> simp only [Option.bind_eq_some_iff, Option.pure_def, Option.some.injEq,
      reduceCtorEq] at h
    case pushing x k =>
      obtain ⟨⟨w, k'⟩, hn, s₁, hw, rfl⟩ := h
      obtain ⟨owed, a, rfl, rfl⟩ := Caller.notify?_eq hn
      obtain rfl := Request.AnswersOwing.push hk
      cases hpp
      exact .producer hi (calls_of_wake hw)
  case owner =>
    have hs := hr.shut
    cases ho : s.owner <;> simp only [ho, Option.bind_eq_some_iff, Option.pure_def,
      Option.some.injEq, reduceCtorEq] at h hs
    case closing r k =>
      obtain ⟨⟨w, k'⟩, hn, _, _, rfl⟩ := h
      obtain ⟨owed, a, rfl, rfl⟩ := Caller.notify?_eq hn
      simp [hs trivial] at he
    case clearing r k => simp [hs trivial] at he

theorem Poised.roused {ws : List (Worker α)} {ps : List (Producer α)} (hs : s.Poised)
    (hw : Roused (Worker.wake c) s.workers ws) (hp : Roused (Producer.wake c) s.producers ps) :
    ({ s with workers := ws, producers := ps } : Sink α).Poised where
  workers   := hw.forall_mem (fun _ h => h.wake c) hs.workers
  producers := hp.forall_mem (fun _ h => h.wake c) hs.producers
  bounded   := fun hc => hp.forall_mem (fun _ h => Producer.isParkedAt_wake h c) (hs.bounded hc)

theorem Poised.of_eq (hs : s.Poised) (hw : s'.workers = s.workers) (hp : s'.producers = s.producers)
    (hc : s'.queue.capacity = s.queue.capacity) : s'.Poised :=
  ⟨hw ▸ hs.workers, hp ▸ hs.producers, hp ▸ hc ▸ hs.bounded⟩

theorem Poised.setWorker (hs : s.Poised) (ha : s.Alike s₁) (hk : s.SameKind s₁)
    (hw : w'.resumed.Poised) : (s₁.setWorker i w').Poised where
  workers   := forall_mem_set _ (ha.workers ▸ hs.workers) hw
  producers := ha.producers ▸ hs.producers
  bounded   := hk.capacity ▸ ha.producers ▸ hs.bounded

theorem Poised.setProducer (hs : s.Poised) (ha : s.Alike s₁) (hk : s.SameKind s₁)
    (hp : p'.Poised ∨ ∃ x b, p' = .pushing x (.returned (.accepted b)))
    (hb : s.queue.capacity = none → p'.isParkedAt .notFull = false) :
    (s₁.setProducer i p').Poised := by
  have hps : ∀ q ∈ s₁.producers, q.Poised := ha.producers ▸ hs.producers
  have hbs (hc : s₁.queue.capacity = none) : ∀ q ∈ s₁.producers, q.isParkedAt .notFull = false :=
    ha.producers ▸ hs.bounded (hk.capacity ▸ hc)
  have hws : ∀ w ∈ s₁.workers, w.Poised := ha.workers ▸ hs.workers
  rcases hp with hp | ⟨x, b, rfl⟩
  · have h := s₁.places i p'
    generalize s₁.setProducer i p' = s' at h ⊢
    cases h
    case kept =>
      exact ⟨hws, forall_mem_set _ hps hp,
        fun hc => forall_mem_set _ (hbs hc) (hb (hk.capacity ▸ hc))⟩
    all_goals exact hp.elim
  · cases b
    case false =>
      exact ⟨hws, forall_mem_set _ hps trivial, fun hc => forall_mem_set _ (hbs hc) rfl⟩
    case true =>
      exact ⟨hws, fun q hq => hps q <| List.mem_of_mem_eraseIdx hq,
        fun hc q hq => hbs hc q <| List.mem_of_mem_eraseIdx hq⟩

end Sink

variable {s s' : Sink α}

theorem Owner.Moves.poised (h : Owner.Moves s s') (hs : s.Poised) : s'.Poised := by
  cases h
  case spawn =>
    have ht : (Worker.testing : Worker α).Poised := trivial
    exact ⟨List.forall_mem_append.mpr ⟨hs.workers, List.forall_mem_singleton.mpr ht⟩, hs.producers,
      hs.bounded⟩
  case join => exact ⟨by simp [Sink.setOwner], hs.producers, hs.bounded⟩
  all_goals exact hs.of_eq rfl rfl rfl

namespace Sink

variable {a : Action α} {c : Cond}

theorem Step.poised (h : s.Step a s') (hs : s.Poised) : s'.Poised := by
  cases h
  case push x _ =>
    refine ⟨hs.workers, ?_, fun hc => ?_⟩ <;>
      refine List.forall_mem_append.mpr ⟨?_, List.forall_mem_singleton.mpr ?_⟩
    · exact hs.producers
    · trivial
    · exact hs.bounded hc
    · rfl
  case worker hm => exact hs.setWorker hm.alike hm.sameKind hm.poised
  case producer hm =>
    refine hs.setProducer hm.alike hm.sameKind hm.poised fun hc => ?_
    cases hm
    case wait hf _ _ => simp [Queue.isFull, hc] at hf
    all_goals rfl
  case leave =>
    exact ⟨hs.workers, fun q hq => hs.producers q <| List.mem_of_mem_eraseIdx hq,
      fun hc q hq => hs.bounded hc q <| List.mem_of_mem_eraseIdx hq⟩
  case owner hm => exact hm.poised hs
  case tellWorker hw hp hi ht =>
    have hs := hs.roused hw hp
    exact hs.setWorker (.refl _) (.refl _) (ht.poised (hs.workers _ <| List.mem_of_getElem? hi))
  case tellProducer i _ _ _ _ p p' hw hp hi ht =>
    have hs := hs.roused hw hp
    have hpp := hs.producers p <| List.mem_of_getElem? hi
    refine hs.setProducer (.refl _) (.refl _) (.inr ?_) fun _ => ?_ <;> cases ht <;> cases hpp
    · exact ⟨_, true, rfl⟩
    · rfl
  case tellOwner hw hp _ => exact (hs.roused hw hp).of_eq rfl rfl rfl
  case finish v _ =>
    have hw : (Worker.finished v : Worker α).resumed.Poised := trivial
    exact (hs.setWorker (.refl _) (.refl _) hw).of_eq rfl rfl rfl
  all_goals exact hs.of_eq rfl rfl rfl

-- The step of one party: what it has for what it had before.
theorem Noticed.of_weigh {m m' n n' : ℕ} (hn : s.Noticed c)
    (he : s'.queue.ended = false → s.queue.ended = false)
    (hp : s'.weigh (Caller.parks c) + m = s.weigh (Caller.parks c) + m')
    (hs : s'.weigh (Caller.signals c) + n = s.weigh (Caller.signals c) + n')
    (h : s'.queue.ended = false → s'.queue.room c = 0 ∨
      m' = 0 ∧ s'.queue.room c + n ≤ s.queue.room c + n') : s'.Noticed c := by
  intro he' hw
  rcases h he' with h | ⟨hm, hr⟩
  · omega
  · have := hn (he he') (by omega)
    omega

theorem Noticed.of_eq (hn : s.Noticed c) (hq : s'.queue = s.queue)
    (hw : ∀ f : Caller α → ℕ, s'.weigh f = s.weigh f) : s'.Noticed c := by
  rw [Noticed, hq, hw, hw]
  exact hn

theorem Noticed.of_ended (he : s.queue.ended) : s.Noticed c := fun h => by simp [he] at h

theorem Noticed.of_idle (hp : s.weigh (Caller.parks c) = 0) : s.Noticed c := fun _ h => by
  rw [hp] at h
  exact (Nat.lt_irrefl 0 h).elim

-- The notification becomes that of the caller that it goes to.
theorem Noticed.of_calls (hn : s.Noticed c) (hs : s.Serving) (hc : s.Calls d s₁)
    (hq : s'.queue = s.queue) (hp : s'.weigh (Caller.parks c) = s₁.weigh (Caller.parks c))
    (hw : s'.weigh (Caller.signals c) + (if c = d then 1 else 0) = s₁.weigh (Caller.signals c)) :
    s'.Noticed c := by
  have ⟨hone, hother⟩ := hc.weigh hs
  by_cases hcd : c = d
  · subst hcd
    rw [if_pos rfl] at hw
    rcases hone with h | ⟨h, h'⟩
    · exact .of_idle (hp.trans h)
    · intro he _
      have := hn (hq ▸ he) (by omega)
      rw [hq]
      omega
  · rw [if_neg hcd] at hw
    have ⟨h, h'⟩ := hother c hcd
    intro he _
    have := hn (hq ▸ he) (by omega)
    rw [hq]
    omega

theorem Notifies.noticed (h : s.Notifies a s') (hs : s.Serving) (hn : s.Noticed c) :
    s'.Noticed c := by
  cases h
  case worker i target x s₁ hi hc =>
    have hi := (show s₁.workers[i]? = s.workers[i]? by cases hc <;> rfl).trans hi
    have hq : s₁.queue = s.queue := by cases hc <;> rfl
    have hp := weigh_setWorker (Caller.light_parks c) (.refl s₁) hi (.holding x)
    have hw := weigh_setWorker (Caller.light_signals c) (.refl s₁) hi (.holding x)
    refine hn.of_calls hs hc hq hp ?_
    cases c <;> exact hw
  case producer i target x s₁ hi hc =>
    have hi := (show s₁.producers[i]? = s.producers[i]? by cases hc <;> rfl).trans hi
    have hq : s₁.queue = s.queue := by cases hc <;> rfl
    have hp := weigh_setProducer (Caller.light_parks c) (.refl s₁) hi
      (.pushing x (.returned (.accepted true)))
    have hw := weigh_setProducer (Caller.light_signals c) (.refl s₁) hi
      (.pushing x (.returned (.accepted true)))
    refine hn.of_calls hs hc hq hp ?_
    cases c <;> exact hw

theorem popping_before {k : Caller α} (hs : s.Serving) (hi : s.workers[i]? = some (.popping k))
    (h : machine.act s (.step (.worker i)) = some s') : k = .entering .pop ∨ k = .woken .pop := by
  simp only [machine, act, stepWorker, hi, Option.bind_eq_bind, Option.bind_some,
    Option.bind_eq_some_iff] at h
  obtain ⟨⟨q, k'⟩, hl, _⟩ := h
  exact (Caller.lock?_eq (hs.workers _ <| List.mem_of_getElem? hi) hl).right

end Sink

theorem Owner.Moves.noticed {c : Cond} (h : Owner.Moves s s') (hr : s.Regular) (hn : s.Noticed c) :
    s'.Noticed c := by
  cases h
  case reopen ho =>
    have hw := hr.vacant (.inr ho)
    have hp := hr.busy ho (by simp)
    exact .of_idle (by simp [Sink.weigh, Sink.setOwner, hw, hp])
  case spawn =>
    exact hn.of_eq rfl fun f => by simp [Sink.weigh, Sink.setOwner, Worker.weigh, Worker.caller?]
  case close => exact .of_ended rfl
  case clear ho => exact .of_ended (hr.shut (ho ▸ trivial))
  case join ho _ => exact .of_ended (hr.shut (ho ▸ trivial))
  all_goals exact hn.of_eq rfl fun _ => rfl

namespace Sink

variable {a : Action α} {c : Cond}

theorem Step.noticed (h : s.Step a s') (ha : machine.act s a = some s') (hr : s.Regular)
    (hp : s.Poised) (hn : s.Noticed c) : s'.Noticed c := by
  have htell {party target} (ha : machine.act s (.notify party target) = some s')
      (he : s'.queue.ended = s.queue.ended) : s'.Noticed c := by
    cases hq : s.queue.ended
    case true  => exact .of_ended (he.trans hq)
    case false => exact (notifies_of_act hr hp hq ha).noticed hr.toServing hn
  cases h
  case push =>
    exact hn.of_eq rfl fun f => by simp [weigh, Producer.weigh, Producer.caller?]
  case worker s₁ _ hi hm =>
    have he (h : s₁.queue.ended = false) : s.queue.ended = false :=
      Bool.eq_false_iff.mpr fun hq => by simp [hm.flags.ended hq] at h
    refine hn.of_weigh he (weigh_setWorker (Caller.light_parks c) hm.alike hi _)
      (weigh_setWorker (Caller.light_signals c) hm.alike hi _)
      fun he => hm.notice (fun k hk => ?_) he
    exact popping_before hr.toServing (hk ▸ hi) ha
  case producer i _ s₁ p' hi hm =>
    have hq := setProducer_queue s₁ i p'
    refine hn.of_weigh (hq ▸ hm.ended ▸ id) (weigh_setProducer (Caller.light_parks c) hm.alike hi _)
      (weigh_setProducer (Caller.light_signals c) hm.alike hi _) fun he => ?_
    rw [hq] at he ⊢
    exact hm.notice (hm.ended ▸ he)
  case leave hi =>
    refine hn.of_eq rfl fun f => ?_
    exact congrArg (_ + ·) (tally_eraseIdx (f := Producer.weigh f) hi)
  case owner hm => exact hm.noticed hr hn
  case tellWorker => exact htell ha rfl
  case tellProducer => exact htell ha (by simp)
  case tellOwner => exact htell ha rfl
  case finish v hi =>
    exact hn.of_weigh id (weigh_setWorker (Caller.light_parks c) (.refl s) hi (.finished v))
      (weigh_setWorker (Caller.light_signals c) (.refl s) hi (.finished v))
      fun _ => .inr ⟨rfl, Nat.le_refl _⟩
  all_goals exact hn.of_eq rfl fun _ => rfl

-- What holds of a sink and of those who wait at its queue in every state that it can come to.
structure Alert (s : Sink α) : Prop extends s.Regular where
  poised  : s.Poised
  noticed : ∀ c, s.Noticed c
  roomy   : ∀ b, s.queue.capacity = some b → 0 < b

theorem Alert.step (hs : s.Alert) (h : machine.act s a = some s') : s'.Alert :=
  have hst := hs.step_of_act h
  ⟨hst.regular hs.toRegular, hst.poised hs.poised,
    fun c => hst.noticed h hs.toRegular hs.poised (hs.noticed c), hst.sameKind.capacity ▸ hs.roomy⟩

theorem alert_create (bound threads : ℕ) : (create bound threads : Sink α).Alert := by
  refine ⟨regular_create .., ⟨by simp [create], by simp [create], by simp [create]⟩,
    fun c => .of_idle rfl, fun b hb => ?_⟩
  rw [create] at hb
  split at hb <;> cases hb
  exact Nat.lt_of_lt_of_le Nat.one_pos (Nat.le_max_right ..)

theorem reaches_alert {bound threads : ℕ}
    (h : machine.Reaches (create bound threads : Sink α) s) : s.Alert :=
  h.preserves (I := Alert) (alert_create ..) Alert.step

end Sink
end Inference
