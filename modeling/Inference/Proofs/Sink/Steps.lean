import Inference.Sink.Basic
import Inference.Proofs.Machine
import Inference.Proofs.Queue.Cargo
import Inference.Proofs.Tally

/-!
The steps of a sink: a call begins, a worker, a producer or the owner takes its next atomic action,
one of them gives a notification, or the processor ends its work on an item. Each is listed with
what it needs and what it does.
-/

namespace Inference

variable {α : Type}

-- Where the caller of a queue can stand in a worker, a producer and the owner.
def Worker.Serves : Worker α → Prop
  | popping k => k.Serves .pop
  | stopping k => k.Serves .close
  | _ => True

def Producer.Serves : Producer α → Prop
  | pushing x k => k.Serves (.push x)
  | _ => True

def Owner.Serves : Owner α → Prop
  | closing _ k => k.Serves .close
  | clearing _ k => k.Serves .clear
  | _ => True

namespace Worker

variable {s : Sink α}

-- The next atomic action of a worker: the sink and the worker after it.
inductive Moves (s : Sink α) : Worker α → Sink α → Worker α → Prop
  | proceed : s.keep → Moves s .testing s (.popping (.entering .pop))
  | quit : s.keep = false → Moves s .testing s (.stopping (.entering .close))
  | wait {k} : k.cargo = [] → s.queue.ended = false → s.queue.items = [] →
      Moves s (.popping k) s (.popping (.parked .pop .notEmpty))
  | miss {k} : k.cargo = [] → s.queue.ended →
      Moves s (.popping k) s (.popping (.returned (.item none)))
  | take {k} (x rest) : k.cargo = [] → s.queue.ended = false → s.queue.items.Perm (x :: rest) →
      Moves s (.popping k) { s with queue := { s.queue with items := rest } }
        (.popping (.notifying [.one .notFull] (.item (some x))))
  | allow (x) : s.keep → Moves s (.holding x) s (.admitted x)
  | drop (x) : s.keep = false → Moves s (.holding x) s (.releasing false)
  | begin (x) : Moves s (.admitted x)
      ({ s with active := s.active + 1 }.record (.began x)) (.working x)
  | done (v) : Moves s (.finished v) { s with active := s.active - 1 } (.releasing v.goesOn)
  | release (again) : Moves s (.releasing again) { s with inFlight := s.inFlight - 1 }
      (if again then .testing else .stopping (.entering .close))
  | close {k} : Moves s (.stopping k) { s with queue := { s.queue with ended := true } }
      (.stopping (.notifying [.all .notEmpty, .all .notFull] .done))
  | lower : Moves s .lowering { s with keep := false } .exited

inductive Tells : Worker α → Worker α → Prop
  | pop (w owed x) : Tells (.popping (.notifying (w :: owed) (.item (some x))))
      (.popping (.owing owed (.item (some x))))
  | close (w owed) : Tells (.stopping (.notifying (w :: owed) .done))
      (.stopping (.owing owed .done))

end Worker

namespace Producer

inductive Moves (s : Sink α) : Producer α → Sink α → Producer α → Prop
  | raise (x) : Moves s (.raising x) { s with inFlight := s.inFlight + 1 } (.testing x)
  | refuse (x) : s.queue.ended → Moves s (.testing x) s (.refusing x)
  | offer (x) : s.queue.ended = false → Moves s (.testing x) s (.pushing x (.entering (.push x)))
  | wait (x) {k} : (k = .entering (.push x) ∨ k = .woken (.push x)) → s.queue.isFull →
      s.queue.ended = false → Moves s (.pushing x k) s (.pushing x (.parked (.push x) .notFull))
  | bounce (x) {k} : (k = .entering (.push x) ∨ k = .woken (.push x)) → s.queue.capacity.isSome →
      s.queue.ended → Moves s (.pushing x k) s (.pushing x (.returned (.accepted false)))
  | put (x) {k} : (k = .entering (.push x) ∨ k = .woken (.push x)) →
      s.queue.capacity = none ∨ s.queue.isFull = false ∧ s.queue.ended = false →
      Moves s (.pushing x k) { s with queue := { s.queue with items := s.queue.items ++ [x] } }
        (.pushing x (.notifying [.one .notEmpty] (.accepted true)))

inductive Tells : Producer α → Producer α → Prop
  | put (x w owed) : Tells (.pushing x (.notifying (w :: owed) (.accepted true)))
      (.pushing x (.owing owed (.accepted true)))

end Producer

namespace Owner

inductive Moves (s : Sink α) : Sink α → Prop
  | raise : s.owner = .raising → Moves s ({ s with keep := true }.setOwner .reopening)
  | reopen : s.owner = .reopening →
      Moves s ({ s with queue := { s.queue with ended := false } }.setOwner (.spawning s.threads))
  | spawned : s.owner = .spawning 0 → Moves s (s.finishCall .started)
  | spawn (n) : s.owner = .spawning (n + 1) →
      Moves s ({ s with workers := s.workers ++ [Worker.testing] }.setOwner (.spawning n))
  | poll : s.owner = .polling → s.keep → Moves s (s.setOwner .counting)
  | give : s.owner = .polling → s.keep = false → Moves s (s.setOwner (.lowering .drained))
  | await : s.owner = .counting → 0 < s.inFlight → Moves s (s.setOwner .polling)
  | settle : s.owner = .counting → s.inFlight = 0 → Moves s (s.setOwner (.lowering .drained))
  | lower (r) : s.owner = .lowering r →
      Moves s ({ s with keep := false }.setOwner (.closing r (.entering .close)))
  | close (r) {k} : s.owner = .closing r k →
      Moves s ({ s with queue := { s.queue with ended := true } }.setOwner
        (.closing r (.notifying [.all .notEmpty, .all .notFull] .done)))
  | clear (r) {k} : s.owner = .clearing r k →
      Moves s ({ s with queue := { s.queue with items := [] } }.setOwner
        (.clearing r (.notifying [.all .notFull] .done)))
  | join (r) : s.owner = .joining r → s.allExited →
      Moves s ({ s with workers := [] }.setOwner (.resetting r))
  | reset (r) : s.owner = .resetting r → Moves s ({ s with inFlight := 0 }.finishCall r)

inductive Tells : Owner α → Owner α → Prop
  | close (r w owed) : Tells (.closing r (.notifying (w :: owed) .done))
      (.closing r (.owing owed .done))
  | clear (r w owed) : Tells (.clearing r (.notifying (w :: owed) .done))
      (.clearing r (.owing owed .done))

end Owner

namespace Sink

inductive Step (s : Sink α) : Action α → Sink α → Prop
  | push (x) : s.owner = .free →
      Step s (.push x) { s with producers := s.producers ++ [Producer.raising x] }
  | start : s.owner = .free → s.producers = [] → s.workers = [] →
      Step s .start (s.setOwner .raising)
  | restart : s.owner = .free → s.producers = [] → s.workers ≠ [] →
      Step s .start (s.finishCall .started)
  | drain : s.owner = .free → s.producers = [] → Step s .drain (s.setOwner .polling)
  | destroy : s.owner = .free → s.producers = [] →
      Step s .destroy (s.setOwner (.lowering .destroyed))
  | worker {i w s₁ w'} : s.workers[i]? = some w → w.Moves s s₁ w' →
      Step s (.step (.worker i)) (s₁.setWorker i w')
  | producer {i p s₁ p'} : s.producers[i]? = some p → p.Moves s s₁ p' →
      Step s (.step (.producer i)) (s₁.setProducer i p')
  | leave {i x} : s.producers[i]? = some (.refusing x) → Step s (.step (.producer i))
      ({ s with
        inFlight := s.inFlight - 1
        producers := s.producers.eraseIdx i }.record (.refused x))
  | owner {s'} : Owner.Moves s s' → Step s (.step .owner) s'
  | tellWorker {i target c ws ps w w'} : Roused (Worker.wake c) s.workers ws →
      Roused (Producer.wake c) s.producers ps → ws[i]? = some w → w.Tells w' →
      Step s (.notify (.worker i) target) (setWorker { s with workers := ws, producers := ps } i w')
  | tellProducer {i target c ws ps p p'} : Roused (Worker.wake c) s.workers ws →
      Roused (Producer.wake c) s.producers ps → ps[i]? = some p → p.Tells p' →
      Step s (.notify (.producer i) target)
        (setProducer { s with workers := ws, producers := ps } i p')
  | tellOwner {target c ws ps o'} : Roused (Worker.wake c) s.workers ws →
      Roused (Producer.wake c) s.producers ps → s.owner.Tells o' →
      Step s (.notify .owner target) (setOwner { s with workers := ws, producers := ps } o')
  | finish {i x} (v) : s.workers[i]? = some (.working x) →
      Step s (.finish i v) ((s.setWorker i (.finished v)).record (.ended x v))
  | spawnFails (n) : s.owner = .spawning (n + 1) →
      Step s .spawnFails (s.setOwner (.lowering .startFailed))

structure Serving (s : Sink α) : Prop where
  workers   : ∀ w ∈ s.workers, w.Serves
  producers : ∀ p ∈ s.producers, p.Serves
  owner     : s.owner.Serves

variable {s s' : Sink α} {i : ℕ}

theorem step_worker (hs : s.Serving) (h : s.stepWorker i = some s') :
    s.Step (.step (.worker i)) s' := by
  simp only [stepWorker, Option.bind_eq_bind, Option.bind_eq_some_iff] at h
  obtain ⟨w, hw, h⟩ := h
  have hk := hs.workers w <| List.mem_of_getElem? hw
  cases w
  case testing =>
    simp only [Option.pure_def, Option.some.injEq] at h
    split at h
    case isTrue hk  => exact h ▸ .worker hw (.proceed hk)
    case isFalse hk => exact h ▸ .worker hw (.quit (by simpa using hk))
  case popping k =>
    simp only [Option.bind_eq_some_iff, Option.pure_def, Option.some.injEq] at h
    obtain ⟨⟨q, k'⟩, hl, rfl⟩ := h
    have hc := Caller.lock?_cargo hk hl
    cases Caller.lock?_pop hk hl
    case miss he           => exact .worker hw (.miss hc he)
    case wait he hi        => exact .worker hw (.wait hc he hi)
    case take x rest he hp => exact .worker hw (.take x rest hc he hp)
  case holding x =>
    simp only [Option.pure_def, Option.some.injEq] at h
    split at h
    case isTrue hk  => exact h ▸ .worker hw (.allow x hk)
    case isFalse hk => exact h ▸ .worker hw (.drop x (by simpa using hk))
  case admitted x      => exact Option.some.inj h ▸ .worker hw (.begin x)
  case finished v      => exact Option.some.inj h ▸ .worker hw (.done v)
  case releasing again => exact Option.some.inj h ▸ .worker hw (.release again)
  case stopping k =>
    simp only [Option.bind_eq_some_iff, Option.pure_def, Option.some.injEq] at h
    obtain ⟨⟨q, k'⟩, hl, rfl⟩ := h
    obtain ⟨rfl, rfl⟩ := Caller.lock?_close hk hl
    exact .worker hw .close
  case lowering => exact Option.some.inj h ▸ .worker hw .lower
  all_goals simp at h

theorem step_producer (hs : s.Serving) (h : s.stepProducer i = some s') :
    s.Step (.step (.producer i)) s' := by
  simp only [stepProducer, Option.bind_eq_bind, Option.bind_eq_some_iff] at h
  obtain ⟨p, hp, h⟩ := h
  have hk := hs.producers p <| List.mem_of_getElem? hp
  cases p
  case raising x => exact Option.some.inj h ▸ .producer hp (.raise x)
  case testing x =>
    simp only [Option.pure_def, Option.some.injEq] at h
    split at h
    case isTrue he  => exact h ▸ .producer hp (.refuse x he)
    case isFalse he => exact h ▸ .producer hp (.offer x (by simpa using he))
  case pushing x k =>
    simp only [Option.bind_eq_some_iff, Option.pure_def, Option.some.injEq] at h
    obtain ⟨⟨q, k'⟩, hl, rfl⟩ := h
    have hb := (Caller.lock?_eq hk hl).right
    cases Caller.lock?_push hk hl
    case wait hf he   => exact .producer hp (.wait x hb hf he)
    case bounce hc he => exact .producer hp (.bounce x hb hc he)
    case put hc       => exact .producer hp (.put x hb hc)
  case refusing x => exact Option.some.inj h ▸ .leave hp

theorem step_owner (hs : s.Serving) (h : s.stepOwner = some s') : s.Step (.step .owner) s' := by
  refine .owner ?_
  have hk := hs.owner
  cases ho : s.owner <;> simp only [stepOwner, ho, reduceCtorEq] at h hk
  case raising   => exact Option.some.inj h ▸ .raise ho
  case reopening => exact Option.some.inj h ▸ .reopen ho
  case spawning n =>
    cases n
    case zero   => exact Option.some.inj h ▸ .spawned ho
    case succ n => exact Option.some.inj h ▸ .spawn n ho
  case polling =>
    simp only [Option.some.injEq] at h
    split at h
    case isTrue hk  => exact h ▸ .poll ho hk
    case isFalse hk => exact h ▸ .give ho (by simpa using hk)
  case counting =>
    simp only [Option.some.injEq] at h
    split at h
    case isTrue hf  => exact h ▸ .await ho hf
    case isFalse hf => exact h ▸ .settle ho (by simpa using hf)
  case lowering r => exact Option.some.inj h ▸ .lower r ho
  case closing r k =>
    simp only [Option.bind_eq_bind, Option.bind_eq_some_iff, Option.pure_def,
      Option.some.injEq] at h
    obtain ⟨⟨q, k'⟩, hl, rfl⟩ := h
    obtain ⟨rfl, rfl⟩ := Caller.lock?_close hk hl
    exact .close r ho
  case clearing r k =>
    simp only [Option.bind_eq_bind, Option.bind_eq_some_iff, Option.pure_def,
      Option.some.injEq] at h
    obtain ⟨⟨q, k'⟩, hl, rfl⟩ := h
    obtain ⟨_, rfl, rfl⟩ := Caller.lock?_clear hk hl
    exact .clear r ho
  case joining r =>
    simp only [Option.ite_none_right_eq_some, Option.some.injEq] at h
    exact h.right ▸ .join r ho h.left
  case resetting r => exact Option.some.inj h ▸ .reset r ho

theorem roused_wake {w : Wake} {target : Option ℕ} (h : s.wake w target = some s') :
    ∃ c ws ps, Roused (Worker.wake c) s.workers ws ∧ Roused (Producer.wake c) s.producers ps ∧
      s' = { s with workers := ws, producers := ps } := by
  cases w
  case all c =>
    cases target <;> simp only [wake, Option.some.injEq, reduceCtorEq] at h
    exact ⟨c, _, _, .map _, .map _, h.symm⟩
  case one c =>
    cases target
    case none =>
      simp only [wake, Option.ite_none_left_eq_some, Option.some.injEq] at h
      exact ⟨c, _, _, .refl _, .refl _, h.right.symm⟩
    case some j =>
      cases c <;> simp only [wake, Option.ite_none_right_eq_some, Option.some.injEq] at h
      case notEmpty => exact ⟨.notEmpty, _, _, .modify _ _, .refl _, h.right.symm⟩
      case notFull  => exact ⟨.notFull, _, _, .refl _, .modify _ _, h.right.symm⟩

-- A party that gives notifications is not one that waits for them.
theorem getElem?_worker {c : Cond} {ws : List (Worker α)} {w w' : Worker α}
    (h : Roused (Worker.wake c) s.workers ws) (hi : s.workers[i]? = some w) (ht : w.Tells w') :
    ws[i]? = some w := by
  have ⟨_, hl, hr⟩ := h.getElem? hi
  rcases hr with rfl | rfl
  · exact hl
  · cases ht <;> exact hl

theorem getElem?_producer {c : Cond} {ps : List (Producer α)} {p p' : Producer α}
    (h : Roused (Producer.wake c) s.producers ps) (hi : s.producers[i]? = some p)
    (ht : p.Tells p') : ps[i]? = some p := by
  have ⟨_, hl, hr⟩ := h.getElem? hi
  cases ht
  rcases hr with rfl | rfl <;> exact hl

theorem step_notify {p : Party} {target : Option ℕ} (hs : s.Serving)
    (h : s.notify p target = some s') : s.Step (.notify p target) s' := by
  cases p <;> simp only [notify, Option.bind_eq_bind] at h
  case worker i =>
    rw [Option.bind_eq_some_iff] at h
    obtain ⟨w, hi, h⟩ := h
    have hk := hs.workers w <| List.mem_of_getElem? hi
    cases w <;> simp only [Option.bind_eq_some_iff, Option.pure_def, Option.some.injEq,
      reduceCtorEq] at h
    case popping k =>
      obtain ⟨⟨w, k'⟩, hn, _, hw, rfl⟩ := h
      obtain ⟨owed, a, rfl, rfl⟩ := Caller.notify?_eq hn
      obtain ⟨_, _, _, hr, hr', rfl⟩ := roused_wake hw
      obtain ⟨x, rfl⟩ := Request.AnswersOwing.pop hk
      exact .tellWorker hr hr' (getElem?_worker hr hi (.pop w owed x)) (.pop w owed x)
    case stopping k =>
      obtain ⟨⟨w, k'⟩, hn, _, hw, rfl⟩ := h
      obtain ⟨owed, a, rfl, rfl⟩ := Caller.notify?_eq hn
      obtain ⟨_, _, _, hr, hr', rfl⟩ := roused_wake hw
      obtain rfl := Request.AnswersOwing.done hk (.inl rfl)
      exact .tellWorker hr hr' (getElem?_worker hr hi (.close w owed)) (.close w owed)
  case producer i =>
    rw [Option.bind_eq_some_iff] at h
    obtain ⟨p, hi, h⟩ := h
    have hk := hs.producers p <| List.mem_of_getElem? hi
    cases p <;> simp only [Option.bind_eq_some_iff, Option.pure_def, Option.some.injEq,
      reduceCtorEq] at h
    case pushing x k =>
      obtain ⟨⟨w, k'⟩, hn, _, hw, rfl⟩ := h
      obtain ⟨owed, a, rfl, rfl⟩ := Caller.notify?_eq hn
      obtain ⟨_, _, _, hr, hr', rfl⟩ := roused_wake hw
      obtain rfl := Request.AnswersOwing.push hk
      exact .tellProducer hr hr' (getElem?_producer hr' hi (.put x w owed)) (.put x w owed)
  case owner =>
    have hk := hs.owner
    cases ho : s.owner <;> simp only [ho, Option.bind_eq_some_iff, Option.pure_def,
      Option.some.injEq, reduceCtorEq] at h hk
    case closing r k =>
      obtain ⟨⟨w, k'⟩, hn, _, hw, rfl⟩ := h
      obtain ⟨owed, a, rfl, rfl⟩ := Caller.notify?_eq hn
      obtain ⟨_, _, _, hr, hr', rfl⟩ := roused_wake hw
      obtain rfl := Request.AnswersOwing.done hk (.inl rfl)
      exact .tellOwner hr hr' (ho ▸ .close r w owed)
    case clearing r k =>
      obtain ⟨⟨w, k'⟩, hn, _, hw, rfl⟩ := h
      obtain ⟨owed, a, rfl, rfl⟩ := Caller.notify?_eq hn
      obtain ⟨_, _, _, hr, hr', rfl⟩ := roused_wake hw
      obtain rfl := Request.AnswersOwing.done hk (.inr rfl)
      exact .tellOwner hr hr' (ho ▸ .clear r w owed)

theorem step_of_act {a : Action α} (hs : s.Serving) (h : s.act a = some s') : s.Step a s' := by
  have hbegin {o : Owner α} {s'} (h : s.begin o = some s') :
      s.owner = .free ∧ s.producers = [] ∧ s' = s.setOwner o := by
    rw [begin] at h
    split at h
    case h_1 ho =>
      simp only [List.isEmpty_iff, Option.ite_none_right_eq_some, Option.some.injEq] at h
      exact ⟨ho, h.left, h.right.symm⟩
    case h_2 => simp at h
  cases a
  case push x =>
    simp only [act] at h
    split at h <;> simp only [Option.some.injEq, reduceCtorEq] at h
    case h_1 ho => exact h ▸ .push x ho
  case start =>
    simp only [act] at h
    split at h
    case isTrue hw =>
      obtain ⟨ho, hp, rfl⟩ := hbegin h
      exact .start ho hp (by simpa using hw)
    case isFalse hw =>
      rw [Option.map_eq_some_iff] at h
      obtain ⟨_, h, rfl⟩ := h
      obtain ⟨ho, hp, rfl⟩ := hbegin h
      exact .restart ho hp (by simpa using hw)
  case drain =>
    obtain ⟨ho, hp, rfl⟩ := hbegin h
    exact .drain ho hp
  case destroy =>
    obtain ⟨ho, hp, rfl⟩ := hbegin h
    exact .destroy ho hp
  case step p =>
    cases p
    case worker   => exact step_worker hs h
    case producer => exact step_producer hs h
    case owner    => exact step_owner hs h
  case notify p target => exact step_notify hs h
  case finish i v =>
    simp only [act, finish, Option.bind_eq_bind, Option.bind_eq_some_iff] at h
    obtain ⟨w, hw, h⟩ := h
    cases w <;> simp only [Option.pure_def, Option.some.injEq, reduceCtorEq] at h
    exact h ▸ .finish v hw
  case spawnFails =>
    simp only [act] at h
    split at h <;> simp only [Option.some.injEq, reduceCtorEq] at h
    case h_1 ho => exact h ▸ .spawnFails _ ho

end Sink
end Inference
