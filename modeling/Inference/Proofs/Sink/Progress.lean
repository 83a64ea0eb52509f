import Inference.Proofs.Sink.Noticing
import Inference.Proofs.Sink.Stopping

/-!
What the workers and the producers of a running sink come to among themselves. As long as the
processor wants more, each of their actions brings an item nearer to its end, so they cannot go on
for ever; and where none of them can go on, everything is taken out of the queue and every call has
returned.
-/

namespace Inference

variable {α : Type}

namespace Event

def refused? : Event α → Option α
  | refused x => some x
  | _ => none

-- The calls that were refused.
def refusals (l : List (Event α)) : List α := l.filterMap refused?

end Event

-- What workers and producers do, and the processor when it wants more.
def Sink.Action.Inner : Action α → Prop
  | step (.worker _) | step (.producer _) | notify (.worker _) _ | notify (.producer _) _ => True
  | finish _ v => v = .more
  | _ => False

namespace Worker

-- How many actions a worker is away from waiting for an item, and from waking a producer on the
-- way.
def toil : Worker α → ℕ
  | popping (.parked ..)    => 0
  | popping (.notifying ..) => 9
  | popping _               => 1
  | testing                 => 2
  | releasing _             => 3
  | finished _              => 4
  | working _               => 5
  | admitted _              => 6
  | holding _               => 7
  | _                       => 0

variable {s s' : Sink α} {w w' : Worker α} {c : Cond}

theorem Moves.toil (h : w.Moves s s' w') (hw : w.Goes)
    (hb : ∀ k, w = popping k → k = .entering .pop ∨ k = .woken .pop) (hk : s.keep)
    (he : s.queue.ended = false) :
    w'.resumed.toil + 9 * s'.queue.size < w.toil + 9 * s.queue.size := by
  have hone {k : Caller α} (h : k = .entering .pop ∨ k = .woken .pop) : (popping k).toil = 1 := by
    rcases h with rfl | rfl <;> rfl
  cases h
  case quit hk' | drop hk' => simp [hk] at hk'
  case miss he' => simp [he] at he'
  case wait k _ _ _ =>
    rw [hone (hb k rfl)]
    exact Nat.add_lt_add_right (show 0 < 1 by decide) _
  case take k x rest _ _ hp =>
    have hn : s.queue.size = rest.length + 1 := hp.length_eq
    rw [hone (hb k rfl), hn]
    change 9 + 9 * rest.length < _
    omega
  case release again =>
    obtain rfl : again = true := hw
    exact Nat.add_lt_add_right (show 2 < 3 by decide) _
  case close | lower => exact hw.elim
  all_goals exact Nat.add_lt_add_right (Nat.lt_succ_self _) _

theorem Serves.not_parked (hw : w.Serves) : w.isParkedAt .notFull = false := by
  cases w
  case popping k | stopping k =>
    cases k
    case parked =>
      obtain ⟨rfl, hc⟩ := hw
      cases hc <;> rfl
    all_goals rfl
  all_goals rfl

theorem toil_wake (hw : w.Goes) (c : Cond) : (w.wake c).toil ≤ w.toil + 1 := by
  cases w
  case popping k =>
    cases k
    case parked =>
      simp only [Worker.wake, Caller.wake]
      split
      · exact Nat.le_refl _
      · exact Nat.le_succ _
    all_goals exact Nat.le_succ _
  case stopping => exact hw.elim
  all_goals exact Nat.le_succ _

end Worker

namespace Producer

def toil : Producer α → ℕ
  | pushing _ (.notifying ..) => 2
  | pushing _ (.returned _)   => 0
  | pushing _ (.parked ..)    => 11
  | pushing _ _               => 12
  | testing _                 => 13
  | raising _                 => 14
  | refusing _                => 0

variable {s s' : Sink α} {p p' : Producer α}

theorem Moves.toil (h : p.Moves s s' p') (he : s.queue.ended = false) :
    p'.toil + 9 * s'.queue.size < p.toil + 9 * s.queue.size := by
  cases h
  case refuse he' | bounce he' => simp [he] at he'
  case wait hk _ _ =>
    rcases hk with rfl | rfl <;> exact Nat.add_lt_add_right (show 11 < 12 by decide) _
  case put x k hk _ =>
    have hn :
        ({ s.queue with items := s.queue.items ++ [x] } : Queue α).size = s.queue.size + 1 := by
      simp [Queue.size]
    have ht : (pushing x k).toil = 12 := by rcases hk with rfl | rfl <;> rfl
    rw [hn, ht]
    change 2 + _ < _
    omega
  all_goals exact Nat.add_lt_add_right (Nat.lt_succ_self _) _

theorem Serves.not_parked (hp : p.Serves) : p.isParkedAt .notEmpty = false := by
  cases p
  case pushing x k =>
    cases k
    case parked =>
      obtain ⟨rfl, hc⟩ := hp
      cases hc
      rfl
    all_goals rfl
  all_goals rfl

theorem toil_wake (p : Producer α) (c : Cond) : (p.wake c).toil ≤ p.toil + 1 := by
  cases p
  case pushing x k =>
    cases k
    case parked =>
      simp only [Producer.wake, Caller.wake]
      split
      · exact Nat.le_refl _
      · exact Nat.le_succ _
    all_goals exact Nat.le_succ _
  all_goals exact Nat.le_succ _

end Producer

namespace Sink

variable {s s₁ s' : Sink α} {a : Action α} {i : ℕ} {c : Cond} {x : α} {w w' : Worker α}
  {p p' : Producer α}

def toil (s : Sink α) : ℕ :=
  tally Worker.toil s.workers + tally Producer.toil s.producers + 9 * s.queue.size

-- A sink that has been started, whose processor has wanted more ever since.
structure Going (s : Sink α) : Prop extends s.Alert where
  running : s.Running
  staffed : s.workers ≠ []
  ending  : s.owner.ending? = none
  admits  : ∀ x, .refusing x ∉ s.producers

theorem Going.keep (hg : s.Going) : s.keep := hg.running.keep (.inl hg.staffed)

theorem Going.not_ended (hg : s.Going) : s.queue.ended = false :=
  hg.running.opened (.inl hg.staffed)

theorem toil_setWorker (ha : s.Alike s₁) (hi : s.workers[i]? = some w)
    (ht : w'.resumed.toil + 9 * s₁.queue.size < w.toil + 9 * s.queue.size) :
    (s₁.setWorker i w').toil < s.toil := by
  have hl := tally_set (f := Worker.toil) (b := w'.resumed) hi
  simp only [toil, setWorker, ha.workers, ha.producers]
  omega

theorem toil_setProducer (ha : s.Alike s₁) (hi : s.producers[i]? = some p)
    (ht : p'.toil + 9 * s₁.queue.size < p.toil + 9 * s.queue.size) :
    (s₁.setProducer i p').toil < s.toil := by
  have hl := tally_setProducer (f := Producer.toil) (fun _ => rfl) (fun _ _ _ => rfl) ha hi p'
  simp only [toil, setProducer_workers, setProducer_queue, ha.workers]
  omega

-- Whoever gives a notification has more to do before than whom it wakes has after.
theorem Calls.toil (h : s.Calls c s₁) (hg : s.Going) : s₁.toil ≤ s.toil + 1 := by
  cases h
  case nobody => exact Nat.le_succ _
  case worker j w hj hp =>
    have hl := tally_set (f := Worker.toil) (b := w.wake .notEmpty) hj
    have hw := Worker.toil_wake (hg.running.goes w <| List.mem_of_getElem? hj) .notEmpty
    simp only [Sink.toil]
    omega
  case producer j p hj hp =>
    have hl := tally_set (f := Producer.toil) (b := p.wake .notFull) hj
    have hw := p.toil_wake .notFull
    simp only [Sink.toil]
    omega

theorem Notifies.toil (h : s.Notifies a s') (hg : s.Going) : s'.toil < s.toil := by
  cases h
  case worker i target x s₁ hi hc =>
    have hi := (show s₁.workers[i]? = s.workers[i]? by cases hc <;> rfl).trans hi
    have hl := tally_set (f := Worker.toil) (b := (Worker.holding x).resumed) hi
    have ht := hc.toil hg
    have hn : Worker.toil (.popping (.notifying [.one .notFull] (.item (some x)))) = 9 := rfl
    have hn' : (Worker.holding x).resumed.toil = 7 := rfl
    simp only [Sink.toil, setWorker] at ht ⊢
    omega
  case producer i target x s₁ hi hc =>
    have hi := (show s₁.producers[i]? = s.producers[i]? by cases hc <;> rfl).trans hi
    have hl := tally_eraseIdx (f := Producer.toil) hi
    have ht := hc.toil hg
    have hn : Producer.toil (.pushing x (.notifying [.one .notEmpty] (.accepted true))) = 2 := rfl
    simp only [Sink.toil, record] at ht ⊢
    omega

theorem Step.toil_lt (h : s.Step a s') (hg : s.Going) (ha : machine.act s a = some s')
    (hin : a.Inner) : s'.toil < s.toil := by
  cases h
  case worker hi hm =>
    refine toil_setWorker hm.alike hi (hm.toil ?_ (fun k hk => ?_) hg.keep hg.not_ended)
    · exact hg.running.goes _ <| List.mem_of_getElem? hi
    · exact popping_before hg.toServing (hk ▸ hi) ha
  case producer hi hm => exact toil_setProducer hm.alike hi (hm.toil hg.not_ended)
  case leave hi => exact (hg.admits _ <| List.mem_of_getElem? hi).elim
  case tellWorker | tellProducer =>
    exact (notifies_of_act hg.toRegular hg.poised hg.not_ended ha).toil hg
  case finish v hi =>
    have h : (s.setWorker _ (.finished v)).toil < s.toil :=
      toil_setWorker (.refl s) hi (Nat.add_lt_add_right (Nat.lt_succ_self _) _)
    exact h
  all_goals exact hin.elim

theorem Step.owner_eq (h : s.Step a s') (hin : a.Inner) : s'.owner = s.owner := by
  cases h
  case worker hm => exact hm.alike.owner
  case producer hm => exact (setProducer_owner ..).trans hm.alike.owner
  case tellProducer => exact setProducer_owner ..
  case leave | tellWorker | finish => rfl
  all_goals exact hin.elim

theorem Action.Inner.smooth (ha : a.Inner) : a.Smooth := by
  cases a
  case finish     => exact ha
  case spawnFails => exact ha.elim
  all_goals trivial

theorem refusals_setProducer (s : Sink α) (i : ℕ) (p : Producer α) :
    Event.refusals (s.setProducer i p).history = Event.refusals s.history := by
  have h := s.places i p
  generalize s.setProducer i p = s' at h ⊢
  cases h <;> rfl

theorem admits_setProducer (hn : ∀ x, .refusing x ∉ s.producers) (hp : ∀ x, p ≠ .refusing x)
    (hp' : ∀ x a, p = .pushing x (.returned a) → a.accepts) (i : ℕ) :
    ∀ x, .refusing x ∉ (s.setProducer i p).producers := by
  have h := s.places i p
  generalize s.setProducer i p = s' at h ⊢
  intro y hy
  cases h
  case taken         => exact hn y <| List.mem_of_mem_eraseIdx hy
  case bounced x a h => simp [hp' x a rfl] at h
  case kept =>
    rcases List.mem_or_eq_of_mem_set hy with hy | hy
    · exact hn y hy
    · exact hp y hy.symm

-- As long as the queue is open nobody is refused.
theorem Step.admits (h : s.Step a s') (hg : s.Going) :
    (∀ x, .refusing x ∉ s'.producers) ∧
      Event.refusals s'.history = Event.refusals s.history := by
  have hn := hg.admits
  have hr {c : Cond} {ps : List (Producer α)} (h : Roused (Producer.wake c) s.producers ps)
      (x : α) : .refusing x ∉ ps := fun hx => by
    have ⟨p, hp, hx⟩ := h.mem hx
    cases p <;> simp [Producer.wake] at hx
    case refusing y => exact hn y hp
  cases h
  case push x _ => exact ⟨fun y => by simpa using hn y, rfl⟩
  case worker hm =>
    refine ⟨fun x => hm.alike.producers ▸ hn x, ?_⟩
    cases hm <;> rfl
  case producer i p s₁ p' _ hm =>
    refine ⟨admits_setProducer (hm.alike.producers ▸ hn) (fun x => ?_) (fun x a => ?_) i,
      (refusals_setProducer ..).trans (by rw [hm.history])⟩ <;>
      cases hm <;> simp_all [hg.not_ended]
  case leave hi => exact (hn _ <| List.mem_of_getElem? hi).elim
  case owner hm => cases hm <;> exact ⟨hn, rfl⟩
  case tellWorker hp _ _ => exact ⟨hr hp, rfl⟩
  case tellProducer i _ _ ws ps p p' hw hp hi ht =>
    cases ht
    refine ⟨admits_setProducer (hr hp) (by simp) (fun x a h => ?_) i, refusals_setProducer ..⟩
    have h := congrArg Caller.accepted (Producer.pushing.inj h).right
    rw [Caller.accepted_owing] at h
    exact h.symm
  case tellOwner hp _ => exact ⟨hr hp, rfl⟩
  all_goals exact ⟨hn, rfl⟩

theorem Going.step (hg : s.Going) (h : machine.act s a = some s') (ha : a.Smooth)
    (ho : s'.owner.ending? = none) :
    s'.Going ∧ Event.refusals s'.history = Event.refusals s.history := by
  have hs := hg.step_of_act h
  have ⟨hadmits, hr⟩ := hs.admits hg
  exact ⟨⟨hg.toAlert.step h, hs.running ha hg.toSound (fun _ => hg.running) ho,
    hs.workers_ne_nil hg.ending hg.staffed ho, ho, hadmits⟩, hr⟩

theorem Going.length_le {as : List (Action α)} (hg : s.Going) (ha : ∀ a ∈ as, a.Inner)
    (h : (machine.run s as).isSome) : as.length ≤ s.toil := by
  induction as generalizing s
  case nil => exact Nat.zero_le _
  case cons a as hi =>
    have ⟨t, ht⟩ := Option.isSome_iff_exists.mp h
    have ⟨u, hu, hrun, _⟩ := Machine.run_cons_eq_some ht
    have ⟨hin, ha⟩ := List.forall_mem_cons.mp ha
    have hs := hg.step_of_act hu
    have ho : u.owner.ending? = none := hs.owner_eq hin ▸ hg.ending
    have ⟨hg', _⟩ := hg.step hu hin.smooth ho
    have := hi hg' ha (Option.isSome_of_eq_some hrun)
    have := hs.toil_lt hg hu hin
    rw [List.length_cons]
    omega

-- Only workers wait for items and only producers for room, so a notification can always be given.
theorem exists_wake (hs : s.Serving) (c : Cond) : ∃ target t, s.wake (.one c) target = some t := by
  cases c
  case notEmpty =>
    by_cases h : ∃ w ∈ s.workers, w.isParkedAt .notEmpty
    case pos =>
      have ⟨w, hw, hp⟩ := h
      have ⟨j, hj⟩ := List.mem_iff_getElem?.mp hw
      exact ⟨some j, _, if_pos (by simp [hj, hp])⟩
    case neg =>
      have hp := fun p hp => (hs.producers p hp).not_parked
      exact ⟨none, s, if_neg (by simp_all)⟩
  case notFull =>
    by_cases h : ∃ p ∈ s.producers, p.isParkedAt .notFull
    case pos =>
      have ⟨p, hp, hk⟩ := h
      have ⟨j, hj⟩ := List.mem_iff_getElem?.mp hp
      exact ⟨some j, _, if_pos (by simp [hj, hk])⟩
    case neg =>
      have hw := fun w hw => (hs.workers w hw).not_parked
      exact ⟨none, s, if_neg (by simp_all)⟩

-- A worker that cannot go on waits for an item, and a producer for room.
theorem Going.worker_parked (hg : s.Going) (hi : s.workers[i]? = some w)
    (hq : ∀ a : Action α, a.Inner → machine.act s a = none) :
    ∃ r, w = .popping (.parked r .notEmpty) := by
  have hw := List.mem_of_getElem? hi
  have hgoes := hg.running.goes w hw
  have hp := hg.poised.workers w hw
  have hk := hg.workers w hw
  have hstep : s.stepWorker i = none := hq (.step (.worker i)) trivial
  simp only [stepWorker, hi, Option.bind_eq_bind, Option.bind_some] at hstep
  cases w
  case popping k =>
    cases k
    case parked r c =>
      obtain ⟨rfl, hc⟩ := hk
      cases hc
      exact ⟨_, rfl⟩
    case notifying owed a =>
      obtain rfl : owed = [.one .notFull] := hp
      obtain ⟨target, t, ht⟩ := exists_wake hg.toServing .notFull
      have h := hq (.notify (.worker i) target) trivial
      simp [machine, act, notify, hi, Caller.notify?, ht] at h
    case returned => exact hp.elim
    all_goals simp [Caller.lock?] at hstep
  case working x =>
    have h := hq (.finish i .more) rfl
    simp [machine, act, finish, hi] at h
  case stopping | lowering | exited => exact hgoes.elim
  all_goals simp at hstep

theorem Going.producer_parked (hg : s.Going) (hi : s.producers[i]? = some p)
    (hq : ∀ a : Action α, a.Inner → machine.act s a = none) :
    ∃ x r, p = .pushing x (.parked r .notFull) := by
  have hm := List.mem_of_getElem? hi
  have hp := hg.poised.producers p hm
  have hk := hg.producers p hm
  have hstep : s.stepProducer i = none := hq (.step (.producer i)) trivial
  simp only [stepProducer, hi, Option.bind_eq_bind, Option.bind_some] at hstep
  cases p
  case pushing x k =>
    cases k
    case parked r c =>
      obtain ⟨rfl, hc⟩ := hk
      cases hc
      exact ⟨_, _, rfl⟩
    case notifying owed a =>
      obtain rfl : owed = [.one .notEmpty] := hp
      obtain ⟨target, t, ht⟩ := exists_wake hg.toServing .notEmpty
      have h := hq (.notify (.producer i) target) trivial
      simp [machine, act, notify, hi, Caller.notify?, ht] at h
    case returned => exact hp.elim
    all_goals simp [Caller.lock?] at hstep
  all_goals simp at hstep

-- Where nobody can go on, nothing is left to be done.
theorem Going.settled (hg : s.Going) (hq : ∀ a : Action α, a.Inner → machine.act s a = none) :
    s.queue.items = [] ∧ s.producers = [] := by
  have hw w (h : w ∈ s.workers) : ∃ r, w = .popping (.parked r .notEmpty) :=
    have ⟨_, hi⟩ := List.mem_iff_getElem?.mp h
    hg.worker_parked hi hq
  have hp p (h : p ∈ s.producers) : ∃ x r, p = .pushing x (.parked r .notFull) :=
    have ⟨_, hi⟩ := List.mem_iff_getElem?.mp h
    hg.producer_parked hi hq
  have hsig (c : Cond) : s.weigh (Caller.signals c) = 0 := by
    refine Nat.add_eq_zero_iff.mpr
      ⟨tally_eq_zero_iff.mpr fun w h => ?_, tally_eq_zero_iff.mpr fun p h => ?_⟩
    · obtain ⟨r, rfl⟩ := hw w h
      rfl
    · obtain ⟨x, r, rfl⟩ := hp p h
      rfl
  have hroom (c : Cond) (h : 0 < s.weigh (Caller.parks c)) : s.queue.room c = 0 :=
    Nat.le_zero.mp <| hsig c ▸ hg.noticed c hg.not_ended h
  have hitems : s.queue.items = [] := by
    have ⟨w, h⟩ := List.exists_mem_of_ne_nil _ hg.staffed
    obtain ⟨r, rfl⟩ := hw w h
    refine List.eq_nil_of_length_eq_zero <| hroom .notEmpty <| Nat.add_pos_left ?_ _
    exact tally_pos_iff.mpr ⟨_, h, Nat.one_pos⟩
  refine ⟨hitems, List.eq_nil_iff_forall_not_mem.mpr fun p h => ?_⟩
  obtain ⟨x, r, rfl⟩ := hp p h
  have hroom := hroom .notFull <| Nat.add_pos_right _ <| tally_pos_iff.mpr ⟨_, h, Nat.one_pos⟩
  cases hb : s.queue.capacity
  case none   => simpa [Producer.isParkedAt, Caller.isParkedAt] using hg.poised.bounded hb _ h
  case some b =>
    have := hg.roomy b hb
    simp [Queue.room, hb, Queue.size, hitems] at hroom
    omega

end Sink
end Inference
