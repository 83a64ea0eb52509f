import Inference.Proofs.Sink.Drain
import Inference.Proofs.Sink.Staff

/-!
The counters of a sink are exact. Somebody answers for every item that is counted as in flight or as
active, so a counter is never lowered at zero; a destruction leaves the sink as a new one, but for
the end of its queue, which the next start takes back.
-/

namespace Inference

variable {α : Type}

namespace Producer

-- It has counted its item, and neither has the queue taken it nor is it given up.
def isPending : Producer α → Bool
  | raising _ => false
  | pushing _ k => !k.accepted
  | testing _ | refusing _ => true

theorem share_eq (p : Producer α) : p.share = if p.isPending then 1 else 0 := by
  cases p
  case pushing x k => cases hk : k.accepted <;> simp [share, isPending, hk]
  all_goals rfl

end Producer

namespace Worker

-- It has taken an item out of the queue, and not given up its share of the items in flight.
def hasItem : Worker α → Bool
  | popping k => !k.cargo.isEmpty
  | holding _ | admitted _ | working _ | finished _ | releasing _ => true
  | _ => false

-- It is counted in as it enters the processor, and not counted out yet.
def isInside : Worker α → Bool
  | working _ | finished _ => true
  | _ => false

theorem share_eq (w : Worker α) : w.share = if w.hasItem then 1 else 0 := by
  cases w
  case popping k =>
    have := k.length_cargo_le
    cases hk : k.cargo <;> simp_all [share, hasItem]
  all_goals rfl

theorem busy_eq (w : Worker α) : w.busy = if w.isInside then 1 else 0 := by
  cases w <;> rfl

end Worker

namespace Sink

variable {s s' : Sink α} {a : Action α}

-- What a sink is made with.
structure SameKind (s s' : Sink α) : Prop where
  threads  : s'.threads = s.threads
  capacity : s'.queue.capacity = s.queue.capacity
  order    : s'.queue.order = s.queue.order

theorem SameKind.refl (s : Sink α) : s.SameKind s := ⟨rfl, rfl, rfl⟩

theorem SameKind.trans {s₁ s₂ s₃ : Sink α} (h : s₁.SameKind s₂) (h' : s₂.SameKind s₃) :
    s₁.SameKind s₃ :=
  ⟨h'.threads.trans h.threads, h'.capacity.trans h.capacity, h'.order.trans h.order⟩

-- There is somebody, or something in the queue, for every item that is counted as in flight.
def Backed (s : Sink α) : Prop := s.load ≤ s.inFlight

end Sink

variable {s s' : Sink α}

theorem Worker.Moves.sameKind {w w' : Worker α} (h : w.Moves s s' w') : s.SameKind s' := by
  cases h <;> exact ⟨rfl, rfl, rfl⟩

theorem Producer.Moves.sameKind {p p' : Producer α} (h : p.Moves s s' p') : s.SameKind s' := by
  cases h <;> exact ⟨rfl, rfl, rfl⟩

theorem Owner.Moves.sameKind (h : Owner.Moves s s') : s.SameKind s' := by
  cases h <;> exact ⟨rfl, rfl, rfl⟩

theorem Sink.sameKind_setProducer (s : Sink α) (i : ℕ) (p : Producer α) :
    s.SameKind (s.setProducer i p) := by
  obtain ⟨ps, l, h⟩ := s.setProducer_frame i p
  exact h ▸ ⟨rfl, rfl, rfl⟩

theorem Sink.Step.sameKind {a : Action α} (h : s.Step a s') : s.SameKind s' := by
  cases h
  case worker hm => exact hm.sameKind.trans ⟨rfl, rfl, rfl⟩
  case producer i _ _ p' _ hm => exact hm.sameKind.trans (sameKind_setProducer _ i p')
  case owner hm => exact hm.sameKind
  case tellProducer i _ _ ws ps _ p' _ _ _ _ =>
    have h : s.SameKind { s with workers := ws, producers := ps } := ⟨rfl, rfl, rfl⟩
    exact h.trans (sameKind_setProducer _ i p')
  all_goals exact ⟨rfl, rfl, rfl⟩

namespace Sink

theorem Backed.setWorker {s₁ : Sink α} {i : ℕ} {w w' : Worker α} (hb : s.Backed) (ha : s.Alike s₁)
    (hi : s.workers[i]? = some w)
    (hl : s₁.inFlight + (s.queue.size + w.share) = s.inFlight + (s₁.queue.size + w'.share)) :
    (s₁.setWorker i w').Backed := by
  have ht := tally_setWorker Worker.share_resumed ha hi w'
  have hp : (s₁.setWorker i w').producers = s.producers := ha.producers
  have hq : (s₁.setWorker i w').queue = s₁.queue := rfl
  have hn : (s₁.setWorker i w').inFlight = s₁.inFlight := rfl
  simp only [Backed, load, hp, hq, hn] at hb ⊢
  omega

theorem Backed.setProducer {s₁ : Sink α} {i : ℕ} {p p' : Producer α} (hb : s.Backed)
    (ha : s.Alike s₁) (hi : s.producers[i]? = some p)
    (hl : s₁.inFlight + (p.share + s.queue.size) = s.inFlight + (p'.share + s₁.queue.size)) :
    (s₁.setProducer i p').Backed := by
  have ht := tally_share_setProducer ha hi p'
  obtain ⟨ps, l, h⟩ := s₁.setProducer_frame i p'
  rw [h] at ht ⊢
  simp only [Backed, load, ha.workers] at hb ht ⊢
  omega

theorem Backed.roused {c : Cond} {ws : List (Worker α)} {ps : List (Producer α)} (hb : s.Backed)
    (hw : Roused (Worker.wake c) s.workers ws) (hp : Roused (Producer.wake c) s.producers ps) :
    ({ s with workers := ws, producers := ps } : Sink α).Backed := by
  have hw := hw.tally_eq fun w _ => w.share_wake c
  have hp := hp.tally_eq fun p _ => p.share_wake c
  rw [Backed, load, hw, hp]
  exact hb

end Sink

theorem Owner.Moves.backed (h : Owner.Moves s s') (hs : s.Sound) (hb : s.Backed) :
    s'.Backed := by
  rw [Sink.Backed, Sink.load] at hb
  cases h
  case spawn n ho => simpa [Sink.setOwner, Sink.Backed, Sink.load, Worker.share] using hb
  case clear r k ho =>
    simp only [Sink.setOwner, Sink.Backed, Sink.load, Queue.size, List.length_nil]
    omega
  case join r ho he =>
    simp only [Sink.setOwner, Sink.Backed, Sink.load, tally_nil]
    omega
  case reset r ho =>
    have hp := hs.busy ho (by simp)
    have hq := hs.cleared (ho ▸ trivial)
    have hw := hs.joined r ho
    simp [Sink.finishCall, Sink.record, Sink.Backed, Sink.load, Queue.size, hp, hq, hw]
  all_goals exact hb

namespace Sink

theorem Step.backed {a : Action α} (h : s.Step a s') (hs : s.Sound) (hb : s.Backed) :
    s'.Backed := by
  cases h
  case push x _ => simpa [Backed, load, Producer.share] using hb
  case worker hi hm =>
    refine hb.setWorker hm.alike hi (hm.inFlight ?_)
    have := le_tally (f := Worker.share) hi
    rw [Backed, load] at hb
    omega
  case producer hi hm => exact hb.setProducer hm.alike hi hm.inFlight
  case leave hi =>
    have ht := tally_eraseIdx (f := Producer.share) hi
    simp only [Backed, load, record, Producer.share] at hb ht ⊢
    omega
  case owner hm => exact hm.backed hs hb
  case tellWorker hw hp hi ht =>
    have hl := ht.share
    exact (hb.roused hw hp).setWorker (.refl _) hi (by omega)
  case tellProducer hw hp hi ht =>
    have hl := ht.share
    exact (hb.roused hw hp).setProducer (.refl _) hi (by omega)
  case tellOwner hw hp _ => exact hb.roused hw hp
  case finish v hi =>
    have h : (s.setWorker _ (.finished v)).Backed := hb.setWorker (.refl _) hi rfl
    exact h
  all_goals exact hb

-- What holds of a sink in every state that it can come to.
structure Regular (s : Sink α) : Prop extends s.Sound, s.Counted, s.Staffed, s.Latched where
  backed : s.Backed

theorem Step.regular {a : Action α} (h : s.Step a s') (hr : s.Regular) : s'.Regular :=
  ⟨h.sound hr.toSound, h.counted hr.toSound hr.toCounted, h.staffed hr.toStaffed,
    h.latched hr.toSound hr.toStaffed hr.toLatched, h.backed hr.toSound hr.backed⟩

theorem regular_create (bound threads : ℕ) : (create bound threads : Sink α).Regular := by
  have hl : (create bound threads : Sink α).load = 0 := by
    rw [create]
    split <;> rfl
  have hs : (create bound threads : Sink α).Sound :=
    .of_free (by simp [create]) (by simp [create]) rfl
  exact ⟨hs, ⟨rfl, fun _ => hl.symm⟩, staffed_create .., latched_create .., Nat.le_of_eq hl⟩

theorem Regular.step_of_act {a : Action α} (hr : s.Regular) (h : machine.act s a = some s') :
    s.Step a s' := Sink.step_of_act hr.toServing h

theorem reaches_regular {bound threads : ℕ}
    (h : machine.Reaches (create bound threads : Sink α) s) :
    s.Regular ∧ (create bound threads).SameKind s :=
  h.preserves (I := fun s : Sink α => s.Regular ∧ (create bound threads).SameKind s)
    ⟨regular_create .., .refl _⟩ fun ⟨hr, hk⟩ h =>
      have h := hr.step_of_act h
      ⟨h.regular hr, hk.trans h.sameKind⟩

-- What a call of the owner leaves when it returns that is not a start: a new sink whose queue is
-- ended.
theorem Regular.of_returns {r : Return} {bound threads : ℕ} (hr : s.Regular)
    (hk : (create bound threads).SameKind s) (h : machine.act s (.step .owner) = some s')
    (hl : s'.history = .returned r :: s.history) (hn : r ≠ .started) :
    s' = { create bound threads with
      queue := { (create bound threads : Sink α).queue with ended := true }
      history := s'.history } := by
  have h := hr.step_of_act h
  cases h
  case owner hm =>
    cases hm
    case spawned => exact (hn (Event.returned.inj (List.cons.inj hl).left).symm).elim
    case reset r ho =>
      have hw := hr.joined r ho
      have hp := hr.busy ho (by simp)
      have hq : s.queue.items = [] := hr.cleared (ho ▸ trivial)
      have hi : (create bound threads : Sink α).queue.items = [] := by
        rw [create]
        split <;> rfl
      have ha : s.active = 0 := hr.active.trans (hw ▸ rfl)
      have he : s.queue.ended := hr.shut (ho ▸ trivial)
      have hf : s.keep = false := hr.lowered (ho ▸ trivial)
      obtain ⟨_, ⟨_, _, _, _⟩, _, _, _, _, _, _, _⟩ := s
      obtain ⟨ht, hc, hord⟩ := hk
      simp only at hw hp hq ha he hf ht hc hord
      subst hw hp hq ha he hf ht hc hord
      simp only [finishCall, record, hi]
      rfl
    all_goals simp [setOwner] at hl

-- Until a destruction begins, as many items are in flight as there are calls that have counted
-- their item and not handed it over yet, items in the queue, and workers with an item. At any time
-- as many are active as workers are inside the processor, which are no more than the sink shall
-- have, and a counter that is lowered next is not zero. A destruction that has returned leaves
-- nothing, and a start then comes to the same state as that of a new sink.
theorem counters_exact (bound threads : ℕ) {s : Sink α}
    (hr : machine.Reaches (create bound threads) s) :
    (s.owner.ending? = none → s.inFlight =
      s.producers.countP (·.isPending) + s.queue.size + s.workers.countP (·.hasItem)) ∧
    s.active = s.workers.countP (·.isInside) ∧ s.active ≤ max threads 1 ∧
    (∀ v, .finished v ∈ s.workers → 0 < s.active) ∧
    (∀ again, .releasing again ∈ s.workers → 0 < s.inFlight) ∧
    (∀ x, .refusing x ∈ s.producers → 0 < s.inFlight) ∧
    ∀ r t, machine.act s (.step .owner) = some t → t.history = .returned r :: s.history →
      r ≠ .started → t.inFlight = 0 ∧ t.active = 0 ∧ t.queue.size = 0 ∧ t.keep = false ∧
        ∃ u, machine.run (create bound threads) [.start, .step .owner, .step .owner] = some u ∧
          machine.run t [.start, .step .owner, .step .owner] =
            some { u with history := t.history } := by
  obtain ⟨hg, hk⟩ := reaches_regular hr
  have hactive : s.active = s.workers.countP (·.isInside) :=
    hg.active.trans (tally_eq_countP Worker.busy_eq)
  have hb := hg.backed
  rw [Backed, load] at hb
  refine ⟨fun ho => ?_, hactive, ?_, fun v hv => ?_, fun again hw => ?_, fun x hx => ?_, ?_⟩
  · rw [hg.inFlight ho, load, tally_eq_countP Producer.share_eq, tally_eq_countP Worker.share_eq]
  · calc s.active = s.workers.countP (·.isInside) := hactive
      _ ≤ s.workers.length                        := List.countP_le_length
      _ ≤ s.threads                               := hg.few
      _ = max threads 1                           := hk.threads
  · rw [hactive]
    exact List.countP_pos_iff.mpr ⟨_, hv, rfl⟩
  · have : 0 < tally Worker.share s.workers := tally_pos_iff.mpr ⟨_, hw, Nat.one_pos⟩
    omega
  · have : 0 < tally Producer.share s.producers := tally_pos_iff.mpr ⟨_, hx, Nat.one_pos⟩
    omega
  · intro r t ht hl hn
    have h := hg.of_returns hk ht hl hn
    have hq : (create bound threads : Sink α).queue.size = 0 ∧
        (create bound threads : Sink α).queue.ended = false := by
      rw [create]
      split <;> exact ⟨rfl, rfl⟩
    rw [h]
    refine ⟨rfl, rfl, hq.left, rfl, _, rfl, ?_⟩
    rfl

-- Two workers and room for one item: one item is being worked on, one is in the queue and one waits
-- for room. The processor stops, and the sink is destroyed with an item in its queue.
theorem stopped_sink_counted :
    let s : Sink ℕ := { create 1 2 with
      queue := ⟨.arrival, some 1, [6], false⟩
      keep := true
      active := 1
      inFlight := 3
      workers := [.working 5, .testing]
      producers := [.pushing 7 (.parked (.push 7) .notFull)]
      history := [.accepted 6, .began 5, .accepted 5, .returned .started] }
    let e : Sink ℕ := { create 1 2 with
      queue := ⟨.arrival, some 1, [], true⟩
      inFlight := 1
      owner := .resetting .destroyed
      history := [.refused 7, .ended 5 .stop, .accepted 6, .began 5, .accepted 5,
        .returned .started] }
    let t : Sink ℕ := { e with
      inFlight := 0
      owner := .free
      history := .returned .destroyed :: e.history }
    machine.Reaches (create 1 2) s ∧ machine.Reaches (create 1 2) e ∧
      s.inFlight = s.producers.countP (·.isPending) + s.queue.size + s.workers.countP (·.hasItem) ∧
      s.active ≤ 2 ∧ machine.act e (.step .owner) = some t ∧
      ∃ u, machine.run (create 1 2) [.start, .step .owner, .step .owner] = some u ∧
        machine.run t [.start, .step .owner, .step .owner] =
          some { u with history := t.history } := by
  intro s e t
  have hs : machine.Reaches (create 1 2) s :=
    .of_run [.start, .step .owner, .step .owner, .step .owner, .step .owner, .step .owner,
      .push 5, .step (.producer 0), .step (.producer 0), .step (.producer 0),
      .notify (.producer 0) none, .step (.worker 0), .step (.worker 0), .notify (.worker 0) none,
      .step (.worker 0), .step (.worker 0), .push 6, .step (.producer 0), .step (.producer 0),
      .step (.producer 0), .notify (.producer 0) none, .push 7, .step (.producer 0),
      .step (.producer 0), .step (.producer 0)] (by cbv)
  have he : machine.Reaches s e :=
    .of_run [.finish 0 .stop, .step (.worker 0), .step (.worker 0), .step (.worker 0),
      .notify (.worker 0) none, .notify (.worker 0) none, .step (.worker 0), .step (.producer 0),
      .step (.producer 0), .destroy, .step .owner, .step .owner, .notify .owner none,
      .notify .owner none, .step .owner, .notify .owner none, .step (.worker 1),
      .step (.worker 1), .notify (.worker 1) none, .notify (.worker 1) none, .step (.worker 1),
      .step .owner] (by cbv)
  have hc := counters_exact 1 2 hs
  obtain ⟨_, _, _, _, _, _, hd⟩ := counters_exact 1 2 (hs.trans he)
  exact ⟨hs, hs.trans he, hc.left rfl, hc.right.right.left, rfl,
    (hd .destroyed t rfl rfl (by simp)).right.right.right.right⟩

end Sink
end Inference
