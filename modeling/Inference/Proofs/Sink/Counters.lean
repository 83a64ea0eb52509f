import Inference.Proofs.Sink.Sound

/-!
The counters of a sink. As many items are active as there are workers who have one with the
processor; until a destruction begins, as many items are in flight as the producers, the queue and
the workers have to answer for.
-/

namespace Inference

variable {α : Type}

-- Whether the queue has taken the item of a caller.
def Caller.accepted : Caller α → Bool
  | notifying _ a | returned a => a.accepts
  | _ => false

@[simp]
theorem Caller.accepted_owing (owed : List Wake) (a : Answer α) :
    (owing owed a).accepted = a.accepts := by
  rw [owing]
  split <;> rfl

@[simp]
theorem Caller.accepted_wake (c : Cond) (k : Caller α) : (k.wake c).accepted = k.accepted := by
  cases k <;> simp only [Caller.wake]
  case parked =>
    split <;> rfl

-- How a call of the owner returns that is in the steps of a destruction.
def Owner.ending? : Owner α → Option Return
  | lowering r | closing r _ | clearing r _ | joining r | resetting r => some r
  | _ => none

@[simp]
theorem Owner.ending?_resumed (o : Owner α) : o.resumed.ending? = o.ending? := by
  cases o
  case closing k | clearing k => cases k <;> rfl
  all_goals rfl

theorem Owner.Tells.ending {o o' : Owner α} (h : o.Tells o') : o.ending? ≠ none := by
  cases h <;> exact Option.some_ne_none _

theorem Owner.Tells.ending?_eq {o o' : Owner α} (h : o.Tells o') : o'.ending? = o.ending? := by
  cases h <;> rfl

namespace Worker

-- How many items in flight a worker has to answer for.
def share : Worker α → ℕ
  | popping k => k.cargo.length
  | holding _ | admitted _ | working _ | finished _ | releasing _ => 1
  | _ => 0

def busy : Worker α → ℕ
  | working _ | finished _ => 1
  | _ => 0

@[simp]
theorem share_resumed (w : Worker α) : w.resumed.share = w.share := by
  have h := w.resumes
  generalize w.resumed = w' at h ⊢
  cases h
  case sent ha => simp [share, Caller.cargo, ha]
  all_goals rfl

@[simp]
theorem busy_resumed (w : Worker α) : w.resumed.busy = w.busy := by
  have h := w.resumes
  generalize w.resumed = w' at h ⊢
  cases h <;> rfl

@[simp]
theorem share_wake (c : Cond) (w : Worker α) : (w.wake c).share = w.share := by
  cases w <;> simp [wake, share]

@[simp]
theorem busy_wake (c : Cond) (w : Worker α) : (w.wake c).busy = w.busy := by
  cases w <;> rfl

variable {s s' : Sink α} {w w' : Worker α}

theorem Moves.active (h : w.Moves s s' w') (hb : w.busy ≤ s.active) :
    s'.active + w.busy = s.active + w'.busy := by
  cases h
  case release again => cases again <;> rfl
  case done          => exact Nat.sub_add_cancel hb
  all_goals rfl

theorem Moves.inFlight (h : w.Moves s s' w') (hw : w.share ≤ s.inFlight) :
    s'.inFlight + (s.queue.size + w.share) = s.inFlight + (s'.queue.size + w'.share) := by
  cases h
  case wait hk _ _ | miss hk _ => simp only [share, hk]; rfl
  case take hk _ hp =>
    simp only [share, hk, Queue.size, hp.length_eq]
    rfl
  case release again =>
    have : (if again then testing else stopping (.entering .close) : Worker α).share = 0 := by
      cases again <;> rfl
    simp only [share] at hw this ⊢
    omega
  all_goals rfl

theorem Tells.share (h : w.Tells w') : w'.share = w.share := by
  cases h
  case pop   => simp only [Worker.share, Caller.cargo_owing]; rfl
  case close => rfl

theorem Tells.busy (h : w.Tells w') : w'.busy = w.busy := by
  cases h <;> rfl

end Worker

namespace Producer

-- A producer answers for its item until the queue has it.
def share : Producer α → ℕ
  | raising _ => 0
  | pushing _ k => if k.accepted then 0 else 1
  | testing _ | refusing _ => 1

@[simp]
theorem share_wake (c : Cond) (p : Producer α) : (p.wake c).share = p.share := by
  cases p <;> simp [wake, share]

variable {s s' : Sink α} {p p' : Producer α}

theorem Moves.active (h : p.Moves s s' p') : s'.active = s.active := by
  cases h <;> rfl

theorem Moves.inFlight (h : p.Moves s s' p') :
    s'.inFlight + (p.share + s.queue.size) = s.inFlight + (p'.share + s'.queue.size) := by
  cases h
  case raise             => simp only [share]; omega
  case wait hk _ _       => rcases hk with rfl | rfl <;> rfl
  case bounce hk _ _     => rcases hk with rfl | rfl <;> rfl
  case put hk _          =>
    rcases hk with rfl | rfl <;> simp [share, Caller.accepted, Answer.accepts, Queue.size] <;> omega
  all_goals rfl

theorem Tells.share (h : p.Tells p') : p'.share = p.share := by
  cases h
  simp only [Producer.share, Caller.accepted_owing]
  rfl

end Producer

namespace Sink

variable {s s₁ s' : Sink α} {i : ℕ} {w w' : Worker α} {p p' : Producer α}

def load (s : Sink α) : ℕ :=
  tally Producer.share s.producers + s.queue.size + tally Worker.share s.workers

structure Counted (s : Sink α) : Prop where
  active   : s.active = tally Worker.busy s.workers
  inFlight : s.owner.ending? = none → s.inFlight = s.load

theorem tally_setWorker {f : Worker α → ℕ} (hf : ∀ w, f w.resumed = f w) (ha : s.Alike s₁)
    (hi : s.workers[i]? = some w) (w' : Worker α) :
    tally f (s₁.setWorker i w').workers + f w = tally f s.workers + f w' := by
  rw [setWorker, ha.workers, ← hf w']
  exact tally_set hi

-- A producer that is gone weighs nothing, and one that is turned away what its answer weighs.
theorem tally_setProducer {f : Producer α → ℕ}
    (ht : ∀ x, f (.pushing x (.returned (.accepted true))) = 0)
    (hb : ∀ x a, a.accepts = false → f (.pushing x (.returned a)) = f (.refusing x))
    (ha : s.Alike s₁) (hi : s.producers[i]? = some p) (p' : Producer α) :
    tally f (s₁.setProducer i p').producers + f p = tally f s.producers + f p' := by
  rw [← ha.producers] at hi ⊢
  have h := s₁.places i p'
  generalize s₁.setProducer i p' = s' at h ⊢
  cases h
  case taken x        => exact (tally_eraseIdx hi).trans (congrArg (_ + ·) (ht x)).symm
  case bounced x a hx => exact hb x a hx ▸ tally_set hi
  case kept           => exact tally_set hi

theorem tally_share_setProducer (ha : s.Alike s₁) (hi : s.producers[i]? = some p)
    (p' : Producer α) : tally Producer.share (s₁.setProducer i p').producers + p.share =
      tally Producer.share s.producers + p'.share :=
  tally_setProducer (fun _ => rfl) (fun x a hx => by simp [Producer.share, Caller.accepted, hx])
    ha hi p'

theorem Counted.roused {c : Cond} {ws : List (Worker α)} {ps : List (Producer α)} (hc : s.Counted)
    (hw : Roused (Worker.wake c) s.workers ws) (hp : Roused (Producer.wake c) s.producers ps) :
    ({ s with workers := ws, producers := ps } : Sink α).Counted where
  active   := hc.active.trans (hw.tally_eq fun w _ => w.busy_wake c).symm
  inFlight := fun ho => by
    have hw := hw.tally_eq fun w _ => w.share_wake c
    have hp := hp.tally_eq fun p _ => p.share_wake c
    rw [load, hw, hp]
    exact hc.inFlight ho

namespace Counted

theorem setWorker (hc : s.Counted) (ha : s.Alike s₁) (hi : s.workers[i]? = some w)
    (hb : s₁.active + w.busy = s.active + w'.busy)
    (hl : s.owner.ending? = none →
      s₁.inFlight + (s.queue.size + w.share) = s.inFlight + (s₁.queue.size + w'.share)) :
    (s₁.setWorker i w').Counted where
  active   := by
    have ht := tally_setWorker Worker.busy_resumed ha hi w'
    have hc := hc.active
    change s₁.active = _
    omega
  inFlight := fun ho => by
    have ht := tally_setWorker Worker.share_resumed ha hi w'
    have hl := hl (ha.owner ▸ ho)
    have hc := hc.inFlight (ha.owner ▸ ho)
    change s₁.inFlight = tally _ s₁.producers + s₁.queue.size + _
    rw [load] at hc
    rw [ha.producers]
    omega

theorem setProducer (hc : s.Counted) (ha : s.Alike s₁) (hi : s.producers[i]? = some p)
    (hb : s₁.active = s.active)
    (hl : s₁.inFlight + (p.share + s.queue.size) = s.inFlight + (p'.share + s₁.queue.size)) :
    (s₁.setProducer i p').Counted := by
  have ht := tally_share_setProducer ha hi p'
  obtain ⟨ps, l, h⟩ := s₁.setProducer_frame i p'
  rw [h] at ht ⊢
  constructor
  case active => exact hb.trans <| hc.active.trans <| ha.workers ▸ rfl
  case inFlight =>
    intro ho
    have hc := hc.inFlight (ha.owner ▸ ho)
    simp only [load, ha.workers] at hc ht ⊢
    omega

theorem record (hc : s.Counted) (e : Event α) : (s.record e).Counted := ⟨hc.active, hc.inFlight⟩

-- The owner takes a step of its own that changes no counter.
theorem setOwner {o : Owner α} (hc : s.Counted) (ho : o.ending? = none → s.owner.ending? = none) :
    (s.setOwner o).Counted where
  active   := hc.active
  inFlight := fun h => hc.inFlight (ho (o.ending?_resumed ▸ h))

theorem of_ending (ha : s.active = tally Worker.busy s.workers) (ho : s.owner.ending? ≠ none) :
    s.Counted where
  active   := ha
  inFlight := fun h => (ho h).elim

end Counted

theorem tally_busy_eq_zero (h : s.allExited) : tally Worker.busy s.workers = 0 := by
  refine tally_eq_zero_iff.mpr fun w hw => ?_
  have h := List.all_eq_true.mp h w hw
  cases w <;> first | rfl | simp at h

end Sink

variable {s s' : Sink α}

theorem Owner.Moves.counted (h : Owner.Moves s s') (hs : s.Sound) (hc : s.Counted) :
    s'.Counted := by
  cases h
  case raise ho | reopen ho | poll ho _ | give ho _ | await ho _ | settle ho _ | spawned ho =>
    exact ⟨hc.active, fun _ => hc.inFlight (ho ▸ rfl)⟩
  case spawn ho =>
    constructor
    case active => simpa [Sink.setOwner, Worker.busy] using hc.active
    case inFlight =>
      have hc := hc.inFlight (ho ▸ rfl)
      simpa [Sink.setOwner, Sink.load, Worker.share] using fun _ => hc
  case lower | close | clear => exact .of_ending hc.active (Option.some_ne_none _)
  case join r ho he =>
    refine .of_ending ?_ (Option.some_ne_none _)
    exact hc.active.trans <| Sink.tally_busy_eq_zero he
  case reset r ho =>
    refine ⟨hc.active, fun _ => ?_⟩
    have hp := hs.busy ho (by simp)
    have hq := hs.cleared (ho ▸ trivial)
    have hw := hs.joined r ho
    simp [Sink.finishCall, Sink.record, Sink.load, Queue.size, hp, hq, hw]

theorem Sink.Step.counted {a : Action α} (h : s.Step a s') (hs : s.Sound) (hc : s.Counted) :
    s'.Counted := by
  cases h
  case push x ho =>
    refine ⟨hc.active, fun h => ?_⟩
    simpa [Sink.load, Producer.share] using hc.inFlight h
  case start ho hp hw => exact ⟨hc.active, fun _ => hc.inFlight (ho ▸ rfl)⟩
  case restart ho _ _ => exact ⟨hc.active, fun _ => hc.inFlight (ho ▸ rfl)⟩
  case drain ho _     => exact ⟨hc.active, fun _ => hc.inFlight (ho ▸ rfl)⟩
  case destroy        => exact .of_ending hc.active (Option.some_ne_none _)
  case worker hi hm =>
    refine hc.setWorker hm.alike hi (hm.active (hc.active ▸ le_tally hi)) fun ho => hm.inFlight ?_
    have := le_tally (f := Worker.share) hi
    rw [hc.inFlight ho, load]
    omega
  case producer hi hm => exact hc.setProducer hm.alike hi hm.active hm.inFlight
  case leave hi =>
    refine ⟨hc.active, fun ho => ?_⟩
    have ht := tally_eraseIdx (f := Producer.share) hi
    have hc : s.inFlight = s.load := hc.inFlight ho
    simp only [load, record, Producer.share] at hc ht ⊢
    omega
  case owner hm => exact hm.counted hs hc
  case tellWorker hw hp hi ht =>
    have hb := ht.busy
    have hl := ht.share
    exact (hc.roused hw hp).setWorker (.refl _) hi (by omega) fun _ => by omega
  case tellProducer hw hp hi ht =>
    have hl := ht.share
    exact (hc.roused hw hp).setProducer (.refl _) hi rfl (by omega)
  case tellOwner hw hp ht =>
    exact (hc.roused hw hp).setOwner (ht.ending?_eq ▸ id)
  case finish v hi =>
    have h : (s.setWorker _ (.finished v)).Counted :=
      hc.setWorker (.refl _) hi rfl fun _ => rfl
    exact h.record _
  case spawnFails => exact .of_ending hc.active (Option.some_ne_none _)

end Inference
