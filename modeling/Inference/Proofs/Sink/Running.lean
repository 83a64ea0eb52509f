import Inference.Proofs.Sink.Counters

/-!
The runs in which the processor asks for more after each item and workers can be made. There a sink
that has workers keeps them: until a destruction begins its flag stays up, its queue stays open, and
no worker is on its way out.
-/

namespace Inference

variable {α : Type}

-- The processor wants more after each item, and workers can be made.
def Sink.Action.Smooth : Action α → Prop
  | finish _ v => v = .more
  | spawnFails => False
  | _ => True

-- A worker that goes on as long as it is let.
def Worker.Goes : Worker α → Prop
  | stopping _ | lowering | exited => False
  | finished v => v = .more
  | releasing again => again
  | _ => True

namespace Owner

-- Whether a start has raised the flag, and opened the queue.
def Raised : Owner α → Prop
  | reopening | spawning _ => True
  | _ => False

def Opened : Owner α → Prop
  | spawning _ => True
  | _ => False

end Owner

namespace Worker

variable {s s' : Sink α} {w w' : Worker α}

theorem Moves.goes (h : w.Moves s s' w') (hw : w.Goes) (hk : s.keep) (he : s.queue.ended = false) :
    w'.resumed.Goes ∧ s'.keep ∧ s'.queue.ended = false := by
  cases h
  case quit h | drop h => simp [hk] at h
  case miss h => simp [he] at h
  case done v => exact ⟨hw ▸ rfl, hk, he⟩
  case release again => exact ⟨by cases hw; trivial, hk, he⟩
  case close | lower => exact hw.elim
  all_goals exact ⟨trivial, hk, he⟩

theorem Tells.goes (h : w.Tells w') (hw : w.Goes) : w'.resumed.Goes := by
  cases h
  case pop owed x =>
    rw [Caller.owing]
    split <;> trivial
  case close => exact hw.elim

theorem Goes.wake (hw : w.Goes) (c : Cond) : (w.wake c).Goes := by
  cases w <;> exact hw

end Worker

namespace Producer

variable {s s' : Sink α} {p p' : Producer α}

theorem Moves.keep (h : p.Moves s s' p') : s'.keep = s.keep := by
  cases h <;> rfl

theorem Moves.ended (h : p.Moves s s' p') : s'.queue.ended = s.queue.ended := by
  cases h <;> rfl

end Producer

namespace Sink

variable {s s' : Sink α} {i : ℕ} {w w' : Worker α} {p p' : Producer α}

structure Running (s : Sink α) : Prop where
  keep     : s.workers ≠ [] ∨ s.owner.Raised → s.keep
  opened   : s.workers ≠ [] ∨ s.owner.Opened → s.queue.ended = false
  goes     : ∀ w ∈ s.workers, w.Goes
  vacant   : s.owner = .raising ∨ s.owner = .reopening → s.workers = []
  spawning : ∀ n, s.owner = .spawning n → s.workers.length + n = s.threads

namespace Running

theorem roused {c : Cond} {ws : List (Worker α)} (hr : s.Running)
    (hw : Roused (Worker.wake c) s.workers ws) (ps : List (Producer α)) :
    ({ s with workers := ws, producers := ps } : Sink α).Running := by
  have hl : s.workers.length = ws.length := hw.length_eq
  have hn (h : ws ≠ []) : s.workers ≠ [] := fun hs => h (hs ▸ hw).eq_nil
  constructor
  case keep     => exact fun h => hr.keep (h.imp_left hn)
  case opened   => exact fun h => hr.opened (h.imp_left hn)
  case goes     => exact hw.forall_mem (fun _ h => h.wake c) hr.goes
  case vacant   => exact fun h => (hr.vacant h ▸ hw).eq_nil
  case spawning => exact fun n h => hl ▸ hr.spawning n h

theorem setWorker (hr : s.Running) (ha : s.Alike s') (hi : s.workers[i]? = some w)
    (hw : w'.resumed.Goes) (hk : s'.keep) (he : s'.queue.ended = false) :
    (s'.setWorker i w').Running where
  keep     := fun _ => hk
  opened   := fun _ => he
  goes     := forall_mem_set _ (ha.workers ▸ hr.goes) hw
  vacant   := fun h => by
    have := hr.vacant (ha.owner ▸ h)
    simp [this] at hi
  spawning := fun n h => by
    have := hr.spawning n (ha.owner ▸ h)
    simpa [Sink.setWorker, ha.workers, ha.threads] using this

-- The producers and the counters do not matter.
theorem of_eq (hr : s.Running) (hw : s'.workers = s.workers) (ho : s'.owner = s.owner)
    (ht : s'.threads = s.threads) (hk : s'.keep = s.keep)
    (he : s'.queue.ended = s.queue.ended) : s'.Running where
  keep     := by rw [hw, ho, hk]; exact hr.keep
  opened   := by rw [hw, ho, he]; exact hr.opened
  goes     := hw ▸ hr.goes
  vacant   := by rw [hw, ho]; exact hr.vacant
  spawning := by rw [hw, ho, ht]; exact hr.spawning

theorem setProducer (hr : s.Running) (ha : s.Alike s') (hk : s'.keep = s.keep)
    (he : s'.queue.ended = s.queue.ended) (i : ℕ) (p : Producer α) :
    (s'.setProducer i p).Running := by
  obtain ⟨ps, l, h⟩ := s'.setProducer_frame i p
  exact h ▸ hr.of_eq ha.workers ha.owner ha.threads hk he

theorem of_vacant (hw : s.workers = []) (hk : s.owner.Raised → s.keep)
    (he : s.owner.Opened → s.queue.ended = false)
    (hn : ∀ n, s.owner = .spawning n → n = s.threads) : s.Running where
  keep     := fun h => hk (h.resolve_left (· hw))
  opened   := fun h => he (h.resolve_left (· hw))
  goes     := by simp [hw]
  vacant   := fun _ => hw
  spawning := fun n h => by simp [hw, hn n h]

-- Once a start is over the owner does not matter.
theorem of_owner (hr : s.Running) (hw : s'.workers = s.workers) (hk : s'.keep = s.keep)
    (he : s'.queue = s.queue) (ho : s'.owner = .free ∨ s'.owner = .polling ∨ s'.owner = .counting) :
    s'.Running := by
  have ⟨hn, hn', hv, hm⟩ : ¬s'.owner.Raised ∧ ¬s'.owner.Opened ∧
      ¬(s'.owner = .raising ∨ s'.owner = .reopening) ∧ ∀ n, s'.owner ≠ .spawning n := by
    rcases ho with h | h | h <;> simp [h, Owner.Raised, Owner.Opened]
  constructor
  case keep     => exact fun h => hk ▸ hr.keep (.inl <| hw ▸ h.resolve_right hn)
  case opened   => exact fun h => he ▸ hr.opened (.inl <| hw ▸ h.resolve_right hn')
  case goes     => exact hw ▸ hr.goes
  case vacant   => exact fun h => (hv h).elim
  case spawning => exact fun n h => (hm n h).elim

end Running

end Sink

variable {s s' : Sink α}

theorem Owner.Moves.running (h : Owner.Moves s s') (hs : s.Sound)
    (hr : s.owner.ending? = none → s.Running) (ho' : s'.owner.ending? = none) : s'.Running := by
  cases h
  case raise ho =>
    have hr := hr (ho ▸ rfl)
    exact .of_vacant (hr.vacant (.inl ho)) (fun _ => rfl) False.elim
      (by simp [Sink.setOwner, resumed])
  case reopen ho =>
    have hr := hr (ho ▸ rfl)
    have hk := hr.keep (.inr <| ho ▸ trivial)
    exact .of_vacant (hr.vacant (.inr ho)) (fun _ => hk) (fun _ => rfl) fun n h => by cases h; rfl
  case spawned ho => exact (hr (ho ▸ rfl)).of_owner rfl rfl rfl (.inl rfl)
  case spawn n ho =>
    have hr := hr (ho ▸ rfl)
    have hk := hr.keep (.inr <| ho ▸ trivial)
    have he := hr.opened (.inr <| ho ▸ trivial)
    have ht : (Worker.testing : Worker α).Goes := trivial
    have hw := List.forall_mem_append.mpr ⟨hr.goes, List.forall_mem_singleton.mpr ht⟩
    refine ⟨fun _ => hk, fun _ => he, hw, by simp [Sink.setOwner, resumed], fun m hm => ?_⟩
    cases hm
    have := hr.spawning (n + 1) ho
    simp only [Sink.setOwner, List.length_append, List.length_singleton]
    omega
  case poll ho _  => exact (hr (ho ▸ rfl)).of_owner rfl rfl rfl (.inr <| .inr rfl)
  case await ho _ => exact (hr (ho ▸ rfl)).of_owner rfl rfl rfl (.inr <| .inl rfl)
  case reset r ho =>
    refine .of_vacant (hs.joined r ho) False.elim False.elim ?_
    simp [Sink.finishCall, Sink.record]
  all_goals exact (Option.some_ne_none _ ho').elim

theorem Sink.Step.running {a : Action α} (h : s.Step a s') (ha : a.Smooth) (hs : s.Sound)
    (hr : s.owner.ending? = none → s.Running) (ho' : s'.owner.ending? = none) : s'.Running := by
  cases h
  case push => exact (hr ho').of_eq rfl rfl rfl rfl rfl
  case start ho hp hw =>
    exact .of_vacant hw False.elim False.elim (by simp [setOwner, Owner.resumed])
  case restart ho _ _ => exact (hr (ho ▸ rfl)).of_owner rfl rfl rfl (.inl rfl)
  case drain ho _     => exact (hr (ho ▸ rfl)).of_owner rfl rfl rfl (.inr <| .inl rfl)
  case destroy        => exact (Option.some_ne_none _ ho').elim
  case worker hi hm =>
    have hr := hr (hm.alike.owner ▸ ho')
    have hw := List.mem_of_getElem? hi
    have hn := List.ne_nil_of_mem hw
    obtain ⟨hw, hk, he⟩ := hm.goes (hr.goes _ hw) (hr.keep (.inl hn)) (hr.opened (.inl hn))
    exact hr.setWorker hm.alike hi hw hk he
  case producer hi hm =>
    have hr := hr (hs.free hi ▸ rfl)
    exact hr.setProducer hm.alike hm.keep hm.ended _ _
  case leave => exact (hr ho').of_eq rfl rfl rfl rfl rfl
  case owner hm => exact hm.running hs hr ho'
  case tellWorker ps _ _ hw hp hi ht =>
    have hr := (hr ho').roused hw ps
    have hw := List.mem_of_getElem? hi
    have hn := List.ne_nil_of_mem hw
    exact hr.setWorker (.refl _) hi (ht.goes (hr.goes _ hw)) (hr.keep (.inl hn))
      (hr.opened (.inl hn))
  case tellProducer i _ _ ps p p' hw hp hi ht =>
    have hs := hs.roused hw hp
    have hr := (hr (hs.free hi ▸ rfl)).roused hw ps
    exact hr.setProducer (.refl _) rfl rfl _ _
  case tellOwner ht =>
    rw [Sink.setOwner, Owner.ending?_resumed, ht.ending?_eq] at ho'
    exact (ht.ending ho').elim
  case finish x v hi =>
    have hr := hr ho'
    have hn := List.ne_nil_of_mem <| List.mem_of_getElem? hi
    have h : (s.setWorker _ (.finished v)).Running :=
      hr.setWorker (.refl _) hi ha (hr.keep (.inl hn)) (hr.opened (.inl hn))
    exact h.of_eq rfl rfl rfl rfl rfl
  case spawnFails => exact ha.elim

end Inference
