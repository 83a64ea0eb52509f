import Inference.Proofs.Sink.Progress

/-!
Which starts really start a sink. A start that finds workers does nothing and returns at once, also
if they are on their way out: then the sink goes down although its start has returned. Any other
start leaves a sink that takes in items and works on all of them, as long as the processor wants
more.
-/

namespace Inference

variable {α : Type}

namespace Sink

-- What a sink shall do once it is started: its flag is up and its queue is open, no call is
-- refused, and what is in the queue and who brings more comes to an end by itself.
structure Working (s t : Sink α) : Prop where
  raised  : t.keep
  opened  : t.queue.ended = false
  admits  : Event.refusals t.history = Event.refusals s.history
  ends    : ∃ n, ∀ as : List (Action α), (∀ a ∈ as, a.Inner) → (machine.run t as).isSome →
    as.length ≤ n
  settled : (∀ a : Action α, a.Inner → machine.act t a = none) →
    t.queue.items = [] ∧ t.producers = []

-- The sink works until a destruction begins, if the processor wants more after each item.
def Started (s : Sink α) : Prop :=
  ∀ t, machine.ReachesBy (fun t a => t.owner.ending? = none ∧ a.Smooth) s t →
    t.owner.ending? = none → s.Working t

-- During a start, and when it returns.
structure Starting (s : Sink α) : Prop extends s.Alert where
  running : s.Running
  calm    : s.producers = []
  stage   : s.owner.isStarting ∨ s.owner = .free ∧ s.workers ≠ []

variable {s s' t u : Sink α} {a : Action α} {i : ℕ} {w : Worker α}

theorem Going.started (hg : s.Going) : s.Started := by
  intro t ht ho
  have ⟨hg, hr⟩ := ht.preserves (I := fun t => t.owner.ending? = none →
      t.Going ∧ Event.refusals t.history = Event.refusals s.history) (fun _ => ⟨hg, rfl⟩)
    (fun hi ⟨ho, ha⟩ h ho' =>
      have ⟨hg, hr⟩ := hi ho
      have ⟨hg', hr'⟩ := hg.step h ha ho'
      ⟨hg', hr'.trans hr⟩) ho
  exact ⟨hg.keep, hg.not_ended, hr, ⟨t.toil, fun _ => hg.length_le⟩, hg.settled⟩

theorem Starting.going (hs : s.Starting) (ho : s.owner = .free) : s.Going where
  toAlert := hs.toAlert
  running := hs.running
  staffed := (hs.stage.resolve_left (by simp [ho, Owner.isStarting])).right
  ending  := ho ▸ rfl
  admits  := by simp [hs.calm]

-- A start that goes on ends with as many workers as the sink shall have.
theorem Step.starting (h : s.Step a s') (ha : a.Smooth) (hf : s'.Alert) (hs : s.Starting)
    (ho : s.owner.isStarting) : s'.Starting := by
  have hn : s.owner.ending? = none := by
    cases ho' : s.owner <;> first | rfl | simp [ho', Owner.isStarting] at ho
  have hr := h.running ha hs.toSound (fun _ => hs.running)
  have hfree (h : s.owner = .free) : False := by simp [h, Owner.isStarting] at ho
  have hstays (hp : s'.producers = s.producers) (ho' : s'.owner = s.owner) : s'.Starting :=
    ⟨hf, hr (ho' ▸ hn), hp.trans hs.calm, .inl (ho' ▸ ho)⟩
  cases h
  case worker hm => exact hstays hm.alike.producers hm.alike.owner
  case producer hi _ | leave hi => simp [hs.calm] at hi
  case owner hm =>
    cases hm
    case raise | reopen | spawn => exact ⟨hf, hr rfl, hs.calm, .inl rfl⟩
    case spawned ho' =>
      have hl : 0 < s.workers.length :=
        Nat.lt_of_lt_of_eq hs.threads (hs.toStaffed.spawning 0 ho').symm
      exact ⟨hf, hr rfl, hs.calm, .inr ⟨rfl, List.ne_nil_of_length_pos hl⟩⟩
    all_goals simp [‹s.owner = _›, Owner.isStarting] at ho
  case tellWorker hp _ _    => exact hstays ((hs.calm ▸ hp).eq_nil.trans hs.calm.symm) rfl
  case tellProducer hp hi _ => simp [(hs.calm ▸ hp).eq_nil] at hi
  case tellOwner ht         => exact (ht.ending hn).elim
  case finish               => exact hstays rfl rfl
  case spawnFails           => exact ha.elim
  all_goals exact (hfree ‹_›).elim

-- A start that finds no worker sets out to make some; one that finds workers that go on has nothing
-- to do.
theorem Step.starting_of_start (h : s.Step .start s') (hs : s.Alert) (hf : s'.Alert)
    (hg : ∀ w ∈ s.workers, w.Goes) : s'.Starting := by
  cases h
  case start ho hp hw =>
    exact ⟨hf, .of_vacant hw False.elim False.elim (by simp [setOwner, Owner.resumed]), hp,
      .inl rfl⟩
  case restart ho hp hw =>
    have hn : s.owner.ending? = none := ho ▸ rfl
    have hk : s.keep := by
      by_contra hk
      obtain ⟨w, hm, he⟩ := hs.lowers hn hw (by simpa using hk)
      cases w <;> first | exact hg _ hm | simp [Worker.isExited] at he
    have he : s.queue.ended = false := by
      by_contra he
      obtain ⟨w, hm, hc⟩ := hs.closes hn hw (by simpa using he)
      cases w <;> first | exact hg _ hm | simp [Worker.isClosed] at hc
    refine ⟨hf, ?_, hp, .inr ⟨rfl, hw⟩⟩
    exact ⟨fun _ => hk, fun _ => he, hg, by simp [finishCall, record], by simp [finishCall, record]⟩

-- A worker that is on its way out ends the queue.
def Ends (s : Sink α) : Prop := ∃ t, machine.ReachesBy
  (fun t a => t.owner.ending? = none ∧ a.Smooth) s t ∧ t.owner.ending? = none ∧ t.queue.ended

theorem Ends.of_act (h : machine.act s a = some t) (ho : s.owner.ending? = none) (ha : a.Smooth)
    (ht : t.Ends) : s.Ends :=
  have ⟨u, hu, he⟩ := ht
  ⟨u, .trans (.step .refl ⟨ho, ha⟩ h) hu, he⟩

theorem ends_of_stopping (ho : s.owner.ending? = none)
    (hi : s.workers[i]? = some (.stopping (.entering .close))) : s.Ends := by
  have h : ∃ t, machine.act s (.step (.worker i)) = some t ∧ t.owner = s.owner ∧ t.queue.ended := by
    simp only [machine, act, stepWorker, hi]
    exact ⟨_, rfl, rfl, rfl⟩
  obtain ⟨t, h, ho', he⟩ := h
  exact .of_act h ho trivial ⟨t, .refl, ho' ▸ ho, he⟩

theorem ends_of_releasing (ho : s.owner.ending? = none)
    (hi : s.workers[i]? = some (.releasing false)) : s.Ends := by
  have hlt := (List.getElem?_eq_some_iff.mp hi).1
  have h : machine.act s (.step (.worker i)) =
      some ({ s with inFlight := s.inFlight - 1 }.setWorker i (.stopping (.entering .close))) := by
    simp [machine, act, stepWorker, hi]
  exact .of_act h ho trivial
    (ends_of_stopping (i := i) ho (by simp [setWorker, hlt, Worker.resumed]))

theorem ends_of_finished {v : Verdict} (ho : s.owner.ending? = none)
    (hi : s.workers[i]? = some (.finished v)) (hv : v ≠ .more) : s.Ends := by
  have hlt := (List.getElem?_eq_some_iff.mp hi).1
  have hv : v.goesOn = false := by cases v <;> first | rfl | exact (hv rfl).elim
  have h : machine.act s (.step (.worker i)) =
      some ({ s with active := s.active - 1 }.setWorker i (.releasing false)) := by
    simp [machine, act, stepWorker, hi, hv]
  exact .of_act h ho trivial
    (ends_of_releasing (i := i) ho (by simp [setWorker, hlt, Worker.resumed]))

theorem ends_of_not_goes (hs : s.Alert) (ho : s.owner.ending? = none) (hi : s.workers[i]? = some w)
    (hw : ¬w.Goes) : s.Ends := by
  have hm := List.mem_of_getElem? hi
  have hclosed (hc : w.isClosed) : s.Ends := ⟨s, .refl, ho, hs.closed w hm hc⟩
  cases w
  case finished v => exact ends_of_finished ho hi hw
  case releasing again =>
    cases again
    case true  => exact (hw rfl).elim
    case false => exact ends_of_releasing ho hi
  case stopping k =>
    have hk := hs.workers _ hm
    cases k
    case entering r => exact ends_of_stopping ho (hk ▸ hi)
    case notifying  => exact hclosed rfl
    case returned   => exact (hs.poised.workers _ hm).elim
    case parked | woken =>
      obtain ⟨rfl, hc⟩ := hk
      cases hc
  case lowering | exited => exact hclosed rfl
  all_goals exact (hw trivial).elim

-- A start that has returned has really started the sink, if the processor wants more from then on,
-- exactly if it found no worker on its way out.
theorem started_iff_goes (bound threads : ℕ) {s s' t : Sink α}
    (hr : machine.Reaches (create bound threads) s) (hs : machine.act s .start = some s')
    (ht : machine.ReachesBy (fun t a => t.owner ≠ .free ∧ a.Smooth) s' t) (ho : t.owner = .free) :
    t.Started ↔ ∀ w ∈ s.workers, w.Goes := by
  have ha := reaches_alert hr
  have hst := ha.step_of_act hs
  have ha' := ha.step hs
  constructor
  case mp =>
    intro hstart w hw
    by_contra hn
    -- The start has found the worker, so it has returned at once.
    have hfree : s'.owner = .free ∧ s'.workers = s.workers := by
      cases hst
      case start hw'  => simp [hw'] at hw
      case restart    => exact ⟨rfl, rfl⟩
    obtain rfl := ht.eq_of_forall_not fun _ h => h.left hfree.left
    have ⟨i, hi⟩ := List.mem_iff_getElem?.mp (hfree.right ▸ hw)
    have ⟨u, hu, ho, he⟩ := ends_of_not_goes ha' (ho ▸ rfl) hi hn
    simp [(hstart u hu ho).opened] at he
  case mpr =>
    intro hg
    have hst := hst.starting_of_start ha ha' hg
    have ht := ht.preserves (I := Starting) hst fun hi ⟨ho, ha⟩ h =>
      have hs := hi.step_of_act h
      hs.starting ha (hi.toAlert.step h) hi (hi.stage.resolve_right fun h => ho h.left)
    exact (ht.going ho).started

-- The first start of a sink that has an item in its queue already.
theorem first_start_started :
    let s : Sink ℕ := { create 0 1 with
      queue := ⟨.arrival, none, [5], false⟩
      inFlight := 1
      history := [.accepted 5] }
    let t : Sink ℕ := { s with
      keep := true
      workers := [.testing]
      history := .returned .started :: s.history }
    machine.Reaches (create 0 1) s ∧ machine.act s .start = some (s.setOwner .raising) ∧
      machine.ReachesBy (fun t a => t.owner ≠ .free ∧ a.Smooth) (s.setOwner .raising) t ∧
      t.owner = .free ∧ (∀ w ∈ s.workers, w.Goes) ∧ t.Started := by
  intro s t
  have hr : machine.Reaches (create 0 1) s :=
    .of_run [.push 5, .step (.producer 0), .step (.producer 0), .step (.producer 0),
      .notify (.producer 0) none] (by cbv)
  have ht : machine.ReachesBy (fun t a => t.owner ≠ .free ∧ a.Smooth) (s.setOwner .raising) t := by
    have ha : (Action.step .owner : Action ℕ).Smooth := trivial
    have hstep {r t u : Sink ℕ} (h : machine.ReachesBy (fun t a => t.owner ≠ .free ∧ a.Smooth) r t)
        (ho : t.owner.isStarting) (hu : machine.act t (.step .owner) = some u) :
        machine.ReachesBy (fun t a => t.owner ≠ .free ∧ a.Smooth) r u :=
      .step h ⟨fun hf => by simp [hf, Owner.isStarting] at ho, ha⟩ hu
    exact hstep (hstep (hstep (hstep .refl rfl rfl) rfl rfl) rfl rfl) rfl rfl
  have hw : ∀ w ∈ s.workers, w.Goes := by simp [s, create]
  exact ⟨hr, rfl, ht, rfl, hw, (started_iff_goes 0 1 hr rfl ht rfl).mpr hw⟩

-- The processor has stopped the sink, whose only worker is gone. A start returns and leaves the
-- flag down and the queue ended, and the next call is refused.
theorem stopped_sink_not_started :
    let s : Sink ℕ := { create 0 1 with
      queue := ⟨.arrival, none, [], true⟩
      workers := [.exited]
      history := [.ended 5 .stop, .began 5, .accepted 5, .returned .started] }
    let t : Sink ℕ := { s with history := .returned .started :: s.history }
    machine.Reaches (create 0 1) s ∧ machine.act s .start = some t ∧ t.owner = .free ∧
      t.keep = false ∧ t.queue.ended ∧ ¬t.Started ∧
      machine.run t [.push 6, .step (.producer 0), .step (.producer 0), .step (.producer 0)] =
        some { t with history := .refused 6 :: t.history } := by
  intro s t
  have hr : machine.Reaches (create 0 1) s :=
    .of_run [.start, .step .owner, .step .owner, .step .owner, .step .owner, .push 5,
      .step (.producer 0), .step (.producer 0), .step (.producer 0), .notify (.producer 0) none,
      .step (.worker 0), .step (.worker 0), .notify (.worker 0) none, .step (.worker 0),
      .step (.worker 0), .finish 0 .stop, .step (.worker 0), .step (.worker 0), .step (.worker 0),
      .notify (.worker 0) none, .notify (.worker 0) none, .step (.worker 0)] (by cbv)
  exact ⟨hr, rfl, rfl, rfl, rfl, fun h => Bool.false_ne_true (h t .refl rfl).raised, rfl⟩

end Sink
end Inference
