import Inference.Proofs.Sink.Ledger
import Inference.Proofs.Sink.Running
import Mathlib.Data.List.Count
import Mathlib.Data.List.Perm.Subperm

/-!
A sink drains completely and exactly once. Until a destruction begins, what was taken in since the
last one is what was given to the processor and what is still on its way to it; the owner stops
waiting for a started sink when nothing is on its way any more, and from then on nothing happens to
items.
-/

namespace Inference

variable {α : Type}

namespace Sink

variable {s s' : Sink α} {l : List (Event α)}

-- What has happened since a call of the owner last left the sink with nothing in it.
def sinceDestroy (s : Sink α) : List (Event α) := s.history.takeWhile fun e => !e.ends

theorem sinceDestroy_append (h : s'.history = l ++ s.history) (hl : ∀ e ∈ l, e.ends = false) :
    s'.sinceDestroy = l ++ s.sinceDestroy := by
  rw [sinceDestroy, h, List.takeWhile_append_of_pos (by simpa using hl)]
  rfl

structure Drained (s : Sink α) : Prop where
  given     : (Event.given s.sinceDestroy).Perm (Event.taken s.sinceDestroy)
  completed : (Event.completed s.sinceDestroy).Perm (Event.taken s.sinceDestroy)
  empty     : s.queue.items = []
  idle      : ∀ w ∈ s.workers, w.share = 0

theorem mem_sinceDestroy {e : Event α} (h : s'.history = l ++ s.history)
    (he : e ∈ s'.sinceDestroy) : e ∈ l ∨ e ∈ s.sinceDestroy := by
  rw [sinceDestroy, h, List.takeWhile_append] at he
  split at he
  · exact List.mem_append.mp he
  · exact .inl <| (List.takeWhile_prefix _).subset he

section Balance

variable [DecidableEq α]

-- What was taken in is given to the processor or on its way to it, and what was given is done with
-- or with a worker.
structure Balanced (s : Sink α) (x : α) : Prop where
  taken : (Event.taken s.sinceDestroy).count x + s.paid x =
    (Event.given s.sinceDestroy).count x + s.stock x
  given : (Event.given s.sinceDestroy).count x =
    (Event.completed s.sinceDestroy).count x + s.current x

theorem Posts.balanced {x : α} (h : Posts s s' l) (hn : ¬s.Loses)
    (hs : s'.sinceDestroy = l ++ s.sinceDestroy) (hb : s.Balanced x) : s'.Balanced x := by
  have ⟨lost, ht, hk⟩ := h.taken x
  have hk := hk.resolve_right hn
  have hg := h.given x
  have hb₁ := hb.taken
  have hb₂ := hb.given
  constructor
  · rw [hs, Event.taken_append, Event.given_append, List.count_append, List.count_append]
    omega
  · rw [hs, Event.given_append, Event.completed_append, List.count_append, List.count_append]
    omega

theorem paid_eq_zero (hp : s.producers = []) (x : α) : s.paid x = 0 := by
  simp [paid, hp]

theorem stock_eq_zero (hq : s.queue.items = []) (hw : ∀ w ∈ s.workers, w.share = 0)
    (x : α) : s.stock x = 0 := by
  have : tally (fun w => w.fetched.count x) s.workers = 0 := tally_eq_zero_iff.mpr fun w h => by
    have := w.length_fetched_le_share
    rw [hw w h] at this
    simp [List.eq_nil_of_length_eq_zero (Nat.le_zero.mp this)]
  simp [stock, hq, this]

theorem current_eq_zero (hw : ∀ w ∈ s.workers, w.share = 0) (x : α) :
    s.current x = 0 := tally_eq_zero_iff.mpr fun w h => by
  have := w.length_current_le_share
  rw [hw w h] at this
  simp [List.eq_nil_of_length_eq_zero (Nat.le_zero.mp this)]

-- With nothing in flight, everything that was taken in is done with.
theorem Drained.of_load (hb : ∀ x, s.Balanced x) (hl : s.load = 0) (hp : s.producers = []) :
    s.Drained := by
  rw [load] at hl
  have hq : s.queue.items = [] := by
    rw [Queue.size] at hl
    exact List.eq_nil_of_length_eq_zero (by omega)
  have hw : ∀ w ∈ s.workers, w.share = 0 := tally_eq_zero_iff.mp (by omega)
  refine ⟨List.perm_iff_count.mpr fun x => ?_, List.perm_iff_count.mpr fun x => ?_, hq, hw⟩
  · have ht := (hb x).taken
    rw [paid_eq_zero hp, stock_eq_zero hq hw] at ht
    omega
  · have ht := (hb x).taken
    have hg := (hb x).given
    rw [paid_eq_zero hp, stock_eq_zero hq hw] at ht
    rw [current_eq_zero hw] at hg
    omega

end Balance

-- How a step changes what the owner is about to do.
inductive Phase (s : Sink α) : Sink α → Prop
  | stays {t : Sink α} : t.owner.ending? = s.owner.ending? →
      (t.owner.ending? = none → s.workers ≠ [] → t.workers ≠ []) → Phase s t
  | breaks {t : Sink α} (r) : r = .destroyed ∨ r = .startFailed → s.owner.ending? = none →
      t.owner.ending? = some r → Phase s t
  | drains : (s.owner = .polling ∧ s.keep = false) ∨ (s.owner = .counting ∧ s.inFlight = 0) →
      Phase s (s.setOwner (.lowering .drained))
  | returns (r) : s.owner = .resetting r → Phase s ({ s with inFlight := 0 }.finishCall r)

end Sink

variable {s s' : Sink α}

theorem Owner.Moves.phase (h : Owner.Moves s s') : s.Phase s' := by
  cases h
  case give ho hk   => exact .drains (.inl ⟨ho, hk⟩)
  case settle ho hf => exact .drains (.inr ⟨ho, hf⟩)
  case reset r ho   => exact .returns r ho
  case join ho _    => exact .stays (ho ▸ rfl) nofun
  case spawn ho     => exact .stays (ho ▸ rfl) fun _ _ => by simp [Sink.setOwner]
  all_goals exact .stays (‹s.owner = _› ▸ rfl) fun _ => id

theorem Sink.Step.phase {a : Action α} (h : s.Step a s') : s.Phase s' := by
  cases h
  case start ho _ _   => exact .stays (ho ▸ rfl) fun _ => id
  case restart ho _ _ => exact .stays (ho ▸ rfl) fun _ => id
  case drain ho _     => exact .stays (ho ▸ rfl) fun _ => id
  case destroy ho _   => exact .breaks .destroyed (.inl rfl) (ho ▸ rfl) rfl
  case worker hi hm =>
    exact .stays (hm.alike.owner ▸ rfl) fun _ h => by simpa [setWorker, hm.alike.workers] using h
  case producer i p s₁ p' hi hm =>
    obtain ⟨ps, l, h⟩ := s₁.setProducer_frame i p'
    rw [h]
    exact .stays (hm.alike.owner ▸ rfl) fun _ h => hm.alike.workers ▸ h
  case owner hm => exact hm.phase
  case tellWorker hw _ _ _ =>
    refine .stays rfl fun _ h => ?_
    simpa [setWorker] using hw.ne_nil h
  case tellProducer i _ _ ws ps _ p' hw _ _ _ =>
    obtain ⟨ps, l, h⟩ := Sink.setProducer_frame { s with workers := ws, producers := ps } i p'
    rw [h]
    exact .stays rfl fun _ => hw.ne_nil
  case tellOwner hw _ ht =>
    refine .stays ?_ fun _ => hw.ne_nil
    rw [setOwner, Owner.ending?_resumed, ht.ending?_eq]
  case finish v hi => exact .stays rfl fun _ h => by simpa [setWorker, record] using h
  case spawnFails n ho => exact .breaks .startFailed (.inr rfl) (ho ▸ rfl) rfl
  all_goals exact .stays rfl fun _ => id

namespace Worker

variable {w w' : Worker α}

-- A worker without an item takes none out of an empty queue.
theorem Moves.idle (h : w.Moves s s' w') (hw : w.share = 0) (hq : s.queue.items = []) :
    w'.share = 0 ∧ s'.history = s.history := by
  cases h
  case take hp => simp [hq] at hp
  case release => simp [share] at hw
  case done    => simp [share] at hw
  case allow   => simp [share] at hw
  case drop    => simp [share] at hw
  case begin   => simp [share] at hw
  all_goals exact ⟨rfl, rfl⟩

end Worker

namespace Sink

theorem Running.not_loses (hr : s.Running) (ho : s.owner.ending? = none) : ¬s.Loses := by
  rintro (h | ⟨hk, hw⟩)
  · exact h ho
  · simp [hr.keep (.inl hw)] at hk

theorem Drained.of_eq (hd : s.Drained) (hl : s'.history = s.history) (hq : s'.queue.items = [])
    (hw : ∀ w ∈ s'.workers, w.share = 0) : s'.Drained where
  given     := by rw [sinceDestroy, hl]; exact hd.given
  completed := by rw [sinceDestroy, hl]; exact hd.completed
  empty     := hq
  idle      := hw

theorem Step.drained {a : Action α} (h : s.Step a s') (hs : s.Sound) (ho : s.owner.ending? ≠ none)
    (ho' : s'.owner.ending? ≠ none) (hd : s.Drained) : s'.Drained := by
  have hf (h : s.owner = .free) : False := ho (h ▸ rfl)
  have hn {c : Cond} (w : Worker α) (hw : w.share = 0) : (w.wake c).share = 0 := by
    rw [Worker.share_wake, hw]
  cases h
  case worker hi hm =>
    have ⟨hw, hl⟩ := hm.idle (hd.idle _ <| List.mem_of_getElem? hi) hd.empty
    refine hd.of_eq hl (hm.items_eq_nil hd.empty) (forall_mem_set _ ?_ ?_)
    · exact hm.alike.workers ▸ hd.idle
    · rw [Worker.share_resumed, hw]
  case owner hm =>
    cases hm
    case lower => exact hd.of_eq rfl hd.empty hd.idle
    case close => exact hd.of_eq rfl hd.empty hd.idle
    case clear => exact hd.of_eq rfl rfl hd.idle
    case join  => exact hd.of_eq rfl hd.empty (by simp [setOwner])
    case reset => exact (ho' rfl).elim
    all_goals exact (ho (‹s.owner = _› ▸ rfl)).elim
  case tellWorker hw _ hi ht =>
    have hd' := hw.forall_mem hn hd.idle
    have hi := hd' _ <| List.mem_of_getElem? hi
    exact hd.of_eq rfl hd.empty (forall_mem_set _ hd' (by rw [Worker.share_resumed, ht.share, hi]))
  case tellOwner hw _ _    => exact hd.of_eq rfl hd.empty (hw.forall_mem hn hd.idle)
  case producer hi _       => exact (hf <| hs.free hi).elim
  case leave hi            => exact (hf <| hs.free hi).elim
  case tellProducer hw hp hi _ => exact (hf <| (hs.roused hw hp).free hi).elim
  case finish v hi =>
    have := hd.idle _ <| List.mem_of_getElem? hi
    simp [Worker.share] at this
  case spawnFails ho'' => exact (ho (ho'' ▸ rfl)).elim
  all_goals exact (hf ‹_›).elim

theorem Step.threads {a : Action α} (h : s.Step a s') : s'.threads = s.threads := by
  cases h
  case worker hm => exact hm.alike.threads
  case producer i p s₁ p' _ hm =>
    obtain ⟨ps, l, h⟩ := s₁.setProducer_frame i p'
    exact h ▸ hm.alike.threads
  case owner hm => cases hm <;> rfl
  case tellProducer i _ _ ws ps _ p' _ _ _ _ =>
    obtain ⟨ps, l, h⟩ := Sink.setProducer_frame { s with workers := ws, producers := ps } i p'
    rw [h]
  all_goals rfl

theorem of_returns_drained (hs : s.Sound) (h : machine.act s (.step .owner) = some s')
    (hr : s'.history = .returned .drained :: s.history) :
    s.owner = .resetting .drained ∧
      s' = ({ s with inFlight := 0 } : Sink α).finishCall .drained := by
  have h : s.Step (.step .owner) s' := step_of_act hs.toServing h
  cases h
  case owner hm =>
    cases hm
    case reset r ho =>
      cases (List.cons.inj hr).left
      exact ⟨ho, rfl⟩
    case spawned => simp [finishCall, record] at hr
    all_goals simp [setOwner] at hr

-- What holds of a sink in every run in which the processor asks for more after each item and
-- workers can be made.
structure Steady [DecidableEq α] (s : Sink α) : Prop where
  threads  : 0 < s.threads
  ending   : s.owner.ending? ≠ some .started
  running  : s.owner.ending? = none → s.Running
  balanced : s.owner.ending? = none → ∀ x, s.Balanced x
  started  : s.owner.ending? = none → .returned .started ∈ s.sinceDestroy → s.workers ≠ []
  drained  : s.owner.ending? = some .drained → .returned .started ∈ s.sinceDestroy → s.Drained

variable [DecidableEq α]

-- Until a destruction begins, nothing is forgotten of what has happened since the last one.
theorem Posts.sinceDestroy (h : Posts s s' l) (ho : s.owner.ending? = none) :
    s'.sinceDestroy = l ++ s.sinceDestroy := by
  refine sinceDestroy_append h.history fun e he => ?_
  cases e
  case returned r =>
    cases h.returned r he
    case inl hr => simp [Event.ends, hr.left]
    case inr hr => simp [hr, Owner.ending?] at ho
  all_goals rfl

-- A start has made all workers when it returns, and there is one at least.
theorem Posts.workers_ne_nil (h : Posts s s' l) (hd : s.Steady) (ho : s.owner.ending? = none)
    (hm : .returned .started ∈ s'.sinceDestroy) : s.workers ≠ [] := by
  cases mem_sinceDestroy h.history hm
  case inl hm =>
    rcases h.returned _ hm with ⟨_, _, hs | hw⟩ | hs
    · have hn := (hd.running ho).spawning 0 hs
      have ht := hd.threads
      exact List.ne_nil_of_length_pos (by omega)
    · exact hw
    · simp [hs, Owner.ending?] at ho
  case inr hm => exact hd.started ho hm

-- No start returns during a destruction.
theorem Posts.started_mem (h : Posts s s' l) (hd : s.Steady) (ho : s.owner.ending? ≠ none)
    (hm : .returned .started ∈ s'.sinceDestroy) : .returned .started ∈ s.sinceDestroy := by
  refine (mem_sinceDestroy h.history hm).resolve_left fun hm => ?_
  cases h.returned _ hm
  case inl hn => exact ho hn.right.left
  case inr hn => exact hd.ending (hn ▸ rfl)

-- The flag is up as long as there are workers, so it is the count that ends the wait.
theorem Steady.drained_of_drains (hd : s.Steady) (hs : s.Sound) (hc : s.Counted)
    (ho : (s.owner = .polling ∧ s.keep = false) ∨ (s.owner = .counting ∧ s.inFlight = 0))
    (hm : .returned .started ∈ s.sinceDestroy) : s.Drained := by
  have hn : s.owner.ending? = none := by
    rcases ho with ⟨ho, _⟩ | ⟨ho, _⟩ <;> exact ho ▸ rfl
  have hw := hd.started hn hm
  rcases ho with ⟨_, hk⟩ | ⟨ho, hf⟩
  · simp [(hd.running hn).keep (.inl hw)] at hk
  · exact .of_load (hd.balanced hn) (hc.inFlight hn ▸ hf) (hs.busy ho (by simp))

-- What a destruction leaves behind when it returns.
theorem Steady.returns (hd : s.Steady) (hs : s.Sound) {r : Return} (ho : s.owner = .resetting r) :
    (({ s with inFlight := 0 } : Sink α).finishCall r).sinceDestroy = [] ∧
    ∀ x, (({ s with inFlight := 0 } : Sink α).finishCall r).Balanced x := by
  have hr : r ≠ .started := fun h => hd.ending (ho ▸ h ▸ rfl)
  have hl : (({ s with inFlight := 0 } : Sink α).finishCall r).sinceDestroy = [] := by
    simp [sinceDestroy, finishCall, record, Event.ends, hr]
  have hw := hs.joined r ho
  have hq := hs.cleared (ho ▸ trivial)
  have hp := hs.busy ho (by simp)
  refine ⟨hl, fun x => ?_⟩
  constructor <;> rw [hl]
  · simp [paid, stock, finishCall, record, hp, hq, hw, Event.taken, Event.given]
  · simp [current, finishCall, record, hw, Event.given, Event.completed]

theorem Step.steady {a : Action α} (h : s.Step a s') (ha : a.Smooth) (hs : s.Sound) (hc : s.Counted)
    (hd : s.Steady) : s'.Steady := by
  have ht := h.threads ▸ hd.threads
  have hr := h.running ha hs hd.running
  obtain ⟨l, hp⟩ := h.posts
  cases h.phase
  case stays ho hw =>
    constructor
    case threads => exact ht
    case ending  => exact ho ▸ hd.ending
    case running => exact hr
    case balanced =>
      intro ho' x
      have ho := ho ▸ ho'
      exact hp.balanced ((hd.running ho).not_loses ho) (hp.sinceDestroy ho) (hd.balanced ho x)
    case started => exact fun ho' hm => hw ho' <| hp.workers_ne_nil hd (ho ▸ ho') hm
    case drained =>
      intro ho' hm
      have ho := ho ▸ ho'
      have hn : s.owner.ending? ≠ none := by simp [ho]
      exact h.drained hs hn (by simp [ho']) (hd.drained ho (hp.started_mem hd hn hm))
  case breaks r hr' ho ho' =>
    refine ⟨ht, ?_, hr, ?_, ?_, ?_⟩ <;> rw [ho'] <;> rcases hr' with rfl | rfl <;> simp
  case drains ho =>
    have ho' : (s.setOwner (.lowering .drained)).owner.ending? = some .drained := rfl
    refine ⟨ht, by simp [ho'], hr, by simp [ho'], by simp [ho'], fun _ hm => ?_⟩
    have hd := hd.drained_of_drains hs hc ho hm
    exact hd.of_eq rfl hd.empty hd.idle
  case returns r ho =>
    have ho' : (({ s with inFlight := 0 } : Sink α).finishCall r).owner.ending? = none := rfl
    have hl := hd.returns hs ho
    exact ⟨ht, by simp [ho'], hr, fun _ => hl.right, fun _ hm => by simp [hl.left] at hm,
      by simp [ho']⟩

-- Nothing is given to the processor that was not taken in before.
def Recorded (s : Sink α) : Prop := ∀ x,
  (Event.given s.history).count x + s.stock x ≤ (Event.taken s.history).count x + s.paid x

theorem Step.recorded {a : Action α} (h : s.Step a s') (hr : s.Recorded) : s'.Recorded := by
  intro x
  obtain ⟨l, hp⟩ := h.posts
  have ⟨lost, ht, _⟩ := hp.taken x
  have hr := hr x
  rw [hp.history, Event.given_append, Event.taken_append, List.count_append, List.count_append]
  omega

theorem stock_create (bound threads : ℕ) (x : α) : (create bound threads : Sink α).stock x = 0 := by
  refine stock_eq_zero ?_ (by simp [create]) x
  rw [create]
  split <;> rfl

theorem steady_create (bound threads : ℕ) : (create bound threads : Sink α).Steady where
  threads  := Nat.le_max_right ..
  ending   := nofun
  running  := fun _ => .of_vacant rfl False.elim False.elim (by simp [create])
  balanced := fun _ x => ⟨by rw [stock_create]; rfl, rfl⟩
  started  := fun _ h => by simp [sinceDestroy, create] at h
  drained  := nofun

theorem reaches_steady {bound threads : ℕ}
    (h : machine.ReachesBy (fun _ a => a.Smooth) (create bound threads : Sink α) s) :
    s.Sound ∧ s.Counted ∧ s.Steady ∧ s.Recorded :=
  have hc : (create bound threads : Sink α).Counted := by
    refine ⟨rfl, fun _ => ?_⟩
    rw [create]
    split <;> rfl
  have hr : (create bound threads : Sink α).Recorded := fun x => by
    rw [stock_create]
    exact Nat.zero_le _
  h.preserves (I := fun s : Sink α => s.Sound ∧ s.Counted ∧ s.Steady ∧ s.Recorded)
    ⟨.of_free nofun nofun rfl, hc, steady_create .., hr⟩ fun ⟨hs, hc, hd, hr⟩ ha h =>
      have h := step_of_act hs.toServing h
      ⟨h.sound hs, h.counted hs hc, h.steady ha hs hc hd, h.recorded hr⟩

-- Whenever the waiting for a started sink returns, the items that the processor was given since the
-- last destruction are those that were taken in since then, each as often as it was taken in, and
-- the work on each of them is done; nothing was ever given to it for a call that was refused.
theorem drains_exactly_once {α : Type} (bound threads : ℕ) {s s' : Sink α}
    (hr : machine.ReachesBy (fun _ a => a.Smooth) (create bound threads) s)
    (h : machine.act s (.step .owner) = some s') (hd : s'.history = .returned .drained :: s.history)
    (hi : .returned .started ∈ s.sinceDestroy) :
    (Event.given s.sinceDestroy).Perm (Event.taken s.sinceDestroy) ∧
    (Event.completed s.sinceDestroy).Perm (Event.taken s.sinceDestroy) ∧
    (Event.given s'.history).Subperm (Event.taken s'.history) ∧
    s'.queue.size = 0 ∧ s'.active = 0 := by
  classical
  obtain ⟨hs, hc, hd', hr⟩ := reaches_steady hr
  obtain ⟨ho, rfl⟩ := of_returns_drained hs h hd
  have hq := hd'.drained (ho ▸ rfl) hi
  refine ⟨hq.given, hq.completed, ?_, ?_, ?_⟩
  · refine List.subperm_ext_iff.mpr fun x _ => ?_
    have hr := hr x
    rw [paid_eq_zero (hs.busy ho (by simp))] at hr
    exact Nat.le_trans (Nat.le_add_right ..) hr
  · simp [finishCall, record, Queue.size, hq.empty]
  · have := hc.active
    rwa [hs.joined _ ho] at this

-- One item, pushed before the start.
theorem queued_item_drained :
    let s : Sink ℕ := { create 0 1 with
      queue := ⟨.arrival, none, [], true⟩
      owner := .resetting .drained
      history := [.returned .started, .ended 5 .more, .began 5, .accepted 5] }
    let s' : Sink ℕ := { s with
      owner := .free
      history := .returned .drained :: s.history }
    machine.ReachesBy (fun _ a => a.Smooth) (create 0 1) s ∧
      machine.act s (.step .owner) = some s' ∧
      .returned .started ∈ s.sinceDestroy ∧
      (Event.given s.sinceDestroy).Perm (Event.taken s.sinceDestroy) ∧
      (Event.completed s.sinceDestroy).Perm (Event.taken s.sinceDestroy) ∧
      (Event.given s'.history).Subperm (Event.taken s'.history) ∧
      s'.queue.size = 0 ∧ s'.active = 0 := by
  intro s s'
  have hr : machine.ReachesBy (fun _ a => a.Smooth) (create 0 1) s := by
    refine .of_run [.push 5, .step (.producer 0), .step (.producer 0), .step (.producer 0),
      .notify (.producer 0) none, .start, .step .owner, .step .owner, .step .owner,
      .step (.worker 0), .step (.worker 0), .notify (.worker 0) none, .step (.worker 0),
      .step (.worker 0), .finish 0 .more, .step (.worker 0), .step (.worker 0), .step (.worker 0),
      .step (.worker 0), .step .owner, .drain, .step .owner, .step .owner, .step .owner,
      .step .owner, .notify .owner none, .step (.worker 0), .step (.worker 0),
      .notify (.worker 0) none, .notify (.worker 0) none, .step (.worker 0), .notify .owner none,
      .step .owner, .notify .owner none, .step .owner] (by cbv) ?_
    simp [Action.Smooth]
  have hs : .returned .started ∈ s.sinceDestroy := .head _
  exact ⟨hr, rfl, hs, drains_exactly_once 0 1 hr rfl rfl hs⟩

end Sink

end Inference
