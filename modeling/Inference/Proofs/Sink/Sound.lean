import Inference.Proofs.Sink.Steps

/-!
Where the parties of a sink can stand. The owner has the sink for itself while it is busy, nothing
is in the queue after it has cleared it, and no worker is left after it has joined them.
-/

namespace Inference

variable {α : Type}

def Answer.accepts : Answer α → Bool
  | accepted b => b
  | _ => false

-- Whether a destruction has cleared the queue.
def Owner.Cleared : Owner α → Prop
  | clearing _ k => k ≠ .entering .clear
  | joining _ | resetting _ => True
  | _ => False

-- Nobody stands elsewhere in the other sink.
structure Sink.Alike (s s₁ : Sink α) : Prop where
  workers   : s₁.workers = s.workers
  producers : s₁.producers = s.producers
  owner     : s₁.owner = s.owner
  threads   : s₁.threads = s.threads

theorem Sink.Alike.refl (s : Sink α) : s.Alike s := ⟨rfl, rfl, rfl, rfl⟩

namespace Worker

variable {w w' : Worker α} {s s' : Sink α}

-- A worker whose call to the queue has returned goes on with what it was given.
inductive Resumes : Worker α → Worker α → Prop
  | same (w : Worker α) : Resumes w w
  | handed (x) : Resumes (popping (.returned (.item (some x)))) (holding x)
  | sent (a) : a.cargo = [] → Resumes (popping (.returned a)) (stopping (.entering .close))
  | closed (a) : Resumes (stopping (.returned a)) lowering

theorem resumes (w : Worker α) : w.Resumes w.resumed := by
  cases w
  case popping k =>
    cases k
    case returned a =>
      cases a
      case item x =>
        cases x
        case none   => exact .sent _ rfl
        case some x => exact .handed x
      all_goals exact .sent _ rfl
    all_goals exact .same _
  case stopping k => cases k <;> first | exact .same _ | exact .closed _
  all_goals exact .same _

theorem Serves.resumed (hw : w.Serves) : w.resumed.Serves := by
  have h := w.resumes
  generalize w.resumed = w' at h ⊢
  cases h
  case same => exact hw
  all_goals trivial

theorem Serves.wake (c : Cond) (hw : w.Serves) : (w.wake c).Serves := by
  cases w
  case popping | stopping => exact Caller.Serves.wake hw
  all_goals trivial

theorem Moves.serves (h : w.Moves s s' w') : w'.Serves := by
  cases h
  case release again => cases again <;> trivial
  all_goals trivial

theorem Moves.alike (h : w.Moves s s' w') : s.Alike s' := by
  cases h <;> exact ⟨rfl, rfl, rfl, rfl⟩

theorem Moves.items_eq_nil (h : w.Moves s s' w') (hq : s.queue.items = []) :
    s'.queue.items = [] := by
  cases h
  case take hp => simp [hq] at hp
  all_goals exact hq

theorem Tells.serves (h : w.Tells w') (hw : w.Serves) : w'.Serves := by
  cases h
  case pop w owed x =>
    have hk : (Caller.notifying (w :: owed) (.item (some x))).Serves .pop := hw
    exact hk.notify? rfl
  case close w owed =>
    have hk : (Caller.notifying (w :: owed) .done : Caller α).Serves .close := hw
    exact hk.notify? rfl

end Worker

namespace Producer

variable {p p' : Producer α} {s s' : Sink α}

theorem Serves.wake (c : Cond) (hp : p.Serves) : (p.wake c).Serves := by
  cases p
  case pushing => exact Caller.Serves.wake hp
  all_goals trivial

theorem Moves.serves (h : p.Moves s s' p') : p'.Serves := by
  cases h <;> trivial

theorem Moves.alike (h : p.Moves s s' p') : s.Alike s' := by
  cases h <;> exact ⟨rfl, rfl, rfl, rfl⟩

theorem Tells.serves (h : p.Tells p') (hp : p.Serves) : p'.Serves := by
  cases h
  case put x w owed =>
    have hk : (Caller.notifying (w :: owed) (.accepted true)).Serves (.push x) := hp
    exact hk.notify? rfl

end Producer

namespace Owner

variable {o o' : Owner α}

theorem Serves.resumed (ho : o.Serves) : o.resumed.Serves := by
  cases o
  case closing k | clearing k => cases k <;> first | exact ho | trivial
  all_goals trivial

theorem Tells.serves (h : o.Tells o') (ho : o.Serves) : o'.Serves := by
  cases h
  case close w owed =>
    have hk : (Caller.notifying (w :: owed) .done : Caller α).Serves .close := ho
    exact hk.notify? rfl
  case clear w owed =>
    have hk : (Caller.notifying (w :: owed) .done : Caller α).Serves .clear := ho
    exact hk.notify? rfl

theorem Cleared.of_resumed (h : o.resumed.Cleared) : o.Cleared := by
  cases o
  case closing r k => cases k <;> first | exact h | exact (h rfl).elim
  case clearing r k => cases k <;> first | exact h | simp [Cleared]
  all_goals exact h

end Owner

namespace Sink

variable {s s₁ s' : Sink α} {i : ℕ} {c : Cond} {w w' : Worker α} {p p' : Producer α}
  {o o' : Owner α}

-- A producer whose call to the queue has returned is gone, or it is about to give up its share.
inductive Places (s : Sink α) (i : ℕ) : Producer α → Sink α → Prop
  | taken (x) : Places s i (.pushing x (.returned (.accepted true)))
      ({ s with producers := s.producers.eraseIdx i }.record (.accepted x))
  | bounced (x a) : a.accepts = false → Places s i (.pushing x (.returned a))
      { s with producers := s.producers.set i (.refusing x) }
  | kept (p : Producer α) : Places s i p { s with producers := s.producers.set i p }

theorem places (s : Sink α) (i : ℕ) (p : Producer α) : s.Places i p (s.setProducer i p) := by
  cases p
  case pushing x k =>
    cases k
    case returned a =>
      cases a
      case accepted b =>
        cases b
        case true  => exact .taken x
        case false => exact .bounced x _ rfl
      all_goals exact .bounced x _ rfl
    all_goals exact .kept _
  all_goals exact .kept _

theorem setProducer_frame (s : Sink α) (i : ℕ) (p : Producer α) : ∃ ps l,
    s.setProducer i p = { s with producers := ps, history := l } := by
  have h := s.places i p
  generalize s.setProducer i p = s' at h
  cases h <;> exact ⟨_, _, rfl⟩

section

variable (s : Sink α) (i : ℕ) (p : Producer α)

@[simp]
theorem setProducer_queue : (s.setProducer i p).queue = s.queue := by
  obtain ⟨_, _, h⟩ := s.setProducer_frame i p
  rw [h]

@[simp]
theorem setProducer_workers : (s.setProducer i p).workers = s.workers := by
  obtain ⟨_, _, h⟩ := s.setProducer_frame i p
  rw [h]

@[simp]
theorem setProducer_owner : (s.setProducer i p).owner = s.owner := by
  obtain ⟨_, _, h⟩ := s.setProducer_frame i p
  rw [h]

@[simp]
theorem setProducer_keep : (s.setProducer i p).keep = s.keep := by
  obtain ⟨_, _, h⟩ := s.setProducer_frame i p
  rw [h]

@[simp]
theorem setProducer_threads : (s.setProducer i p).threads = s.threads := by
  obtain ⟨_, _, h⟩ := s.setProducer_frame i p
  rw [h]

end

structure Sound (s : Sink α) : Prop extends Serving s where
  alone   : s.producers = [] ∨ s.owner = .free
  cleared : s.owner.Cleared → s.queue.items = []
  joined  : ∀ r, s.owner = .resetting r → s.workers = []

namespace Sound

theorem roused {ws : List (Worker α)} {ps : List (Producer α)} (hs : s.Sound)
    (hw : Roused (Worker.wake c) s.workers ws) (hp : Roused (Producer.wake c) s.producers ps) :
    ({ s with workers := ws, producers := ps } : Sink α).Sound where
  workers   := hw.forall_mem (fun _ => .wake c) hs.workers
  producers := hp.forall_mem (fun _ => .wake c) hs.producers
  owner     := hs.owner
  alone     := hs.alone.imp_left fun h => (h ▸ hp).eq_nil
  cleared   := hs.cleared
  joined    := fun r ho => (hs.joined r ho ▸ hw).eq_nil

-- The owner has the sink for itself, so it is free when a producer goes on.
theorem free (hs : s.Sound) (hi : s.producers[i]? = some p) : s.owner = .free :=
  hs.alone.resolve_left fun h => by simp [h] at hi

theorem busy (hs : s.Sound) (ho : s.owner = o) (h : o ≠ .free) : s.producers = [] :=
  hs.alone.resolve_right (ho ▸ h)

theorem setWorker (hs : s.Sound) (hi : s.workers[i]? = some w) (ha : s.Alike s₁)
    (hq : s.queue.items = [] → s₁.queue.items = []) (hk : w'.Serves) :
    (s₁.setWorker i w').Sound where
  workers   := forall_mem_set _ (ha.workers ▸ hs.workers) hk.resumed
  producers := ha.producers ▸ hs.producers
  owner     := ha.owner ▸ hs.owner
  alone     := by
    simp only [Sink.setWorker, ha.producers, ha.owner]
    exact hs.alone
  cleared   := fun h => hq <| hs.cleared (ha.owner ▸ h)
  joined    := fun r h => by
    rw [hs.joined r (ha.owner ▸ h)] at hi
    simp at hi

theorem record (hs : s.Sound) (e : Event α) : (s.record e).Sound :=
  ⟨⟨hs.workers, hs.producers, hs.owner⟩, hs.alone, hs.cleared, hs.joined⟩

-- While the owner is free nothing is said about the queue.
theorem of_free (hw : ∀ w ∈ s.workers, w.Serves) (hp : ∀ p ∈ s.producers, p.Serves)
    (ho : s.owner = .free) : s.Sound where
  workers   := hw
  producers := hp
  owner     := ho ▸ trivial
  alone     := .inr ho
  cleared   := fun h => by simp [ho, Owner.Cleared] at h
  joined    := fun r h => by simp [ho] at h

theorem setProducer (hs : s.Sound) (hi : s.producers[i]? = some p) (ha : s.Alike s₁)
    (hk : p'.Serves) : (s₁.setProducer i p').Sound := by
  have ho := ha.owner.trans (hs.free hi)
  have hw : ∀ w ∈ s₁.workers, w.Serves := ha.workers ▸ hs.workers
  have hp : ∀ p ∈ s₁.producers, p.Serves := ha.producers ▸ hs.producers
  have h := s₁.places i p'
  generalize s₁.setProducer i p' = s' at h ⊢
  cases h
  case taken   => exact of_free hw (fun q hq => hp q <| List.mem_of_mem_eraseIdx hq) ho
  case bounced => exact of_free hw (forall_mem_set _ hp trivial) ho
  case kept    => exact of_free hw (forall_mem_set _ hp hk) ho

theorem setOwner (hw : ∀ w ∈ s.workers, w.Serves) (hp : s.producers = []) (hk : o.Serves)
    (hc : o.Cleared → s.queue.items = []) (hj : ∀ r, o.resumed = .resetting r → s.workers = []) :
    (s.setOwner o).Sound where
  workers   := hw
  producers := by simp [Sink.setOwner, hp]
  owner     := hk.resumed
  alone     := .inl hp
  cleared   := fun h => hc h.of_resumed
  joined    := hj

end Sound

end Sink

variable {s s' : Sink α}

theorem Owner.Moves.sound (h : Owner.Moves s s') (hs : s.Sound) : s'.Sound := by
  have hp {o} (ho : s.owner = o) (h : o ≠ .free) : s.producers = [] := hs.busy ho h
  cases h
  case raise ho | reopen ho | poll ho _ | give ho _ | await ho _ | settle ho _ | lower r ho =>
    exact .setOwner hs.workers (hp ho (by simp)) (by trivial) (by simp [Cleared])
      (by simp [resumed])
  case spawned ho => exact .of_free hs.workers hs.producers rfl
  case spawn ho =>
    have ht : (Worker.testing : Worker α).Serves := trivial
    have hw := List.forall_mem_append.mpr ⟨hs.workers, List.forall_mem_singleton.mpr ht⟩
    exact .setOwner hw (hp ho (by simp)) trivial (by simp [Cleared]) (by simp [resumed])
  case close ho =>
    exact .setOwner hs.workers (hp ho (by simp)) trivial (by simp [Cleared]) (by simp [resumed])
  case clear ho =>
    exact .setOwner hs.workers (hp ho (by simp)) trivial (fun _ => rfl) (by simp [resumed])
  case join ho _ =>
    exact .setOwner (by simp) (hp ho (by simp)) trivial (fun _ => hs.cleared (ho ▸ trivial))
      (fun _ _ => rfl)
  case reset ho => exact .of_free hs.workers hs.producers rfl

theorem Owner.Tells.sound {o : Owner α} (h : s.owner.Tells o) (hs : s.Sound) :
    (s.setOwner o).Sound := by
  have ho := h.serves hs.owner
  generalize hr : s.owner = o' at h
  cases h
  case close r w owed =>
    refine .setOwner hs.workers (hs.busy hr (by simp)) ho (by simp [Cleared]) ?_
    rw [Caller.owing]
    split <;> simp [resumed]
  case clear r w owed =>
    have hq := hs.cleared (hr ▸ by simp [Cleared])
    refine .setOwner hs.workers (hs.busy hr (by simp)) ho (fun _ => hq) ?_
    rw [Caller.owing]
    split <;> simp [resumed]

theorem Sink.Step.sound {a : Action α} (h : s.Step a s') (hs : s.Sound) : s'.Sound := by
  cases h
  case push x ho =>
    have hx : (Producer.raising x).Serves := trivial
    exact .of_free hs.workers
      (List.forall_mem_append.mpr ⟨hs.producers, List.forall_mem_singleton.mpr hx⟩) ho
  case start ho hp hw =>
    exact .setOwner hs.workers hp trivial (by simp [Owner.Cleared]) (by simp [Owner.resumed])
  case restart => exact .of_free hs.workers hs.producers rfl
  case drain ho hp =>
    exact .setOwner hs.workers hp trivial (by simp [Owner.Cleared]) (by simp [Owner.resumed])
  case destroy ho hp =>
    exact .setOwner hs.workers hp trivial (by simp [Owner.Cleared]) (by simp [Owner.resumed])
  case worker hi hm   => exact hs.setWorker hi hm.alike hm.items_eq_nil hm.serves
  case producer hi hm => exact hs.setProducer hi hm.alike hm.serves
  case leave hi =>
    exact .of_free hs.workers (fun p hp => hs.producers p <| List.mem_of_mem_eraseIdx hp)
      (hs.free hi)
  case owner hm => exact hm.sound hs
  case tellWorker hw hp hi ht =>
    have hs := hs.roused hw hp
    exact hs.setWorker hi (.refl _) id (ht.serves (hs.workers _ <| List.mem_of_getElem? hi))
  case tellProducer hw hp hi ht =>
    have hs := hs.roused hw hp
    exact hs.setProducer hi (.refl _)
      (ht.serves (hs.producers _ <| List.mem_of_getElem? hi))
  case tellOwner hw hp ht => exact Owner.Tells.sound ht (hs.roused hw hp)
  case finish x v hi =>
    have hk : (Worker.finished v : Worker α).Serves := trivial
    exact (hs.setWorker hi (.refl _) id hk).record _
  case spawnFails ho =>
    exact .setOwner hs.workers (hs.busy ho (by simp)) trivial (by simp [Owner.Cleared])
      (by simp [Owner.resumed])

end Inference
