import Inference.Proofs.Sink.Running

/-!
The workers of a sink and what they have to do with its two flags. A start makes as many workers as
the sink shall have, and none is made beside them. As long as no destruction has begun, a sink with
workers has an ended queue exactly if one of them has ended it, and a lowered flag exactly if one of
them is gone.
-/

namespace Inference

variable {α : Type}

namespace Worker

-- Whether a worker has ended the queue on its way out.
def isClosed : Worker α → Bool
  | stopping (.notifying ..) | lowering | exited => true
  | _ => false

def isExited : Worker α → Bool
  | exited => true
  | _ => false

@[simp]
theorem isClosed_wake (c : Cond) (w : Worker α) : (w.wake c).isClosed = w.isClosed := by
  cases w
  case stopping k =>
    cases k <;> simp only [wake, Caller.wake]
    case parked =>
      split <;> rfl
  all_goals rfl

@[simp]
theorem isExited_wake (c : Cond) (w : Worker α) : (w.wake c).isExited = w.isExited := by
  cases w <;> rfl

@[simp]
theorem isExited_resumed (w : Worker α) : w.resumed.isExited = w.isExited := by
  have h := w.resumes
  generalize w.resumed = w' at h ⊢
  cases h <;> rfl

theorem isClosed_of_isExited {w : Worker α} (hw : w.isExited) : w.isClosed := by
  cases w <;> first | rfl | simp [isExited] at hw

-- What the step of a worker does to the two flags.
structure Flags (s s' : Sink α) (w w' : Worker α) : Prop where
  ended   : s.queue.ended → s'.queue.ended
  lowered : s.keep = false → s'.keep = false
  closed  : w'.isClosed → w.isClosed ∨ s'.queue.ended
  exited  : w'.isExited → w.isExited ∨ s'.keep = false
  closes  : s'.queue.ended → s.queue.ended ∨ w'.isClosed
  lowers  : s'.keep = false → s.keep = false ∨ w'.isExited
  stays   : w.isClosed → w'.isClosed
  gone    : w.isExited → w'.isExited

variable {s s' : Sink α} {w w' : Worker α}

theorem Flags.of_open (hk : s'.keep = s.keep) (hq : s'.queue.ended = s.queue.ended)
    (hw : w.isClosed = false) (hw' : w'.isClosed = false) : Flags s s' w w' where
  ended   := (hq ▸ ·)
  lowered := (hk ▸ ·)
  closed  := by simp [hw']
  exited  := fun h => by simp [isClosed_of_isExited h] at hw'
  closes  := fun h => .inl (hq ▸ h)
  lowers  := fun h => .inl (hk ▸ h)
  stays   := by simp [hw]
  gone    := fun h => by simp [isClosed_of_isExited h] at hw

theorem Moves.flags (h : w.Moves s s' w') : Flags s s' w w'.resumed := by
  cases h
  case wait hk _ _ | miss hk _ | take hk _ _ => exact .of_open rfl rfl rfl rfl
  case release again => cases again <;> exact .of_open rfl rfl rfl rfl
  case close k =>
    exact ⟨fun _ => rfl, id, fun _ => .inr rfl, by simp [isExited, resumed], fun _ => .inr rfl,
      .inl, fun _ => rfl, by simp [isExited]⟩
  case lower =>
    exact ⟨id, fun _ => rfl, fun _ => .inl rfl, fun _ => .inr rfl, .inl, fun _ => .inr rfl,
      fun _ => rfl, by simp [isExited]⟩
  all_goals exact .of_open rfl rfl rfl rfl

theorem Tells.flags {s : Sink α} (h : w.Tells w') : Flags s s w w'.resumed := by
  cases h
  case pop w owed x =>
    refine .of_open rfl rfl rfl ?_
    rw [Caller.owing]
    split <;> rfl
  case close w owed =>
    have hc : (stopping (.owing owed .done) : Worker α).resumed.isClosed := by
      rw [Caller.owing]
      split <;> rfl
    have he : (stopping (.owing owed .done) : Worker α).resumed.isExited = false := by
      rw [isExited_resumed]
      rfl
    exact ⟨id, id, fun _ => .inl rfl, by simp [he], .inl, .inl, fun _ => hc,
      by simp [isExited, resumed]⟩

end Worker

namespace Owner

-- The owner has called start and not come back.
def isStarting : Owner α → Bool
  | raising | reopening | spawning _ => true
  | _ => false

-- Whether a destruction has lowered the flag, and ended the queue.
def Lowered : Owner α → Prop
  | closing .. | clearing .. | joining _ | resetting _ => True
  | _ => False

def Shut : Owner α → Prop
  | closing _ (.notifying ..) | clearing .. | joining _ | resetting _ => True
  | _ => False

variable {o o' : Owner α}

-- No destruction goes on during a start.
theorem not_starting (h : o.ending? ≠ none) :
    o.isStarting = false ∧ ¬o.Raised ∧ ¬o.Opened := by
  cases o <;> simp_all [ending?, isStarting, Raised, Opened]

theorem Tells.ending_resumed (h : o.Tells o') : o'.resumed.ending? ≠ none := by
  rw [ending?_resumed, h.ending?_eq]
  exact h.ending

theorem Tells.shut (h : o.Tells o') : o.Shut ∧ o.Lowered := by
  cases h <;> exact ⟨trivial, trivial⟩

end Owner

namespace Sink

-- A start finds no worker, and makes as many as the sink shall have.
structure Staffed (s : Sink α) : Prop where
  threads  : 0 < s.threads
  vacant   : s.owner = .raising ∨ s.owner = .reopening → s.workers = []
  spawning : ∀ n, s.owner = .spawning n → s.workers.length + n = s.threads
  few      : s.workers.length ≤ s.threads

-- Each flag is changed by those who have come that far.
structure Latched (s : Sink α) : Prop where
  closed  : ∀ w ∈ s.workers, w.isClosed → s.queue.ended
  exited  : ∀ w ∈ s.workers, w.isExited → s.keep = false
  shut    : s.owner.Shut → s.queue.ended
  lowered : s.owner.Lowered → s.keep = false
  raised  : s.owner.Raised → s.workers = [] → s.keep
  opened  : s.owner.Opened → s.workers = [] → s.queue.ended = false
  closes  : s.owner.ending? = none → s.workers ≠ [] → s.queue.ended → ∃ w ∈ s.workers, w.isClosed
  lowers  : s.owner.ending? = none → s.workers ≠ [] → s.keep = false → ∃ w ∈ s.workers, w.isExited

variable {s s' s₁ : Sink α} {i : ℕ} {c : Cond} {w w' : Worker α} {ws : List (Worker α)}

theorem exists_roused {f : Worker α → Bool} (hf : ∀ w, f (w.wake c) = f w)
    (hw : Roused (Worker.wake c) s.workers ws) (h : ∃ w ∈ s.workers, f w) : ∃ w ∈ ws, f w := by
  have ⟨w, hm, h⟩ := h
  have ⟨i, hi⟩ := List.mem_iff_getElem?.mp hm
  have ⟨w', hi', hr⟩ := hw.getElem? hi
  refine ⟨w', List.mem_of_getElem? hi', ?_⟩
  rcases hr with rfl | rfl
  · exact h
  · exact hf w ▸ h

theorem forall_roused {f : Worker α → Bool} {P : Prop} (hf : ∀ w, f (w.wake c) = f w)
    (hw : Roused (Worker.wake c) s.workers ws) (h : ∀ w ∈ s.workers, f w → P) :
    ∀ w ∈ ws, f w → P :=
  hw.forall_mem (fun w h hw => h (hf w ▸ hw)) h

namespace Staffed

theorem of_eq (hs : s.Staffed) (hw : s'.workers.length = s.workers.length)
    (ht : s'.threads = s.threads) (ho : s'.owner = s.owner) : s'.Staffed where
  threads  := ht ▸ hs.threads
  vacant   := fun h => List.eq_nil_of_length_eq_zero <| by simp [hw, hs.vacant (ho ▸ h)]
  spawning := fun n h => by rw [hw, ht, hs.spawning n (ho ▸ h)]
  few      := by rw [hw, ht]; exact hs.few

-- Outside a start the owner does not matter.
theorem of_owner (hs : s.Staffed) (hw : s'.workers.length ≤ s.workers.length)
    (ht : s'.threads = s.threads) (ho : s'.owner.isStarting = false) : s'.Staffed where
  threads  := ht ▸ hs.threads
  vacant   := by rintro (h | h) <;> simp [h, Owner.isStarting] at ho
  spawning := fun n h => by simp [h, Owner.isStarting] at ho
  few      := ht ▸ Nat.le_trans hw hs.few

end Staffed

namespace Latched

theorem roused (hl : s.Latched) (hw : Roused (Worker.wake c) s.workers ws)
    (ps : List (Producer α)) : ({ s with workers := ws, producers := ps } : Sink α).Latched where
  closed  := forall_roused (Worker.isClosed_wake c) hw hl.closed
  exited  := forall_roused (Worker.isExited_wake c) hw hl.exited
  shut    := hl.shut
  lowered := hl.lowered
  raised  := fun h hn => hl.raised h (by subst hn; exact List.forall₂_nil_right_iff.mp hw)
  opened  := fun h hn => hl.opened h (by subst hn; exact List.forall₂_nil_right_iff.mp hw)
  closes  := fun ho hn he => exists_roused (Worker.isClosed_wake c) hw <|
    hl.closes ho (fun h => hn (h ▸ hw).eq_nil) he
  lowers  := fun ho hn hk => exists_roused (Worker.isExited_wake c) hw <|
    hl.lowers ho (fun h => hn (h ▸ hw).eq_nil) hk

theorem setWorker (hl : s.Latched) (ha : s.Alike s₁) (hi : s.workers[i]? = some w)
    (hf : Worker.Flags s s₁ w w'.resumed) : (s₁.setWorker i w').Latched := by
  have hw := List.mem_of_getElem? hi
  have hn : s.workers ≠ [] := List.ne_nil_of_mem hw
  have hws : (s₁.setWorker i w').workers = s.workers.set i w'.resumed := by
    rw [Sink.setWorker, ha.workers]
  have hm : w'.resumed ∈ s.workers.set i w'.resumed :=
    List.mem_set (List.getElem?_eq_some_iff.mp hi).1 _
  -- The worker that has come that far is this one, or another one that has not moved.
  have hex {f : Worker α → Bool} (hf : f w → f w'.resumed) (h : ∃ v ∈ s.workers, f v) :
      ∃ v ∈ s.workers.set i w'.resumed, f v := by
    obtain ⟨v, hv, h⟩ := h
    obtain ⟨j, hj⟩ := List.mem_iff_getElem?.mp hv
    by_cases hij : i = j
    · subst hij
      obtain rfl := Option.some.inj (hj.symm.trans hi)
      exact ⟨_, hm, hf h⟩
    · exact ⟨v, List.mem_of_getElem? ((List.getElem?_set_ne hij).trans hj), h⟩
  refine ⟨?_, ?_, fun h => hf.ended (hl.shut (ha.owner ▸ h)),
    fun h => hf.lowered (hl.lowered (ha.owner ▸ h)), ?_, ?_, ?_, ?_⟩ <;> rw [hws]
  · exact forall_mem_set _ (fun v hv h => hf.ended (hl.closed v hv h)) fun h =>
      (hf.closed h).elim (fun h => hf.ended (hl.closed w hw h)) id
  · exact forall_mem_set _ (fun v hv h => hf.lowered (hl.exited v hv h)) fun h =>
      (hf.exited h).elim (fun h => hf.lowered (hl.exited w hw h)) id
  · simp [hn]
  · simp [hn]
  · intro ho _ he
    refine (hf.closes he).elim (fun he => ?_) fun h => ⟨_, hm, h⟩
    exact hex hf.stays <| hl.closes (ha.owner ▸ ho) hn he
  · intro ho _ hk
    refine (hf.lowers hk).elim (fun hk => ?_) fun h => ⟨_, hm, h⟩
    exact hex hf.gone <| hl.lowers (ha.owner ▸ ho) hn hk

-- The owner goes on, and changes nothing but its stage.
theorem of_owner (hl : s.Latched) (hw : s'.workers = s.workers) (hk : s'.keep = s.keep)
    (he : s'.queue.ended = s.queue.ended) (hs : s'.owner.Shut → s.owner.Shut)
    (hd : s'.owner.Lowered → s.owner.Lowered)
    (ho : s'.owner.ending? = none → s.owner.ending? = none)
    (hr : s'.owner.Raised → s.owner.Raised) (hp : s'.owner.Opened → s.owner.Opened) :
    s'.Latched where
  closed  := by rw [hw, he]; exact hl.closed
  exited  := by rw [hw, hk]; exact hl.exited
  shut    := fun h => he ▸ hl.shut (hs h)
  lowered := fun h => hk ▸ hl.lowered (hd h)
  raised  := fun h hn => hk ▸ hl.raised (hr h) (hw ▸ hn)
  opened  := fun h hn => he ▸ hl.opened (hp h) (hw ▸ hn)
  closes  := fun h => by rw [hw, he]; exact hl.closes (ho h)
  lowers  := fun h => by rw [hw, hk]; exact hl.lowers (ho h)

theorem of_eq (hl : s.Latched) (hw : s'.workers = s.workers) (hk : s'.keep = s.keep)
    (he : s'.queue.ended = s.queue.ended) (ho : s'.owner = s.owner) : s'.Latched :=
  hl.of_owner hw hk he (by simp [ho]) (by simp [ho]) (by simp [ho]) (by simp [ho]) (by simp [ho])

theorem setProducer (hl : s.Latched) (ha : s.Alike s₁) (hk : s₁.keep = s.keep)
    (he : s₁.queue.ended = s.queue.ended) (i : ℕ) (p : Producer α) :
    (s₁.setProducer i p).Latched :=
  hl.of_eq (by simp [ha.workers]) (by simp [hk]) (by simp [he]) (by simp [ha.owner])

-- Without workers only the owner has come anywhere.
theorem of_vacant (hw : s.workers = []) (hs : s.owner.Shut → s.queue.ended)
    (hd : s.owner.Lowered → s.keep = false) (hr : s.owner.Raised → s.keep)
    (hp : s.owner.Opened → s.queue.ended = false) : s.Latched where
  closed  := by simp [hw]
  exited  := by simp [hw]
  shut    := hs
  lowered := hd
  raised  := fun h _ => hr h
  opened  := fun h _ => hp h
  closes  := by simp [hw]
  lowers  := by simp [hw]

-- While a destruction goes on, nobody else is needed for a flag to be lowered or set.
theorem of_ending (hc : ∀ w ∈ s.workers, w.isClosed → s.queue.ended)
    (he : ∀ w ∈ s.workers, w.isExited → s.keep = false) (hs : s.owner.Shut → s.queue.ended)
    (hd : s.owner.Lowered → s.keep = false) (ho : s.owner.ending? ≠ none)
    (hr : ¬s.owner.Raised) (hp : ¬s.owner.Opened) : s.Latched where
  closed  := hc
  exited  := he
  shut    := hs
  lowered := hd
  raised  := fun h => (hr h).elim
  opened  := fun h => (hp h).elim
  closes  := fun h => (ho h).elim
  lowers  := fun h => (ho h).elim

end Latched

end Sink

variable {s s' : Sink α}

theorem Owner.Moves.latched (h : Owner.Moves s s') (hs : s.Sound) (hf : s.Staffed)
    (hl : s.Latched) : s'.Latched := by
  cases h
  case raise ho =>
    exact .of_vacant (hf.vacant (.inl ho)) False.elim False.elim (fun _ => rfl) False.elim
  case reopen ho =>
    have hw := hf.vacant (.inr ho)
    have hk := hl.raised (ho ▸ trivial) hw
    exact .of_vacant hw False.elim False.elim (fun _ => hk) (fun _ => rfl)
  case spawned ho =>
    exact hl.of_owner rfl rfl rfl False.elim False.elim (fun _ => ho ▸ rfl) False.elim False.elim
  case spawn n ho =>
    have hr : s.owner.Raised := ho ▸ trivial
    have hp : s.owner.Opened := ho ▸ trivial
    have hn : s.owner.ending? = none := ho ▸ rfl
    have ht : (Worker.testing : Worker α).isClosed = false := rfl
    have ht' : (Worker.testing : Worker α).isExited = false := rfl
    -- If there is no other worker yet, then the flags are as the start has left them.
    have hkeep (hk : s.keep = false) : s.workers ≠ [] := fun h => by simp [hl.raised hr h] at hk
    have hends (he : s.queue.ended) : s.workers ≠ [] := fun h => by simp [hl.opened hp h] at he
    constructor
    case closed =>
      exact List.forall_mem_append.mpr ⟨hl.closed, List.forall_mem_singleton.mpr (by simp [ht])⟩
    case exited =>
      exact List.forall_mem_append.mpr ⟨hl.exited, List.forall_mem_singleton.mpr (by simp [ht'])⟩
    case shut    => exact False.elim
    case lowered => exact False.elim
    case raised  => simp [Sink.setOwner]
    case opened  => simp [Sink.setOwner]
    case closes =>
      intro _ _ he
      obtain ⟨w, hw, h⟩ := hl.closes hn (hends he) he
      exact ⟨w, List.mem_append_left _ hw, h⟩
    case lowers =>
      intro _ _ hk
      obtain ⟨w, hw, h⟩ := hl.lowers hn (hkeep hk) hk
      exact ⟨w, List.mem_append_left _ hw, h⟩
  case poll ho _ | give ho _ | await ho _ | settle ho _ =>
    exact hl.of_owner rfl rfl rfl False.elim False.elim (fun _ => ho ▸ rfl) False.elim False.elim
  case lower r ho =>
    exact .of_ending hl.closed (fun _ _ _ => rfl) False.elim (fun _ => rfl)
      (Option.some_ne_none _) id id
  case close r k ho =>
    exact .of_ending (fun _ _ _ => rfl) hl.exited (fun _ => rfl)
      (fun _ => hl.lowered (ho ▸ trivial)) (Option.some_ne_none _) id id
  case clear r k ho =>
    exact hl.of_owner rfl rfl rfl (fun _ => ho ▸ trivial) (fun _ => ho ▸ trivial)
      (fun h => (Option.some_ne_none _ h).elim) False.elim False.elim
  case join r ho _ =>
    exact .of_vacant rfl (fun _ => hl.shut (ho ▸ trivial)) (fun _ => hl.lowered (ho ▸ trivial))
      False.elim False.elim
  case reset r ho => exact .of_vacant (hs.joined r ho) False.elim False.elim False.elim False.elim

theorem Owner.Moves.staffed (h : Owner.Moves s s') (hf : s.Staffed) : s'.Staffed := by
  cases h
  case raise ho =>
    have hw := hf.vacant (.inl ho)
    exact ⟨hf.threads, fun _ => hw, by simp [Sink.setOwner, resumed], hf.few⟩
  case reopen ho =>
    have hw : s.workers = [] := hf.vacant (.inr ho)
    refine ⟨hf.threads, by simp [Sink.setOwner, resumed], fun n h => ?_, hf.few⟩
    cases h
    simp [Sink.setOwner, hw]
  case spawn n ho =>
    have hn := hf.spawning _ ho
    refine ⟨hf.threads, by simp [Sink.setOwner, resumed], fun m h => ?_, ?_⟩
    · cases h
      simp only [Sink.setOwner, List.length_append, List.length_singleton]
      omega
    · simp only [Sink.setOwner, List.length_append, List.length_singleton]
      omega
  case join => exact hf.of_owner (Nat.zero_le _) rfl rfl
  all_goals exact hf.of_owner (Nat.le_refl _) rfl rfl

namespace Sink

theorem Step.staffed {a : Action α} (h : s.Step a s') (hf : s.Staffed) : s'.Staffed := by
  cases h
  case start hw =>
    exact ⟨hf.threads, fun _ => hw, by simp [setOwner, Owner.resumed], hf.few⟩
  case restart | drain | destroy | spawnFails => exact hf.of_owner (Nat.le_refl _) rfl rfl
  case worker hm =>
    exact hf.of_eq (by simp [setWorker, hm.alike.workers]) hm.alike.threads hm.alike.owner
  case producer hm =>
    exact hf.of_eq (by simp [hm.alike.workers]) (by simp [hm.alike.threads])
      (by simp [hm.alike.owner])
  case owner hm => exact hm.staffed hf
  case tellWorker hw _ _ _ => exact hf.of_eq (by simpa [setWorker] using hw.length_eq.symm) rfl rfl
  case tellProducer hw _ _ _ =>
    exact hf.of_eq (by simpa using hw.length_eq.symm) (by simp) (by simp)
  case tellOwner hw _ ht =>
    exact hf.of_owner (Nat.le_of_eq hw.length_eq.symm) rfl
      (Owner.not_starting ht.ending_resumed).1
  case finish hi => exact hf.of_eq (by simp [setWorker, record]) rfl rfl
  all_goals exact hf.of_eq rfl rfl rfl

theorem Step.latched {a : Action α} (h : s.Step a s') (hs : s.Sound) (hf : s.Staffed)
    (hl : s.Latched) : s'.Latched := by
  cases h
  case start hw => exact .of_vacant hw False.elim False.elim False.elim False.elim
  case restart ho _ _ =>
    exact hl.of_owner rfl rfl rfl False.elim False.elim (fun _ => ho ▸ rfl) False.elim False.elim
  case drain ho _ =>
    exact hl.of_owner rfl rfl rfl False.elim False.elim (fun _ => ho ▸ rfl) False.elim False.elim
  case destroy | spawnFails =>
    exact hl.of_owner rfl rfl rfl False.elim False.elim (fun h => (Option.some_ne_none _ h).elim)
      False.elim False.elim
  case worker hi hm => exact hl.setWorker hm.alike hi hm.flags
  case producer i _ _ _ _ hm => exact hl.setProducer hm.alike hm.keep hm.ended i _
  case owner hm => exact hm.latched hs hf hl
  case tellWorker ps _ _ hw _ hi ht => exact (hl.roused hw ps).setWorker (.refl _) hi ht.flags
  case tellProducer i _ _ ws ps _ p' hw _ _ _ =>
    exact (hl.roused hw ps).setProducer (.refl _) rfl rfl i p'
  case tellOwner c ws ps o' hw hp ht =>
    obtain ⟨hs, hd⟩ := ht.shut
    have ho := ht.ending_resumed
    obtain ⟨_, hr, hp⟩ := Owner.not_starting ho
    exact (hl.roused hw ps).of_owner rfl rfl rfl (fun _ => hs) (fun _ => hd)
      (fun h => (ho h).elim) (fun h => (hr h).elim) fun h => (hp h).elim
  case finish x v hi =>
    have hf : Worker.Flags s s (.working x) (Worker.finished v).resumed := .of_open rfl rfl rfl rfl
    exact (hl.setWorker (.refl _) hi hf).of_eq rfl rfl rfl rfl
  all_goals exact hl.of_eq rfl rfl rfl rfl

theorem staffed_create (bound threads : ℕ) : (create bound threads : Sink α).Staffed where
  threads  := Nat.le_max_right ..
  vacant   := fun _ => rfl
  spawning := fun _ h => by simp [create] at h
  few      := Nat.zero_le _

theorem latched_create (bound threads : ℕ) : (create bound threads : Sink α).Latched :=
  .of_vacant rfl False.elim False.elim False.elim False.elim

end Sink
end Inference
