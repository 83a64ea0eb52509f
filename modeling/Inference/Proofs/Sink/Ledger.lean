import Inference.Proofs.Sink.Counters

/-!
What happens to each item. A step that takes an item in, begins or ends the work on it records that,
and the item moves on accordingly; an item is lost only in a destruction, or by a worker who finds
the flag lowered.
-/

namespace Inference

variable {α : Type}

namespace Event

def accepted? : Event α → Option α
  | accepted x => some x
  | _ => none

def began? : Event α → Option α
  | began x => some x
  | _ => none

def ended? : Event α → Option α
  | ended x _ => some x
  | _ => none

-- The calls that leave nothing in the sink when they return.
def ends : Event α → Bool
  | returned r => r ≠ .started
  | _ => false

-- The items that were taken in, were given to the processor, and were done with.
def taken (l : List (Event α)) : List α := l.filterMap accepted?

def given (l : List (Event α)) : List α := l.filterMap began?

def completed (l : List (Event α)) : List α := l.filterMap ended?

theorem taken_append (l l' : List (Event α)) : taken (l ++ l') = taken l ++ taken l' :=
  List.filterMap_append

theorem given_append (l l' : List (Event α)) : given (l ++ l') = given l ++ given l' :=
  List.filterMap_append

theorem completed_append (l l' : List (Event α)) :
    completed (l ++ l') = completed l ++ completed l' :=
  List.filterMap_append

end Event

namespace Worker

-- The items that a worker has taken out of the queue and not begun.
def fetched : Worker α → List α
  | popping k => k.cargo
  | holding x | admitted x => [x]
  | _ => []

-- The item that a worker has with the processor.
def current : Worker α → List α
  | working x => [x]
  | _ => []

@[simp]
theorem fetched_resumed (w : Worker α) : w.resumed.fetched = w.fetched := by
  have h := w.resumes
  generalize w.resumed = w' at h ⊢
  cases h
  case sent ha => simp [fetched, Caller.cargo, ha]
  all_goals rfl

@[simp]
theorem current_resumed (w : Worker α) : w.resumed.current = w.current := by
  have h := w.resumes
  generalize w.resumed = w' at h ⊢
  cases h <;> rfl

@[simp]
theorem fetched_wake (c : Cond) (w : Worker α) : (w.wake c).fetched = w.fetched := by
  cases w <;> simp [wake, fetched]

@[simp]
theorem current_wake (c : Cond) (w : Worker α) : (w.wake c).current = w.current := by
  cases w <;> rfl

theorem length_fetched_le_share (w : Worker α) : w.fetched.length ≤ w.share := by
  cases w <;> simp [fetched, share]

theorem length_current_le_share (w : Worker α) : w.current.length ≤ w.share := by
  cases w <;> simp [current, share]

-- The events that the step of a worker records, and what becomes of its item meanwhile.
structure Posts [DecidableEq α] (s s' : Sink α) (w w' : Worker α) (l : List (Event α)) : Prop where
  history  : s'.history = l ++ s.history
  returned : ∀ r, .returned r ∉ l
  taken    : Event.taken l = []
  given    : ∀ x, (Event.given l).count x + w.current.count x =
    (Event.completed l).count x + w'.current.count x
  fetched  : ∀ x, ∃ lost, s.queue.items.count x + w.fetched.count x =
    (Event.given l).count x + (s'.queue.items.count x + w'.fetched.count x) + lost ∧
    (lost = 0 ∨ s.keep = false)

section Posts

variable [DecidableEq α] {s s' : Sink α} {w w' : Worker α}

-- A step that records nothing and loses nothing.
theorem Posts.of_eq (hl : s'.history = s.history) (hc : w'.current = w.current)
    (hf : ∀ x, s.queue.items.count x + w.fetched.count x =
      s'.queue.items.count x + w'.fetched.count x) : Posts s s' w w' [] where
  history  := hl
  returned := by simp
  taken    := rfl
  given    := fun x => by rw [hc]; rfl
  fetched  := fun x => ⟨0, (hf x).trans (Nat.zero_add _).symm, .inl rfl⟩

theorem Moves.posts (h : w.Moves s s' w') : ∃ l, Posts s s' w w' l := by
  cases h
  case wait hk _ _ | miss hk _ =>
    refine ⟨[], .of_eq rfl rfl fun x => ?_⟩
    simp only [fetched, hk]
    rfl
  case take hk _ hp =>
    refine ⟨[], .of_eq rfl rfl fun x => ?_⟩
    simp only [fetched, hk, hp.count_eq]
    simp [Caller.cargo, Answer.cargo, List.count_cons]
  case drop y hk =>
    refine ⟨[], rfl, by simp, rfl, fun x => rfl, fun x => ⟨[y].count x, ?_, .inr hk⟩⟩
    simp [fetched, Event.given]
  case begin y =>
    refine ⟨[.began y], rfl, by simp, rfl, fun x => Nat.add_comm ([y].count x) 0,
      fun x => ⟨0, ?_, .inl rfl⟩⟩
    exact Nat.add_comm (s.queue.items.count x) ([y].count x)
  case release again => cases again <;> exact ⟨[], .of_eq rfl rfl fun x => rfl⟩
  all_goals exact ⟨[], .of_eq rfl rfl fun x => rfl⟩

end Posts

theorem Tells.fetched_eq {w w' : Worker α} (h : w.Tells w') : w'.fetched = w.fetched := by
  cases h
  case pop   => simp only [fetched, Caller.cargo_owing]; rfl
  case close => rfl

theorem Tells.current_eq {w w' : Worker α} (h : w.Tells w') : w'.current = w.current := by
  cases h <;> rfl

end Worker

namespace Producer

-- The item that the queue has of a producer who is not told yet.
def put : Producer α → List α
  | pushing x k => if k.accepted then [x] else []
  | _ => []

@[simp]
theorem put_wake (c : Cond) (p : Producer α) : (p.wake c).put = p.put := by
  cases p <;> simp [wake, put]

theorem Moves.history {s s' : Sink α} {p p' : Producer α} (h : p.Moves s s' p') :
    s'.history = s.history := by
  cases h <;> rfl

theorem Moves.count_put [DecidableEq α] {s s' : Sink α} {p p' : Producer α} (h : p.Moves s s' p')
    (x : α) :
    p'.put.count x + s.queue.items.count x = p.put.count x + s'.queue.items.count x := by
  cases h
  case wait hk _ _ | bounce hk _ _ => rcases hk with rfl | rfl <;> rfl
  case put hk _ =>
    rcases hk with rfl | rfl <;>
      simp [Producer.put, Caller.accepted, Answer.accepts, List.count_append, Nat.add_comm]
  all_goals rfl

theorem Tells.put_eq {p p' : Producer α} (h : p.Tells p') : p'.put = p.put := by
  cases h
  simp only [Producer.put, Caller.accepted_owing]
  rfl

end Producer

namespace Sink

variable [DecidableEq α] {s s₁ s' : Sink α} {i : ℕ} {w w' : Worker α} {p p' : Producer α}

def paid (s : Sink α) (x : α) : ℕ := tally (fun p => p.put.count x) s.producers

def stock (s : Sink α) (x : α) : ℕ :=
  s.queue.items.count x + tally (fun w => w.fetched.count x) s.workers

def current (s : Sink α) (x : α) : ℕ := tally (fun w => w.current.count x) s.workers

-- How a call of the owner can return now.
def Returns (s : Sink α) (r : Return) : Prop :=
  (r = .started ∧ s.owner.ending? = none ∧ (s.owner = .spawning 0 ∨ s.workers ≠ [])) ∨
    s.owner = .resetting r

-- Only a destruction, or a worker who finds the flag lowered, gives up an item.
def Loses (s : Sink α) : Prop := s.owner.ending? ≠ none ∨ (s.keep = false ∧ s.workers ≠ [])

-- The events that a step records, and what becomes of the items meanwhile.
structure Posts (s s' : Sink α) (l : List (Event α)) : Prop where
  history  : s'.history = l ++ s.history
  returned : ∀ r, .returned r ∈ l → s.Returns r
  given    : ∀ x, (Event.given l).count x + s.current x = (Event.completed l).count x + s'.current x
  taken    : ∀ x, ∃ lost, (Event.taken l).count x + (s'.paid x + s.stock x) =
    (Event.given l).count x + (s.paid x + s'.stock x) + lost ∧ (lost = 0 ∨ s.Loses)

-- A step that has nothing to do with items.
theorem Posts.of_eq {l} (hl : s'.history = l ++ s.history)
    (hr : ∀ r, .returned r ∈ l → s.Returns r)
    (hn : Event.taken l = [] ∧ Event.given l = [] ∧ Event.completed l = [])
    (hp : ∀ x, s'.paid x = s.paid x) (hq : ∀ x, s'.stock x = s.stock x)
    (hc : ∀ x, s'.current x = s.current x) : Posts s s' l where
  history  := hl
  returned := hr
  given    := fun x => by rw [hn.right.left, hn.right.right, hc]
  taken    := fun x => ⟨0, by rw [hn.left, hn.right.left, hp, hq]; rfl, .inl rfl⟩

theorem Posts.of_same {l} (hl : s'.history = l ++ s.history)
    (hr : ∀ r, .returned r ∈ l → s.Returns r)
    (hn : Event.taken l = [] ∧ Event.given l = [] ∧ Event.completed l = [])
    (hp : s'.producers = s.producers) (hw : s'.workers = s.workers)
    (hq : s'.queue.items = s.queue.items) : Posts s s' l :=
  .of_eq hl hr hn (fun _ => by rw [paid, paid, hp]) (fun _ => by rw [stock, stock, hw, hq])
    fun _ => by rw [current, current, hw]

theorem Posts.setWorker {l} (h : Worker.Posts s s₁ w w' l) (ha : s.Alike s₁)
    (hi : s.workers[i]? = some w) : Posts s (s₁.setWorker i w') l where
  history  := h.history
  returned := fun r hr => (h.returned r hr).elim
  given    := fun x => by
    have hw := tally_setWorker (f := fun w => w.current.count x) (fun w => by simp) ha hi w'
    have hg := h.given x
    simp only [current] at hw ⊢
    omega
  taken    := fun x => by
    have hw := tally_setWorker (f := fun w => w.fetched.count x) (fun w => by simp) ha hi w'
    have hq : (s₁.setWorker i w').queue = s₁.queue := rfl
    have hp : (s₁.setWorker i w').producers = s.producers := ha.producers
    have ⟨lost, hf, hk⟩ := h.fetched x
    refine ⟨lost, ?_, hk.imp_right fun hk => .inr ⟨hk, fun h => by simp [h] at hi⟩⟩
    simp only [h.taken, stock, paid, hq, hp, List.count_nil] at hw ⊢
    omega

-- What a producer has put into the queue is recorded when it is told.
theorem Posts.of_put {l} (hw : s'.workers = s.workers) (hl : s'.history = l ++ s.history)
    (hr : ∀ r, .returned r ∉ l) (hn : Event.given l = [] ∧ Event.completed l = [])
    (ht : ∀ x, (Event.taken l).count x + s'.paid x + p.put.count x = s.paid x + p'.put.count x)
    (hp : ∀ x, p'.put.count x + s.queue.items.count x = p.put.count x + s'.queue.items.count x) :
    Posts s s' l where
  history  := hl
  returned := fun r h => (hr r h).elim
  given    := fun x => by rw [hn.left, hn.right, current, current, hw]
  taken    := fun x => by
    have ht := ht x
    have hp := hp x
    refine ⟨0, ?_, .inl rfl⟩
    simp only [hn.left, stock, hw, List.count_nil]
    omega

theorem posts_setProducer (ha : s.Alike s₁) (hi : s.producers[i]? = some p)
    (hl : s₁.history = s.history)
    (hp : ∀ x, p'.put.count x + s.queue.items.count x = p.put.count x + s₁.queue.items.count x) :
    ∃ l, Posts s (s₁.setProducer i p') l := by
  have h := s₁.places i p'
  generalize s₁.setProducer i p' = s' at h ⊢
  cases h
  case taken y =>
    refine ⟨[.accepted y], .of_put ha.workers (hl ▸ rfl) (by simp) ⟨rfl, rfl⟩ (fun x => ?_) hp⟩
    have ht := tally_eraseIdx (f := fun p => p.put.count x) hi
    change [y].count x + tally _ (s₁.producers.eraseIdx i) + _ = tally _ _ + [y].count x
    rw [ha.producers]
    omega
  case bounced y a hy =>
    refine ⟨[], .of_put ha.workers hl (by simp) ⟨rfl, rfl⟩ (fun x => ?_) hp⟩
    have ht := tally_set (f := fun p => p.put.count x) (b := .refusing y) hi
    have hy : (Producer.pushing y (.returned a)).put = (Producer.refusing y).put := by
      simp [Producer.put, Caller.accepted, hy]
    change 0 + tally _ (s₁.producers.set i _) + _ = tally _ _ + _
    rw [ha.producers, hy]
    omega
  case kept =>
    refine ⟨[], .of_put ha.workers hl (by simp) ⟨rfl, rfl⟩ (fun x => ?_) hp⟩
    have ht := tally_set (f := fun p => p.put.count x) (b := p') hi
    change 0 + tally _ (s₁.producers.set i _) + _ = tally _ _ + _
    rw [ha.producers]
    omega

-- A notification moves no item.
theorem Posts.of_roused {c : Cond} {ws : List (Worker α)} {ps : List (Producer α)} {l}
    (hw : Roused (Worker.wake c) s.workers ws) (hp : Roused (Producer.wake c) s.producers ps)
    (h : Posts { s with workers := ws, producers := ps } s' l) : Posts s s' l := by
  have hn (h : ws ≠ []) : s.workers ≠ [] := fun hs => h (hs ▸ hw).eq_nil
  constructor
  case history  => exact h.history
  case returned =>
    exact fun r hr => (h.returned r hr).imp_left fun ⟨hr, ho, hw⟩ => ⟨hr, ho, hw.imp_right hn⟩
  case given =>
    intro x
    have hc := hw.tally_eq (f := fun w => w.current.count x) fun w _ => by simp
    have := h.given x
    simp only [current, hc] at this ⊢
    exact this
  case taken =>
    intro x
    have hf := hw.tally_eq (f := fun w => w.fetched.count x) fun w _ => by simp
    have hp := hp.tally_eq (f := fun p => p.put.count x) fun p _ => by simp
    have ⟨lost, ht, hk⟩ := h.taken x
    refine ⟨lost, ?_, hk.imp_right fun h => h.imp_right fun h => ⟨h.left, hn h.right⟩⟩
    simp only [paid, stock, hf, hp] at ht ⊢
    exact ht

end Sink

variable [DecidableEq α] {s s' : Sink α}

theorem Owner.Moves.posts (h : Owner.Moves s s') : ∃ l, s.Posts s' l := by
  cases h
  case raise | reopen | poll | give | await | settle | lower | close =>
    exact ⟨[], .of_same rfl (by simp) ⟨rfl, rfl, rfl⟩ rfl rfl rfl⟩
  case spawned ho =>
    refine ⟨[.returned .started], .of_same rfl ?_ ⟨rfl, rfl, rfl⟩ rfl rfl rfl⟩
    simp [Sink.Returns, ho, ending?]
  case spawn =>
    refine ⟨[], .of_eq rfl (by simp) ⟨rfl, rfl, rfl⟩ (fun _ => rfl) (fun x => ?_) fun x => ?_⟩
    · simp [Sink.stock, Sink.setOwner, Worker.fetched]
    · simp [Sink.current, Sink.setOwner, Worker.current]
  case clear r k ho =>
    have hs : s.Loses := .inl (ho ▸ Option.some_ne_none _)
    refine ⟨[], rfl, by simp, fun x => rfl, fun x => ⟨s.queue.items.count x, ?_, .inr hs⟩⟩
    have hn : (Event.taken [] : List α).count x = 0 := rfl
    have hg : (Event.given [] : List α).count x = 0 := rfl
    simp only [Sink.setOwner, Sink.paid, Sink.stock, List.count_nil]
    omega
  case join r ho he =>
    have hw : ∀ w ∈ s.workers, w.fetched = [] ∧ w.current = [] := fun w hw => by
      have he := List.all_eq_true.mp he w hw
      cases w <;> first | exact ⟨rfl, rfl⟩ | simp at he
    refine ⟨[], .of_eq rfl (by simp) ⟨rfl, rfl, rfl⟩ (fun _ => rfl) (fun x => ?_) fun x => ?_⟩
    · have : tally (fun w => w.fetched.count x) s.workers = 0 :=
        tally_eq_zero_iff.mpr fun w h => by simp [(hw w h).left]
      simp [Sink.setOwner, Sink.stock, this]
    · exact (tally_eq_zero_iff.mpr fun w h => by simp [(hw w h).right]).symm
  case reset r ho =>
    refine ⟨[.returned r], .of_same rfl ?_ ⟨rfl, rfl, rfl⟩ rfl rfl rfl⟩
    simp [Sink.Returns, ho]

theorem Sink.Step.posts {a : Action α} (h : s.Step a s') : ∃ l, s.Posts s' l := by
  cases h
  case push =>
    refine ⟨[], .of_eq rfl (by simp) ⟨rfl, rfl, rfl⟩ (fun x => ?_) (fun _ => rfl) fun _ => rfl⟩
    simp [paid, Producer.put]
  case start | drain | destroy | spawnFails =>
    exact ⟨[], .of_same rfl (by simp) ⟨rfl, rfl, rfl⟩ rfl rfl rfl⟩
  case restart ho _ hw =>
    refine ⟨[.returned .started], .of_same rfl ?_ ⟨rfl, rfl, rfl⟩ rfl rfl rfl⟩
    simp [Returns, ho, hw, Owner.ending?]
  case worker hi hm =>
    have ⟨l, h⟩ := hm.posts
    exact ⟨l, .setWorker h hm.alike hi⟩
  case producer hi hm => exact posts_setProducer hm.alike hi hm.history hm.count_put
  case leave i y hi =>
    have ht x := tally_eraseIdx (f := fun p => p.put.count x) hi
    exact ⟨[.refused y], .of_eq rfl (by simp) ⟨rfl, rfl, rfl⟩ ht (fun _ => rfl) fun _ => rfl⟩
  case owner hm => exact hm.posts
  case tellWorker i target c ws ps w w' hw hp hi ht =>
    let r : Sink α := { s with workers := ws, producers := ps }
    have h : Worker.Posts r r w w' [] := .of_eq rfl ht.current_eq fun x => by rw [ht.fetched_eq]
    exact ⟨[], .of_roused hw hp (.setWorker h (.refl _) hi)⟩
  case tellProducer i target c ws ps p p' hw hp hi ht =>
    let r : Sink α := { s with workers := ws, producers := ps }
    have hi : r.producers[i]? = some p := hi
    have ⟨l, h⟩ : ∃ l, r.Posts (r.setProducer i p') l :=
      posts_setProducer (.refl _) hi rfl fun x => by rw [ht.put_eq]
    exact ⟨l, h.of_roused hw hp⟩
  case tellOwner c ws ps o' hw hp ht =>
    let r : Sink α := { s with workers := ws, producers := ps }
    have h : r.Posts (r.setOwner o') [] :=
      .of_same rfl (by simp) ⟨rfl, rfl, rfl⟩ rfl rfl rfl
    exact ⟨[], h.of_roused hw hp⟩
  case finish i y v hi =>
    have h : Worker.Posts s (s.record (.ended y v)) (.working y) (.finished v) [.ended y v] :=
      ⟨rfl, by simp, rfl, fun x => Nat.add_comm .., fun x => ⟨0, (Nat.zero_add _).symm, .inl rfl⟩⟩
    have h : s.Posts ((s.record (.ended y v)).setWorker i (.finished v)) [.ended y v] :=
      .setWorker h ⟨rfl, rfl, rfl, rfl⟩ hi
    exact ⟨_, h⟩

end Inference
