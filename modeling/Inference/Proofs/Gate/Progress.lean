import Inference.Proofs.Gate.Shutting

/-!
Where the calls of a gate stand when none of them can go on. A call that has the lifecycle never has
to wait, so nobody is left waiting for the lifecycle. What is left are calls that are parked at a
lane, calls at their instance or before one that is in use, and calls that have returned.
-/

namespace Inference

namespace Caller

variable {α : Type} {q q' : Queue α} {k k' : Caller α} {x : α}

-- A caller that can take its turn or has a notification to give.
def IsGoing : Caller α → Prop
  | entering _ | woken _ | notifying (_ :: _) _ => True
  | _ => False

theorem owing_cases (owed : List Wake) (a : Answer α) :
    (owing owed a).IsGoing ∨ owing owed a = returned a := by
  cases owed
  case nil  => exact .inr rfl
  case cons => exact .inl trivial

theorem IsGoing.wake (h : k.IsGoing) (c : Cond) : (k.wake c).IsGoing := by
  cases k
  case parked => exact h.elim
  all_goals exact h

-- Only a caller that wants an item waits at a queue without a bound.
theorem lock?_going (hk : k.Tends ∨ ∃ x, k.Serves (.push x)) (hq : q.capacity = none)
    (h : k.lock? q = some (q', k')) : k'.IsGoing ∨ ∃ a, k' = returned a := by
  rcases hk with (hk | hk | hk) | ⟨x, hk⟩
  · exact .inl <| (lock?_clear hk h).right.right ▸ trivial
  · exact .inl <| (lock?_close hk h).right ▸ trivial
  · exact .inr ⟨_, (lock?_reopen hk h).right⟩
  · cases lock?_push hk h
    case wait hf _   => simp [Queue.isFull, hq] at hf
    case bounce hc _ => simp [hq] at hc
    case put         => exact .inl trivial

end Caller

-- Is about a lane that is there, and a caller that can go on.
def Task.Live (n : ℕ) : Task → Prop
  | compare l _ => l < n
  | ask l c => l < n ∧ c.IsGoing
  | _ => True

namespace Stage

variable {lane : ℕ → ℕ} {n : ℕ}

def Live (lane : ℕ → ℕ) (n : ℕ) : Stage → Prop
  | popping x c => lane x.backendIndex < n ∧ (c.IsGoing ∨ c = .parked .pop .notEmpty)
  | holding x _ | waiting x _ | inside x _ => lane x.backendIndex < n
  | queued todo _ | working todo _ => ∀ a ∈ todo, a.Live n
  | _ => True

-- A call that can only go on by the help of another one, if at all.
inductive Rests : Stage → Prop
  | parked (x) : Rests (popping x (.parked .pop .notEmpty))
  | waiting (x t) : Rests (waiting x t)
  | inside (x t) : Rests (inside x t)
  | returned (o) : Rests (returned o)

theorem live_afterPop {x : Input} {c : Caller Ticket} (hx : lane x.backendIndex < n)
    (hc : (c.IsGoing ∨ c = .parked .pop .notEmpty) ∨ ∃ a, c = .returned a) :
    (afterPop x c).Live lane n := by
  cases c
  case returned a =>
    cases a
    case item y =>
      cases y
      case none   => trivial
      case some t => exact hx
    all_goals trivial
  all_goals exact ⟨hx, hc.resolve_right (by simp)⟩

theorem live_afterAsk {l : ℕ} {todo : List Task} {o : Outcome} {c : Caller Ticket} (hl : l < n)
    (hc : c.IsGoing ∨ ∃ a, c = .returned a) (ht : ∀ a ∈ todo, a.Live n) :
    (afterAsk l todo o c).Live lane n := by
  cases c
  case returned => exact ht
  all_goals exact List.forall_mem_cons.mpr ⟨⟨hl, hc.resolve_right (by simp)⟩, ht⟩

end Stage

namespace Gate

structure Live (g : Gate) : Prop where
  lanes : ∀ h < g.size, g.laneOf h < g.lanes.length
  calls : ∀ s ∈ g.calls, s.Live g.laneOf g.lanes.length

variable {g g' : Gate} {s s' : Stage} {i l : ℕ}

-- Whoever has the lifecycle and asks something of a lane does not want an item.
theorem Sound.asks {lane : ℕ} {c : Caller Ticket} {todo : List Task} (hs : g.Sound)
    (ha : g.agenda = .ask lane c :: todo) : c.Tends ∨ ∃ t, c.Serves (.push t) := by
  have h := hs.agenda
  rw [ha] at h
  exact h.ask.imp_right fun ⟨t, hc, _⟩ => ⟨t, hc⟩

theorem live_accept (g : Gate) (x : Input) : (g.accept x).Live g.laneOf g.lanes.length := by
  rw [accept]
  split
  · trivial
  · split
    · trivial
    · dsimp only
      split
      case isTrue hl  => exact ⟨hl, .inl trivial⟩
      case isFalse hl => trivial

theorem live_wakeStage {lane : ℕ → ℕ} {n : ℕ} (l : ℕ) (c : Cond) (h : s.Live lane n) :
    (g.wakeStage l c s).Live lane n := by
  cases s
  case popping x k =>
    rw [wakeStage]
    refine ⟨h.left, ?_⟩
    split
    · rcases h.right with h | rfl
      · exact .inl (h.wake c)
      · cases c
        · exact .inl trivial
        · exact .inr rfl
    · exact h.right
  all_goals exact h

theorem Live.opening (hg : g.Live) : ∀ a ∈ g.opening, a.Live g.lanes.length := by
  simp only [Gate.opening, List.forall_mem_append, List.mem_flatMap, List.mem_range, List.mem_cons,
    List.not_mem_nil, or_false]
  refine ⟨⟨?_, ?_⟩, ?_⟩
  · rintro _ ⟨l, hl, rfl | rfl⟩ <;> exact ⟨hl, trivial⟩
  · rintro _ ⟨h, hh, rfl | rfl⟩
    · trivial
    · exact ⟨hg.lanes h hh, trivial⟩
  · rintro _ rfl
    trivial

theorem live_shutting (g : Gate) : ∀ a ∈ g.shutting, a.Live g.lanes.length := by
  simp only [shutting, List.forall_mem_append, List.mem_flatMap, List.mem_range, List.mem_cons,
    List.not_mem_nil, or_false]
  refine ⟨?_, ?_⟩
  · rintro _ (rfl | rfl) <;> trivial
  · rintro _ ⟨l, hl, rfl | rfl⟩ <;> exact ⟨hl, trivial⟩

theorem live_giveBack {x : Input} (t : Ticket) (o : Outcome)
    (h : g.laneOf x.backendIndex < g.lanes.length) :
    (g.giveBack x t o).Live g.laneOf g.lanes.length :=
  List.forall_mem_singleton.mpr h

-- The parts of a gate that no call changes.
theorem Moves.frame (h : g.Moves s g' s') :
    g'.size = g.size ∧ g'.pinned = g.pinned ∧ g'.lanes.length = g.lanes.length := by
  cases h <;> simp [setLane]

theorem Moves.live_stage (h : g.Moves s g' s') (hs : g.Sound) (hg : g.Live)
    (hi : g.calls[i]? = some s) : s'.Live g.laneOf g.lanes.length := by
  have hm := List.mem_of_getElem? hi
  have hl := hg.calls s hm
  cases h
  case accept x => exact g.live_accept x
  case pop x c q q' c' hq hk =>
    refine Stage.live_afterPop hl.left ?_
    cases Caller.lock?_pop (hs.fits _ hm).left hk
    case miss => exact .inr ⟨_, rfl⟩
    case wait => exact .inl <| .inr rfl
    case take => exact .inl <| .inl trivial
  case keep   => exact hl
  case refuse => exact live_giveBack _ _ hl
  case enter  => exact hl
  case begin  => exact hl
  case leave  => trivial
  case plan   => exact List.forall_mem_append.mpr ⟨hg.opening, (List.forall_mem_cons.mp hl).right⟩
  case allow lane t todo o _ =>
    have hl := List.forall_mem_cons.mp hl
    exact List.forall_mem_cons.mpr ⟨⟨hl.left, trivial⟩, hl.right⟩
  case ask lane todo o c q q' c' hq hk =>
    have hl := List.forall_mem_cons.mp hl
    have hc := hs.asks (agenda_eq hi hs.alone)
    have hq := hs.unbounded _ <| List.mem_of_getElem? hq
    exact Stage.live_afterAsk hl.left.left (Caller.lock?_going hc hq hk) hl.right
  all_goals exact (List.forall_mem_cons.mp hl).right

theorem Tells.live {lane : ℕ → ℕ} {n : ℕ} (h : Tells s s') (hs : s.Live lane n) :
    s'.Live lane n := by
  cases h
  case pop x w owed a =>
    exact Stage.live_afterPop hs.left <| (Caller.owing_cases owed a).imp .inl fun h => ⟨a, h⟩
  case ask lane w owed a todo o =>
    have hs := List.forall_mem_cons.mp hs
    exact Stage.live_afterAsk hs.left.left
      ((Caller.owing_cases owed a).imp id fun h => ⟨a, h⟩) hs.right

namespace Live

theorem of_calls (hg : g.Live) {calls : List Stage}
    (h : ∀ s ∈ calls, s.Live g.laneOf g.lanes.length) : ({ g with calls } : Gate).Live :=
  ⟨hg.lanes, h⟩

theorem addCall (hg : g.Live) (hs : s.Live g.laneOf g.lanes.length) : (g.addCall s).Live :=
  hg.of_calls <| List.forall_mem_append.mpr ⟨hg.calls, List.forall_mem_singleton.mpr hs⟩

end Live

theorem Moves.live (h : g.Moves s g' s') (hs : g.Sound) (hg : g.Live)
    (hi : g.calls[i]? = some s) : (g'.setCall i s').Live := by
  have ⟨hz, hp, hn⟩ := h.frame
  have hl : g'.laneOf = g.laneOf := by
    funext index
    rw [laneOf, laneOf, hp]
  constructor
  case lanes =>
    change ∀ k < g'.size, g'.laneOf k < g'.lanes.length
    rw [hz, hl, hn]
    exact hg.lanes
  case calls =>
    change ∀ r ∈ g'.calls.set i s', r.Live g'.laneOf g'.lanes.length
    rw [h.calls, hl, hn]
    exact forall_mem_set _ hg.calls (h.live_stage hs hg hi)

theorem Step.live {a : Action} (h : g.Step a g') (hs : g.Sound) (hg : g.Live) : g'.Live := by
  cases h
  case process    => exact hg.addCall trivial
  case «open»     => exact hg.addCall <| List.forall_mem_singleton.mpr trivial
  case shut       => exact hg.addCall g.live_shutting
  case create     => exact ⟨hg.lanes, hg.calls⟩
  case move hi hm => exact hm.live hs hg hi
  case notify l hr hi ht =>
    have hl : ∀ s ∈ l, s.Live g.laneOf g.lanes.length :=
      hr.forall_mem (fun _ => live_wakeStage _ _) hg.calls
    exact hg.of_calls <| forall_mem_set _ hl <| ht.live <| hl _ <| List.mem_of_getElem? hi
  case finish hi =>
    have hl := hg.calls _ <| List.mem_of_getElem? hi
    exact hg.of_calls <| forall_mem_set _ hg.calls <| live_giveBack _ _ hl

theorem live_loaded (g : Gate) (size : ℕ) : (g.emptied.loaded size).Live where
  lanes := by
    intro h hh
    simp only [loaded, laneOf, emptied, unloaded, List.length_replicate] at hh ⊢
    by_cases hp : g.pinned <;> simp [hp, hh]
  calls := by simp [loaded, emptied, unloaded]

-- Nobody can go on, unless an instance replies.
def AtRest (g : Gate) : Prop := ∀ i, g.step i = none ∧ ∀ target, g.notify i target = none

theorem exists_wake (g : Gate) (lane : ℕ) (w : Wake) :
    ∃ target g', g.wake lane w target = some g' := by
  cases w
  case all c => exact ⟨none, _, rfl⟩
  case one c =>
    by_cases h : ∃ s ∈ g.calls, g.isParkedAt lane c s
    case neg => exact ⟨none, g, by simpa [wake] using h⟩
    case pos =>
      obtain ⟨s, hs, hp⟩ := h
      obtain ⟨j, hj⟩ := List.mem_iff_getElem?.mp hs
      exact ⟨some j, _, if_pos (by simp [hj, hp])⟩

namespace AtRest

theorem not_going_popping {x : Input} {c : Caller Ticket} (hr : g.AtRest)
    (hi : g.calls[i]? = some (.popping x c)) (hx : g.laneOf x.backendIndex < g.lanes.length) :
    ¬c.IsGoing := by
  intro hc
  have hq := List.getElem?_eq_getElem hx
  cases c
  case entering | woken => simpa [step, hi, hq, Caller.lock?] using (hr i).left
  case notifying owed a =>
    cases owed
    case nil => exact hc
    case cons w owed =>
      obtain ⟨target, g', hw⟩ := g.exists_wake (g.laneOf x.backendIndex) w
      simpa [notify, hi, Caller.notify?, hw] using (hr i).right target
  all_goals exact hc

theorem not_going_working {lane : ℕ} {c : Caller Ticket} {todo : List Task} {o : Outcome}
    (hr : g.AtRest) (hi : g.calls[i]? = some (.working (.ask lane c :: todo) o))
    (hl : lane < g.lanes.length) : ¬c.IsGoing := by
  intro hc
  have hq := List.getElem?_eq_getElem hl
  cases c
  case entering | woken => simpa [step, hi, stepTask, hq, Caller.lock?] using (hr i).left
  case notifying owed a =>
    cases owed
    case nil => exact hc
    case cons w owed =>
      obtain ⟨target, g', hw⟩ := g.exists_wake lane w
      simpa [notify, hi, Caller.notify?, hw] using (hr i).right target
  all_goals exact hc

theorem not_working (hr : g.AtRest) (hg : g.Live) : g.calls.any (·.isWorking) = false := by
  rw [List.any_eq_false]
  intro s hs hw
  have ⟨i, hi⟩ := List.mem_iff_getElem?.mp hs
  have hl := hg.calls s hs
  have hn := (hr i).left
  cases s
  case working todo o =>
    cases todo
    case nil => simp [step, hi] at hn
    case cons a todo =>
      cases a
      case ask lane c =>
        have hl := (List.forall_mem_cons.mp hl).left
        exact hr.not_going_working hi hl.left hl.right
      all_goals simp [step, hi, stepTask] at hn
  all_goals simp [Stage.isWorking] at hw

theorem rests (hr : g.AtRest) (hg : g.Live) (hi : g.calls[i]? = some s) : s.Rests := by
  have hl := hg.calls s <| List.mem_of_getElem? hi
  have hn := (hr i).left
  have hw := hr.not_working hg
  cases s
  case popping x c =>
    obtain rfl := hl.right.resolve_left (hr.not_going_popping hi hl.left)
    exact .parked x
  case waiting x t   => exact .waiting x t
  case inside x t    => exact .inside x t
  case returned o    => exact .returned o
  case working       => exact absurd rfl <| List.any_eq_false.mp hw _ <| List.mem_of_getElem? hi
  all_goals simp_all [step]

end AtRest

end Gate
end Inference
