import Inference.Proofs.Gate.Agenda

/-!
Where the calls of a gate can stand. At most one of them has the lifecycle, and every ticket is in
its own lane or goes there.
-/

namespace Inference

-- The tickets of a call belong to the lane of its input.
def Stage.Fits (lane : ℕ → ℕ) (n : ℕ) : Stage → Prop
  | popping x c => c.Serves .pop ∧ ∀ t ∈ c.cargo, lane t.handle = lane x.backendIndex
  | holding x t | waiting x t | inside x t => lane t.handle = lane x.backendIndex
  | queued todo _ => Gate.Errand lane n todo
  | _ => True

theorem Stage.fits_afterPop {lane : ℕ → ℕ} {n : ℕ} {x : Input} {c : Caller Ticket}
    (hc : c.Serves .pop) (ht : ∀ t ∈ c.cargo, lane t.handle = lane x.backendIndex) :
    (Stage.afterPop x c).Fits lane n := by
  cases c
  case returned a =>
    cases a
    case item y =>
      cases y
      case none   => trivial
      case some t => exact ht t (List.mem_singleton.mpr rfl)
    all_goals exact hc.elim
  all_goals exact ⟨hc, ht⟩

namespace Gate

structure Sound (g : Gate) : Prop where
  unbounded : ∀ q ∈ g.lanes, q.capacity = none
  sited     : ∀ l q, g.lanes[l]? = some q → ∀ t ∈ q.items, g.laneOf t.handle = l
  alone     : tally Stage.works g.calls ≤ 1
  fits      : ∀ s ∈ g.calls, s.Fits g.laneOf g.lanes.length
  agenda    : Agenda g.laneOf g.lanes.length g.generation g.isOpen g.agenda

variable {g g' : Gate} {s s' : Stage} {i l : ℕ} {q q' : Queue Ticket}

-- A call that may use the lifecycle is the only one with something to do.
theorem agenda_eq (hi : g.calls[i]? = some s) (hs : tally Stage.works g.calls ≤ s.works) :
    g.agenda = s.agenda := by
  have h := flatMap_set_of_tally_le (b := s) (fun _ => Stage.agenda_eq_nil) hi hs
  obtain ⟨_, rfl⟩ := List.getElem?_eq_some_iff.mp hi
  rwa [List.set_getElem_self] at h

theorem agenda_setCall (hi : g.calls[i]? = some s) (hs : tally Stage.works g.calls ≤ s.works) :
    (g.setCall i s').agenda = s'.agenda :=
  flatMap_set_of_tally_le (fun _ => Stage.agenda_eq_nil) hi hs

theorem agenda_setCall_idle (hi : g.calls[i]? = some s) (hs : s.works = 0) (hs' : s'.works = 0) :
    (g.setCall i s').agenda = g.agenda :=
  flatMap_set_of_eq hi <| by rw [Stage.agenda_eq_nil hs, Stage.agenda_eq_nil hs']

theorem agenda_addCall (hs : s.works = 0) : (g.addCall s).agenda = g.agenda := by
  simp [agenda, addCall, Stage.agenda_eq_nil hs]

theorem works_wakeStage (lane : ℕ) (c : Cond) : (g.wakeStage lane c s).works = s.works := by
  cases s <;> rfl

theorem agenda_wakeStage (lane : ℕ) (c : Cond) : (g.wakeStage lane c s).agenda = s.agenda := by
  cases s <;> rfl

theorem tickets_wakeStage (lane : ℕ) (c : Cond) : (g.wakeStage lane c s).tickets = s.tickets := by
  cases s
  case popping x k =>
    simp only [wakeStage, Stage.tickets]
    split
    · exact k.cargo_wake c
    · rfl
  all_goals rfl

theorem fits_wakeStage {lane : ℕ → ℕ} {n : ℕ} (l : ℕ) (c : Cond) (h : s.Fits lane n) :
    (g.wakeStage l c s).Fits lane n := by
  cases s
  case popping x k =>
    simp only [wakeStage]
    split
    · exact ⟨h.left.wake, by simpa using h.right⟩
    · exact h
  all_goals exact h

theorem fits_accept (g : Gate) (x : Input) : (g.accept x).Fits g.laneOf g.lanes.length := by
  rw [accept]
  split
  · trivial
  · split
    · trivial
    · dsimp only
      split
      · exact ⟨rfl, by simp [Caller.cargo, Request.cargo]⟩
      · trivial

theorem works_accept (g : Gate) (x : Input) : (g.accept x).works = 0 := by
  rw [accept]
  split
  · rfl
  · split
    · rfl
    · dsimp only
      split <;> rfl

theorem tickets_accept (g : Gate) (x : Input) : (g.accept x).tickets = [] := by
  rw [accept]
  split
  · rfl
  · split
    · rfl
    · dsimp only
      split <;> rfl

theorem agenda_roused {l l' : List Stage} {lane : ℕ} {c : Cond}
    (h : Roused (g.wakeStage lane c) l l') :
    l'.flatMap Stage.agenda = l.flatMap Stage.agenda := by
  induction h
  case nil => rfl
  case cons h _ hi =>
    rw [List.flatMap_cons, List.flatMap_cons, hi]
    rcases h with rfl | rfl
    · rfl
    · rw [agenda_wakeStage]

theorem lanes_setLane {l' : ℕ} {q'' : Queue Ticket} (h : (g.setLane l q').lanes[l']? = some q'') :
    l' = l ∧ q'' = q' ∨ l' ≠ l ∧ g.lanes[l']? = some q'' := by
  simp only [setLane, List.getElem?_set] at h
  split at h
  case isTrue hl =>
    split at h <;> simp only [Option.some.injEq, reduceCtorEq] at h
    exact .inl ⟨hl.symm, h.symm⟩
  case isFalse hl => exact .inr ⟨Ne.symm hl, h⟩

namespace Sound

theorem roused {l : List Stage} {lane : ℕ} {c : Cond} (hg : g.Sound)
    (h : Roused (g.wakeStage lane c) g.calls l) : ({ g with calls := l } : Gate).Sound where
  unbounded := hg.unbounded
  sited     := hg.sited
  alone     := h.tally_eq (fun _ _ => works_wakeStage lane c) ▸ hg.alone
  fits      := h.forall_mem (fun _ => fits_wakeStage lane c) hg.fits
  agenda    := by
    change Agenda g.laneOf g.lanes.length g.generation g.isOpen (l.flatMap Stage.agenda)
    exact agenda_roused h ▸ hg.agenda

theorem addCall (hg : g.Sound) (hs : s.works = 0) (hf : s.Fits g.laneOf g.lanes.length) :
    (g.addCall s).Sound where
  unbounded := hg.unbounded
  sited     := hg.sited
  alone     := by simpa [Gate.addCall, hs] using hg.alone
  fits      := List.forall_mem_append.mpr ⟨hg.fits, List.forall_mem_singleton.mpr hf⟩
  agenda    := by
    rw [agenda_addCall hs]
    exact hg.agenda

theorem setLane (hg : g.Sound) (hq : g.lanes[l]? = some q) (hc : q'.capacity = q.capacity)
    (ht : ∀ t ∈ q'.items, g.laneOf t.handle = l) : (g.setLane l q').Sound where
  unbounded := forall_mem_set _ hg.unbounded (hc ▸ hg.unbounded _ (List.mem_of_getElem? hq))
  sited     := by
    intro l' q'' hq'
    rcases lanes_setLane hq' with ⟨rfl, rfl⟩ | ⟨_, hq'⟩
    · exact ht
    · exact hg.sited l' q'' hq'
  alone     := hg.alone
  fits      := by
    intro s hs
    simp only [Gate.setLane, List.length_set]
    exact hg.fits s hs
  agenda    := by
    simp only [Gate.setLane, List.length_set]
    exact hg.agenda

theorem recorded (hg : g.Sound) (indices : List ℕ) (cursor : ℕ) (made : List ℕ) :
    ({ g with indices, cursor, made } : Gate).Sound :=
  ⟨hg.unbounded, hg.sited, hg.alone, hg.fits, hg.agenda⟩

-- A call without the lifecycle goes on.
theorem idle (hg : g.Sound) (hi : g.calls[i]? = some s) (hs : s.works = 0) (hs' : s'.works = 0)
    (hf : s'.Fits g.laneOf g.lanes.length) : (g.setCall i s').Sound where
  unbounded := hg.unbounded
  sited     := hg.sited
  alone     := by
    have := tally_set (f := Stage.works) (b := s') hi
    have := hg.alone
    simp only [Gate.setCall]
    omega
  fits      := forall_mem_set _ hg.fits hf
  agenda    := by
    rw [agenda_setCall_idle hi hs hs']
    exact hg.agenda

-- A call with the lifecycle goes on.
theorem work {G : ℕ} {o : Bool} (hg : g.Sound) (hi : g.calls[i]? = some s)
    (hs : tally Stage.works g.calls ≤ s.works) (hf : s'.Fits g.laneOf g.lanes.length)
    (ha : Agenda g.laneOf g.lanes.length G o s'.agenda) :
    ({ g with isOpen := o, generation := G }.setCall i s').Sound where
  unbounded := hg.unbounded
  sited     := hg.sited
  alone     := by
    have := tally_set (f := Stage.works) (b := s') hi
    have := s'.works_le
    simp only [Gate.setCall]
    omega
  fits      := forall_mem_set _ hg.fits hf
  agenda    := by
    rw [agenda_setCall (g := { g with isOpen := o, generation := G }) hi hs]
    exact ha

theorem asked {lane : ℕ} {c c' : Caller Ticket} {todo : List Task} {o : Outcome} (hg : g.Sound)
    (hi : g.calls[i]? = some (.working (.ask lane c :: todo) o))
    (hc : ∀ r, c.Serves r → c'.Serves r) : (g.setCall i (.afterAsk lane todo o c')).Sound := by
  have ha := agenda_eq hi hg.alone ▸ hg.agenda
  rcases Stage.afterAsk_cases lane todo o c' with ⟨_, _, h⟩ | h
  · exact h ▸ hg.work hi hg.alone trivial ha.tail
  · exact h ▸ hg.work hi hg.alone trivial (ha.go hc)

theorem tells (hg : g.Sound) (hi : g.calls[i]? = some s) (h : Tells s s') :
    (g.setCall i s').Sound := by
  cases h
  case pop x w owed a =>
    have ⟨hc, ht⟩ := hg.fits _ <| List.mem_of_getElem? hi
    refine hg.idle hi rfl (by simp) (Stage.fits_afterPop (hc.notify? rfl) ?_)
    exact Caller.cargo_owing owed a ▸ ht
  case ask => exact hg.asked hi fun _ h => h.notify? rfl

theorem locked {lane : ℕ} {c c' : Caller Ticket} {todo : List Task} {o : Outcome} (hg : g.Sound)
    (hi : g.calls[i]? = some (.working (.ask lane c :: todo) o)) (hq : g.lanes[lane]? = some q)
    (hl : c.lock? q = some (q', c')) :
    ((g.setLane lane q').setCall i (.afterAsk lane todo o c')).Sound := by
  have ha := agenda_eq hi hg.alone ▸ hg.agenda
  have hs := hg.sited _ _ hq
  refine (hg.setLane hq (Caller.lock?_capacity hl) fun t ht => ?_).asked hi fun _ h => h.lock? hl
  rcases ha.ask with hc | ⟨t', hc, ht', _⟩
  case inl =>
    rcases hc.lock? hl with ⟨_, hq'⟩ | hq' <;> rw [hq'] at ht
    · simp at ht
    · exact hs t ht
  case inr =>
    rw [(Caller.lock?_push_unbounded hc (hg.unbounded _ (List.mem_of_getElem? hq)) hl).left] at ht
    rcases List.mem_append.mp ht with ht | ht
    · exact hs t ht
    · exact List.mem_singleton.mp ht ▸ ht'

end Sound

theorem fits_giveBack {x : Input} {t : Ticket} (o : Outcome)
    (h : g.laneOf t.handle = g.laneOf x.backendIndex) :
    (g.giveBack x t o).Fits g.laneOf g.lanes.length := by
  rw [giveBack, ← h]
  exact .give t

theorem Moves.sound (h : g.Moves s g' s') (hg : g.Sound) (hi : g.calls[i]? = some s) :
    (g'.setCall i s').Sound := by
  have hf := hg.fits _ <| List.mem_of_getElem? hi
  have ha (hs : s.works = 1) := agenda_eq hi (hs ▸ hg.alone) ▸ hg.agenda
  cases h
  case accept x => exact hg.idle hi rfl (g.works_accept x) (g.fits_accept x)
  case pop x c q q' c' hq hl =>
    have hp := Caller.lock?_pop_perm hf.left hl
    have ht : ∀ t ∈ c'.cargo ++ q'.items, g.laneOf t.handle = g.laneOf x.backendIndex :=
      fun t ht => hg.sited _ _ hq t (hp.mem_iff.mpr ht)
    rw [List.forall_mem_append] at ht
    refine (hg.setLane hq (Caller.lock?_capacity hl) ht.right).idle hi rfl (by simp) ?_
    exact Stage.fits_afterPop (hf.left.lock? hl) ht.left
  case keep       => exact hg.idle hi rfl rfl hf
  case refuse     => exact hg.idle hi rfl rfl (fits_giveBack _ hf)
  case enter      => exact hg.idle hi rfl rfl hf
  case begin hw   =>
    have : tally Stage.works g.calls = 0 :=
      tally_eq_zero_iff.mpr fun s hs => by simp_all [Stage.works]
    exact hg.work hi (by omega) trivial (.errand hf)
  case leave      => exact hg.work hi hg.alone trivial .done
  case skip       => exact hg.work hi hg.alone trivial ((ha rfl).check ▸ .done)
  case plan hs    =>
    rw [(ha rfl).check, List.append_nil]
    exact hg.work hi hg.alone trivial (.opening hs g.opening_opening)
  case allow ht   =>
    obtain ⟨rfl, rfl⟩ := (ha rfl).compare
    exact hg.work hi hg.alone trivial (.returning rfl ht)
  case drop       => exact hg.work hi hg.alone trivial ((ha rfl).compare.right ▸ .done)
  case ask hq hl  => exact hg.locked hi hq hl
  case assign h' index _ _ =>
    have hg' := hg.recorded (g.indices.set h' index) g.cursor g.made
    exact hg'.work hi hg.alone trivial (ha rfl).assign
  case «open»     => exact hg.work hi hg.alone trivial ((ha rfl).open ▸ .done)
  case shut       =>
    obtain ⟨tend, rfl, ht, hc⟩ := (ha rfl).shut
    exact hg.work hi hg.alone trivial (.advancing rfl ht hc)
  case advance    =>
    obtain ⟨ho, ht, _⟩ := (ha rfl).advance
    exact hg.work hi hg.alone trivial (.tidying ho ht)

theorem Step.sound {a : Action} (h : g.Step a g') (hg : g.Sound) : g'.Sound := by
  cases h
  case process      => exact hg.addCall rfl trivial
  case «open»       => exact hg.addCall rfl .open
  case shut         => exact hg.addCall rfl g.errand_shutting
  case create       => exact hg.recorded ..
  case move hi hm   => exact hm.sound hg hi
  case notify hi ht => exact (hg.roused ‹_›).tells hi ht
  case finish hi    =>
    exact hg.idle hi rfl rfl (fits_giveBack _ (hg.fits _ <| List.mem_of_getElem? hi))

end Gate
end Inference
