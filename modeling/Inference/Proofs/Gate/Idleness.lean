import Inference.Proofs.Gate.Circulation
import Inference.Proofs.Gate.Stopping

/-!
Whether what waits in the lanes is idle. An opening makes a ticket of every instance, also of one
that a call from before the last shutting has a ticket of and uses, or is going to use. If two such
calls meet, or such a call and a lane, then the instance is in a lane while it is used, or a call
waits until another one is done. It does not happen otherwise.
-/

namespace Inference

namespace Stage

-- Uses an instance, or has come to it.
def isEngaged : Stage → Bool
  | waiting .. | inside .. => true
  | _ => false

theorem isEngaged_afterPop (x : Input) (c : Caller Ticket) : (afterPop x c).isEngaged = false := by
  cases c
  case returned a => cases a <;> first | rfl | (rename_i y; cases y <;> rfl)
  all_goals rfl

theorem isEngaged_afterAsk (lane : ℕ) (todo : List Task) (o : Outcome) (c : Caller Ticket) :
    (afterAsk lane todo o c).isEngaged = false := by
  cases c <;> rfl

theorem mem_tickets_waiting (x : Input) (t : Ticket) : t ∈ (waiting x t).tickets :=
  List.mem_singleton.mpr rfl

theorem mem_tickets_inside (x : Input) (t : Ticket) : t ∈ (inside x t).tickets :=
  List.mem_singleton.mpr rfl

end Stage

namespace Gate

-- Nobody uses an instance that is in a lane, or that a call has come to and waits for.
structure Idle (g : Gate) : Prop where
  free      : ∀ x u t, .inside x u ∈ g.calls → t ∈ g.held → u.handle ≠ t.handle
  unawaited : ∀ x u y t, .inside x u ∈ g.calls → .waiting y t ∈ g.calls → u.handle ≠ t.handle

-- Two tickets of an instance meet that are not of the same generation.
inductive Crosses (g : Gate) : Action → Prop
  -- A ticket is put into its lane, and the instance is used with an older one.
  | put {x u t a} : g.Puts a t → .inside x u ∈ g.calls → u.handle = t.handle →
      u.generation < t.generation → Crosses g a
  -- An instance begins to be used, and its lane has a later ticket.
  | enter {i x u t} : g.calls[i]? = some (.waiting x u) → t ∈ g.held → u.handle = t.handle →
      u.generation < t.generation → Crosses g (.step i)
  -- It begins to be used, and another call waits for it with another ticket.
  | overtake {i x u y t} : g.calls[i]? = some (.waiting x u) → .waiting y t ∈ g.calls →
      u.handle = t.handle → u.generation ≠ t.generation → Crosses g (.step i)
  -- A call comes to an instance that is used with another ticket.
  | want {i x u y t} : g.isOpen → g.calls[i]? = some (.holding y t) → .inside x u ∈ g.calls →
      u.handle = t.handle → u.generation ≠ t.generation → Crosses g (.step i)

variable {g g' : Gate} {s s' r : Stage} {i j l : ℕ} {x : Input} {t u : Ticket} {a : Action}

theorem mem_held_iff : t ∈ g.held ↔ 0 < g.stored t := by
  rw [← count_held, List.count_pos_iff]

section Apart

theorem count_le_census (hi : g.calls[i]? = some s) : s.tickets.count t ≤ g.census t :=
  Nat.le_trans (le_tally (f := fun s => s.tickets.count t) hi) (Nat.le_add_left ..)

-- A ticket that a call has is older than the one in the lane.
theorem Apart.lt_of_held (hg : g.Apart) (hi : g.calls[i]? = some s) (hu : u ∈ s.tickets)
    (ht : t ∈ g.held) (hh : u.handle = t.handle) : u.generation < t.generation := by
  have ht := mem_held_iff.mp ht
  have hu := List.count_pos_iff.mpr hu
  have hc := count_le_census (t := u) hi
  refine (hg.latest u t (by omega) ht hh).resolve_left ?_
  intro he
  subst he
  have := hg.once u
  have := le_tally (f := fun s => s.tickets.count u) hi
  rw [census] at *
  omega

theorem Apart.ne_of_calls (hg : g.Apart) (hi : g.calls[i]? = some s) (hj : g.calls[j]? = some r)
    (hij : i ≠ j) (hu : u ∈ s.tickets) (ht : t ∈ r.tickets) (hh : u.handle = t.handle) :
    u.generation ≠ t.generation := by
  intro hG
  have he : u = t := by
    cases u
    cases t
    exact congr (congrArg _ hh) hG
  subst he
  have := hg.once u
  have hu := List.count_pos_iff.mpr hu
  have ht := List.count_pos_iff.mpr ht
  have := add_le_tally (f := fun s => s.tickets.count u) hi hj hij
  rw [census] at *
  omega

theorem Apart.ne_of_awaited {y : Input} (hg : g.Apart) (hi : g.calls[i]? = some (.inside x u))
    (hj : g.calls[j]? = some (.waiting y t)) (hh : u.handle = t.handle) :
    i ≠ j ∧ u.generation ≠ t.generation := by
  have hij : i ≠ j := by
    intro hij
    subst hij
    cases hi.symm.trans hj
  exact ⟨hij, hg.ne_of_calls hi hj hij (Stage.mem_tickets_inside x u)
    (Stage.mem_tickets_waiting y t) hh⟩

end Apart

theorem isEngaged_accept (g : Gate) (x : Input) : (g.accept x).isEngaged = false := by
  rw [accept]
  split
  · rfl
  · split
    · rfl
    · dsimp only
      split <;> rfl

-- How a call comes to an instance, and how it begins to use it.
theorem Fares.engaged (h : g.Fares a i s s') : s' = s ∨
    (∃ x t, a = .step i ∧ g.isOpen ∧ s = .holding x t ∧ s' = .waiting x t) ∨
    (∃ x t, a = .step i ∧ s = .waiting x t ∧ s' = .inside x t) ∨ s'.isEngaged = false := by
  cases h
  case stays   => exact .inl rfl
  case woken   => cases s <;> first | exact .inl rfl | exact .inr <| .inr <| .inr rfl
  case replied => exact .inr <| .inr <| .inr rfl
  case tells h =>
    right; right; right
    cases h
    case pop => exact Stage.isEngaged_afterPop ..
    case ask => exact Stage.isEngaged_afterAsk ..
  case moves ha h =>
    cases h
    case keep x t ho => exact .inr <| .inl ⟨x, t, ha, ho, rfl, rfl⟩
    case enter x t _ => exact .inr <| .inr <| .inl ⟨x, t, ha, rfl, rfl⟩
    all_goals right; right; right
    case accept x    => exact g.isEngaged_accept x
    case pop         => exact Stage.isEngaged_afterPop ..
    case ask         => exact Stage.isEngaged_afterAsk ..
    all_goals rfl

-- Every call was there before a step, or has just begun.
theorem Step.origin (h : g.Step a g') (hi : g'.calls[i]? = some s') :
    (∃ s, g.calls[i]? = some s ∧ g.Fares a i s s') ∨ s'.isEngaged = false := by
  cases hs : g.calls[i]?
  case some s =>
    have ⟨r, hr, hf⟩ := h.fares hs
    cases hi.symm.trans hr
    exact .inl ⟨s, rfl, hf⟩
  case none =>
    have hl := List.getElem?_eq_none_iff.mp hs
    have hadd {s : Stage} (hn : s.isEngaged = false) (h : (g.addCall s).calls[i]? = some s') :
        s'.isEngaged = false := by
      rw [addCall, List.getElem?_append_right hl] at h
      exact List.mem_singleton.mp (List.mem_of_getElem? h) ▸ hn
    have hset {l : List Stage} {j : ℕ} {r : Stage} (hn : l.length = g.calls.length) :
        (l.set j r)[i]? = none := by
      rw [List.getElem?_eq_none_iff, List.length_set, hn]
      exact hl
    cases h
    case process     => exact .inr <| hadd rfl hi
    case «open»      => exact .inr <| hadd rfl hi
    case shut        => exact .inr <| hadd rfl hi
    case create      => cases hs.symm.trans hi
    case move hm     => cases (hset (hm.calls ▸ rfl)).symm.trans hi
    case notify hr _ _ => cases (hset (List.Forall₂.length_eq hr).symm).symm.trans hi
    case finish      => cases (hset rfl).symm.trans hi

theorem Step.waiting (h : g.Step a g') (hi : g'.calls[i]? = some (.waiting x t)) :
    g.calls[i]? = some (.waiting x t) ∨
      a = .step i ∧ g.isOpen ∧ g.calls[i]? = some (.holding x t) := by
  have ⟨s, hs, hf⟩ := (h.origin hi).resolve_right (by simp [Stage.isEngaged])
  rcases hf.engaged with he | ⟨_, _, ha, ho, rfl, he⟩ | ⟨_, _, _, _, he⟩ | he
  · exact .inl (he ▸ hs)
  · cases he
    exact .inr ⟨ha, ho, hs⟩
  · cases he
  · cases he

theorem Step.inside (h : g.Step a g') (hi : g'.calls[i]? = some (.inside x t)) :
    g.calls[i]? = some (.inside x t) ∨ a = .step i ∧ g.calls[i]? = some (.waiting x t) := by
  have ⟨s, hs, hf⟩ := (h.origin hi).resolve_right (by simp [Stage.isEngaged])
  rcases hf.engaged with he | ⟨_, _, _, _, _, he⟩ | ⟨_, _, ha, rfl, he⟩ | he
  · exact .inl (he ▸ hs)
  · cases he
  · cases he
    exact .inr ⟨ha, hs⟩
  · cases he

namespace Idle

theorem loaded (g : Gate) (size : ℕ) : (g.emptied.loaded size).Idle where
  free _ _ _ h      := absurd h List.not_mem_nil
  unawaited _ _ _ _ h := absurd h List.not_mem_nil

theorem step (hg : g.Idle) (h : g.Step a g') (hc : g.Circulates a g')
    (ha' : g'.Apart) (hn : ¬g.Crosses a) : g'.Idle where
  free x u t hu ht hh := by
    have ⟨i, hi⟩ := List.mem_iff_getElem?.mp hu
    have hlt := ha'.lt_of_held hi (Stage.mem_tickets_inside x u) ht hh
    have hp := hc.put t <| mem_held_iff.mp ht
    rw [← mem_held_iff] at hp
    cases h.inside hi
    case inl hi =>
      have hu := List.mem_of_getElem? hi
      cases hp
      case inl ht => exact hg.free x u t hu ht hh
      case inr hp => exact hn <| .put hp.right hu hh hlt
    case inr hi =>
      obtain ⟨rfl, hi⟩ := hi
      cases hp
      case inl ht => exact hn <| .enter hi ht hh hlt
      case inr hp =>
        have ⟨_, _, _, _, _, he, hj, _⟩ := hp.right
        cases he
        cases hi.symm.trans hj
  unawaited x u y t hu ht hh := by
    have ⟨i, hi⟩ := List.mem_iff_getElem?.mp hu
    have ⟨j, hj⟩ := List.mem_iff_getElem?.mp ht
    have ⟨hij, hne⟩ := ha'.ne_of_awaited hi hj hh
    cases h.inside hi
    case inl hi =>
      have hu := List.mem_of_getElem? hi
      cases h.waiting hj
      case inl hj => exact hg.unawaited x u y t hu (List.mem_of_getElem? hj) hh
      case inr hj =>
        obtain ⟨rfl, ho, hj⟩ := hj
        exact hn <| .want ho hj hu hh hne
    case inr hi =>
      obtain ⟨rfl, hi⟩ := hi
      cases h.waiting hj
      case inl hj => exact hn <| .overtake hi (List.mem_of_getElem? hj) hh hne
      case inr hj => exact hij (Action.step.inj hj.left)

end Idle

theorem Apart.idle (ha : g.Apart) (hk : g.Kept)
    (hc : ∀ t ∈ g.checkouts, t.generation = g.generation) : g.Idle where
  free x u t hu ht hh := by
    have ⟨i, hi⟩ := List.mem_iff_getElem?.mp hu
    have hlt := ha.lt_of_held hi (Stage.mem_tickets_inside x u) ht hh
    have hG := hc u <| List.mem_flatMap.mpr ⟨_, hu, Stage.mem_tickets_inside x u⟩
    have hf := hk.fresh t (hG ▸ hlt)
    have ht := mem_held_iff.mp ht
    have := stored_le_census (g := g) (t := t)
    omega
  unawaited x u y t hu ht hh := by
    have ⟨i, hi⟩ := List.mem_iff_getElem?.mp hu
    have ⟨j, hj⟩ := List.mem_iff_getElem?.mp ht
    have hu := hc u <| List.mem_flatMap.mpr ⟨_, hu, Stage.mem_tickets_inside x u⟩
    have ht := hc t <| List.mem_flatMap.mpr ⟨_, ht, Stage.mem_tickets_waiting y t⟩
    exact (ha.ne_of_awaited hi hj hh).right (hu.trans ht.symm)

theorem moves_act {s : Stage} (h : g.act (.step i) = some g') (hi : g.calls[i]? = some s) :
    ∃ g₁ s', g.Moves s g₁ s' ∧ g' = g₁.setCall i s' := by
  have ⟨_, g₁, s', hs, hm, hg⟩ := moves_step h
  cases hi.symm.trans hs
  exact ⟨g₁, s', hm, hg⟩

theorem Sound.serves_push {lane : ℕ} {c c' : Caller Ticket} {todo : List Task} {o : Outcome}
    {q q' : Queue Ticket} (hs : g.Sound)
    (hi : g.calls[i]? = some (.working (.ask lane c :: todo) o))
    (hl : c.lock? q = some (q', c')) (hc : c.cargo = [t]) : c.Serves (.push t) := by
  cases (agenda_eq hi hs.alone ▸ hs.agenda).ask
  case inl ht => cases ht.cargo.symm.trans hc
  case inr hp =>
    have ⟨t', hp, _⟩ := hp
    cases (Caller.lock?_cargo hp hl).symm.trans hc
    exact hp

theorem mem_held_setLane {q q' : Queue Ticket} (hq : g.lanes[l]? = some q) (ht : t ∈ q'.items) :
    t ∈ (g.setLane l q').held := by
  refine List.mem_flatMap.mpr ⟨q', ?_, ht⟩
  exact List.mem_set ((List.getElem?_eq_some_iff.mp hq).choose) q'

theorem Crosses.not_idle (hc : g.Crosses a) (h : g.act a = some g') (hs : g.Sound) : ¬g'.Idle := by
  intro hg
  cases hc
  case put x u t hu hh _ hp =>
    have ⟨i, lane, c, todo, o, ha, hi, hc⟩ := hp
    subst ha
    have ⟨g₁, s', hm, hg'⟩ := moves_act h hi
    subst hg'
    cases hm
    case ask q q' c' hq hl =>
      have ⟨hq', _⟩ := Caller.lock?_push_unbounded (hs.serves_push hi hl hc)
        (hs.unbounded _ <| List.mem_of_getElem? hq) hl
      have ht : t ∈ q'.items := by simp [hq']
      exact hg.free x u t (mem_set_of_ne hu hi (by simp)) (mem_held_setLane hq ht) hh
  case enter i x u t hi ht hh _ =>
    have ⟨g₁, s', hm, hg'⟩ := moves_act h hi
    subst hg'
    cases hm
    case enter =>
      exact hg.free x u t (List.mem_set (List.getElem?_eq_some_iff.mp hi).choose _) ht hh
  case overtake i x u y t hi ht hh hne =>
    have ⟨g₁, s', hm, hg'⟩ := moves_act h hi
    subst hg'
    cases hm
    case enter =>
      have hy : Stage.waiting y t ≠ .waiting x u := by
        intro he
        cases he
        exact hne rfl
      exact hg.unawaited x u y t (List.mem_set (List.getElem?_eq_some_iff.mp hi).choose _)
        (mem_set_of_ne ht hi hy) hh
  case want i x u y t ho hi hu hh _ =>
    have ⟨g₁, s', hm, hg'⟩ := moves_act h hi
    subst hg'
    cases hm
    case keep =>
      exact hg.unawaited x u y t (mem_set_of_ne hu hi (by simp))
        (List.mem_set (List.getElem?_eq_some_iff.mp hi).choose _) hh
    case refuse ho' => exact Bool.noConfusion (ho'.symm.trans ho)

-- Whatever the calls do and in whatever order: as long as no two tickets cross, nothing is used
-- that is in a lane or that a call waits for; this ends exactly when two tickets cross. And nothing
-- is, while no call has a ticket from before the last shutting.
theorem idle_iff_uncrossed (g₀ : Gate) (size : ℕ) :
    (∀ g, machine.ReachesBy (fun g a => ¬g.Crosses a) (g₀.emptied.loaded size) g → g.Idle) ∧
    (∀ g g' a, machine.Reaches (g₀.emptied.loaded size) g → g.Idle → g.act a = some g' →
      (g'.Idle ↔ ¬g.Crosses a)) ∧
    ∀ g, machine.Reaches (g₀.emptied.loaded size) g →
      (∀ t ∈ g.checkouts, t.generation = g.generation) → g.Idle := by
  have hstep {g g' a} (hr : machine.Reaches (g₀.emptied.loaded size) g) (hg : g.Idle)
      (h : g.act a = some g') : g'.Idle ↔ ¬g.Crosses a := by
    have ⟨hs, hk, _⟩ := reaches_apart hr
    have ⟨_, _, ha⟩ := reaches_apart (.step hr h)
    have h' := step_of_act h
    exact ⟨fun hg' hc => hc.not_idle h hs hg', hg.step h' (h'.circulates hs hk) ha⟩
  refine ⟨fun g hr => ?_, fun g g' a => hstep, fun g hr hc => ?_⟩
  case refine_1 =>
    have h := hr.preserves (I := fun g => machine.Reaches (g₀.emptied.loaded size) g ∧ g.Idle)
      ⟨.refl, .loaded g₀ size⟩ fun ⟨hr, hg⟩ hn h => ⟨.step hr h, (hstep hr hg h).mpr hn⟩
    exact h.right
  case refine_2 =>
    have ⟨_, hk, ha⟩ := reaches_apart hr
    exact ha.idle hk hc

-- A call uses the only instance.
def used : Gate :=
  { (unloaded false).emptied.loaded 1 with
    isOpen := true
    calls := [.returned .done, .inside (.blank 0) ⟨0, 1⟩] }

-- The gate was shut meanwhile, and is about to be opened again.
def overlapping : Gate :=
  { used with
    isOpen := false
    generation := 2
    calls := used.calls ++
      [.returned .done, .working [.ask 0 (.entering (.push ⟨0, 2⟩)), .open] .done] }

theorem reaches_used : machine.Reaches ((unloaded false).emptied.loaded 1) used :=
  .of_run [.open, .step 0, .step 0, .step 0, .notify 0 none, .step 0, .step 0, .step 0,
    .notify 0 none, .step 0, .step 0, .process (.blank 0), .step 1, .step 1, .notify 1 none,
    .step 1, .step 1] (by cbv)

theorem reaches_overlapping : machine.Reaches used overlapping :=
  .of_run [.shut, .step 2, .step 2, .step 2, .step 2, .notify 2 none, .notify 2 none, .step 2,
    .notify 2 none, .step 2, .open, .step 3, .step 3, .step 3, .notify 3 none, .step 3, .step 3]
    (by cbv)

-- No ticket crosses the one of the call, until the second opening has made one.
theorem opening_crosses_call :
    machine.Reaches ((unloaded false).emptied.loaded 1) used ∧ used.Idle ∧
      machine.Reaches used overlapping ∧ overlapping.Idle ∧
      ∃ h, overlapping.act (.step 3) = some h ∧ ¬h.Idle := by
  have ⟨_, hstep, hc⟩ := idle_iff_uncrossed (unloaded false) 1
  have hr := reaches_used.trans reaches_overlapping
  have hu : used.Idle := hc used reaches_used (by decide)
  have ho : overlapping.Idle := by
    constructor
    case free      => exact fun _ _ _ _ ht => absurd ht List.not_mem_nil
    case unawaited => simp [overlapping, used]
  have hx : overlapping.Crosses (.step 3) :=
    .put ⟨3, 0, .entering (.push ⟨0, 2⟩), [.open], .done, rfl, rfl, rfl⟩
      (List.mem_cons_of_mem _ List.mem_cons_self) rfl (by decide)
  refine ⟨reaches_used, hu, reaches_overlapping, ho, _, rfl, fun hi => ?_⟩
  exact (hstep overlapping _ (.step 3) hr ho rfl).mp hi hx

-- The instance is in its lane while a call uses it, and the next call takes it and waits.
theorem busy_instance_waits :
    let g : Gate := { overlapping with
      lanes := [⟨.arrival, none, [⟨0, 2⟩], false⟩]
      isOpen := true
      calls := used.calls ++ [.returned .done, .returned .done] }
    let h : Gate := { overlapping with
      isOpen := true
      calls := g.calls ++ [.waiting (.blank 0) ⟨0, 2⟩] }
    machine.Reaches ((unloaded false).emptied.loaded 1) g ∧ g.available = 1 ∧ ¬g.Idle ∧
      machine.Reaches g h ∧ ¬h.Idle ∧ h.step 4 = none := by
  intro g h
  have hg : machine.Reaches overlapping g :=
    .of_run [.step 3, .notify 3 none, .step 3, .step 3] (by cbv)
  have hh : machine.Reaches g h :=
    .of_run [.process (.blank 0), .step 4, .step 4, .notify 4 none, .step 4] (by cbv)
  have hu (l : List Stage) : Stage.inside (.blank 0) ⟨0, 1⟩ ∈ used.calls ++ l :=
    List.mem_append_left _ <| List.mem_cons_of_mem _ List.mem_cons_self
  have hr := (reaches_used.trans reaches_overlapping).trans hg
  refine ⟨hr, rfl, fun hi => ?_, hh, fun hi => ?_, rfl⟩
  case refine_1 => exact hi.free _ ⟨0, 1⟩ ⟨0, 2⟩ (hu _) List.mem_cons_self rfl
  case refine_2 =>
    have hw : Stage.waiting (.blank 0) ⟨0, 2⟩ ∈ h.calls := by simp [h]
    exact hi.unawaited _ ⟨0, 1⟩ _ ⟨0, 2⟩ (List.mem_append_left _ <| hu _) hw rfl

end Gate
end Inference
