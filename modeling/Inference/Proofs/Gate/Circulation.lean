import Inference.Proofs.Gate.Instances

/-!
How tickets go round. Only an opening makes tickets, those of its generation, while nothing waits in
the lanes; and only tickets of the generation of the gate are put into lanes. So no ticket is about
twice, of whatever generation it is, and a ticket that waits in a lane is the latest one of its
instance.
-/

namespace Inference.Gate

variable {g g' : Gate} {s s' : Stage} {i l : ℕ} {q q' : Queue Ticket} {t : Ticket} {a : Action}

-- A call that has the lifecycle goes on to put a ticket into a lane.
def Puts (g : Gate) (a : Action) (t : Ticket) : Prop :=
  ∃ i lane c todo o, a = .step i ∧ g.calls[i]? = some (.working (.ask lane c :: todo) o) ∧
    c.cargo = [t]

theorem census_setCall_le (hi : g.calls[i]? = some s)
    (ht : s'.tickets.count t ≤ s.tickets.count t) : (g.setCall i s').census t ≤ g.census t := by
  have := census_setCall hi s' t
  omega

structure Circulates (g : Gate) (a : Action) (g' : Gate) : Prop where
  made : (∀ t, g'.census t ≤ g.census t) ∨
    (∀ t, g'.stored t = 0) ∧ ∀ t, t.generation ≠ g'.generation → g'.census t ≤ g.census t
  put  : ∀ t, 0 < g'.stored t → 0 < g.stored t ∨ t.generation = g'.generation ∧ g.Puts a t

namespace Circulates

theorem of_le (hc : ∀ t, g'.census t ≤ g.census t) (hs : ∀ t, g'.stored t ≤ g.stored t) :
    g.Circulates a g' where
  made := .inl hc
  put  := fun t ht => .inl <| Nat.lt_of_lt_of_le ht (hs t)

-- A call gets rid of tickets, at most.
theorem call (hl : g'.lanes = g.lanes) (hc : g'.calls = g.calls) (hi : g.calls[i]? = some s)
    (ht : ∀ t, s'.tickets.count t ≤ s.tickets.count t) : g.Circulates a (g'.setCall i s') := by
  have hs (t) : g'.stored t = g.stored t := by rw [stored, stored, hl]
  have hg (t) : g'.census t = g.census t := by rw [census, census, hs, hc]
  exact of_le (fun t => hg t ▸ census_setCall_le (hc ▸ hi) (ht t)) fun t => Nat.le_of_eq (hs t)

theorem take (hi : g.calls[i]? = some s) (hq : g.lanes[l]? = some q)
    (hp : q.items.Perm (s'.tickets ++ q'.items)) :
    g.Circulates a ((g.setLane l q').setCall i s') := by
  have hc (t) : q.items.count t = s'.tickets.count t + q'.items.count t := by
    rw [hp.count_eq, List.count_append]
  refine of_le (fun t => ?_) fun t => ?_
  · have := census_setCall (g := g.setLane l q') hi s' t
    have := census_setLane hq q' t
    have := hc t
    omega
  · have := stored_setLane hq q' t
    have := hc t
    change (g.setLane l q').stored t ≤ g.stored t
    omega

theorem locked {lane : ℕ} {c c' : Caller Ticket} {todo : List Task} {o : Outcome} (hs : g.Sound)
    (hk : g.Kept) (hi : g.calls[i]? = some (.working (.ask lane c :: todo) o))
    (hq : g.lanes[lane]? = some q) (hl : c.lock? q = some (q', c')) :
    g.Circulates (.step i) ((g.setLane lane q').setCall i (.afterAsk lane todo o c')) := by
  have ⟨hc', ht, _⟩ := hk.locked_items hs hi hq hl
  have ha := (agenda_eq hi hs.alone ▸ hs.agenda).ask
  constructor
  case made =>
    refine .inl fun t => ?_
    have := census_setCall (g := g.setLane lane q') hi (.afterAsk lane todo o c') t
    have := census_setLane hq q' t
    have := (ht t).left
    simp only [Stage.tickets_afterAsk hc', Stage.tickets_working, List.flatMap_cons,
      Task.tickets_ask, List.count_append] at *
    omega
  case put =>
    intro t hp
    change 0 < (g.setLane lane q').stored t at hp
    have := stored_setLane hq q' t
    have := (ht t).left
    cases ha
    case inl hc =>
      rw [hc.cargo, List.count_nil] at this
      exact .inl (by omega)
    case inr hp =>
      have ⟨t', hc, _, hG, _⟩ := hp
      have hc := Caller.lock?_cargo hc hl
      rw [hc, Request.cargo] at this
      by_cases ht' : t = t'
      case pos => exact .inr ⟨ht' ▸ hG, i, lane, c, todo, o, rfl, hi, ht' ▸ hc⟩
      case neg =>
        have hn : [t'].count t = 0 := List.count_eq_zero.mpr fun h => ht' <| List.mem_singleton.mp h
        exact .inl (by omega)

end Circulates

-- A gate that is about to be opened has no ticket of its generation.
theorem Kept.stored_of_check (hk : g.Kept) (ha : g.agenda = [.check]) (ho : g.isOpen = false)
    (t : Ticket) : g.stored t = 0 := by
  rw [← count_held, List.count_eq_zero]
  intro ht
  have ⟨q, hq, ht'⟩ := List.mem_flatMap.mp ht
  have ⟨l, hl⟩ := List.mem_iff_getElem?.mp hq
  have hG : t.generation = g.generation := by simpa [ha] using hk.aged l q hl t ht'
  have hc := hk.settled (by simp [ha]) t hG
  have hn : ¬g.opens := by simp [opens_iff, ha, ho]
  rw [if_neg (hn ·.right)] at hc
  have := stored_le_census (g := g) (t := t)
  have := count_held g t ▸ List.count_pos_iff.mpr ht
  omega

theorem Circulates.planned {o : Outcome} (hs : g.Sound) (hk : g.Kept)
    (hi : g.calls[i]? = some (.working [.check] o)) (ho : g.isOpen = false) :
    g.Circulates a (g.setCall i (.working g.opening o)) where
  made := by
    refine .inr ⟨hk.stored_of_check (agenda_eq hi hs.alone) ho, fun t (ht : _ ≠ g.generation) => ?_⟩
    have := census_setCall hi (.working g.opening o) t
    rw [Stage.tickets_working, Stage.tickets_working, count_opening, if_neg (ht ·.right)] at this
    omega
  put _  := .inl

theorem Moves.circulates (h : g.Moves s g' s') (hs : g.Sound) (hk : g.Kept)
    (hi : g.calls[i]? = some s) : g.Circulates (.step i) (g'.setCall i s') := by
  have he (hw : s.works = 1) := agenda_eq hi (hw ▸ hs.alone) ▸ hs.agenda
  cases h
  case accept x => exact .call rfl rfl hi (by simp [g.tickets_accept])
  case pop x c q q' c' hq hl =>
    have hc := (hs.fits _ <| List.mem_of_getElem? hi).left
    exact .take hi hq (by simpa using Caller.lock?_pop_perm hc hl)
  case plan ho =>
    have ha := (he rfl).check
    subst ha
    rw [List.append_nil]
    exact .planned hs hk hi ho
  case ask hq hl => exact .locked hs hk hi hq hl
  case drop      =>
    exact .call rfl rfl hi fun _ => List.Sublist.count_le _ (List.sublist_cons_self ..)
  all_goals
    exact .call rfl rfl hi fun _ => by
      simp [giveBack, Stage.tickets, Task.tickets, Caller.cargo, Request.cargo]

theorem Tells.census_le (h : Tells s s') (hs : g.Sound) (hi : g.calls[i]? = some s) (t : Ticket) :
    (g.setCall i s').census t ≤ g.census t := by
  cases h
  case pop x w owed a =>
    refine census_setCall_le hi (Nat.le_of_eq ?_)
    rw [Stage.tickets_afterPop, Caller.cargo_owing]
    rfl
  case ask lane w owed a todo o =>
    have ha := (agenda_eq hi hs.alone ▸ hs.agenda).cargo_notifying
    refine census_setCall_le hi ?_
    rw [Stage.tickets_afterAsk (by simpa using ha)]
    simp

theorem Step.circulates (h : g.Step a g') (hs : g.Sound) (hk : g.Kept) : g.Circulates a g' := by
  have hadd {a : Action} {s : Stage} (ht : s.tickets = []) : g.Circulates a (g.addCall s) :=
    .of_le (fun _ => Nat.le_of_eq <| census_addCall ht) fun _ => Nat.le_refl _
  cases h
  case process      => exact hadd rfl
  case «open»       => exact hadd rfl
  case shut         => exact hadd g.tickets_shutting
  case create       => exact .of_le (fun _ => Nat.le_refl _) fun _ => Nat.le_refl _
  case move hi hm   => exact hm.circulates hs hk hi
  case notify hr hi ht =>
    have hc := ht.census_le (hs.roused hr) hi
    simp only [census_roused hr] at hc
    exact .of_le hc fun _ => Nat.le_refl _
  case finish hi    => exact .call rfl rfl hi fun _ => Nat.le_refl _

-- No ticket is about twice, and a ticket in a lane is the latest one of its instance.
structure Apart (g : Gate) : Prop where
  once   : ∀ t, g.census t ≤ 1
  latest : ∀ t t', 0 < g.census t → 0 < g.stored t' → t.handle = t'.handle →
    t = t' ∨ t.generation < t'.generation

theorem apart_loaded (g : Gate) (size : ℕ) : (g.emptied.loaded size).Apart := by
  have hs (t) : (g.emptied.loaded size).stored t = 0 :=
    tally_eq_zero_iff.mpr (by simp +contextual [loaded, Queue.unbounded])
  have hc (t) : (g.emptied.loaded size).census t = 0 := hs t
  constructor
  case once   => simp [hc]
  case latest => simp [hs]

theorem Circulates.apart (h : g.Circulates a g') (hk : g'.Kept) (hg : g.Apart) : g'.Apart where
  once t := by
    by_cases hG : t.generation = g'.generation
    case pos =>
      refine Nat.le_trans (hk.once t hG) ?_
      split <;> omega
    case neg =>
      have := hg.once t
      cases h.made
      case inl hc => exact Nat.le_trans (hc t) this
      case inr hc => exact Nat.le_trans (hc.right t hG) this
  latest t t' ht ht' hh := by
    by_cases hG : t'.generation = g'.generation
    case pos =>
      have hle : t.generation ≤ g'.generation := by
        refine Nat.not_lt.mp fun hlt => ?_
        rw [hk.fresh t hlt] at ht
        omega
      cases Nat.lt_or_eq_of_le (hG ▸ hle)
      case inl hlt => exact .inr hlt
      case inr he  =>
        cases t
        cases t'
        exact .inl (congr (congrArg _ hh) he)
    case neg =>
      have hp := (h.put t' ht').resolve_right fun h => hG h.left
      cases h.made
      case inl hc => exact hg.latest t t' (Nat.lt_of_lt_of_le ht (hc t)) hp hh
      case inr hc =>
        rw [hc.left t'] at ht'
        omega

theorem reaches_apart {size : ℕ} (h : machine.Reaches (g.emptied.loaded size) g') :
    g'.Sound ∧ g'.Kept ∧ g'.Apart :=
  h.preserves (I := fun g' => g'.Sound ∧ g'.Kept ∧ g'.Apart)
    ⟨sound_loaded g size, kept_loaded g size, apart_loaded g size⟩ fun ⟨hs, hk, ha⟩ h =>
      have h := step_of_act h
      have hk' := h.kept hs hk
      ⟨h.sound hs, hk', (h.circulates hs hk).apart hk' ha⟩

end Inference.Gate
