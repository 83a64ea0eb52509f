import Inference.Proofs.Gate.Sound

/-!
How often each ticket is about, in the lanes and with the calls. Only the tickets of the generation
of the gate count: a gate that is open or being opened has each of them once, another gate has none,
and while a shutting has not begun the next generation yet they are on their way out.
-/

namespace Inference

def Task.opens : Task → Bool
  | .open => true
  | _ => false

namespace Gate

variable {g g' : Gate} {s s' : Stage} {i l : ℕ} {q q' : Queue Ticket} {t : Ticket}

-- How often a ticket waits in the lanes.
def stored (g : Gate) (t : Ticket) : ℕ := tally (fun q => q.items.count t) g.lanes

def census (g : Gate) (t : Ticket) : ℕ := g.stored t + tally (fun s => s.tickets.count t) g.calls

-- Whether the gate is open, or the call that has the lifecycle is about to open it.
def opens (g : Gate) : Bool := g.isOpen || g.agenda.any Task.opens

theorem opens_iff : g.opens ↔ g.isOpen ∨ .open ∈ g.agenda := by
  have h (a : Task) : a.opens ↔ a = .open := by
    cases a <;> simp [Task.opens]
  simp [opens, h]

theorem count_le_stored (hq : g.lanes[l]? = some q) : q.items.count t ≤ g.stored t := by
  have := tally_eraseIdx (f := fun q : Queue Ticket => q.items.count t) hq
  rw [stored]
  omega

theorem stored_setLane (hq : g.lanes[l]? = some q) (q' : Queue Ticket) (t : Ticket) :
    (g.setLane l q').stored t + q.items.count t = g.stored t + q'.items.count t :=
  tally_set hq

theorem census_setLane (hq : g.lanes[l]? = some q) (q' : Queue Ticket) (t : Ticket) :
    (g.setLane l q').census t + q.items.count t = g.census t + q'.items.count t := by
  have : (g.setLane l q').stored t + _ = _ := stored_setLane hq q' t
  simp only [census, setLane] at this ⊢
  omega

theorem census_setCall (hi : g.calls[i]? = some s) (s' : Stage) (t : Ticket) :
    (g.setCall i s').census t + s.tickets.count t = g.census t + s'.tickets.count t := by
  have := tally_set (f := fun s : Stage => s.tickets.count t) (b := s') hi
  simp only [census, setCall, stored]
  omega

theorem census_addCall (hs : s.tickets = []) : (g.addCall s).census t = g.census t := by
  simp [census, addCall, stored, hs]

theorem census_roused {l : List Stage} {lane : ℕ} {c : Cond}
    (h : Roused (g.wakeStage lane c) g.calls l) :
    ({ g with calls := l } : Gate).census t = g.census t := by
  have : tally (fun s : Stage => s.tickets.count t) l = _ :=
    h.tally_eq fun _ _ => by rw [tickets_wakeStage]
  simp [census, stored, this]

theorem stored_le_census : g.stored t ≤ g.census t := Nat.le_add_right ..

-- The tickets in the lanes.
def held (g : Gate) : List Ticket := g.lanes.flatMap (·.items)

-- The tickets that calls have taken out and not put back.
def checkouts (g : Gate) : List Ticket := g.calls.flatMap Stage.tickets

theorem count_held (g : Gate) (t : Ticket) : g.held.count t = g.stored t := count_flatMap ..

theorem count_held_checkouts (g : Gate) (t : Ticket) :
    (g.held ++ g.checkouts).count t = g.census t := by
  rw [List.count_append, count_held, checkouts, count_flatMap]
  rfl

theorem available_eq (g : Gate) : g.available = g.held.length := by
  have h (l : List (Queue Ticket)) : l.foldr (·.size + ·) 0 = (l.flatMap (·.items)).length := by
    induction l
    case nil => rfl
    case cons hi =>
      rw [List.foldr_cons, hi, List.flatMap_cons, List.length_append]
      rfl
  exact h g.lanes

theorem tickets_opening (g : Gate) :
    g.opening.flatMap Task.tickets = (List.range g.size).map fun h => ⟨h, g.generation⟩ := by
  simp [opening, List.flatMap_assoc, List.map_eq_flatMap, Task.tickets, Caller.cargo, Request.cargo]

theorem tickets_shutting (g : Gate) : g.shutting.flatMap Task.tickets = [] := by
  simp [shutting, List.flatMap_assoc, Task.tickets, Caller.cargo, Request.cargo]

theorem count_opening (g : Gate) (t : Ticket) : (g.opening.flatMap Task.tickets).count t =
    if t.handle < g.size ∧ t.generation = g.generation then 1 else 0 := by
  have hn : (g.opening.flatMap Task.tickets).Nodup :=
    tickets_opening g ▸
      List.Pairwise.map _ (fun _ _ hne he => hne (Ticket.mk.inj he).left) List.nodup_range
  have hm : t ∈ g.opening.flatMap Task.tickets ↔
      t.handle < g.size ∧ t.generation = g.generation := by
    rw [tickets_opening, List.mem_map]
    constructor
    · rintro ⟨h, hh, rfl⟩
      exact ⟨List.mem_range.mp hh, rfl⟩
    · exact fun ⟨h, hG⟩ => ⟨t.handle, List.mem_range.mpr h, hG ▸ rfl⟩
  rw [hn.count]
  simp only [hm]

theorem clear_mem_opening (hl : l < g.lanes.length) :
    .ask l (.entering .clear) ∈ g.opening := by
  simp [opening, hl]

structure Kept (g : Gate) : Prop where
  -- A ticket of an older generation is about to be cleared away.
  aged    : ∀ l q, g.lanes[l]? = some q → ∀ t ∈ q.items,
    t.generation = g.generation ∨ .ask l (.entering .clear) ∈ g.agenda
  -- Nothing else is cleared away.
  vacant  : .advance ∉ g.agenda → ∀ l, .ask l (.entering .clear) ∈ g.agenda →
    ∀ t, t.generation = g.generation → g.stored t = 0
  fresh   : ∀ t, g.generation < t.generation → g.census t = 0
  once    : ∀ t, t.generation = g.generation → g.census t ≤ if t.handle < g.size then 1 else 0
  settled : .advance ∉ g.agenda → ∀ t, t.generation = g.generation →
    g.census t = if t.handle < g.size ∧ g.opens then 1 else 0

namespace Kept

-- Nothing happens to the tickets of this generation.
theorem steady (hg : g.Kept) (hs : g'.size = g.size) (hG : g'.generation = g.generation)
    (ha : .advance ∉ g'.agenda → .advance ∉ g.agenda ∧ (g'.opens ↔ g.opens))
    (hc : ∀ t, g'.census t ≤ g.census t ∧ (t.generation = g.generation → g'.census t = g.census t))
    (aged : ∀ l q, g'.lanes[l]? = some q → ∀ t ∈ q.items,
      t.generation = g.generation ∨ .ask l (.entering .clear) ∈ g'.agenda)
    (vacant : .advance ∉ g'.agenda → ∀ l, .ask l (.entering .clear) ∈ g'.agenda →
      ∀ t, t.generation = g.generation → g'.stored t = 0) : g'.Kept where
  aged    := hG ▸ aged
  vacant  := hG ▸ vacant
  fresh   := by
    intro t ht
    have := (hc t).left
    have := hg.fresh t (hG ▸ ht)
    omega
  once    := by
    intro t ht
    rw [(hc t).right (hG ▸ ht), hs]
    exact hg.once t (hG ▸ ht)
  settled := by
    intro h t ht
    rw [(hc t).right (hG ▸ ht), hs, hg.settled (ha h).left t (hG ▸ ht)]
    simp only [(ha h).right]

-- Nothing happens but that tickets move out of the lanes to the calls.
theorem still (hg : g.Kept) (hs : g'.size = g.size) (hG : g'.generation = g.generation)
    (ho : g'.isOpen = g.isOpen) (ha : g'.agenda = g.agenda) (hc : ∀ t, g'.census t = g.census t)
    (hl : ∀ (l : ℕ) (q' : Queue Ticket), g'.lanes[l]? = some q' →
      ∃ q : Queue Ticket, g.lanes[l]? = some q ∧ ∀ t ∈ q'.items, t ∈ q.items)
    (ht : ∀ t, g'.stored t ≤ g.stored t) : g'.Kept := by
  refine hg.steady hs hG (fun h => ⟨ha ▸ h, ?_⟩)
    (fun t => ⟨Nat.le_of_eq (hc t), fun _ => hc t⟩) ?_ ?_
  · rw [opens_iff, opens_iff, ho, ha]
  · intro l q' hq' t ht
    have ⟨q, hq, h⟩ := hl l q' hq'
    exact ha ▸ hg.aged l q hq t (h t ht)
  · intro h l hl t hG
    exact Nat.le_zero.mp <| hg.vacant (ha ▸ h) l (ha ▸ hl) t hG ▸ ht t

theorem roused {l : List Stage} {lane : ℕ} {c : Cond} (hg : g.Kept)
    (h : Roused (g.wakeStage lane c) g.calls l) : ({ g with calls := l } : Gate).Kept :=
  hg.still rfl rfl rfl (agenda_roused h) (fun _ => census_roused h)
    (fun _ q hq => ⟨q, hq, fun _ => id⟩) fun _ => Nat.le_refl _

theorem addCall (hg : g.Kept) (hs : s.works = 0) (ht : s.tickets = []) : (g.addCall s).Kept :=
  hg.still rfl rfl rfl (agenda_addCall hs) (fun _ => census_addCall ht)
    (fun _ q hq => ⟨q, hq, fun _ => id⟩) fun _ => Nat.le_refl _

-- A call without the lifecycle goes on with its ticket.
theorem idle (hg : g.Kept) (hi : g.calls[i]? = some s) (hs : s.works = 0) (hs' : s'.works = 0)
    (ht : s'.tickets = s.tickets) : (g.setCall i s').Kept := by
  refine hg.still rfl rfl rfl (agenda_setCall_idle hi hs hs') (fun t => ?_)
    (fun _ q hq => ⟨q, hq, fun _ => id⟩) fun _ => Nat.le_refl _
  have := census_setCall hi s' t
  rw [ht] at this
  omega

-- A call takes a ticket out of a lane.
theorem take (hg : g.Kept) (hi : g.calls[i]? = some s) (hs : s.works = 0) (hs' : s'.works = 0)
    (hq : g.lanes[l]? = some q) (hp : q.items.Perm (s'.tickets ++ q'.items))
    (ht : s.tickets = []) : ((g.setLane l q').setCall i s').Kept := by
  have hc (t) : q.items.count t = s'.tickets.count t + q'.items.count t := by
    rw [hp.count_eq, List.count_append]
  refine hg.still rfl rfl rfl (agenda_setCall_idle (g := g.setLane l q') hi hs hs') (fun t => ?_)
    (fun l' q'' hq'' => ?_) fun t => ?_
  · have := census_setCall (g := g.setLane l q') hi s' t
    have := census_setLane hq q' t
    have := hc t
    simp only [ht, List.count_nil] at *
    omega
  · rcases lanes_setLane hq'' with ⟨rfl, rfl⟩ | ⟨_, hq''⟩
    · exact ⟨q, hq, fun t ht => hp.mem_iff.mpr (List.mem_append_right _ ht)⟩
    · exact ⟨q'', hq'', fun _ => id⟩
  · have := stored_setLane hq q' t
    have := hc t
    change (g.setLane l q').stored t ≤ g.stored t
    omega

-- The call that has the lifecycle goes on, and clears no lane.
theorem work {o : Bool} (hg : g.Kept) (hi : g.calls[i]? = some s)
    (hs : tally Stage.works g.calls ≤ s.works)
    (ha : .advance ∉ s'.agenda → .advance ∉ s.agenda ∧
      (o ∨ .open ∈ s'.agenda ↔ g.isOpen ∨ .open ∈ s.agenda))
    (hc : .advance ∉ s'.agenda → ∀ l, .ask l (.entering .clear) ∈ s'.agenda →
      .ask l (.entering .clear) ∈ s.agenda)
    (hc' : ∀ l, .ask l (.entering .clear) ∈ s.agenda → .ask l (.entering .clear) ∈ s'.agenda)
    (ht : ∀ t, s'.tickets.count t ≤ s.tickets.count t ∧
      (t.generation = g.generation → s'.tickets.count t = s.tickets.count t)) :
    ({ g with isOpen := o }.setCall i s').Kept := by
  have hn : ({ g with isOpen := o }.setCall i s').agenda = s'.agenda :=
    agenda_setCall (g := { g with isOpen := o }) hi hs
  have ho := agenda_eq hi hs
  refine hg.steady rfl rfl (fun h => ?_) (fun t => ?_) (fun l q hq t ht => ?_) fun h l hl => ?_
  · rw [opens_iff, opens_iff, hn, ho]
    exact ha (hn ▸ h)
  · have := census_setCall (g := { g with isOpen := o }) hi s' t
    have : ({ g with isOpen := o } : Gate).census t = g.census t := rfl
    have := ht t
    omega
  · exact (hg.aged l q hq t ht).imp_right fun hl => hn ▸ hc' l (ho ▸ hl)
  · rw [hn] at h hl
    exact hg.vacant (ho ▸ (ha h).left) l (ho ▸ hc h l hl)

theorem tells (hg : g.Kept) (hs : g.Sound) (hi : g.calls[i]? = some s) (h : Tells s s') :
    (g.setCall i s').Kept := by
  cases h
  case pop x w owed a =>
    refine hg.idle hi rfl (by simp) ?_
    rw [Stage.tickets_afterPop, Caller.cargo_owing]
    rfl
  case ask lane w owed a todo o =>
    have ha := (agenda_eq hi hs.alone ▸ hs.agenda).cargo_notifying
    have ht : (Stage.afterAsk lane todo o (.owing owed a)).tickets = todo.flatMap Task.tickets :=
      Stage.tickets_afterAsk (by simpa using ha)
    apply hg.work hi hs.alone
    case ha => simp +contextual [Stage.mem_afterAsk]
    case hc | hc' => simp +contextual [Stage.mem_afterAsk]
    case ht => simp [ht, Caller.cargo, ha]

section Locked

variable {lane : ℕ} {c c' : Caller Ticket} {todo : List Task} {o : Outcome}

theorem locked_items (hg : g.Kept) (hs : g.Sound)
    (hi : g.calls[i]? = some (.working (.ask lane c :: todo) o)) (hq : g.lanes[lane]? = some q)
    (hl : c.lock? q = some (q', c')) :
    c'.cargo = [] ∧
    (∀ t, q'.items.count t ≤ q.items.count t + c.cargo.count t ∧ (t.generation = g.generation →
      q'.items.count t = q.items.count t + c.cargo.count t)) ∧
    (∀ t ∈ q'.items, t.generation = g.generation ∨ .ask lane (.entering .clear) ∈ todo) ∧
    ∀ l, .ask l (.entering .clear) ∈ todo → ∀ t, q'.items.count t ≤ q.items.count t := by
  have he := agenda_eq hi hs.alone
  have ha := he ▸ hs.agenda
  have hm : .advance ∉ g.agenda := by
    rw [he]
    simpa using ha.advance_not_mem
  have haged := hg.aged lane q hq
  rw [he, Stage.agenda_working] at haged
  rcases ha.ask with hc | ⟨t', hc, _, hG, hno⟩
  case inl =>
    have hc' : c'.Tends := hc.imp (·.lock? hl) (.imp (·.lock? hl) (·.lock? hl))
    refine ⟨hc'.cargo, ?_⟩
    rw [hc.cargo]
    rcases hc.lock? hl with ⟨rfl, hq'⟩ | hq'
    · have h0 := hg.vacant hm lane (he ▸ List.mem_cons_self)
      rw [hq']
      refine ⟨fun t => ⟨by simp, fun ht => ?_⟩, by simp, by simp⟩
      have := count_le_stored (t := t) hq
      have := h0 t ht
      simp
      omega
    · rw [hq']
      refine ⟨by simp, fun t ht => (haged t ht).imp_right fun h => ?_, by simp⟩
      rcases List.mem_cons.mp h with h | h
      · cases h
        obtain ⟨_, rfl, _⟩ := Caller.lock?_clear (k := .entering .clear) rfl hl
        rw [← hq'] at ht
        simp at ht
      · exact h
  case inr =>
    have ⟨hq', hc'⟩ := Caller.lock?_push_unbounded hc (hs.unbounded _ (List.mem_of_getElem? hq)) hl
    refine ⟨hc', ?_, ?_, fun l hl => (hno l hl).elim⟩
    · rw [Caller.lock?_cargo hc hl, hq']
      simp [Request.cargo]
    · rw [hq']
      intro t ht
      rcases List.mem_append.mp ht with ht | ht
      · refine (haged t ht).imp_right fun h => ?_
        rcases List.mem_cons.mp h with h | h
        · cases h
          simp [Caller.Serves] at hc
        · exact h
      · exact .inl <| List.mem_singleton.mp ht ▸ hG

theorem locked (hg : g.Kept) (hs : g.Sound)
    (hi : g.calls[i]? = some (.working (.ask lane c :: todo) o)) (hq : g.lanes[lane]? = some q)
    (hl : c.lock? q = some (q', c')) :
    ((g.setLane lane q').setCall i (.afterAsk lane todo o c')).Kept := by
  have ⟨hc', ht, hold, hclear⟩ := hg.locked_items hs hi hq hl
  have he := agenda_eq hi hs.alone
  have hn : ((g.setLane lane q').setCall i (.afterAsk lane todo o c')).agenda = _ :=
    agenda_setCall (g := g.setLane lane q') hi hs.alone
  have hm : .advance ∉ g.agenda := by
    rw [he]
    simpa using (he ▸ hs.agenda).advance_not_mem
  have hent (l) : Task.ask l (.entering .clear) ≠ .ask lane c' := by
    simp [Caller.lock?_ne_entering hl]
  refine hg.steady rfl rfl (fun _ => ⟨hm, ?_⟩) (fun t => ?_) (fun l q'' hq'' t h => ?_)
    fun _ l h t hG => ?_
  · rw [opens_iff, opens_iff, hn, he, Stage.mem_afterAsk (by simp)]
    simp [setCall, setLane]
  · have := census_setCall (g := g.setLane lane q') hi (.afterAsk lane todo o c') t
    have := census_setLane hq q' t
    have := ht t
    simp only [Stage.tickets_afterAsk hc', Stage.tickets_working, List.flatMap_cons,
      Task.tickets_ask, List.count_append] at *
    omega
  · rw [hn, Stage.mem_afterAsk (hent l)]
    rcases lanes_setLane hq'' with ⟨rfl, rfl⟩ | ⟨hne, hq''⟩
    · exact hold t h
    · refine (hg.aged l q'' hq'' t h).imp_right fun h => ?_
      rw [he, Stage.agenda_working] at h
      exact (List.mem_cons.mp h).resolve_left fun h => hne (Task.ask.inj h).left
  · rw [hn, Stage.mem_afterAsk (hent l)] at h
    have := hg.vacant hm l (he ▸ List.mem_cons_of_mem _ h) t hG
    have := stored_setLane hq q' t
    have := hclear l h t
    change (g.setLane lane q').stored t = 0
    omega

end Locked

-- Every lane is still to be cleared, and none has a ticket of this generation.
theorem of_vacant (hl : ∀ l < g.lanes.length, .ask l (.entering .clear) ∈ g.agenda)
    (hs : ∀ t, t.generation = g.generation → g.stored t = 0)
    (hf : ∀ t, g.generation < t.generation → g.census t = 0)
    (hc : ∀ t, t.generation = g.generation →
      g.census t = if t.handle < g.size ∧ g.opens then 1 else 0) : g.Kept where
  aged l _ hq _ _ := .inr <| hl l (List.getElem?_eq_some_iff.mp hq).choose
  vacant _ _ _    := hs
  fresh           := hf
  settled _       := hc
  once t ht       := by
    rw [hc t ht]
    split <;> split <;> simp_all

-- A gate that is not open has no ticket of its generation, and an opening hands out each.
theorem planned {o : Outcome} (hg : g.Kept) (hs : g.Sound)
    (hi : g.calls[i]? = some (.working [.check] o)) (ho : g.isOpen = false) :
    (g.setCall i (.working g.opening o)).Kept := by
  have he := agenda_eq hi hs.alone
  have hn : (g.setCall i (.working g.opening o)).agenda = g.opening := agenda_setCall hi hs.alone
  have hopens : (g.setCall i (.working g.opening o)).opens := by
    rw [opens_iff, hn]
    exact .inr (by simp [opening])
  have h0 : ∀ t, t.generation = g.generation → g.census t = 0 := by
    have : ¬g.opens := by simp [opens_iff, ho, he]
    simpa [this, he] using hg.settled
  have hc (t) : (g.setCall i (.working g.opening o)).census t =
      g.census t + if t.handle < g.size ∧ t.generation = g.generation then 1 else 0 := by
    have := census_setCall hi (.working g.opening o) t
    rw [← count_opening]
    simp only [Stage.tickets_working, List.flatMap_cons, List.flatMap_nil, Task.tickets,
      List.append_nil, List.count_nil] at this ⊢
    omega
  refine of_vacant (fun l hl => ?_) (fun t ht => ?_) (fun t ht => ?_) fun t ht => ?_
  · rw [hn]
    exact clear_mem_opening hl
  · exact Nat.le_zero.mp <| h0 t ht ▸ stored_le_census (g := g)
  · have ht : g.generation < t.generation := ht
    simp [hc, hg.fresh t ht, Nat.ne_of_gt ht]
  · have ht : t.generation = g.generation := ht
    simp only [hc, h0 t ht, ht, hopens, and_true, Nat.zero_add]
    rfl

-- No ticket of the next generation is about yet.
theorem advanced {todo : List Task} {o : Outcome} (hg : g.Kept) (hs : g.Sound)
    (hi : g.calls[i]? = some (.working (.advance :: todo) o)) :
    ({ g with generation := g.generation + 1 }.setCall i (.working todo o)).Kept := by
  have he := agenda_eq hi hs.alone
  obtain ⟨ho, ht, hl⟩ := (he ▸ hs.agenda).advance
  have hn : ({ g with generation := g.generation + 1 }.setCall i (.working todo o)).agenda = todo :=
    agenda_setCall (g := { g with generation := g.generation + 1 }) hi hs.alone
  have hopens : ¬({ g with generation := g.generation + 1 }.setCall i (.working todo o)).opens := by
    rw [opens_iff, hn]
    exact fun h => h.elim (by simp [setCall, ho]) (ht _ ·)
  have h0 {t : Ticket} (ht : g.generation < t.generation) :
      ({ g with generation := g.generation + 1 }.setCall i (.working todo o)).census t = 0 := by
    have := census_setCall (g := { g with generation := g.generation + 1 }) hi
      (.working todo o) t
    have h : ({ g with generation := g.generation + 1 } : Gate).census t = 0 := hg.fresh t ht
    simp only [Stage.tickets_working, List.flatMap_cons, Task.tickets, List.nil_append, h] at this
    omega
  refine of_vacant (fun l hl' => ?_) (fun t ht => ?_) (fun t ht => ?_) fun t ht => ?_
  · rw [hn]
    exact hl l hl'
  · exact Nat.le_zero.mp <| h0 (Nat.le_of_eq ht.symm) ▸ stored_le_census
  · exact h0 (Nat.le_of_lt ht)
  · rw [h0 (Nat.le_of_eq ht.symm)]
    simp only [hopens, and_false, if_false]

theorem recorded (hg : g.Kept) (indices : List ℕ) (cursor : ℕ) (made : List ℕ) :
    ({ g with indices, cursor, made } : Gate).Kept :=
  ⟨hg.aged, hg.vacant, hg.fresh, hg.once, hg.settled⟩

end Kept

theorem Moves.kept (h : g.Moves s g' s') (hs : g.Sound) (hg : g.Kept) (hi : g.calls[i]? = some s) :
    (g'.setCall i s').Kept := by
  have ha (hw : s.works = 1) := agenda_eq hi (hw ▸ hs.alone) ▸ hs.agenda
  cases h
  case accept x => exact hg.idle hi rfl (g.works_accept x) (g.tickets_accept x)
  case pop x c q q' c' hq hl =>
    have hc := (hs.fits _ <| List.mem_of_getElem? hi).left
    refine hg.take hi rfl (by simp) hq (by simpa using Caller.lock?_pop_perm hc hl) ?_
    exact Caller.lock?_cargo hc hl
  case keep   => exact hg.idle hi rfl rfl rfl
  case refuse => exact hg.idle hi rfl rfl rfl
  case enter  => exact hg.idle hi rfl rfl rfl
  case begin todo o hw =>
    have hw : tally Stage.works g.calls ≤ 0 :=
      Nat.le_of_eq <| tally_eq_zero_iff.mpr fun s hs => by simp_all [Stage.works]
    cases hs.fits _ <| List.mem_of_getElem? hi
    all_goals exact hg.work hi hw (by simp) (by simp) (by simp) (by simp)
  case leave  => exact hg.work hi hs.alone (by simp) (by simp) (by simp) (by simp)
  case skip ho   =>
    obtain rfl := (ha rfl).check
    exact hg.work hi hs.alone (by simp) (by simp) (by simp) (by simp [Task.tickets])
  case plan ho   =>
    obtain rfl := (ha rfl).check
    rw [List.append_nil]
    exact hg.planned hs hi ho
  case allow ht  =>
    obtain ⟨rfl, rfl⟩ := (ha rfl).compare
    exact hg.work hi hs.alone (by simp) (by simp) (by simp)
      (by simp [Task.tickets, Caller.cargo, Request.cargo])
  case drop t _ _ ht =>
    obtain ⟨rfl, rfl⟩ := (ha rfl).compare
    refine hg.work hi hs.alone (by simp) (by simp) (by simp) fun t' => ⟨by simp, fun ht' => ?_⟩
    have h : t' ∉ [t] := by
      rintro (_ | ⟨_, ⟨⟩⟩)
      exact ht ht'
    simpa [Task.tickets] using (List.count_eq_zero.mpr h).symm
  case ask hq hl => exact hg.locked hs hi hq hl
  case assign h' index _ _ =>
    have hg' := hg.recorded (g.indices.set h' index) g.cursor g.made
    exact hg'.work hi hs.alone (by simp +contextual) (by simp) (by simp) (by simp [Task.tickets])
  case «open»    =>
    obtain rfl := (ha rfl).open
    exact hg.work hi hs.alone (by simp) (by simp) (by simp) (by simp [Task.tickets])
  case shut      =>
    obtain ⟨tend, rfl, -⟩ := (ha rfl).shut
    exact hg.work hi hs.alone (by simp) (by simp) (by simp) (by simp [Task.tickets])
  case advance   => exact hg.advanced hs hi

theorem Step.kept {a : Action} (h : g.Step a g') (hs : g.Sound) (hg : g.Kept) : g'.Kept := by
  cases h
  case process      => exact hg.addCall rfl rfl
  case «open»       => exact hg.addCall rfl rfl
  case shut         => exact hg.addCall rfl g.tickets_shutting
  case create       => exact hg.recorded ..
  case move hi hm   => exact hm.kept hs hg hi
  case notify hi ht => exact (hg.roused ‹_›).tells (hs.roused ‹_›) hi ht
  case finish hi    => exact hg.idle hi rfl rfl rfl

end Gate
end Inference
