import Inference.Proofs.Gate.Census

/-!
What a shutting leaves behind: a gate that is not open and has nothing in its lanes. It stays like
that until the next opening, since the tickets that calls bring back later are of an older
generation.
-/

namespace Inference.Gate

variable {g g' : Gate} {s s' : Stage} {i l : ℕ} {q q' : Queue Ticket} {t : Ticket}

theorem agenda_eq_nil (hw : g.calls.any (·.isWorking) = false) : g.agenda = [] := by
  rw [agenda, List.flatMap_eq_nil_iff]
  intro s hs
  refine Stage.agenda_eq_nil ?_
  simp_all [Stage.works]

theorem Kept.generation_of_held (hg : g.Kept) (ha : g.agenda = []) (ht : t ∈ g.held) :
    t.generation = g.generation := by
  have ⟨q, hq, ht⟩ := List.mem_flatMap.mp ht
  have ⟨l, hl⟩ := List.mem_iff_getElem?.mp hq
  simpa [ha] using hg.aged l q hl t ht

theorem Kept.held_eq_nil (hg : g.Kept) (ha : g.agenda = []) (ho : g.isOpen = false) :
    g.held = [] := by
  rw [List.eq_nil_iff_forall_not_mem]
  intro t ht
  have hG := hg.generation_of_held ha ht
  have hc := hg.settled (by simp [ha]) t hG
  have : ¬g.opens := by simp [opens_iff, ha, ho]
  have := stored_le_census (g := g) (t := t)
  have := List.count_pos_iff.mpr ht
  simp_all [count_held]

-- Not open, not about to be opened, and with nothing in the lanes.
structure Withdrawn (g : Gate) : Prop where
  closed  : ¬g.opens
  unasked : .check ∉ g.agenda
  bare    : ∀ t, g.stored t = 0

-- An opening gets the lifecycle.
def Begins (g : Gate) : Action → Prop
  | .step i => ∃ o, g.calls[i]? = some (.queued [.check] o)
  | _ => False

namespace Withdrawn

theorem available (hg : g.Withdrawn) : g.available = 0 := by
  rw [available_eq, List.length_eq_zero_iff, List.eq_nil_iff_forall_not_mem]
  intro t ht
  have := List.count_pos_iff.mpr ht
  rw [count_held, hg.bare] at this
  omega

theorem mono (hg : g.Withdrawn) (ho : g'.isOpen → g.isOpen)
    (ha : ∀ a ∈ g'.agenda, a ∈ g.agenda ∨ a ≠ .open ∧ a ≠ .check)
    (hs : ∀ t, g'.stored t ≤ g.stored t) : g'.Withdrawn where
  closed  := by
    have := hg.closed
    rw [opens_iff] at this ⊢
    exact fun h => this <| h.imp ho fun h => (ha _ h).resolve_right fun h => h.left rfl
  unasked h := hg.unasked <| (ha _ h).resolve_right fun h => h.right rfl
  bare t  := Nat.le_zero.mp <| hg.bare t ▸ hs t

-- A ticket of this generation is nowhere.
theorem census_eq_zero (hg : g.Withdrawn) (hk : g.Kept) (ha : .advance ∉ g.agenda)
    (ht : t.generation = g.generation) : g.census t = 0 := by
  rw [hk.settled ha t ht]
  simp [hg.closed]

theorem tickets_eq (hg : g.Withdrawn) (hk : g.Kept) (ha : .advance ∉ g.agenda)
    (hi : g.calls[i]? = some s) : ∀ t ∈ s.tickets, t.generation ≠ g.generation := by
  intro t hm ht
  have := hg.census_eq_zero hk ha ht
  have := tally_eraseIdx (f := fun s : Stage => s.tickets.count t) hi
  have := List.count_pos_iff.mpr hm
  rw [census] at *
  omega

theorem addCall (hg : g.Withdrawn) (hs : s.works = 0) : (g.addCall s).Withdrawn :=
  hg.mono id (fun _ h => .inl <| agenda_addCall hs ▸ h) fun _ => Nat.le_refl _

theorem idle (hg : g.Withdrawn) (hi : g.calls[i]? = some s) (hs : s.works = 0)
    (hs' : s'.works = 0) : (g.setCall i s').Withdrawn :=
  hg.mono id (fun _ h => .inl <| agenda_setCall_idle hi hs hs' ▸ h) fun _ => Nat.le_refl _

theorem work (hg : g.Withdrawn) (hc : g'.calls = g.calls) (hi : g.calls[i]? = some s)
    (hs : tally Stage.works g.calls ≤ s.works) (ho : g'.isOpen → g.isOpen)
    (ha : ∀ a ∈ s'.agenda, a ∈ s.agenda ∨ a ≠ .open ∧ a ≠ .check)
    (hl : ∀ t, g'.stored t ≤ g.stored t) : (g'.setCall i s').Withdrawn := by
  refine hg.mono ho (fun a h => ?_) hl
  rw [agenda_setCall (hc ▸ hi) (hc ▸ hs)] at h
  exact agenda_eq hi hs ▸ ha a h

theorem asked {lane : ℕ} {c c' : Caller Ticket} {todo : List Task} {o : Outcome}
    (hg : g.Withdrawn) (hc : g'.calls = g.calls) (hs : g.Sound)
    (hi : g.calls[i]? = some (.working (.ask lane c :: todo) o)) (ho : g'.isOpen → g.isOpen)
    (hl : ∀ t, g'.stored t ≤ g.stored t) :
    (g'.setCall i (.afterAsk lane todo o c')).Withdrawn := by
  refine hg.work hc hi hs.alone ho (fun a h => ?_) hl
  by_cases ha : a = .ask lane c'
  · exact .inr (by simp [ha])
  · exact .inl <| List.mem_cons_of_mem _ <| (Stage.mem_afterAsk ha).mp h

end Withdrawn

theorem stored_setLane_le (hq : g.lanes[l]? = some q)
    (ht : ∀ t, q'.items.count t ≤ q.items.count t) (t : Ticket) :
    (g.setLane l q').stored t ≤ g.stored t := by
  have := stored_setLane hq q' t
  have := ht t
  omega

theorem Errand.mem {lane : ℕ → ℕ} {n : ℕ} {todo : List Task} (h : Errand lane n todo)
    (hc : todo ≠ [.check]) : ∀ a ∈ todo, a ≠ .open ∧ a ≠ .check := by
  cases h
  case «open» => exact (hc rfl).elim
  case give   => simp
  case shut tend ht _ =>
    have ht : ∀ a ∈ tend, a ≠ .open ∧ a ≠ .check := by
      intro a ha
      constructor <;> rintro rfl <;> exact ht _ ha
    simpa using ht

theorem Moves.withdrawn (h : g.Moves s g' s') (hs : g.Sound) (hk : g.Kept) (hg : g.Withdrawn)
    (hi : g.calls[i]? = some s) (hb : ∀ o, s ≠ .queued [.check] o) :
    (g'.setCall i s').Withdrawn := by
  have he (hw : s.works = 1) := agenda_eq hi (hw ▸ hs.alone)
  have hf := hs.fits _ <| List.mem_of_getElem? hi
  cases h
  case accept x => exact hg.idle hi rfl (g.works_accept x)
  case pop x c q q' c' hq hl =>
    have hp := Caller.lock?_pop_perm hf.left hl
    have hn : ((g.setLane (g.laneOf x.backendIndex) q').setCall i (.afterPop x c')).agenda = _ :=
      agenda_setCall_idle (g := g.setLane _ q') hi rfl (by simp)
    exact hg.mono id (fun a h => .inl (hn ▸ h)) <| stored_setLane_le hq fun t => by
      simp [hp.count_eq]
  case keep   => exact hg.idle hi rfl rfl
  case refuse => exact hg.idle hi rfl rfl
  case enter  => exact hg.idle hi rfl rfl
  case begin todo o hw =>
    have hw : tally Stage.works g.calls ≤ 0 :=
      Nat.le_of_eq <| tally_eq_zero_iff.mpr fun s hs => by simp_all [Stage.works]
    refine hg.work rfl hi hw id (fun a h => .inr ?_) fun _ => Nat.le_refl _
    exact hf.mem (fun h => hb o (h ▸ rfl)) a h
  case skip => exact (hg.unasked (by simp [he rfl])).elim
  case plan => exact (hg.unasked (by simp [he rfl])).elim
  case allow lane t todo o ht =>
    have ha := (he rfl ▸ hs.agenda).compare.right
    exact (hg.tickets_eq hk (by simp [he rfl, ha]) hi t (by simp [Task.tickets]) ht).elim
  case ask lane todo o c q q' c' hq hl =>
    have ha := he rfl ▸ hs.agenda
    refine hg.asked rfl hs hi id <| stored_setLane_le hq fun t => ?_
    rcases ha.ask with hc | ⟨t', hc, _, hG, _⟩
    · rcases hc.lock? hl with ⟨_, h⟩ | h <;> simp [h]
    · have h := Caller.lock?_cargo hc hl
      have hadv : .advance ∉ g.agenda := by
        rw [he rfl]
        simpa using ha.advance_not_mem
      exact (hg.tickets_eq hk hadv hi t' (by simp [h, Request.cargo]) hG).elim
  case «open» => exact (hg.closed (opens_iff.mpr (.inr (by simp [he rfl])))).elim
  case shut   =>
    exact hg.work rfl hi hs.alone (by simp) (by simp +contextual) fun _ => Nat.le_refl _
  all_goals exact hg.work rfl hi hs.alone id (by simp +contextual) fun _ => Nat.le_refl _

theorem Step.withdrawn {a : Action} (h : g.Step a g') (hs : g.Sound) (hk : g.Kept)
    (hg : g.Withdrawn) (hb : ¬g.Begins a) : g'.Withdrawn := by
  cases h
  case process => exact hg.addCall rfl
  case «open»  => exact hg.addCall rfl
  case shut    => exact hg.addCall rfl
  case create  => exact ⟨hg.closed, hg.unasked, hg.bare⟩
  case move hi hm => exact hm.withdrawn hs hk hg hi fun o h => hb ⟨o, h ▸ hi⟩
  case notify i _ s s' _ _ l hr hi ht =>
    have ha : ({ g with calls := l } : Gate).agenda = g.agenda := agenda_roused hr
    have hg' : ({ g with calls := l } : Gate).Withdrawn :=
      hg.mono id (fun _ h => .inl (ha ▸ h)) fun _ => Nat.le_refl _
    cases ht
    case pop => exact hg'.idle hi rfl (by simp)
    case ask => exact hg'.asked rfl (hs.roused hr) hi id fun _ => Nat.le_refl _
  case finish hi => exact hg.idle hi rfl rfl

end Inference.Gate

namespace Inference

-- Where a call stands that shuts a gate, which is open or not.
inductive Stage.Shuts (isOpen : Bool) : Stage → Prop
  | queued {tend o} : (∀ a ∈ tend, a.Tends) → Shuts isOpen (queued (.shut :: .advance :: tend) o)
  | working {tend o} : (∀ a ∈ tend, a.Tends) → Shuts isOpen (working (.shut :: .advance :: tend) o)
  | advancing {tend o} : isOpen = false → (∀ a ∈ tend, a.Tends) →
      Shuts isOpen (working (.advance :: tend) o)
  | tidying {tend o} : isOpen = false → (∀ a ∈ tend, a.Tends) → Shuts isOpen (working tend o)
  | returned (o) : Shuts isOpen (returned o)

namespace Gate

variable {g g' : Gate} {s s' : Stage} {i j : ℕ}

theorem shuts_shutting (g : Gate) (o : Outcome) : (Stage.queued g.shutting o).Shuts g.isOpen := by
  generalize h : g.shutting = todo
  have he := h ▸ g.errand_shutting
  cases he
  case shut ht _ => exact .queued ht
  all_goals simp [shutting] at h

theorem shuts_afterAsk {isOpen : Bool} {lane : ℕ} {todo : List Task} {o : Outcome}
    {c c' : Caller Ticket} (ho : isOpen = false) (ht : ∀ a ∈ Task.ask lane c :: todo, a.Tends)
    (hc : ∀ r, c.Serves r → c'.Serves r) : (Stage.afterAsk lane todo o c').Shuts isOpen := by
  rw [List.forall_mem_cons] at ht
  rcases Stage.afterAsk_cases lane todo o c' with ⟨_, _, h⟩ | h <;> rw [h]
  · exact .tidying ho ht.right
  · refine .tidying ho (List.forall_mem_cons.mpr ⟨?_, ht.right⟩)
    exact ht.left.imp (hc _) (.imp (hc _) (hc _))

theorem Moves.shuts (h : g.Moves s g' s') (hs : s.Shuts g.isOpen) : s'.Shuts g'.isOpen := by
  cases hs
  case queued ht       => cases h; exact .working ht
  case working ht      => cases h; exact .advancing rfl ht
  case advancing ho ht => cases h; exact .tidying ho ht
  case returned        => cases h
  case tidying ho ht =>
    cases h
    case leave     => exact .returned _
    case ask hq hl => exact shuts_afterAsk ho ht fun _ h => h.lock? hl
    all_goals exact False.elim (List.forall_mem_cons.mp ht).left

theorem Tells.shuts (h : Tells s s') (hs : s.Shuts g.isOpen) : s'.Shuts g.isOpen := by
  cases h
  case pop => cases hs
  case ask =>
    cases hs
    case tidying ho ht => exact shuts_afterAsk ho ht fun _ h => h.notify? rfl

theorem Moves.calls (h : g.Moves s g' s') : g'.calls = g.calls := by
  cases h <;> rfl

-- Only a call that has the lifecycle opens a gate.
theorem Moves.opens (h : g.Moves s g' s') (ho : g'.isOpen) :
    g.isOpen ∨ ∃ todo o, s = .working (.open :: todo) o := by
  cases h
  case «open» todo o => exact .inr ⟨todo, o, rfl⟩
  case shut          => simp at ho
  all_goals exact .inl ho

theorem Moves.shuts_other {s₂ : Stage} (h : g.Moves s g' s') (hg : g.Sound)
    (hi : g.calls[i]? = some s) (hj : g.calls[j]? = some s₂) (hs : s₂.Shuts g.isOpen) :
    s₂.Shuts g'.isOpen := by
  have hclosed {tend : List Task} {o : Outcome} (ho : g.isOpen = false)
      (hw : s₂ = .working tend o) (ht : .open ∉ tend) : g'.isOpen = false := by
    rw [← Bool.not_eq_true]
    intro ho'
    obtain ⟨todo, o', rfl⟩ := (h.opens ho').resolve_left (by simp [ho])
    subst hw
    have he : tend = .open :: todo := (agenda_eq hj hg.alone).symm.trans (agenda_eq hi hg.alone)
    exact ht (he ▸ List.mem_cons_self)
  cases hs
  case queued ht       => exact .queued ht
  case working ht      => exact .working ht
  case returned        => exact .returned _
  case tidying ho ht   => exact .tidying (hclosed ho rfl fun h => ht _ h) ht
  case advancing ho ht =>
    exact .advancing (hclosed ho rfl fun h => ht _ (List.mem_of_ne_of_mem (by simp) h)) ht

theorem Step.shuts {a : Action} (h : g.Step a g') (hg : g.Sound)
    (hj : ∃ s, g.calls[j]? = some s ∧ s.Shuts g.isOpen) :
    ∃ s, g'.calls[j]? = some s ∧ s.Shuts g'.isOpen := by
  obtain ⟨s₂, hj, hs⟩ := hj
  have hset (g₁ : Gate) {s' : Stage} {i : ℕ} (h : g₁.calls[j]? = some s₂) (hij : i ≠ j) :
      (g₁.setCall i s').calls[j]? = some s₂ := by
    rwa [setCall, List.getElem?_set_ne hij]
  have hself (g₁ : Gate) {s' : Stage} (h : g₁.calls[j]? = some s₂) :
      (g₁.setCall j s').calls[j]? = some s' :=
    List.getElem?_set_self (List.getElem?_eq_some_iff.mp h).choose
  have hadd (s : Stage) : (g.addCall s).calls[j]? = some s₂ := by
    rwa [addCall, List.getElem?_append_left (List.getElem?_eq_some_iff.mp hj).choose]
  cases h
  case process => exact ⟨s₂, hadd _, hs⟩
  case «open»  => exact ⟨s₂, hadd _, hs⟩
  case shut    => exact ⟨s₂, hadd _, hs⟩
  case create  => exact ⟨s₂, hj, hs⟩
  case move i s g₁ s' hi hm =>
    have hj' : g₁.calls[j]? = some s₂ := hm.calls ▸ hj
    by_cases hij : i = j
    case pos =>
      subst hij
      cases hi.symm.trans hj
      exact ⟨s', hself g₁ hj', hm.shuts hs⟩
    case neg => exact ⟨s₂, hset g₁ hj' hij, hm.shuts_other hg hi hj hs⟩
  case notify i _ s s' lane c l hr hi ht =>
    have hj' : l[j]? = some s₂ := by
      obtain ⟨_, hl, h⟩ := hr.getElem? hj
      rcases h with rfl | rfl
      · exact hl
      · cases hs <;> exact hl
    by_cases hij : i = j
    case pos =>
      subst hij
      cases hi.symm.trans hj'
      exact ⟨s', hself { g with calls := l } hj', ht.shuts hs⟩
    case neg => exact ⟨s₂, hset { g with calls := l } hj' hij, hs⟩
  case finish i x t hi =>
    refine ⟨s₂, hset g hj ?_, hs⟩
    rintro rfl
    cases hi.symm.trans hj
    cases hs

theorem Withdrawn.of_done {o : Outcome} (hg : g.Sound) (hk : g.Kept)
    (hi : g.calls[i]? = some (.working [] o)) (hs : (Stage.working [] o).Shuts g.isOpen) :
    g.Withdrawn := by
  have ha : g.agenda = [] := agenda_eq hi hg.alone
  have ho : g.isOpen = false := by
    cases hs
    assumption
  constructor
  case closed  => simp [opens_iff, ha, ho]
  case unasked => simp [ha]
  case bare =>
    intro t
    rw [← count_held, hk.held_eq_nil ha ho]
    rfl

end Gate
end Inference
