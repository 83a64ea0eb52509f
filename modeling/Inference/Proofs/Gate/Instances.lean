import Inference.Proofs.Gate.Shutting

/-!
A gate neither loses nor duplicates an instance. Whenever no call has the lifecycle, the lanes have
tickets of the present generation only, each in its own lane, and each instance of an open gate is
either in its lane or with one call. After a shutting nothing waits in the lanes until the gate is
opened again, whatever calls come back late.
-/

namespace Inference.Gate

variable {g g' : Gate} {i : ℕ}

structure Whole (pinned : Bool) (size : ℕ) (g : Gate) : Prop where
  current   : ∀ l q, g.lanes[l]? = some q → ∀ t ∈ q.items,
    t.generation = g.generation ∧ l = if pinned then t.handle else 0
  unique    : ∀ h, (g.held ++ g.checkouts).count ⟨h, g.generation⟩ ≤ if h < size then 1 else 0
  present   : g.isOpen → ∀ h < size, (g.held ++ g.checkouts).count ⟨h, g.generation⟩ = 1
  available : g.isOpen → (∀ t ∈ g.checkouts, t.generation ≠ g.generation) → g.available = size
  withdrawn : g.isOpen = false → g.available = 0

theorem Kept.held_perm (hg : g.Kept) (ha : g.agenda = []) (ho : g.isOpen)
    (hc : ∀ t ∈ g.checkouts, t.generation ≠ g.generation) :
    g.held.Perm (g.opening.flatMap Task.tickets) := by
  rw [List.perm_iff_count]
  intro t
  rw [count_opening]
  by_cases hG : t.generation = g.generation
  case pos =>
    have h := hg.settled (by simp [ha]) t hG
    have : g.opens := by simp [opens_iff, ho]
    have : g.checkouts.count t = 0 := List.count_eq_zero.mpr fun ht => hc t ht hG
    rw [← count_held_checkouts, List.count_append] at h
    simp_all
  case neg =>
    have : t ∉ g.held := fun ht => hG (hg.generation_of_held ha ht)
    simp [hG, List.count_eq_zero.mpr this]

theorem Kept.whole (hg : g.Kept) (hs : g.Sound) (hw : g.calls.any (·.isWorking) = false) :
    g.Whole g.pinned g.size where
  current l q hq t ht := by
    refine ⟨?_, (hs.sited l q hq t ht).symm⟩
    simpa [agenda_eq_nil hw] using hg.aged l q hq t ht
  unique h := by
    rw [count_held_checkouts]
    exact hg.once ⟨h, g.generation⟩ rfl
  present ho h hh := by
    rw [count_held_checkouts, hg.settled (by simp [agenda_eq_nil hw]) _ rfl]
    simp [hh, opens_iff, ho]
  available ho hc := by
    rw [available_eq, (hg.held_perm (agenda_eq_nil hw) ho hc).length_eq, tickets_opening]
    simp
  withdrawn ho := by
    rw [available_eq, hg.held_eq_nil (agenda_eq_nil hw) ho]
    rfl

theorem sound_loaded (g : Gate) (size : ℕ) : (g.emptied.loaded size).Sound where
  unbounded := by simp +contextual [loaded, Queue.unbounded]
  sited     := by
    intro l q hq t ht
    have := List.mem_of_getElem? hq
    simp_all [loaded, Queue.unbounded]
  alone     := Nat.zero_le _
  fits      := by simp [loaded, emptied, unloaded]
  agenda    := .done

theorem kept_loaded (g : Gate) (size : ℕ) : (g.emptied.loaded size).Kept := by
  have hs (t) : (g.emptied.loaded size).stored t = 0 :=
    tally_eq_zero_iff.mpr (by simp +contextual [loaded, Queue.unbounded])
  have hc (t) : (g.emptied.loaded size).census t = 0 := hs t
  constructor
  case aged =>
    intro l q hq t ht
    have := List.mem_of_getElem? hq
    simp_all [loaded, Queue.unbounded]
  case vacant  => exact fun _ _ _ t _ => hs t
  case fresh   => exact fun t _ => hc t
  case once =>
    intro t _
    rw [hc t]
    exact Nat.zero_le _
  case settled =>
    intro _ t _
    rw [hc t, if_neg]
    exact fun h => Bool.false_ne_true h.right

theorem Step.size {a : Action} (h : g.Step a g') : g'.size = g.size ∧ g'.pinned = g.pinned := by
  cases h
  case move hm => cases hm <;> exact ⟨rfl, rfl⟩
  all_goals exact ⟨rfl, rfl⟩

theorem reaches_kept {size : ℕ} (h : machine.Reaches (g.emptied.loaded size) g') :
    g'.Sound ∧ g'.Kept ∧ g'.size = size ∧ g'.pinned = g.pinned :=
  h.preserves (I := fun g' => g'.Sound ∧ g'.Kept ∧ g'.size = size ∧ g'.pinned = g.pinned)
    ⟨sound_loaded g size, kept_loaded g size, rfl, rfl⟩ fun ⟨hs, hk, hz, hp⟩ ha =>
      have ha := step_of_act ha
      ⟨ha.sound hs, ha.kept hs hk, ha.size.left.trans hz, ha.size.right.trans hp⟩

-- A shutting that is done leaves nothing behind, and so it stays.
theorem available_eq_zero {h : Gate} (hs : g.Sound) (hk : g.Kept)
    (hq : g.calls[i]? = some (.queued g.shutting .done)) (hr : machine.Reaches g h)
    (hi : h.calls[i]? = some (.working [] .done))
    (hr' : machine.ReachesBy (fun g a => ¬g.Begins a) h g') : g'.available = 0 := by
  have ⟨hs, hk, _, hj, ht⟩ := hr.preserves
    (I := fun g => g.Sound ∧ g.Kept ∧ ∃ s, g.calls[i]? = some s ∧ s.Shuts g.isOpen)
    ⟨hs, hk, _, hq, g.shuts_shutting .done⟩ fun ⟨hs, hk, hj⟩ ha =>
      have ha := step_of_act ha
      ⟨ha.sound hs, ha.kept hs hk, ha.shuts hs hj⟩
  cases hj.symm.trans hi
  have ⟨_, _, hw⟩ := hr'.preserves (I := fun g => g.Sound ∧ g.Kept ∧ g.Withdrawn)
    ⟨hs, hk, .of_done hs hk hi ht⟩ fun ⟨hs, hk, hw⟩ hb ha =>
      have ha := step_of_act ha
      ⟨ha.sound hs, ha.kept hs hk, ha.withdrawn hs hk hw hb⟩
  exact hw.available

-- Whatever the calls do and in whatever order, a loaded gate is whole when no call has the
-- lifecycle; from the end of a shutting until the next opening nothing waits in it at any time.
theorem instances_accounted_for (g₀ : Gate) (size : ℕ) :
    (∀ g, machine.Reaches (g₀.emptied.loaded size) g → g.calls.any (·.isWorking) = false →
      g.Whole g₀.pinned size) ∧
    ∀ (g h g' : Gate) (i : ℕ), machine.Reaches (g₀.emptied.loaded size) g →
      g.calls[i]? = some (.queued g.shutting .done) →
      machine.Reaches g h → h.calls[i]? = some (.working [] .done) →
      machine.ReachesBy (fun g a => ¬g.Begins a) h g' → g'.available = 0 := by
  refine ⟨fun g hr hw => ?_, fun g h g' i hr hq hr' hi hb => ?_⟩
  · have ⟨hs, hk, hz, hp⟩ := reaches_kept hr
    exact hz ▸ hp ▸ hk.whole hs hw
  · have ⟨hs, hk, _⟩ := reaches_kept hr
    exact available_eq_zero hs hk hq hr' hi hb

-- A call takes the only instance, and comes back after the shutting.
theorem late_return_dropped :
    let start := (unloaded false).emptied.loaded 1
    let x := Input.blank 0
    let g : Gate := { start with
      isOpen := true
      calls := [.returned .done, .holding x ⟨0, 1⟩, .queued start.shutting .done] }
    let h : Gate := { start with
      lanes := [⟨.arrival, none, [], true⟩]
      generation := 2
      calls := [.returned .done, .holding x ⟨0, 1⟩, .working [] .done] }
    let g' : Gate := { h with
      calls := [.returned .done, .returned (.refused .stopped), .returned .done] }
    machine.Reaches start g ∧ g.Whole false 1 ∧ machine.Reaches g h ∧
      machine.ReachesBy (fun g a => ¬g.Begins a) h g' ∧ g'.available = 0 := by
  intro start x g h g'
  have hg : machine.Reaches start g :=
    .of_run [.open, .step 0, .step 0, .step 0, .notify 0 none, .step 0, .step 0, .step 0,
      .notify 0 none, .step 0, .step 0, .process x, .step 1, .step 1, .notify 1 none, .shut]
      (by cbv)
  have hh : machine.Reaches g h :=
    .of_run [.step 2, .step 2, .step 2, .step 2, .notify 2 none, .notify 2 none, .step 2,
      .notify 2 none] (by cbv)
  have hg' : machine.ReachesBy (fun g a => ¬g.Begins a) h g' := by
    refine .step (.step (.step (.step (.step .refl
      (a := .step 2) ?_ rfl) (a := .step 1) ?_ rfl) (a := .step 1) ?_ rfl) (a := .step 1) ?_ rfl)
      (a := .step 1) ?_ rfl
    all_goals
      rintro ⟨_, h⟩
      cases h
  have hw := instances_accounted_for (unloaded false) 1
  exact ⟨hg, hw.left g hg rfl, hh, hg', hw.right g h g' 2 hg rfl hh rfl hg'⟩

end Inference.Gate
