import Inference.Proofs.Sink.Exact
import Mathlib.Data.List.Nodup

/-!
What a stop leaves to do. From the moment at which a worker ends the queue until a destruction
begins, nobody takes an item out of it, so each of the other workers begins at most the item that it
has already taken.
-/

namespace Inference

variable {α : Type}

-- The item that a worker begins next.
def Worker.admitted? : Worker α → Option α
  | admitted x => some x
  | _ => none

namespace Sink

-- The worker, and its item, for which an action is the beginning of the work.
def begins? (s : Sink α) : Action α → Option (ℕ × α)
  | .step (.worker i) => do return (i, ← (← s.workers[i]?).admitted?)
  | _ => none

-- The items that are begun while a schedule runs, each with its worker.
def begun (s : Sink α) (as : List (Action α)) : List (ℕ × α) :=
  (machine.trace s as).filterMap fun x => x.1.begins? x.2

-- The items of one worker.
def itemsOf (i : ℕ) (l : List (ℕ × α)) : List α := (l.filter (·.1 = i)).map (·.2)

-- What the worker at a place has taken and not begun.
def fetchedAt (s : Sink α) (i : ℕ) : List α := (s.workers[i]?).elim [] (·.fetched)

variable {s s' s₁ : Sink α} {a : Action α} {i j : ℕ} {w w' : Worker α} {c : Cond}

theorem itemsOf_append (i : ℕ) (l l' : List (ℕ × α)) :
    itemsOf i (l ++ l') = itemsOf i l ++ itemsOf i l' := by
  simp [itemsOf]

theorem count_map_fst (i : ℕ) (l : List (ℕ × α)) :
    (l.map (·.1)).count i = (itemsOf i l).length := by
  rw [itemsOf, List.length_map, List.count, List.countP_map, ← List.countP_eq_length_filter]
  rfl

theorem fetchedAt_of_getElem? (hi : s.workers[i]? = some w) : s.fetchedAt i = w.fetched := by
  rw [fetchedAt, hi, Option.elim_some]

theorem fetchedAt_congr (hw : s'.workers = s.workers) : s'.fetchedAt i = s.fetchedAt i := by
  rw [fetchedAt, fetchedAt, hw]

theorem fetchedAt_roused {ws : List (Worker α)} (hw : Roused (Worker.wake c) s.workers ws)
    (ps : List (Producer α)) (i : ℕ) :
    ({ s with workers := ws, producers := ps } : Sink α).fetchedAt i = s.fetchedAt i := by
  cases hi : s.workers[i]?
  case none =>
    have hi' : ws[i]? = none := by simpa [← hw.length_eq] using hi
    simp [fetchedAt, hi, hi']
  case some w =>
    have ⟨w', hi', hr⟩ := hw.getElem? hi
    rcases hr with rfl | rfl <;> simp [fetchedAt, hi, hi']

theorem fetchedAt_setWorker (ha : s.Alike s₁) (hi : s.workers[i]? = some w) (w' : Worker α)
    (j : ℕ) :
    (s₁.setWorker i w').fetchedAt j = if i = j then w'.fetched else s.fetchedAt j := by
  have hlt := (List.getElem?_eq_some_iff.mp hi).1
  simp only [fetchedAt, setWorker, ha.workers, List.getElem?_set, hlt, if_true]
  split
  case isTrue  => rw [Option.elim_some, Worker.fetched_resumed]
  case isFalse => rfl

end Sink

variable {s s' : Sink α} {w w' : Worker α}

-- A worker who finds the queue ended takes nothing out of it.
theorem Worker.Moves.fetched_sublist (h : w.Moves s s' w') (he : s.queue.ended) :
    (w.admitted?.toList ++ w'.fetched).Sublist w.fetched := by
  cases h
  case take he' _       => simp [he] at he'
  case release again    => cases again <;> exact .refl _
  all_goals simp [admitted?, fetched, Caller.cargo, Request.cargo, Answer.cargo]

theorem Worker.Moves.given_eq (h : w.Moves s s' w') :
    Event.given s'.history = w.admitted?.toList ++ Event.given s.history := by
  cases h <;> rfl

theorem Owner.Moves.given_eq (h : Owner.Moves s s') :
    Event.given s'.history = Event.given s.history := by
  cases h <;> rfl

theorem Owner.Moves.fetchedAt_sublist (h : Owner.Moves s s') (i : ℕ) :
    (s'.fetchedAt i).Sublist (s.fetchedAt i) := by
  cases h
  case spawn =>
    simp only [Sink.setOwner, Sink.fetchedAt, List.getElem?_append]
    split
    case isTrue  => exact .refl _
    case isFalse => cases i - s.workers.length <;> simp [Worker.fetched]
  case join => exact List.nil_sublist _
  all_goals exact .refl _

theorem Owner.Moves.ended (h : Owner.Moves s s') (ho : s.owner ≠ .reopening)
    (he : s.queue.ended) : s'.queue.ended := by
  cases h
  case reopen ho' => exact (ho ho').elim
  case close      => rfl
  all_goals exact he

namespace Sink

variable {a : Action α}

theorem Step.given_eq (h : s.Step a s') :
    Event.given s'.history = (s.begins? a).toList.map (·.2) ++ Event.given s.history := by
  have hp (s : Sink α) (i : ℕ) (p : Producer α) :
      Event.given (s.setProducer i p).history = Event.given s.history := by
    have h := s.places i p
    generalize s.setProducer i p = s' at h
    cases h <;> rfl
  cases h
  case worker i w _ _ hi hm =>
    rw [setWorker, hm.given_eq]
    cases ha : w.admitted? <;> simp [begins?, hi, ha]
  case producer i _ _ p' _ hm =>
    have hl := hm.history
    exact (hp _ i p').trans (by rw [hl]; rfl)
  case owner hm => exact hm.given_eq
  case tellProducer i _ _ _ _ _ p' _ _ _ _ => exact hp _ i p'
  all_goals rfl

theorem Step.ended (h : s.Step a s') (ho : s.owner ≠ .reopening) (he : s.queue.ended) :
    s'.queue.ended := by
  cases h
  case worker hm => exact hm.flags.ended he
  case producer hm => simpa [hm.ended] using he
  case owner hm => exact hm.ended ho he
  case tellProducer => simpa using he
  all_goals exact he

-- With the queue ended, what a worker has taken is what it had before, or what it begins now.
theorem Step.fetchedAt_sublist (h : s.Step a s') (he : s.queue.ended) (i : ℕ) :
    (itemsOf i (s.begins? a).toList ++ s'.fetchedAt i).Sublist (s.fetchedAt i) := by
  have hp (s : Sink α) (j : ℕ) (p : Producer α) : (s.setProducer j p).fetchedAt i = s.fetchedAt i :=
    fetchedAt_congr (setProducer_workers ..)
  have hr {l l' : List α} (h : l = l') : l.Sublist l' := h ▸ .refl _
  cases h
  case worker j w _ w' hj hm =>
    have hf := hm.fetched_sublist he
    rw [fetchedAt_setWorker hm.alike hj]
    by_cases hij : j = i
    · subst hij
      rw [fetchedAt_of_getElem? hj]
      cases ha : w.admitted? <;> simpa [begins?, hj, ha, itemsOf] using hf
    · cases ha : w.admitted? <;> simp [begins?, hj, ha, itemsOf, hij]
  case producer j _ _ p' _ hm =>
    have h := (hp _ j p').trans (fetchedAt_congr hm.alike.workers)
    exact hr h
  case owner hm => exact hm.fetchedAt_sublist i
  case tellWorker j target c ws ps w w' hw _ hj ht =>
    have h := fetchedAt_setWorker (s := { s with workers := ws, producers := ps }) (.refl _) hj w' i
    rw [fetchedAt_roused hw ps] at h
    refine hr (h.trans ?_)
    split
    case isTrue hij =>
      rw [← fetchedAt_roused hw ps, ← hij, fetchedAt_of_getElem? hj, ht.fetched_eq]
    case isFalse => rfl
  case tellProducer j _ _ _ ps _ p' hw _ _ _ =>
    exact hr ((hp _ j p').trans (fetchedAt_roused hw ps i))
  case tellOwner c ws ps o' hw _ _ => exact hr (fetchedAt_roused hw ps i)
  case finish j x v hj =>
    have h := fetchedAt_setWorker (.refl s) hj (.finished v) i
    have h : ((s.setWorker j (.finished v)).fetchedAt i).Sublist (s.fetchedAt i) := by
      rw [h]
      split
      · exact List.nil_sublist _
      · exact .refl _
    exact h
  all_goals exact .refl _

-- Until a destruction begins, a sink keeps its workers.
theorem Step.workers_ne_nil (h : s.Step a s') (ho : s.owner.ending? = none) (hw : s.workers ≠ [])
    (ho' : s'.owner.ending? = none) : s'.workers ≠ [] := by
  cases h.phase
  case stays hs           => exact hs ho' hw
  case breaks hb          => simp [hb] at ho'
  case drains             => exact (Option.some_ne_none _ ho').elim
  case returns r hr       => simp [hr, Owner.ending?] at ho

-- What each worker begins after the queue of a sink with workers is ended, as long as no
-- destruction goes on: by the end of a run it has begun what it had taken, or it still has it, or
-- it has dropped it.
theorem begun_sublist {t : Sink α} {as : List (Action α)} (hr : s.Regular) (he : s.queue.ended)
    (hw : s.owner.ending? = none → s.workers ≠ []) (h : machine.run s as = some t)
    (hd : ∀ x ∈ machine.trace s as, x.1.owner.ending? = none) (i : ℕ) :
    (itemsOf i (s.begun as) ++ t.fetchedAt i).Sublist (s.fetchedAt i) := by
  induction as generalizing s
  case nil =>
    obtain rfl := Option.some.inj h
    exact .refl _
  case cons a as hi =>
    have ⟨u, ha, hu, ht⟩ := Machine.run_cons_eq_some h
    rw [ht] at hd
    have ⟨ho, hd⟩ := List.forall_mem_cons.mp hd
    have hs := hr.step_of_act ha
    have hn := hw ho
    have hv : s.owner ≠ .reopening := fun h => hn (hr.vacant (.inr h))
    have hi := hi (hs.regular hr) (hs.ended hv he) (hs.workers_ne_nil ho hn) hu hd
    have hb : s.begun (a :: as) = (s.begins? a).toList ++ u.begun as := by
      simp only [begun, ht, List.filterMap_cons]
      cases s.begins? a <;> rfl
    rw [hb, itemsOf_append, List.append_assoc]
    exact (List.Sublist.append_left hi _).trans (hs.fetchedAt_sublist he i)

theorem given_eq_of_run {t : Sink α} {as : List (Action α)} (hr : s.Regular)
    (h : machine.run s as = some t) :
    Event.given t.history = ((s.begun as).map (·.2)).reverse ++ Event.given s.history := by
  induction as generalizing s
  case nil =>
    obtain rfl := Option.some.inj h
    rfl
  case cons a as hi =>
    have ⟨u, ha, hu, ht⟩ := Machine.run_cons_eq_some h
    have hs := hr.step_of_act ha
    rw [hi (hs.regular hr) hu, hs.given_eq]
    simp only [begun, ht, List.filterMap_cons]
    cases s.begins? a <;> simp

theorem length_fetchedAt_le (s : Sink α) (i : ℕ) : (s.fetchedAt i).length ≤ 1 := by
  cases hi : s.workers[i]?
  case none => simp [fetchedAt, hi]
  case some w =>
    rw [fetchedAt_of_getElem? hi]
    have := w.length_fetched_le_share
    have := w.share_eq
    grind

theorem lt_of_mem_fetchedAt {x : α} (h : x ∈ s.fetchedAt i) : i < s.workers.length := by
  by_contra hi
  simp [fetchedAt, List.getElem?_eq_none (Nat.not_lt.mp hi)] at h

-- A worker who ends the queue has no item.
theorem of_closes {k : Caller α} (hr : s.Regular) (hj : s.workers[j]? = some (.stopping k))
    (h : machine.act s (.step (.worker j)) = some s') :
    s'.queue.ended ∧ j < s'.workers.length ∧ s'.fetchedAt j = [] := by
  cases hr.step_of_act h
  case worker hm hi =>
    obtain rfl := Option.some.inj (hi.symm.trans hj)
    have hf := fetchedAt_setWorker hm.alike hi
    cases hm
    have hlt := (List.getElem?_eq_some_iff.mp hj).1
    exact ⟨rfl, by simpa [setWorker] using hlt, by rw [hf, if_pos rfl]; rfl⟩

-- Each worker begins at most one item, which it had already taken.
theorem begun_once {t : Sink α} {as : List (Action α)} (hr : s.Regular) (he : s.queue.ended)
    (hj : j < s.workers.length) (hf : s.fetchedAt j = []) (h : machine.run s as = some t)
    (hd : ∀ x ∈ machine.trace s as, x.1.owner.ending? = none) :
    ((s.begun as).map (·.1)).Nodup ∧ (∀ x ∈ s.begun as, x.1 ≠ j ∧ s.fetchedAt x.1 = [x.2]) ∧
      (s.begun as).length ≤ s.threads - 1 := by
  have hw : s.workers ≠ [] := List.ne_nil_of_length_pos (Nat.zero_lt_of_lt hj)
  have hs (i : ℕ) : (itemsOf i (s.begun as)).Sublist (s.fetchedAt i) :=
    (List.sublist_append_left _ _).trans <| begun_sublist hr he (fun _ => hw) h hd i
  have hmem : ∀ x ∈ s.begun as, x.2 ∈ s.fetchedAt x.1 := fun x hx =>
    (hs x.1).subset <| List.mem_map_of_mem <| List.mem_filter.mpr ⟨hx, by simp⟩
  have hne : ∀ x ∈ s.begun as, x.1 ≠ j := fun x hx hj => by
    have := hmem x hx
    simp [hj, hf] at this
  have hnodup : ((s.begun as).map (·.1)).Nodup := by
    refine List.nodup_iff_count_le_one.mpr fun i => ?_
    calc ((s.begun as).map (·.1)).count i = (itemsOf i (s.begun as)).length := count_map_fst ..
      _ ≤ (s.fetchedAt i).length := (hs i).length_le
      _ ≤ 1                      := s.length_fetchedAt_le i
  refine ⟨hnodup, fun x hx => ⟨hne x hx, ?_⟩, ?_⟩
  · have hl := s.length_fetchedAt_le x.1
    have hx := hmem x hx
    match hf : s.fetchedAt x.1 with
    | []     => simp [hf] at hx
    | [y]    => simp_all
    | _ :: _ :: _ => simp [hf] at hl
  · have hsub : (s.begun as).map (·.1) ⊆ (List.range s.workers.length).erase j := fun i hi => by
      have ⟨x, hx, hxi⟩ := List.mem_map.mp hi
      have hlt := lt_of_mem_fetchedAt (hmem x hx)
      exact (List.Nodup.mem_erase_iff List.nodup_range).mpr
        ⟨hxi ▸ hne x hx, List.mem_range.mpr (hxi ▸ hlt)⟩
    have hle := (List.subperm_of_subset hnodup hsub).length_le
    rw [List.length_map, List.length_erase_of_mem (List.mem_range.mpr hj), List.length_range] at hle
    have := hr.few
    omega

end Sink
end Inference
