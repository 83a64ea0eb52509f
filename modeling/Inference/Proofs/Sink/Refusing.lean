import Inference.Proofs.Sink.Stopping

/-!
A stop takes effect on all workers and all calls. A worker ends the queue before it lowers the flag,
so once the flag is seen lowered the queue takes no item of a call that comes later, until a new
start raises the flag.
-/

namespace Inference

variable {α : Type}

namespace Sink

-- Unless a destruction goes on or a start is about to raise it, the flag is not lowered without the
-- queue being ended. A sink that was never started has no such flag.
def Seasoned (s : Sink α) : Prop :=
  s.keep = false → s.owner ≠ .raising → s.owner.ending? = none → s.queue.ended

-- The place of a call among the producers after an action, if it has not returned by it.
def place (s s' : Sink α) (a : Action α) (j : ℕ) : Option ℕ :=
  if s.producers.length ≤ s'.producers.length then some j
  else
    match a with
    | .step (.producer i) | .notify (.producer i) _ =>
      if i = j then none else some (if i < j then j - 1 else j)
    | _ => some j

-- The call at place `j` has taken `n` steps of its own and stands at place `k` of a later state.
inductive Follows (s : Sink α) (j : ℕ) : ℕ → Sink α → ℕ → Prop
  | refl : Follows s j 0 s j
  | own {t u n k k'} : Follows s j n t k → machine.act t (.step (.producer k)) = some u →
      t.place u (.step (.producer k)) k = some k' → Follows s j (n + 1) u k'
  | other {t u n k k' a} : Follows s j n t k → a ≠ .step (.producer k) → machine.act t a = some u →
      t.place u a k = some k' → Follows s j n u k'

variable {s s' t u : Sink α} {a : Action α} {j k k' n : ℕ} {x : α} {p : Producer α}

theorem Seasoned.of_eq (hs : s.Seasoned) (hk : s'.keep = s.keep)
    (he : s'.queue.ended = s.queue.ended) (ho : s'.owner = s.owner) : s'.Seasoned := by
  rw [Seasoned, hk, he, ho]
  exact hs

theorem Seasoned.of_ending (ho : s.owner.ending? ≠ none) : s.Seasoned :=
  fun _ _ h => (ho h).elim

-- Whoever has lowered the flag has ended the queue before.
theorem Seasoned.of_started (hl : s.Latched) (ho : s.owner.ending? = none) (hw : s.workers ≠ []) :
    s.Seasoned := fun hk _ _ =>
  have ⟨w, hw, he⟩ := hl.lowers ho hw hk
  hl.closed w hw (Worker.isClosed_of_isExited he)

theorem Seasoned.setProducer {s₁ : Sink α} (hs : s.Seasoned) (ha : s.Alike s₁)
    (hk : s₁.keep = s.keep) (he : s₁.queue.ended = s.queue.ended) (i : ℕ) (p : Producer α) :
    (s₁.setProducer i p).Seasoned :=
  hs.of_eq (by simp [hk]) (by simp [he]) (by simp [ha.owner])

end Sink

variable {s s' : Sink α}

theorem Owner.Moves.seasoned (h : Owner.Moves s s') (hr : s.Regular) (hs : s.Seasoned) :
    s'.Seasoned := by
  cases h
  case raise => simp [Sink.Seasoned, Sink.setOwner]
  case reopen ho =>
    have hk : s.keep := hr.raised (ho ▸ trivial) (hr.vacant (.inr ho))
    simp [Sink.Seasoned, Sink.setOwner, hk]
  case spawned ho | spawn n ho | poll ho _ | await ho _ =>
    exact fun hk _ _ => hs hk (by simp [ho]) (ho ▸ rfl)
  case reset ho => exact fun _ _ _ => hr.shut (ho ▸ trivial)
  all_goals exact .of_ending (Option.some_ne_none _)

theorem Owner.Moves.keep (h : Owner.Moves s s') (ho : s.owner ≠ .raising) (hk : s.keep = false) :
    s'.keep = false := by
  cases h
  case raise ho' => exact (ho ho').elim
  case lower     => rfl
  all_goals exact hk

namespace Sink

variable {s s' t u : Sink α} {a : Action α} {j k n n' : ℕ} {x : α} {p : Producer α}

theorem Step.seasoned (h : s.Step a s') (hr : s.Regular) (hs : s.Seasoned) : s'.Seasoned := by
  cases h
  case start => exact fun _ h => (h rfl).elim
  case restart ho _ _ | drain ho _ => exact fun hk _ _ => hs hk (by simp [ho]) (ho ▸ rfl)
  case destroy | spawnFails => exact .of_ending (Option.some_ne_none _)
  case worker i w s₁ w' hi hm =>
    intro hk ho ho'
    have hf := hm.flags
    have hw := List.mem_of_getElem? hi
    cases hf.lowers hk
    case inl hk => exact hf.ended <| hs hk (hm.alike.owner ▸ ho) (hm.alike.owner ▸ ho')
    case inr he =>
      exact (hf.closed (Worker.isClosed_of_isExited he)).elim
        (fun h => hf.ended (hr.closed w hw h)) id
  case producer i _ _ p' _ hm => exact hs.setProducer hm.alike hm.keep hm.ended i p'
  case owner hm => exact hm.seasoned hr hs
  case tellProducer i _ c ws ps _ p' _ _ _ _ =>
    have hs : ({ s with workers := ws, producers := ps } : Sink α).Seasoned := hs.of_eq rfl rfl rfl
    exact hs.setProducer (.refl _) rfl rfl i p'
  case tellOwner ht => exact .of_ending ht.ending_resumed
  all_goals exact hs.of_eq rfl rfl rfl

theorem Step.keep_eq_false (h : s.Step a s') (ho : s.owner ≠ .raising) (hk : s.keep = false) :
    s'.keep = false := by
  cases h
  case worker hm => exact hm.flags.lowered hk
  case producer hm => exact (setProducer_keep ..).trans (hm.keep.trans hk)
  case owner hm => exact hm.keep ho hk
  case tellProducer => exact (setProducer_keep ..).trans hk
  all_goals exact hk

-- After a call of start, in whatever way it goes.
theorem Step.seasoned_of_start (h : s.Step .start s') (hr : s.Regular) : s'.Seasoned := by
  cases h
  case start             => exact fun _ h => (h rfl).elim
  case restart ho _ hw   =>
    exact (Seasoned.of_started hr.toLatched (ho ▸ rfl) hw).of_eq rfl rfl ho.symm

theorem place_eq_some (h : s.producers.length ≤ s'.producers.length) : s.place s' a j = some j :=
  if_pos h

-- The others stay as they are when one of the producers goes on, or leaves.
theorem getElem?_of_place {i : ℕ} {ps : List (Producer α)} (hi : i < ps.length)
    (hl : ps.length = s.producers.length)
    (hs : s'.producers = ps.eraseIdx i ∨ ∃ p, s'.producers = ps.set i p)
    (ha : a = .step (.producer i) ∨ ∃ target, a = .notify (.producer i) target) (hij : i ≠ j)
    (h : s.place s' a j = some k) : s'.producers[k]? = ps[j]? := by
  rcases hs with hs | ⟨p, hs⟩
  · have hlt : ¬s.producers.length ≤ s'.producers.length := by
      rw [hs, List.length_eraseIdx_of_lt hi]
      omega
    have hk : (if i < j then j - 1 else j) = k := by
      rcases ha with rfl | ⟨_, rfl⟩ <;> rw [place, if_neg hlt, if_neg hij] at h <;>
        exact Option.some.inj h
    rw [hs, List.getElem?_eraseIdx, ← hk]
    split <;> split <;> grind
  · have hle : s.producers.length ≤ s'.producers.length := by simp [hs, hl]
    obtain rfl := Option.some.inj <| (place_eq_some hle).symm.trans h
    rw [hs, List.getElem?_set_ne hij]

theorem producers_setProducer (s : Sink α) (i : ℕ) (p : Producer α) :
    (s.setProducer i p).producers = s.producers.eraseIdx i ∨
      ∃ q, (s.setProducer i p).producers = s.producers.set i q := by
  have h := s.places i p
  generalize s.setProducer i p = s' at h ⊢
  cases h
  case taken          => exact .inl rfl
  case bounced | kept => exact .inr ⟨_, rfl⟩

-- A call that is not at the queue stays as it is while the others act.
theorem Step.getElem?_producers (h : s.Step a s') (hp : s.producers[j]? = some p)
    (hn : ∀ x c, p ≠ .pushing x c) (ha : a ≠ .step (.producer j)) (hk : s.place s' a j = some k) :
    s'.producers[k]? = some p := by
  have hr {c : Cond} {ps : List (Producer α)} (h : Roused (Producer.wake c) s.producers ps) :
      ps[j]? = some p := by
    have ⟨q, hj, hq⟩ := h.getElem? hp
    have hw : p.wake c = p := by cases p <;> first | rfl | exact (hn _ _ rfl).elim
    rwa [hq.elim id (·.trans hw)] at hj
  have hsame {ps : List (Producer α)} (hs : s'.producers = ps) (hl : s.producers.length ≤ ps.length)
      (hj : ps[j]? = some p) : s'.producers[k]? = some p := by
    obtain rfl := Option.some.inj <| (place_eq_some (hs ▸ hl)).symm.trans hk
    exact hs ▸ hj
  cases h
  case push x _ =>
    have hlt := (List.getElem?_eq_some_iff.mp hp).1
    exact hsame rfl (by simp) (List.getElem?_append_left hlt ▸ hp)
  case worker hm =>
    exact hsame hm.alike.producers (Nat.le_refl _) hp
  case producer i q s₁ q' hi hm =>
    have hij : i ≠ j := fun h => ha (h ▸ rfl)
    have hs := hm.alike.producers
    have hlt := (List.getElem?_eq_some_iff.mp hi).1
    have hq := getElem?_of_place hlt rfl (hs ▸ producers_setProducer s₁ i q') (.inl rfl) hij hk
    exact hq.trans hp
  case leave i x hi =>
    have hij : i ≠ j := fun h => ha (h ▸ rfl)
    have hlt := (List.getElem?_eq_some_iff.mp hi).1
    exact (getElem?_of_place hlt rfl (.inl rfl) (.inl rfl) hij hk).trans hp
  case owner hm =>
    have hs : s'.producers = s.producers := by cases hm <;> rfl
    exact hsame hs (Nat.le_refl _) hp
  case tellWorker hw hps hi ht => exact hsame rfl (Nat.le_of_eq hps.length_eq) (hr hps)
  case tellProducer i target c ws ps q q' hw hps hi ht =>
    have hij : i ≠ j := by
      rintro rfl
      obtain rfl := Option.some.inj (hi.symm.trans (hr hps))
      cases ht
      exact hn _ _ rfl
    have hlt := (List.getElem?_eq_some_iff.mp hi).1
    have hl : ps.length = s.producers.length := hps.length_eq.symm
    have hs := producers_setProducer { s with workers := ws, producers := ps } i q'
    exact (getElem?_of_place hlt hl hs (.inr ⟨_, rfl⟩) hij hk).trans (hr hps)
  case tellOwner hw hps ht => exact hsame rfl (Nat.le_of_eq hps.length_eq) (hr hps)
  all_goals exact hsame rfl (Nat.le_refl _) hp

-- Where a call stands that finds the queue ended, one action after the other.
def refusal (x : α) : List (Producer α) := [.raising x, .testing x, .refusing x]

-- The call is never kept waiting, and it touches neither the queue nor the workers.
theorem act_of_refusal (he : s.queue.ended) (hn : (refusal x)[n]? = some p)
    (hp : s.producers[j]? = some p) :
    ∃ t, machine.act s (.step (.producer j)) = some t ∧ t.queue = s.queue ∧ t.workers = s.workers ∧
      (n = 2 → t.producers = s.producers.eraseIdx j ∧ t.history = .refused x :: s.history) ∧
      (n < 2 → t.history = s.history ∧
        ∃ q, (refusal x)[n + 1]? = some q ∧ t.producers = s.producers.set j q) := by
  obtain _ | _ | _ | n := n
  case zero =>
    obtain rfl := Option.some.inj hn
    exact ⟨({ s with inFlight := s.inFlight + 1 } : Sink α).setProducer j (.testing x),
      by simp [machine, act, stepProducer, hp], rfl, rfl, by simp, fun _ => ⟨rfl, _, rfl, rfl⟩⟩
  case succ.zero =>
    obtain rfl := Option.some.inj hn
    exact ⟨s.setProducer j (.refusing x), by simp [machine, act, stepProducer, hp, he], rfl, rfl,
      by simp, fun _ => ⟨rfl, _, rfl, rfl⟩⟩
  case succ.succ.zero =>
    obtain rfl := Option.some.inj hn
    let t : Sink α := { s with
      inFlight := s.inFlight - 1
      producers := s.producers.eraseIdx j }
    exact ⟨t.record (.refused x), by simp [machine, act, stepProducer, hp, t], rfl, rfl,
      fun _ => ⟨rfl, rfl⟩, by simp⟩
  case succ.succ.succ => simp [refusal] at hn

-- Once the flag is down for good, a call that comes later stands where a refused call stands.
structure Refused (s : Sink α) (x : α) (n j : ℕ) : Prop where
  regular  : s.Regular
  keep     : s.keep = false
  seasoned : s.Seasoned
  stage    : ∃ p, (refusal x)[n]? = some p ∧ s.producers[j]? = some p

namespace Refused

theorem free (h : s.Refused x n j) : s.owner = .free :=
  have ⟨_, _, hp⟩ := h.stage
  h.regular.free hp

theorem ended (h : s.Refused x n j) : s.queue.ended :=
  h.seasoned h.keep (by simp [h.free]) (h.free ▸ rfl)

theorem of_step (h : s.Refused x n j) (hs : s.Step a s')
    (hp : ∃ p, (refusal x)[n']? = some p ∧ s'.producers[k]? = some p) : s'.Refused x n' k where
  regular  := hs.regular h.regular
  keep     := hs.keep_eq_false (by simp [h.free]) h.keep
  seasoned := hs.seasoned h.regular h.seasoned
  stage    := hp

end Refused

theorem Follows.refused (h : s.Follows j n t k) (hr : s.Refused x 0 j) : t.Refused x n k := by
  induction h
  case refl => exact hr
  case own t u n k k' _ ha hk hi =>
    have ⟨p, hn, hp⟩ := hi.stage
    have ⟨v, ha', _, _, hleave, hstay⟩ := act_of_refusal hi.ended hn hp
    obtain rfl := Option.some.inj (ha'.symm.trans ha)
    have hlt := (List.getElem?_eq_some_iff.mp hp).1
    have hlen : n < 3 := (List.getElem?_eq_some_iff.mp hn).1
    obtain rfl | hn2 : n = 2 ∨ n < 2 := by omega
    · have hl : ¬t.producers.length ≤ v.producers.length := by
        rw [(hleave rfl).left, List.length_eraseIdx_of_lt hlt]
        omega
      rw [place, if_neg hl, if_pos rfl] at hk
      cases hk
    · obtain ⟨_, q, hq, hs⟩ := hstay hn2
      obtain rfl := Option.some.inj <| (place_eq_some (by simp [hs])).symm.trans hk
      exact hi.of_step (hi.regular.step_of_act ha) ⟨q, hq, by simp [hs, hlt]⟩
  case other t u n k k' a _ ha hact hk hi =>
    have ⟨p, hn, hp⟩ := hi.stage
    have hs := hi.regular.step_of_act hact
    have hq : ∀ y c, p ≠ .pushing y c := by
      rintro y c rfl
      simpa [refusal] using List.mem_of_getElem? hn
    exact hi.of_step hs ⟨p, hn, hs.getElem?_producers hp hq ha hk⟩

-- Nothing is given to the processor that no call has handed over.
theorem reaches_recorded [DecidableEq α] {bound threads : ℕ}
    (h : machine.Reaches (create bound threads : Sink α) s) : s.Recorded :=
  have hc : (create bound threads : Sink α).Recorded := fun x => by
    rw [stock_create]
    exact Nat.zero_le _
  (h.preserves (I := fun s : Sink α => s.Regular ∧ s.Recorded) ⟨regular_create .., hc⟩
    fun ⟨hr, hl⟩ h =>
      have h := hr.step_of_act h
      ⟨h.regular hr, h.recorded hl⟩).right

theorem Recorded.subperm [DecidableEq α] (h : s.Recorded) :
    (Event.given s.history).Subperm (Event.taken s.history ++ s.producers.flatMap (·.put)) :=
  List.subperm_ext_iff.mpr fun x _ => by
    have h := h x
    rw [List.count_append, count_flatMap]
    exact Nat.le_trans (Nat.le_add_right ..) h

-- A stop takes effect on all workers and on all later calls. From the moment at which a worker has
-- ended the queue until a destruction begins, each of the other workers begins at most the one item
-- that it has already taken. From a state after a start in which the flag is down until the next
-- start raises it, a call that comes is refused by its third action, without ever waiting and
-- without touching the queue. What the processor is given has been handed over by a call that is
-- accepted.
theorem stop_takes_effect (bound threads : ℕ) :
    (∀ {r s t : Sink α} {j k} {as : List (Action α)}, machine.Reaches (create bound threads) r →
      r.workers[j]? = some (.stopping k) → machine.act r (.step (.worker j)) = some s →
      machine.run s as = some t → (∀ x ∈ machine.trace s as, x.1.owner.ending? = none) →
      ((s.begun as).map (·.1)).Nodup ∧ (∀ x ∈ s.begun as, x.1 ≠ j ∧ s.fetchedAt x.1 = [x.2]) ∧
        (s.begun as).length ≤ max threads 1 - 1 ∧
        Event.given t.history = ((s.begun as).map (·.2)).reverse ++ Event.given s.history) ∧
    (∀ {r r' s u v t : Sink α} {x n k}, machine.Reaches (create bound threads) r →
      machine.act r .start = some r' → machine.Reaches r' s → s.keep = false →
      machine.ReachesBy (fun s _ => s.owner ≠ .raising) s u → machine.act u (.push x) = some v →
      v.Follows u.producers.length n t k →
      n ≤ 2 ∧ ∃ t', machine.act t (.step (.producer k)) = some t' ∧ t'.queue = t.queue ∧
        t'.workers = t.workers ∧ (n < 2 → t'.producers.length = t.producers.length) ∧
        (n = 2 → t'.producers = t.producers.eraseIdx k ∧ t'.history = .refused x :: t.history)) ∧
    ∀ s : Sink α, machine.Reaches (create bound threads) s →
      (Event.given s.history).Subperm (Event.taken s.history ++ s.producers.flatMap (·.put)) := by
  refine ⟨?_, ?_, ?_⟩
  · intro r s t j k as hr hj ha hrun hd
    have ⟨hg, hk⟩ := reaches_regular hr
    have ⟨he, hlt, hf⟩ := of_closes hg hj ha
    have hs := hg.step_of_act ha
    have hg := hs.regular hg
    have ⟨hn, hx, hl⟩ := begun_once hg he hlt hf hrun hd
    have ht : s.threads = max threads 1 := hs.threads.trans hk.threads
    exact ⟨hn, hx, ht ▸ hl, given_eq_of_run hg hrun⟩
  · intro r r' s u v t x n k hr hstart hs hk hu hpush hf
    have hg := (reaches_regular hr).left
    have h := hg.step_of_act hstart
    have ⟨hg, hn⟩ : s.Regular ∧ s.Seasoned :=
      hs.preserves (I := fun s : Sink α => s.Regular ∧ s.Seasoned)
        ⟨h.regular hg, h.seasoned_of_start hg⟩ fun ⟨hg, hn⟩ h =>
          have h := hg.step_of_act h
          ⟨h.regular hg, h.seasoned hg hn⟩
    have ⟨hg, hn, hk⟩ : u.Regular ∧ u.Seasoned ∧ u.keep = false :=
      hu.preserves (I := fun s : Sink α => s.Regular ∧ s.Seasoned ∧ s.keep = false) ⟨hg, hn, hk⟩
        fun ⟨hg, hn, hk⟩ ho h =>
          have h := hg.step_of_act h
          ⟨h.regular hg, h.seasoned hg hn, h.keep_eq_false ho hk⟩
    have h := hg.step_of_act hpush
    have hv : v.Refused x 0 u.producers.length := by
      refine ⟨h.regular hg, ?_, h.seasoned hg hn, _, rfl, ?_⟩ <;> cases h
      · exact hk
      · simp
    have ht := hf.refused hv
    have ⟨p, hn, hp⟩ := ht.stage
    have ⟨t', ha, hq, hw, hleave, hstay⟩ := act_of_refusal ht.ended hn hp
    have hlen : n < 3 := (List.getElem?_eq_some_iff.mp hn).1
    refine ⟨Nat.le_of_lt_succ hlen, t', ha, hq, hw, fun h => ?_, hleave⟩
    obtain ⟨_, q, _, h⟩ := hstay h
    rw [h, List.length_set]
  · intro s hs
    classical exact (reaches_recorded hs).subperm

-- Two workers: the processor stops at the item of one of them while the other one holds an item,
-- which it still begins. A call that comes after that is refused.
theorem second_worker_finishes :
    let r : Sink ℕ := { create 0 2 with
      keep := true
      inFlight := 1
      workers := [.stopping (.entering .close), .holding 6]
      history := [.ended 5 .stop, .began 5, .accepted 6, .accepted 5, .returned .started] }
    let s : Sink ℕ := { r with
      queue := ⟨.arrival, none, [], true⟩
      workers := [.stopping (.notifying [.all .notEmpty, .all .notFull] .done), .holding 6] }
    let t : Sink ℕ := { s with
      keep := false
      active := 1
      workers := [.exited, .working 6]
      history := .began 6 :: s.history }
    let u : Sink ℕ := { t with
      inFlight := 2
      producers := [.refusing 7] }
    machine.Reaches (create 0 2) r ∧ machine.act r (.step (.worker 0)) = some s ∧
      machine.Reaches s t ∧ s.begun [.step (.worker 1), .step (.worker 1), .notify (.worker 0) none,
        .notify (.worker 0) none, .step (.worker 0)] = [(1, 6)] ∧ s.fetchedAt 1 = [6] ∧
      machine.Reaches t u ∧
      (∃ v, machine.act u (.step (.producer 0)) = some v ∧ v.queue = u.queue ∧
        v.producers = [] ∧ v.history = .refused 7 :: u.history) ∧
      (Event.given u.history).Subperm (Event.taken u.history ++ u.producers.flatMap (·.put)) := by
  intro r s t u
  obtain ⟨hbegun, hrefused, hgiven⟩ := stop_takes_effect (α := ℕ) 0 2
  have hstart : machine.act (create 0 2 : Sink ℕ) .start =
      some ((create 0 2).setOwner .raising) := rfl
  have hr : machine.Reaches ((create 0 2).setOwner .raising) r :=
    .of_run [.step .owner, .step .owner, .step .owner, .step .owner, .step .owner, .push 5,
      .step (.producer 0), .step (.producer 0), .step (.producer 0), .notify (.producer 0) none,
      .push 6, .step (.producer 0), .step (.producer 0), .step (.producer 0),
      .notify (.producer 0) none, .step (.worker 0), .step (.worker 0), .notify (.worker 0) none,
      .step (.worker 0), .step (.worker 0), .step (.worker 1), .step (.worker 1),
      .notify (.worker 1) none, .finish 0 .stop, .step (.worker 0), .step (.worker 0)] (by cbv)
  have hs : machine.act r (.step (.worker 0)) = some s := rfl
  have hrun : machine.run s [.step (.worker 1), .step (.worker 1), .notify (.worker 0) none,
      .notify (.worker 0) none, .step (.worker 0)] = some t := by cbv
  have hpush : machine.act t (.push 7) = some { t with producers := [.raising 7] } := rfl
  have hu : machine.run { t with producers := [.raising 7] }
      [.step (.producer 0), .step (.producer 0)] = some u := by cbv
  have ht := (Machine.Reaches.step hr hs).trans (.of_run _ hrun)
  have hr := (Machine.Reaches.step .refl hstart).trans hr
  have hfree : (machine.trace s [.step (.worker 1), .step (.worker 1), .notify (.worker 0) none,
      .notify (.worker 0) none, .step (.worker 0)]).map (·.1.owner.ending?) =
      List.replicate 5 none := rfl
  have hfree : ∀ x ∈ machine.trace s _, x.1.owner.ending? = none := fun _ hx =>
    List.eq_of_mem_replicate <| hfree ▸ List.mem_map_of_mem hx
  obtain ⟨_, hone, _⟩ := hbegun hr rfl hs hrun hfree
  obtain ⟨_, v, hv, hq, _, _, hleave⟩ := hrefused .refl hstart ht rfl .refl hpush
    (.own (.own .refl rfl rfl) rfl rfl : Follows _ 0 2 u 0)
  have hu := (Machine.Reaches.step .refl hpush).trans (.of_run _ hu)
  exact ⟨hr, hs, .of_run _ hrun, rfl, (hone (1, 6) (.head _)).right, hu, ⟨v, hv, hq, hleave rfl⟩,
    hgiven u <| (Machine.Reaches.step .refl hstart).trans <| ht.trans hu⟩

end Sink
end Inference
