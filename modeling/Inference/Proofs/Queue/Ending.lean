import Inference.Proofs.Queue.Waiting

/-!
What the end of a queue does to its callers. The caller that ends the queue notifies everybody at
both conditions, and nobody parks at a queue that is ended; so once it has done so nobody is parked,
unless the queue has been opened again. Until then every consumer leaves without an item and every
producer of a bounded queue is refused. The items stay, apart from those that are cleared away, and
only a queue without a bound takes more.
-/

namespace Inference

namespace Queue

variable {α : Type} {q : Queue α} {rs : List (Request α)}

-- What a lock section leaves of an ended queue, unless it opens the queue.
def whileEnded (q : Queue α) : Request α → Queue α
  | .clear => { q with items := [] }
  | .push x => if q.capacity.isSome then q else { q with items := q.items ++ [x] }
  | _ => q

theorem whileEnded_frame (q : Queue α) (r : Request α) :
    (q.whileEnded r).ended = q.ended ∧ (q.whileEnded r).capacity = q.capacity := by
  cases r
  case push x =>
    rw [whileEnded]
    split <;> exact ⟨rfl, rfl⟩
  all_goals exact ⟨rfl, rfl⟩

theorem foldl_whileEnded_frame (q : Queue α) (rs : List (Request α)) :
    (rs.foldl whileEnded q).ended = q.ended ∧ (rs.foldl whileEnded q).capacity = q.capacity := by
  induction rs generalizing q
  case nil         => exact ⟨rfl, rfl⟩
  case cons r _ hi =>
    have ⟨he, hc⟩ := whileEnded_frame q r
    exact he ▸ hc ▸ hi _

end Queue

namespace Caller

variable {α : Type} {q q' : Queue α} {k k' : Caller α} {r : Request α} {c d : Cond}

-- The request of a caller that is about to take the lock.
def asks? : Caller α → Option (Request α)
  | entering r | woken r => some r
  | _ => none

theorem lock?_eq_map (q : Queue α) (k : Caller α) : k.lock? q = k.asks?.map (takeTurn q) := by
  cases k <;> rfl

theorem takeTurn_withheld (he : q.ended) (hr : r = .pop ∨ r = .tryPop ∨ r = .front) :
    takeTurn q r = (q, returned (.item none)) := by
  rcases hr with rfl | rfl | rfl <;> simp [takeTurn, Queue.turn, he, owing]

theorem takeTurn_refused (he : q.ended) (hc : q.capacity.isSome) (x : α) :
    takeTurn q (.push x) = (q, returned (.accepted false)) := by
  simp [takeTurn, Queue.turn, Queue.push, he, hc, owing]

theorem takeTurn_close (q : Queue α) : takeTurn q .close =
    ({ q with ended := true }, notifying [.all .notEmpty, .all .notFull] .done) := rfl

theorem takeTurn_reopen (q : Queue α) :
    takeTurn q .reopen = ({ q with ended := false }, returned .done) := rfl

theorem takeTurn_whileEnded (he : q.ended) (hr : r ≠ .reopen) :
    (takeTurn q r).1 = q.whileEnded r := by
  cases r
  case push x =>
    cases hc : q.capacity.isSome
    case false => simp [takeTurn, Queue.turn, Queue.push, Queue.whileEnded, hc, he]
    case true  => simp [takeTurn_refused he hc, Queue.whileEnded, hc]
  case pop | tryPop | front => exact congrArg Prod.fst (takeTurn_withheld he (by simp))
  case clear                => rfl
  case close                => simp [takeTurn_close, Queue.whileEnded, ← he]
  case reopen               => exact absurd rfl hr

-- A queue is ended by a caller that asks for it.
theorem takeTurn_ended (h : takeTurn q r = (q', k')) (he : q'.ended) : q.ended ∨ r = .close := by
  have ht := q.turns r
  rw [takeTurn] at h
  generalize q.turn r = t at h ht
  cases ht <;> obtain ⟨rfl, rfl⟩ := Prod.mk.inj h <;> simp_all

theorem isParkedAt_owing (owed : List Wake) (a : Answer α) :
    (owing owed a).isParkedAt c = false := by
  rw [owing]
  split <;> rfl

theorem isParkedAt_of_wake (h : (k.wake d).isParkedAt c) : k.isParkedAt c ∧ d ≠ c := by
  cases k <;> simp only [Caller.wake] at h
  case parked =>
    split at h <;> simp_all [isParkedAt]
  all_goals cases h

end Caller

namespace Monitor

variable {α : Type} {m m' : Monitor α} {rs : List (Request α)} {r : Request α} {c : Cond} {i : ℕ}
  {a : Action α}

-- The request of a caller that is about to take the lock.
def asks? (m : Monitor α) (i : ℕ) : Option (Request α) := m.callers[i]? >>= (·.asks?)

-- The requests of the callers that a schedule adds.
def called (as : List (Action α)) : List (Request α) :=
  as.filterMap fun
    | .call r => some r
    | _ => none

-- The request whose lock section an action is.
def section? (m : Monitor α) : Action α → Option (Request α)
  | .lock i => m.asks? i
  | _ => none

-- The requests whose lock sections a schedule goes through.
def sections : Monitor α → List (Action α) → List (Request α) := machine.seen section?

theorem act_lock (h : m.asks? i = some r) : m.act (.lock i) =
    some ⟨(Caller.takeTurn m.queue r).1, m.callers.set i (Caller.takeTurn m.queue r).2⟩ := by
  have ⟨k, hk, hr⟩ := Option.bind_eq_some_iff.mp h
  simp [act, lock, hk, Caller.lock?_eq_map, hr]

theorem asks?_of_act (h : m.act (.lock i) = some m') : ∃ r, m.asks? i = some r := by
  cases step h
  case lock k k' q' hl hk =>
    rw [Caller.lock?_eq_map] at hl
    have ⟨r, hr, _⟩ := Option.map_eq_some_iff.mp hl
    exact ⟨r, Option.bind_eq_some_iff.mpr ⟨k, hk, hr⟩⟩

theorem queue_of_act (h : m.act a = some m') (he : m.queue.ended)
    (hr : m.section? a ≠ some .reopen) :
    m'.queue = (m.section? a).toList.foldl Queue.whileEnded m.queue := by
  cases a
  case lock i =>
    have ⟨r, ha⟩ := asks?_of_act h
    have hr : r ≠ .reopen := fun hr' => hr (hr' ▸ ha)
    rw [act_lock ha, Option.some.injEq] at h
    rw [← h, Caller.takeTurn_whileEnded he hr, section?, ha]
    rfl
  case call | notify =>
    cases step h
    all_goals rfl

theorem queue_of_run (as : List (Action α)) (h : machine.run m as = some m') (he : m.queue.ended)
    (hr : .reopen ∉ sections m as) :
    m'.queue = (sections m as).foldl Queue.whileEnded m.queue := by
  refine Machine.foldl_of_run (I := (·.queue.ended)) (fun he hr ha => ?_) as h he hr
  have hq := queue_of_act ha he hr
  exact ⟨by rw [hq, (Queue.foldl_whileEnded_frame ..).left, he], hq⟩

theorem parked_of_set {l : List (Caller α)} {b : Caller α} (hb : b.isParkedAt c = false)
    (h : ∃ k ∈ l.set i b, k.isParkedAt c) : ∃ k ∈ l, k.isParkedAt c := by
  obtain ⟨k, hk, hp⟩ := h
  rcases List.mem_or_eq_of_mem_set hk with hk | rfl
  · exact ⟨k, hk, hp⟩
  · simp [hb] at hp

theorem Wakes.waiting {l l' : List (Caller α)} {w : Wake} (h : Wakes l w l')
    (hw : ∃ k ∈ l', k.isParkedAt c) : (∃ k ∈ l, k.isParkedAt c) ∧ w ≠ .all c := by
  obtain ⟨k, hk, hp⟩ := hw
  cases h
  case all d =>
    obtain ⟨k, hk', rfl⟩ := List.mem_map.mp hk
    have ⟨hp, hd⟩ := Caller.isParkedAt_of_wake hp
    exact ⟨⟨k, hk', hp⟩, fun he => hd (Wake.all.inj he)⟩
  case none d _ => exact ⟨⟨k, hk, hp⟩, nofun⟩
  case one k' d j hj _ =>
    refine ⟨?_, nofun⟩
    rcases List.mem_or_eq_of_mem_set hk with hk | rfl
    · exact ⟨k, hk, hp⟩
    · exact ⟨k', List.mem_of_getElem? hj, (Caller.isParkedAt_of_wake hp).left⟩

-- Caller `i` has notifications to give.
def Owes (m : Monitor α) (i : ℕ) : Prop := ∃ owed a, m.callers[i]? = some (.notifying owed a)

-- One of them is for everybody at the condition.
def Summons (m : Monitor α) (c : Cond) (i : ℕ) : Prop :=
  ∃ owed a, m.callers[i]? = some (.notifying owed a) ∧ .all c ∈ owed

-- Each caller stands where the request in its place can lead it.
def Serving (rs : List (Request α)) (l : List (Caller α)) : Prop :=
  ∀ (i : ℕ) (r : Request α), rs[i]? = some r → ∃ k, l[i]? = some k ∧ k.Serves r

namespace Serving

variable {l l' : List (Caller α)} {k : Caller α}

theorem call (h : Serving rs l) (hl : rs.length = l.length) (r : Request α) :
    Serving (rs ++ [r]) (l ++ [.entering r]) := by
  intro j r' hr
  by_cases hj : j < rs.length
  case pos =>
    rw [List.getElem?_append_left hj] at hr
    have ⟨k, hk, hs⟩ := h j r' hr
    exact ⟨k, getElem?_append_of_some hk _, hs⟩
  case neg =>
    obtain rfl : j = rs.length := by
      have hj' := (List.getElem?_eq_some_iff.mp hr).choose
      rw [List.length_append, List.length_singleton] at hj'
      omega
    rw [List.getElem?_concat_length] at hr
    cases hr
    exact ⟨.entering r, by rw [hl, List.getElem?_concat_length], rfl⟩

theorem set (h : Serving rs l) (hr : rs[i]? = some r) (hk : k.Serves r) :
    Serving rs (l.set i k) := by
  intro j r' hr'
  have ⟨k', hk', hs⟩ := h j r' hr'
  by_cases hij : i = j
  case pos =>
    subst hij
    cases hr.symm.trans hr'
    exact ⟨k, List.getElem?_set_self (List.getElem?_eq_some_iff.mp hk').choose, hk⟩
  case neg => exact ⟨k', by rwa [List.getElem?_set_ne hij], hs⟩

theorem roused {d : Cond} (h : Serving rs l) (hd : Roused (Caller.wake d) l l') :
    Serving rs l' := by
  intro j r hr
  have ⟨k, hk, hs⟩ := h j r hr
  have ⟨k', hk', he⟩ := hd.getElem? hk
  refine ⟨k', hk', ?_⟩
  rcases he with rfl | rfl
  · exact hs
  · exact hs.wake

end Serving

-- The callers and their requests. Whoever is parked at an ended queue is about to be notified by a
-- caller that has ended it.
structure Enrolled (m : Monitor α) (rs : List (Request α)) : Prop where
  length  : rs.length = m.callers.length
  serves  : Serving rs m.callers
  noticed : m.queue.ended → ∀ c, m.Waiting c → ∃ i, rs[i]? = some .close ∧ m.Summons c i

namespace Enrolled

theorem start (q : Queue α) : (Monitor.start q).Enrolled [] where
  length  := rfl
  serves  := nofun
  noticed := fun _ _ ⟨_, hk, _⟩ => (List.not_mem_nil hk).elim

theorem request {k : Caller α} (h : m.Enrolled rs) (hk : m.callers[i]? = some k) :
    ∃ r, rs[i]? = some r ∧ k.Serves r := by
  have hi : i < rs.length := h.length ▸ (List.getElem?_eq_some_iff.mp hk).choose
  have hr := List.getElem?_eq_getElem hi
  have ⟨k', hk', hs⟩ := h.serves i _ hr
  cases hk.symm.trans hk'
  exact ⟨_, hr, hs⟩

theorem call (h : m.Enrolled rs) (r : Request α) :
    ({ m with callers := m.callers ++ [.entering r] } : Monitor α).Enrolled (rs ++ [r]) where
  length := by simp [h.length]
  serves := h.serves.call h.length r
  noticed := by
    intro he c hw
    have hw : m.Waiting c := by
      obtain ⟨k, hk, hp⟩ := hw
      rcases List.mem_append.mp hk with hk | hk
      · exact ⟨k, hk, hp⟩
      · cases List.mem_singleton.mp hk ▸ hp
    obtain ⟨i, hr, owed, a, hi, ha⟩ := h.noticed he c hw
    exact ⟨i, getElem?_append_of_some hr _, owed, a, getElem?_append_of_some hi _, ha⟩

theorem lock (h : m.Enrolled rs) (hs : m.Step (.lock i) m') : m'.Enrolled rs := by
  cases hs
  case lock k k' q' hl hk =>
  have ⟨r, hr, hs⟩ := h.request hk
  have ⟨ht, _⟩ := Caller.lock?_eq hs hl
  refine ⟨by simp [h.length], h.serves.set hr (hs.lock? hl), fun he c hw => ?_⟩
  by_cases hq : m.queue.ended
  case pos =>
    have hw : m.Waiting c := parked_of_set (Caller.takeTurn_not_parked c ht hq) hw
    obtain ⟨j, hj, owed, a, ho, ha⟩ := h.noticed hq c hw
    have hij : i ≠ j := by
      rintro rfl
      cases hk.symm.trans ho
      cases hl
    exact ⟨j, hj, owed, a, by rwa [List.getElem?_set_ne hij], ha⟩
  case neg =>
    obtain rfl := (Caller.takeTurn_ended ht he).resolve_left hq
    obtain rfl := (Caller.lock?_close hs hl).right
    refine ⟨i, hr, _, _, List.getElem?_set_self (List.getElem?_eq_some_iff.mp hk).choose, ?_⟩
    cases c <;> simp

theorem notify {target : Option ℕ} (h : m.Enrolled rs) (hs : m.Step (.notify i target) m') :
    m'.Enrolled rs := by
  cases hs
  case notify owed a l w hw hk =>
  have ⟨r, hr, hs⟩ := h.request hk
  have ⟨d, _, hd⟩ := hw.roused
  have hi := hw.getElem?_notifying hk
  refine ⟨by simp [h.length, hd.length_eq], (h.serves.roused hd).set hr (hs.notify? rfl),
    fun he c hp => ?_⟩
  have ⟨hp, hne⟩ := hw.waiting (parked_of_set (Caller.isParkedAt_owing owed a) hp)
  obtain ⟨j, hj, owed', a', ho, ha⟩ := h.noticed he c hp
  by_cases hij : i = j
  case pos =>
    subst hij
    cases hk.symm.trans ho
    have ha : .all c ∈ owed := (List.mem_cons.mp ha).resolve_left fun hc => hne hc.symm
    refine ⟨i, hj, owed, a, ?_, ha⟩
    rw [List.getElem?_set_self (List.getElem?_eq_some_iff.mp hi).choose, Caller.owing,
      if_neg (by simpa using List.ne_nil_of_mem ha)]
  case neg =>
    exact ⟨j, hj, owed', a', by rw [List.getElem?_set_ne hij, hw.getElem?_notifying ho], ha⟩

theorem act (h : m.Enrolled rs) (ha : m.act a = some m') : m'.Enrolled (rs ++ called [a]) := by
  have hs := Monitor.step ha
  cases a
  case call r =>
    cases hs
    exact h.call r
  case lock   => simpa [called] using h.lock hs
  case notify => simpa [called] using h.notify hs

theorem run (as : List (Action α)) (h : m.Enrolled rs) (hr : machine.run m as = some m') :
    m'.Enrolled (rs ++ called as) := by
  induction as generalizing m rs
  case nil =>
    simp only [Machine.run, Option.some.injEq] at hr
    simpa [called] using hr ▸ h
  case cons a as hi =>
    obtain ⟨_, ha, hr, _⟩ := Machine.run_cons_eq_some hr
    have hc : called (a :: as) = called [a] ++ called as := List.filterMap_append (l := [a])
    rw [hc, ← List.append_assoc]
    exact hi (h.act ha) hr

end Enrolled

-- Where the queue is ended and no caller that ended it has a notification to give, nobody is
-- parked. From the lock section that ends it until one that opens it, all consumers leave without
-- an item and all producers of a bounded queue are refused, and what is there when it is opened is
-- what was there at its end, but for what callers have cleared away or put into a queue without a
-- bound.
theorem closing_reaches_callers (q : Queue α) (as : List (Action α))
    (h : machine.run (start q) as = some m) :
    (m.queue.ended → (∀ i : ℕ, (called as)[i]? = some .close → ¬m.Owes i) → ∀ c, ¬m.Waiting c) ∧
    ∀ i m₁, m.asks? i = some .close → m.act (.lock i) = some m₁ →
      ∀ bs m₂, machine.run m₁ bs = some m₂ → .reopen ∉ sections m₁ bs →
        m₂.queue = (sections m₁ bs).foldl Queue.whileEnded { m.queue with ended := true } ∧
        (∀ j r, m₂.asks? j = some r → r = .pop ∨ r = .tryPop ∨ r = .front →
          m₂.act (.lock j) = some { m₂ with
            callers := m₂.callers.set j (.returned (.item none)) }) ∧
        (∀ j x, m₂.asks? j = some (.push x) → m.queue.capacity.isSome →
          m₂.act (.lock j) = some { m₂ with
            callers := m₂.callers.set j (.returned (.accepted false)) }) ∧
        ∀ j, m₂.asks? j = some .reopen → m₂.act (.lock j) = some
          ⟨{ m₂.queue with ended := false }, m₂.callers.set j (.returned .done)⟩ := by
  refine ⟨fun he hs c hw => ?_, fun i m₁ hc h₁ bs m₂ h₂ hr => ?_⟩
  case refine_1 =>
    have hm : m.Enrolled (called as) := (Enrolled.start q).run as h
    have ⟨i, hi, owed, a, hk, _⟩ := hm.noticed he c hw
    exact hs i hi ⟨owed, a, hk⟩
  case refine_2 =>
    rw [act_lock hc, Caller.takeTurn_close, Option.some.injEq] at h₁
    have hq : m₁.queue = { m.queue with ended := true } := h₁ ▸ rfl
    have hq₂ := queue_of_run bs h₂ (hq ▸ rfl) hr
    rw [hq] at hq₂
    have ⟨he, hb⟩ := Queue.foldl_whileEnded_frame { m.queue with ended := true } (sections m₁ bs)
    rw [← hq₂] at he hb
    refine ⟨hq₂, fun j r ha hr => ?_, fun j x ha hx => ?_, fun j ha => ?_⟩
    case refine_1 => rw [act_lock ha, Caller.takeTurn_withheld he hr]
    case refine_2 => rw [act_lock ha, Caller.takeTurn_refused he (hb ▸ hx)]
    case refine_3 => rw [act_lock ha, Caller.takeTurn_reopen]

-- A consumer and a producer are parked beside the one item of a full queue when it is ended, and
-- another caller opens it again.
theorem closing_reaches_both_sides :
    let as : List (Action ℕ) := [.call .pop, .lock 0, .call (.push 1), .lock 1, .call (.push 2),
      .lock 2, .call .close]
    let bs : List (Action ℕ) := [.notify 3 none, .notify 3 none, .lock 0, .call .reopen]
    let q : Queue ℕ := ⟨.arrival, some 1, [1], false⟩
    let m : Monitor ℕ := ⟨q, [.parked .pop .notEmpty, .notifying [.one .notEmpty] (.accepted true),
      .parked (.push 2) .notFull, .entering .close]⟩
    let m₁ : Monitor ℕ := ⟨{ q with ended := true }, [.parked .pop .notEmpty,
      .notifying [.one .notEmpty] (.accepted true), .parked (.push 2) .notFull,
      .notifying [.all .notEmpty, .all .notFull] .done]⟩
    let m₂ : Monitor ℕ := ⟨{ q with ended := true }, [.returned (.item none),
      .notifying [.one .notEmpty] (.accepted true), .woken (.push 2), .returned .done,
      .entering .reopen]⟩
    machine.run (start (.clamped .arrival 1)) as = some m ∧ (∀ c, m.Waiting c) ∧
      m.act (.lock 3) = some m₁ ∧ machine.run m₁ bs = some m₂ ∧ (∀ c, ¬m₂.Waiting c) ∧
      m₂.act (.lock 2) =
        some { m₂ with callers := m₂.callers.set 2 (.returned (.accepted false)) } ∧
      m₂.act (.lock 4) = some ⟨q, m₂.callers.set 4 (.returned .done)⟩ := by
  intro as bs q m m₁ m₂
  have h : machine.run (start (.clamped .arrival 1)) as = some m := rfl
  have h₁ : m.act (.lock 3) = some m₁ := rfl
  have h₂ : machine.run m₁ bs = some m₂ := rfl
  have h' : machine.run (start (.clamped .arrival 1)) (as ++ .lock 3 :: bs) = some m₂ := rfl
  have hw : ∀ c, m.Waiting c := by
    rintro ⟨⟩
    · exact ⟨.parked .pop .notEmpty, by simp [m], rfl⟩
    · exact ⟨.parked (.push 2) .notFull, by simp [m], rfl⟩
  have hr : .reopen ∉ sections m₁ bs := fun hr => by cases List.mem_singleton.mp hr
  have hs : ∀ i : ℕ, (called (as ++ .lock 3 :: bs))[i]? = some .close → ¬m₂.Owes i := by
    rintro (_ | _ | _ | _ | _ | _) hc ⟨_, _, ho⟩
    case succ.succ.succ.zero => cases ho
    all_goals cases hc
  have ⟨hn, _⟩ := closing_reaches_callers _ _ h'
  have ⟨_, _, hp, ho⟩ := (closing_reaches_callers _ as h).right 3 m₁ rfl h₁ bs m₂ h₂ hr
  exact ⟨h, hw, h₁, h₂, hn rfl hs, hp 2 2 rfl rfl, ho 4 rfl⟩

end Monitor
end Inference
