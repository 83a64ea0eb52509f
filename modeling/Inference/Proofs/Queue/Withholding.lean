import Inference.Proofs.Queue.Custody

/-!
The end of a pool. Until the pool is opened again nobody gets a resource that he did not have before
its end, and what callers give back meanwhile lies there when it is opened, unless it is cleared
away.
-/

namespace Inference

def Answer.given? {α : Type} : Answer α → Option α
  | .item x => x
  | _ => none

namespace Caller

variable {α : Type} {q : Queue α} {k : Caller α} {r : Request α}

-- The item that a caller was given.
def given? : Caller α → Option α
  | notifying _ a | returned a => a.given?
  | _ => none

@[simp]
theorem given?_owing (owed : List Wake) (a : Answer α) : (owing owed a).given? = a.given? := by
  rw [owing]
  split <;> rfl

@[simp]
theorem given?_wake (c : Cond) (k : Caller α) : (k.wake c).given? = k.given? := by
  cases k <;> simp only [Caller.wake]
  case parked =>
    split <;> rfl

theorem asks?_wake (h : k.asks? = some r) (c : Cond) : (k.wake c).asks? = some r := by
  cases k
  case entering | woken => exact h
  all_goals cases h

theorem given?_of_asks? (h : k.asks? = some r) : k.given? = none := by
  cases k
  case entering | woken => rfl
  all_goals cases h

-- Nobody takes an item out of an ended queue.
theorem takeTurn_given? (he : q.ended) (r : Request α) : (takeTurn q r).2.given? = none := by
  have ht := q.turns r
  rw [takeTurn]
  generalize q.turn r = t at ht
  cases ht
  case taken | shown => simp_all
  all_goals first | exact given?_owing .. | rfl

theorem takeTurn_put (hq : q.capacity = none) (x : α) : takeTurn q (.push x) =
    ({ q with items := q.items ++ [x] }, notifying [.one .notEmpty] (.accepted true)) := by
  simp [takeTurn, Queue.turn, Queue.push, Queue.isFull, hq, owing]

theorem takeTurn_taken (he : q.ended = false) (hi : q.items ≠ [])
    (hr : r = .pop ∨ r = .tryPop) : ∃ x rest, takeTurn q r =
      ({ q with items := rest }, notifying [.one .notFull] (.item (some x))) ∧
      q.items.Perm (x :: rest) := by
  have ht := q.turns r
  rw [takeTurn]
  generalize q.turn r = t at ht
  cases ht
  case taken x rest hp _ _ => exact ⟨x, rest, rfl, hp⟩
  all_goals simp_all

theorem cargo_of_asks? (h : k.asks? = some r) : k.cargo = r.cargo := by
  cases k
  case entering | woken => exact congrArg Request.cargo (Option.some.inj h)
  all_goals cases h

theorem takeTurn_reclaim (hr : r = .close ∨ r = .reopen) :
    (takeTurn q r).1.items = q.items ∧ (takeTurn q r).2.cargo = [] := by
  rcases hr with rfl | rfl <;> exact ⟨rfl, rfl⟩

end Caller

namespace Queue

variable {α : Type} {q : Queue α} {r : Request α} {rs : List (Request α)}

theorem whileEnded_items (hq : q.capacity = none) (hr : r ≠ .clear) :
    (q.whileEnded r).items = q.items ++ r.cargo := by
  cases r
  case push    => simp [whileEnded, hq, Request.cargo]
  case clear   => exact absurd rfl hr
  all_goals exact (List.append_nil _).symm

theorem foldl_whileEnded_items (hq : q.capacity = none) (hr : .clear ∉ rs) :
    (rs.foldl whileEnded q).items = q.items ++ rs.flatMap Request.cargo := by
  induction rs generalizing q
  case nil => simp
  case cons r rs hi =>
    have ⟨hr, hrs⟩ := List.ne_and_not_mem_of_not_mem_cons hr
    have hc := (whileEnded_frame q r).right.trans hq
    rw [List.foldl_cons, hi hc hrs, whileEnded_items hq hr.symm, List.flatMap_cons,
      List.append_assoc]

end Queue

namespace Monitor

variable {α : Type} {m m' : Monitor α} {a : Action α} {r : Request α} {i : ℕ}

def given? (m : Monitor α) (i : ℕ) : Option α := m.callers[i]? >>= (·.given?)

-- A caller that is about to take the lock is so until it does.
theorem asks?_act (h : m.act a = some m') (hr : m.asks? i = some r) :
    a = .lock i ∨ m'.asks? i = some r := by
  have ⟨k, hk, hr⟩ := Option.bind_eq_some_iff.mp hr
  simp only [asks?, Option.bind_eq_bind, Option.bind_eq_some_iff]
  cases step h
  case call => exact .inr ⟨k, getElem?_append_of_some hk _, hr⟩
  case lock j k' k₁ q' hl hk' =>
    by_cases hij : j = i
    case pos => exact .inl (hij ▸ rfl)
    case neg => exact .inr ⟨k, by rwa [List.getElem?_set_ne hij], hr⟩
  case notify j target owed a l w hk' hw =>
    have ⟨d, _, hd⟩ := hw.roused
    have ⟨k₁, hk₁, hd⟩ := hd.getElem? hk
    have hij : j ≠ i := by
      rintro rfl
      cases hk.symm.trans hk'
      cases hr
    refine .inr ⟨k₁, by rwa [List.getElem?_set_ne hij], ?_⟩
    rcases hd with rfl | rfl
    · exact hr
    · exact Caller.asks?_wake hr d

theorem given?_congr (h : m'.callers.map Caller.given? = m.callers.map Caller.given?) (i : ℕ) :
    m'.given? i = m.given? i := by
  have hg (m : Monitor α) : m.given? i = (m.callers.map Caller.given?)[i]?.join := by
    cases hi : m.callers[i]? <;> simp [given?, hi]
  rw [hg, hg, h]

-- Nobody is given an item by an ended queue.
theorem given?_of_act (h : m.act a = some m') (he : m.queue.ended) (i : ℕ) :
    m'.given? i = m.given? i := by
  cases step h
  case call r =>
    simp only [given?, List.getElem?_append]
    split
    case isTrue => rfl
    case isFalse hi =>
      rw [List.getElem?_eq_none (Nat.not_lt.mp hi)]
      cases i - m.callers.length <;> rfl
  case lock k k' q' hk hl =>
    rw [Caller.lock?_eq_map] at hl
    have ⟨r, hr, ht⟩ := Option.map_eq_some_iff.mp hl
    have hg := Caller.takeTurn_given? he r
    rw [ht] at hg
    exact given?_congr (map_set_of_eq hk <| hg.trans (Caller.given?_of_asks? hr).symm) i
  case notify w hk hw =>
    have ⟨d, _, hd⟩ := hw.roused
    refine given?_congr ?_ i
    rw [map_set_of_eq (hw.getElem?_notifying hk) (Caller.given?_owing ..),
      hd.map_eq (Caller.given?_wake d)]

end Monitor

namespace Custody

variable {α : Type} {c c' d : Custody α} {mv : Move α} {bs : List (Move α)} {r : Request α}
  {i : ℕ} {x : α}

-- The request whose lock section a move is.
def section? (c : Custody α) : Move α → Option (Request α)
  | .lock i => c.pool.asks? i
  | _ => none

-- The resource that a move gives back.
def returned? (c : Custody α) : Move α → Option α
  | .release i => c.held? .hand i
  | .drop i => c.held? .guard i
  | _ => none

def sections : Custody α → List (Move α) → List (Request α) := machine.seen section?

def givenBack : Custody α → List (Move α) → List α := machine.seen returned?

-- The resource is in the pool, or a caller is about to put it there.
def Comes (c : Custody α) (x : α) : Prop :=
  x ∈ c.pool.queue.items ∨ ∃ i, c.pool.asks? i = some (Pool.release x)

-- A move is at most one action at the queue.
theorem Step.pool (hs : c.Step mv c') : c'.pool = c.pool ∧ c.section? mv = none ∨
    ∃ a, c.pool.act a = some c'.pool ∧ c.pool.section? a = c.section? mv := by
  cases hs
  case begin r hb      => exact .inr ⟨.call r, rfl, by cases mv <;> cases hb <;> rfl⟩
  case back y hx hm    => exact .inr ⟨.call (.push y), rfl, by cases hm <;> rfl⟩
  case detach          => exact .inl ⟨rfl, rfl⟩
  case lock i p hp     => exact .inr ⟨.lock i, hp, rfl⟩
  case notify i t p hp => exact .inr ⟨.notify i t, hp, rfl⟩

theorem Step.queue_eq (hs : c.Step mv c') (he : c.pool.queue.ended)
    (hr : c.section? mv ≠ some .reopen) :
    c'.pool.queue = (c.section? mv).toList.foldl Queue.whileEnded c.pool.queue := by
  rcases hs.pool with ⟨hp, hn⟩ | ⟨a, ha, hs⟩
  · rw [hp, hn]
    rfl
  · rw [← hs] at hr ⊢
    exact Monitor.queue_of_act ha he hr

theorem Step.given?_eq (hs : c.Step mv c') (he : c.pool.queue.ended) (i : ℕ) :
    c'.pool.given? i = c.pool.given? i := by
  rcases hs.pool with ⟨hp, _⟩ | ⟨a, ha, _⟩
  · rw [hp]
  · exact Monitor.given?_of_act ha he i

-- Only a clearing discards resources, and only those that are in the pool.
theorem Step.discarded_eq (hs : c.Step mv c') : c'.discarded = c.discarded ∨
    c.section? mv = some .clear ∧ c'.discarded = c.discarded ++ c.pool.queue.items := by
  cases hs
  case lock i p hp =>
    simp only [swept]
    split
    case h_1 hk => exact .inr ⟨by simp [section?, Monitor.asks?, hk, Caller.asks?], rfl⟩
    case h_2    => exact .inl (List.append_nil _)
  all_goals exact .inl rfl

theorem Step.items_eq (hs : c.Step mv c') (hc : c.Regular) (he : c.pool.queue.ended)
    (hr : c.section? mv ≠ some .reopen) (hd : c.section? mv ≠ some .clear) :
    c'.pool.queue.items =
      c.pool.queue.items ++ (c.section? mv).toList.flatMap Request.cargo := by
  rw [hs.queue_eq he hr]
  exact Queue.foldl_whileEnded_items hc.unbounded (by simpa using hd)

theorem Step.comes (hs : c.Step mv c') (hc : c.Regular) (he : c.pool.queue.ended)
    (hr : c.section? mv ≠ some .reopen) (hd : c.section? mv ≠ some .clear) (hx : c.Comes x) :
    c'.Comes x := by
  have hi := hs.items_eq hc he hr hd
  rcases hx with hx | ⟨i, hx⟩
  · exact .inl (hi ▸ List.mem_append_left _ hx)
  · rcases hs.pool with ⟨hp, _⟩ | ⟨a, ha, hs⟩
    · exact .inr ⟨i, hp ▸ hx⟩
    · rcases Monitor.asks?_act ha hx with rfl | hx'
      · have hs : c.section? mv = some (Pool.release x) := hs ▸ hx
        exact .inl (by simp [hi, hs, Pool.release, Request.cargo])
      · exact .inr ⟨i, hx'⟩

theorem Step.comes_of_returned? (hs : c.Step mv c') (hx : c.returned? mv = some x) :
    c'.Comes x := by
  have hb {c : Custody α} {h : Hold} : (c.call h (Pool.release x)).Comes x :=
    .inr ⟨c.pool.callers.length, by simp [call, Monitor.asks?, Caller.asks?]⟩
  cases hs
  case begin hb => cases mv <;> cases hb <;> cases hx
  case back hx' hm => cases hm <;> cases hx.symm.trans hx' <;> exact hb
  all_goals cases hx

-- What a run leaves of a pool that is ended and is not opened again.
structure Withheld (c : Custody α) (bs : List (Move α)) (c' : Custody α) : Prop where
  ended   : c'.pool.queue.ended
  given   : ∀ i : ℕ, c'.pool.given? i = c.pool.given? i
  spared  : .clear ∉ c.sections bs → c'.discarded = c.discarded
  items   : .clear ∉ c.sections bs →
    c'.pool.queue.items = c.pool.queue.items ++ (c.sections bs).flatMap Request.cargo
  comes   : .clear ∉ c.sections bs → ∀ x, c.Comes x ∨ x ∈ c.givenBack bs → c'.Comes x

namespace Withheld

theorem refl (he : c.pool.queue.ended) : c.Withheld [] c where
  ended    := he
  given _  := rfl
  spared _ := rfl
  items _  := (List.append_nil _).symm
  comes _ _ hx := hx.resolve_right List.not_mem_nil

theorem cons (ha : c.act mv = some d) (hc : c.Regular) (he : c.pool.queue.ended)
    (hr : c.section? mv ≠ some .reopen) (h : d.Withheld bs c') : c.Withheld (mv :: bs) c' := by
  have hs := Custody.step ha
  have hsec : c.sections (mv :: bs) = (c.section? mv).toList ++ d.sections bs :=
    Machine.seen_cons section? bs ha
  have hback : c.givenBack (mv :: bs) = (c.returned? mv).toList ++ d.givenBack bs :=
    Machine.seen_cons returned? bs ha
  have hd (hd : .clear ∉ c.sections (mv :: bs)) :
      c.section? mv ≠ some .clear ∧ .clear ∉ d.sections bs := by
    rw [hsec, List.mem_append, not_or] at hd
    exact ⟨fun hn => hd.left (by simp [hn]), hd.right⟩
  refine ⟨h.ended, fun i => (h.given i).trans (hs.given?_eq he i), fun hk => ?_, fun hk => ?_,
    fun hk x hx => ?_⟩
  case refine_1 =>
    exact (h.spared (hd hk).right).trans <|
      hs.discarded_eq.resolve_right fun hn => (hd hk).left hn.left
  case refine_2 =>
    rw [h.items (hd hk).right, hs.items_eq hc he hr (hd hk).left, hsec, List.flatMap_append,
      List.append_assoc]
  case refine_3 =>
    refine h.comes (hd hk).right x ?_
    rw [hback, List.mem_append, Option.mem_toList] at hx
    rcases hx with hx | hx | hx
    · exact .inl (hs.comes hc he hr (hd hk).left hx)
    · exact .inl (hs.comes_of_returned? hx)
    · exact .inr hx

theorem run (bs : List (Move α)) (h : machine.run c bs = some c') (hc : c.Regular)
    (he : c.pool.queue.ended) (hr : .reopen ∉ c.sections bs) : c.Withheld bs c' := by
  induction bs generalizing c
  case nil =>
    simp only [Machine.run, Option.some.injEq] at h
    exact h ▸ refl he
  case cons mv bs hi =>
    obtain ⟨d, ha, h, _⟩ := Machine.run_cons_eq_some h
    have hs := Custody.step ha
    rw [sections, Machine.seen_cons section? bs ha, List.mem_append, not_or] at hr
    have hr' : c.section? mv ≠ some .reopen := fun hn => hr.left (by simp [hn])
    have hd : d.pool.queue.ended := by
      rw [hs.queue_eq he hr', (Queue.foldl_whileEnded_frame ..).left, he]
    exact cons ha hc he hr' (hi h (hc.step hs) hd hr.right)

end Withheld

theorem act_lock (ha : c.pool.asks? i = some r) : c.act (.lock i) = some { c with
    pool := ⟨(Caller.takeTurn c.pool.queue r).1,
      c.pool.callers.set i (Caller.takeTurn c.pool.queue r).2⟩
    discarded := c.discarded ++ c.swept i } := by
  have hp : c.pool.lock i = _ := Monitor.act_lock ha
  simp [act, hp]

theorem at?_congr (hq : c'.pool.queue.items = c.pool.queue.items) (hh : c'.holds = c.holds)
    (hk : c'.pool.callers.map Caller.cargo = c.pool.callers.map Caller.cargo)
    (hd : c'.discarded = c.discarded) : c'.at? = c.at? := by
  have hheld (c : Custody α) (i : ℕ) : (c.pool.callers[i]? >>= (·.cargo.head?)) =
      (c.pool.callers.map Caller.cargo)[i]? >>= List.head? := by
    cases hi : c.pool.callers[i]? <;> simp [hi]
  funext s
  cases s <;> simp only [at?, hheld, hq, hh, hk, hd]

theorem swept_eq_nil (h : c.pool.asks? i ≠ some .clear) : c.swept i = [] := by
  rw [swept]
  split
  case h_1 hk => exact absurd (by simp [Monitor.asks?, hk, Caller.asks?]) h
  case h_2    => rfl

-- Every resource stays where it is when the pool is ended, and when it is opened.
theorem at?_lock (ha : c.pool.asks? i = some r) (hr : r = .close ∨ r = .reopen)
    (h : c.act (.lock i) = some c') : c'.at? = c.at? := by
  have ⟨k, hk, hkr⟩ := Option.bind_eq_some_iff.mp ha
  have ⟨hq, hc⟩ := Caller.takeTurn_reclaim (q := c.pool.queue) hr
  have hkc : k.cargo = [] := by
    rw [Caller.cargo_of_asks? hkr]
    rcases hr with rfl | rfl <;> rfl
  have hs : c.swept i = [] := swept_eq_nil (by rcases hr with rfl | rfl <;> simp [ha])
  rw [act_lock ha, hs, List.append_nil, Option.some.injEq] at h
  subst h
  exact at?_congr hq rfl (map_set_of_eq hk (hc.trans hkc.symm)) rfl

-- Every resource that was added is at one place. The end of the pool moves none of them; until the
-- pool is opened again nobody is given one, and none is discarded unless callers clear the pool.
-- What is given back meanwhile is in the pool when it is opened, and from then on to be had.
theorem resources_conserved (as : List (Move α)) (h : machine.run start as = some c) :
    c.resources.Perm (as.flatMap Move.brings) ∧
    ((as.flatMap Move.brings).Nodup → ∀ x ∈ as.flatMap Move.brings, ∃! s, c.at? s = some x) ∧
    (∀ mv c', c.act mv = some c' → c'.discarded = c.discarded ∨
      c.section? mv = some .clear ∧ c'.discarded = c.discarded ++ c.pool.queue.items) ∧
    (∀ i c', c.pool.asks? i = some .close → c.act (.lock i) = some c' →
      c'.pool.queue.ended ∧ c'.at? = c.at?) ∧
    (c.pool.queue.ended → ∀ bs c', machine.run c bs = some c' → .reopen ∉ c.sections bs →
      c.Withheld bs c') ∧
    (∀ i x, c.pool.asks? i = some (Pool.release x) → ∃ c', c.act (.lock i) = some c' ∧
      c'.pool.queue.items = c.pool.queue.items ++ [x]) ∧
    (∀ i c', c.pool.asks? i = some .reopen → c.act (.lock i) = some c' →
      c'.pool.queue.ended = false ∧ c'.at? = c.at?) ∧
    (c.pool.queue.ended = false → c.pool.queue.items ≠ [] → ∀ i r, c.pool.asks? i = some r →
      r = Pool.acquire ∨ r = Pool.tryAcquire → ∃ c' x, c.act (.lock i) = some c' ∧
        c'.pool.given? i = some x ∧ c.pool.queue.items.Perm (x :: c'.pool.queue.items)) := by
  have hc : c.Regular := Regular.start.run as h
  have hp : c.resources.Perm (as.flatMap Move.brings) := resources_perm as .start h
  refine ⟨hp, fun hn x hx => ?_, fun mv c' ha => (step ha).discarded_eq, fun i c' ha h => ?_,
    fun he bs c' h hr => .run bs h hc he hr, fun i x ha => ?_, fun i c' ha h => ?_,
    fun he hi i r ha hr => ?_⟩
  case refine_1 => exact existsUnique_spot (hp.nodup_iff.mpr hn) (hp.mem_iff.mpr hx)
  case refine_2 =>
    have hat := at?_lock ha (.inl rfl) h
    rw [act_lock ha, Option.some.injEq] at h
    exact ⟨h ▸ rfl, hat⟩
  case refine_3 =>
    refine ⟨_, act_lock ha, ?_⟩
    rw [Pool.release, Caller.takeTurn_put hc.unbounded]
  case refine_4 =>
    have hat := at?_lock ha (.inr rfl) h
    rw [act_lock ha, Option.some.injEq] at h
    exact ⟨h ▸ rfl, hat⟩
  case refine_5 =>
    have ⟨x, rest, ht, hp⟩ := Caller.takeTurn_taken he hi hr
    refine ⟨_, x, act_lock ha, ?_, ?_⟩
    · have ⟨k, hk, _⟩ := Option.bind_eq_some_iff.mp ha
      simp [Monitor.given?, ht, Caller.given?, Answer.given?,
        List.getElem?_set_self (List.getElem?_eq_some_iff.mp hk).choose]
    · rw [ht]
      exact hp

-- The pool is ended while a guard has its only resource. The guard gives it back, and who asks for
-- it before the pool is opened does not get it.
theorem resource_of_dropped_guard :
    let as : List (Move ℕ) := [.add 7, .lock 0, .guard, .lock 1, .notify 1 none, .close, .lock 2]
    let bs : List (Move ℕ) := [.drop 1, .lock 3, .acquire, .lock 4, .reopen]
    let accepted : Caller ℕ := .notifying [.one .notEmpty] (.accepted true)
    let closed : Caller ℕ := .notifying [.all .notEmpty, .all .notFull] .done
    let c : Custody ℕ := ⟨⟨⟨.arrival, none, [], true⟩,
      [accepted, .returned (.item (some 7)), closed]⟩, [some .hand, some .guard, some .hand], []⟩
    let c' : Custody ℕ := ⟨⟨⟨.arrival, none, [7], true⟩, [accepted, .returned (.item (some 7)),
      closed, accepted, .returned (.item none), .entering .reopen]⟩,
      [some .hand, none, some .hand, some .hand, some .hand, some .hand], []⟩
    machine.run start as = some c ∧ machine.run c bs = some c' ∧ (∃! s, c.at? s = some 7) ∧
      (∃! s, c'.at? s = some 7) ∧ c'.Comes 7 ∧ c'.pool.given? 4 = none ∧
      ∀ d, c'.act (.lock 5) = some d → d.pool.queue.ended = false ∧ d.at? (.pool 0) = some 7 := by
  intro as bs accepted closed c c'
  have h : machine.run start as = some c := rfl
  have hb : machine.run c bs = some c' := rfl
  have h' : machine.run start (as ++ bs) = some c' := rfl
  have hs : c.sections bs = [.push 7, .pop] := rfl
  have ⟨_, hone, _, _, hend, _⟩ := resources_conserved as h
  have ⟨_, hone', _, _, _, _, hopen, _⟩ := resources_conserved (as ++ bs) h'
  have hw := hend rfl bs c' hb (by simp [hs])
  refine ⟨h, hb, hone (List.nodup_singleton 7) 7 (List.mem_singleton_self 7),
    hone' (List.nodup_singleton 7) 7 (List.mem_singleton_self 7), ?_, hw.given 4, fun d hd => ?_⟩
  case refine_1 => exact hw.comes (by simp [hs]) 7 (.inr (List.mem_singleton_self 7))
  case refine_2 =>
    have ⟨he, hat⟩ := hopen 5 d rfl hd
    exact ⟨he, hat ▸ rfl⟩

end Custody
end Inference
