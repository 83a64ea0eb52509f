import Inference.Proofs.Queue.Cargo
import Inference.Proofs.Queue.Ending
import Inference.Queue.Pool
import Mathlib.Data.List.Nodup

/-!
Where the resources of a pool are. Each resource that was added is at one place at a time: in the
pool, in the hand of one caller, in one guard, or among those that a clearing has discarded. The end
of the pool changes nothing about this; until the pool is opened again nobody gets a resource, and
what is given back meanwhile is there afterwards.
-/

namespace Inference

section Zip

variable {β γ : Type} {l : List β} {l' : List γ} {i : ℕ} {b : β} {c : γ}

theorem zip_set : (l.set i b).zip (l'.set i c) = (l.zip l').set i (b, c) := by
  induction l generalizing l' i
  case nil => simp
  case cons hi => cases l' <;> cases i <;> simp [hi]

theorem zip_set_left (h : l'[i]? = some c) : (l.set i b).zip l' = (l.zip l').set i (b, c) := by
  rw [← zip_set, set_of_getElem? h]

theorem zip_set_right (h : l[i]? = some b) : l.zip (l'.set i c) = (l.zip l').set i (b, c) := by
  rw [← zip_set, set_of_getElem? h]

end Zip

-- The items that a lock section throws away.
def Queue.sweeps {α : Type} (q : Queue α) : Request α → List α
  | .clear => q.items
  | _ => []

namespace Caller

variable {α : Type} {q q' : Queue α} {k k' : Caller α} {r : Request α} {x : α}

-- A lock section of a queue without a bound loses no item, unless it only looks at one.
theorem takeTurn_cargo (hq : q.capacity = none) (hr : r ≠ .front) (h : takeTurn q r = (q', k')) :
    (q'.items ++ k'.cargo ++ q.sweeps r).Perm (q.items ++ r.cargo) := by
  have ht := q.turns r
  rw [takeTurn] at h
  generalize q.turn r = t at h ht
  cases ht <;> obtain ⟨rfl, rfl⟩ := Prod.mk.inj h
  case full hf he      => simp [Queue.isFull, hq] at hf
  case refused hc he   => simp [hq] at hc
  case shown           => exact absurd rfl hr
  case empty hi he hr' => rcases hr' with rfl | rfl <;> exact .of_eq (List.append_nil _)
  case withheld he hr' =>
    rcases hr' with rfl | rfl | rfl <;> simp [Queue.sweeps, Request.cargo, Answer.cargo]
  case taken x rest hp he hr' =>
    have hp := (List.perm_append_singleton x rest).trans hp.symm
    rcases hr' with rfl | rfl <;> simpa [Queue.sweeps, Request.cargo, Answer.cargo] using hp
  all_goals simp [Queue.sweeps, Request.cargo, Answer.cargo]

end Caller

-- What a caller has that is not given back.
def keeps {α : Type} : Option Hold × Caller α → List α
  | (none, _) => []
  | (some _, k) => k.cargo

namespace Custody

variable {α : Type}

-- What a move brings to the pool for the first time.
def Move.brings : Move α → List α
  | .add x => [x]
  | _ => []

-- The callers, and how they have their resources.
def slots (c : Custody α) : List (Option Hold × Caller α) := c.holds.zip c.pool.callers

def kept (c : Custody α) : List α := c.slots.flatMap keeps

-- The resources at all places.
def resources (c : Custody α) : List α := c.pool.queue.items ++ c.kept ++ c.discarded

-- The call that a move begins, and how its caller has the resource.
def Move.begins? : Move α → Option (Hold × Request α)
  | .add x => some (.hand, Pool.add x)
  | .acquire => some (.hand, Pool.acquire)
  | .tryAcquire => some (.hand, Pool.tryAcquire)
  | .guard => some (.guard, Pool.acquire)
  | .close => some (.hand, .close)
  | .reopen => some (.hand, .reopen)
  | .clear => some (.hand, .clear)
  | _ => none

-- The move gives back the resource that call `i` got.
inductive Move.Returns : Move α → Hold → ℕ → Prop
  | release (i) : Returns (.release i) .hand i
  | drop (i)    : Returns (.drop i) .guard i

inductive Step (c : Custody α) : Move α → Custody α → Prop
  | begin {mv h r} : mv.begins? = some (h, r) → Step c mv (c.call h r)
  | back {mv h i x} : mv.Returns h i → c.held? h i = some x →
      Step c mv ((c.setHold i none).call .hand (.push x))
  | detach {i x} : c.held? .guard i = some x → Step c (.detach i) (c.setHold i (some .hand))
  | lock {i p} : c.pool.act (.lock i) = some p →
      Step c (.lock i) { c with pool := p, discarded := c.discarded ++ c.swept i }
  | notify {i target p} : c.pool.act (.notify i target) = some p →
      Step c (.notify i target) { c with pool := p }

variable {c c' : Custody α} {mv : Move α} {h : Hold} {i : ℕ} {x : α}

theorem step (ha : c.act mv = some c') : c.Step mv c' := by
  cases mv
  case release i =>
    have ⟨x, hx, ha⟩ := Option.bind_eq_some_iff.mp ha
    exact Option.some.inj ha ▸ .back (.release i) hx
  case drop i =>
    simp only [act, guard?, Guard.drop, Option.bind_eq_bind, Option.bind_eq_some_iff,
      Option.map_eq_some_iff] at ha
    obtain ⟨_, ⟨x, hx, rfl⟩, r, ⟨y, hy, rfl⟩, ha⟩ := ha
    cases hy
    exact Option.some.inj ha ▸ .back (.drop i) hx
  case detach i =>
    simp only [act, guard?, Option.bind_eq_bind, Option.bind_eq_some_iff,
      Option.map_eq_some_iff] at ha
    obtain ⟨_, ⟨x, hx, rfl⟩, ha⟩ := ha
    exact Option.some.inj ha ▸ .detach hx
  case lock i =>
    have ⟨p, hp, ha⟩ := Option.bind_eq_some_iff.mp ha
    exact Option.some.inj ha ▸ .lock hp
  case notify i target =>
    have ⟨p, hp, ha⟩ := Option.bind_eq_some_iff.mp ha
    exact Option.some.inj ha ▸ .notify hp
  all_goals exact Option.some.inj ha ▸ .begin rfl

theorem Move.begins?_eq_some {r : Request α} (hb : mv.begins? = some (h, r)) :
    r ≠ .front ∧ r.cargo = mv.brings := by
  cases mv <;> cases hb <;> exact ⟨nofun, rfl⟩

theorem Move.Returns.brings (hm : mv.Returns h i) : mv.brings = [] := by
  cases hm <;> rfl

theorem held?_eq_some : c.held? h i = some x ↔
    c.holds[i]? = some (some h) ∧ c.pool.callers[i]? = some (.returned (.item (some x))) := by
  rw [held?, Monitor.answer?]
  by_cases hh : c.holds[i]? = some (some h)
  case neg => simp [hh]
  case pos =>
    cases c.pool.callers[i]?
    case none   => simp [hh]
    case some k => rcases k with _ | _ | _ | _ | ⟨_ | _ | _⟩ <;> simp [hh, Caller.answer?]

-- Each call is one that is made of a pool, and what is given back is what its call got.
structure Regular (c : Custody α) : Prop where
  length    : c.holds.length = c.pool.callers.length
  unbounded : c.pool.queue.capacity = none
  serves    : ∀ k ∈ c.pool.callers, ∃ r, r ≠ .front ∧ k.Serves r
  given     : ∀ i : ℕ, c.holds[i]? = some none → ∃ a, c.pool.callers[i]? = some (.returned a)

namespace Regular

theorem start : (start : Custody α).Regular where
  length    := rfl
  unbounded := rfl
  serves    := List.forall_mem_nil _
  given     := nofun

theorem call (hc : c.Regular) (h : Hold) {r : Request α} (hr : r ≠ .front) :
    (c.call h r).Regular where
  length    := by simp [Custody.call, hc.length]
  unbounded := hc.unbounded
  serves    := List.forall_mem_append.mpr
    ⟨hc.serves, List.forall_mem_singleton.mpr ⟨r, hr, rfl⟩⟩
  given i hi := by
    simp only [Custody.call, List.getElem?_append] at hi ⊢
    rw [← hc.length]
    split at hi
    case isTrue hl => simpa [hl] using hc.given i hi
    case isFalse   => cases List.mem_singleton.mp <| List.mem_of_getElem? hi

theorem setHold (hc : c.Regular) (hx : c.held? h i = some x) (h' : Option Hold) :
    (c.setHold i h').Regular where
  length    := by simp [Custody.setHold, hc.length]
  unbounded := hc.unbounded
  serves    := hc.serves
  given j hj := by
    by_cases hij : i = j
    case pos => exact ⟨_, hij ▸ (held?_eq_some.mp hx).right⟩
    case neg =>
      rw [Custody.setHold, List.getElem?_set_ne hij] at hj
      exact hc.given j hj

theorem lock {p : Pool α} (hc : c.Regular) (hp : c.pool.act (.lock i) = some p) :
    ({ c with pool := p, discarded := c.discarded ++ c.swept i } : Custody α).Regular := by
  cases Monitor.step hp
  case lock k k' q' hl hk =>
  have ⟨r, hr, hs⟩ := hc.serves _ <| List.mem_of_getElem? hk
  refine ⟨by simp [hc.length], (Caller.lock?_capacity hl).trans hc.unbounded,
    forall_mem_set _ hc.serves ⟨r, hr, hs.lock? hl⟩, fun j hj => ?_⟩
  have ⟨a, ha⟩ := hc.given j hj
  have hij : i ≠ j := by
    rintro rfl
    cases hk.symm.trans ha
    cases hl
  exact ⟨a, by rwa [List.getElem?_set_ne hij]⟩

theorem notify {p : Pool α} {target : Option ℕ} (hc : c.Regular)
    (hp : c.pool.act (.notify i target) = some p) :
    ({ c with pool := p } : Custody α).Regular := by
  cases Monitor.step hp
  case notify owed a l w hw hk =>
  have ⟨_, _, hd⟩ := hw.roused
  have ⟨r, hr, hs⟩ := hc.serves _ <| List.mem_of_getElem? hk
  refine ⟨by simp [hc.length, hd.length_eq], hc.unbounded, forall_mem_set _ ?_
    ⟨r, hr, hs.notify? rfl⟩, fun j hj => ?_⟩
  case refine_1 => exact hd.forall_mem (fun _ ⟨r, hr, hs⟩ => ⟨r, hr, hs.wake⟩) hc.serves
  case refine_2 =>
    have ⟨b, hb⟩ := hc.given j hj
    have ⟨k, hk', hkb⟩ := hd.getElem? hb
    have hij : i ≠ j := by
      rintro rfl
      cases hk.symm.trans hb
    have hkb : k = .returned b := by rcases hkb with rfl | rfl <;> rfl
    exact ⟨b, by rw [List.getElem?_set_ne hij, hk', hkb]⟩

theorem step (hc : c.Regular) (hs : c.Step mv c') : c'.Regular := by
  cases hs
  case begin hb       => exact hc.call _ (Move.begins?_eq_some hb).left
  case back hx _      => exact (hc.setHold hx none).call .hand nofun
  case detach hx      => exact hc.setHold hx _
  case lock hp        => exact hc.lock hp
  case notify hp      => exact hc.notify hp

theorem exists_hold {q : Queue α} {k k' : Caller α} (hc : c.Regular)
    (hk : c.pool.callers[i]? = some k) (hl : k.lock? c.pool.queue = some (q, k')) :
    ∃ h, c.holds[i]? = some (some h) := by
  have hi : i < c.holds.length := hc.length ▸ (List.getElem?_eq_some_iff.mp hk).choose
  have hh := List.getElem?_eq_getElem hi
  cases ho : c.holds[i]
  case some h => exact ⟨h, ho ▸ hh⟩
  case none =>
    have ⟨a, ha⟩ := hc.given i (ho ▸ hh)
    cases hk.symm.trans ha
    cases hl

end Regular

theorem swept_eq {q : Queue α} {k k' : Caller α} {r : Request α}
    (hk : c.pool.callers[i]? = some k) (hs : k.Serves r)
    (hl : k.lock? c.pool.queue = some (q, k')) : c.swept i = c.pool.queue.sweeps r := by
  rw [swept, hk]
  rcases (Caller.lock?_eq hs hl).right with rfl | rfl
  case inl => cases r <;> rfl
  case inr => cases r <;> first | rfl | simp [Caller.Serves, Request.cond?] at hs

theorem slots_of_held? (hx : c.held? h i = some x) :
    c.slots[i]? = some (some h, .returned (.item (some x))) :=
  List.getElem?_zip_eq_some.mpr <| held?_eq_some.mp hx

theorem slots_setHold (hx : c.held? h i = some x) (h' : Option Hold) :
    (c.setHold i h').slots = c.slots.set i (h', .returned (.item (some x))) :=
  zip_set_left (held?_eq_some.mp hx).right

theorem kept_call (hc : c.Regular) (h : Hold) (r : Request α) :
    (c.call h r).kept = c.kept ++ r.cargo := by
  simp only [kept, slots, call, List.zip_append hc.length, List.flatMap_append]
  simp [keeps, Caller.cargo]

theorem kept_setHold_some (hx : c.held? h i = some x) (h' : Hold) :
    (c.setHold i (some h')).kept = c.kept := by
  rw [kept, slots_setHold hx]
  exact flatMap_set_of_eq (F := keeps) (slots_of_held? hx) rfl

theorem keeps_wake (d : Cond) (s : Option Hold × Caller α) :
    keeps (s.1, s.2.wake d) = keeps s := by
  rcases s with ⟨_ | _, k⟩
  · rfl
  · exact Caller.cargo_wake d k

theorem flatMap_keeps_roused {d : Cond} {hs : List (Option Hold)} {l l' : List (Caller α)}
    (h : Roused (Caller.wake d) l l') : (hs.zip l').flatMap keeps = (hs.zip l).flatMap keeps := by
  induction h generalizing hs
  case nil => rfl
  case cons k k' l l' hk _ hi =>
    cases hs
    case nil => rfl
    case cons s hs =>
      rw [List.zip_cons_cons, List.zip_cons_cons, List.flatMap_cons, List.flatMap_cons, hi]
      rcases hk with rfl | rfl
      · rfl
      · rw [← keeps_wake d (s, k)]

-- Who is notified or notifies keeps what he has.
theorem kept_notify {p : Pool α} {target : Option ℕ} (hc : c.Regular)
    (hp : c.pool.act (.notify i target) = some p) :
    ({ c with pool := p } : Custody α).kept = c.kept := by
  cases Monitor.step hp
  case notify owed a l w hw hk =>
  have ⟨d, _, hd⟩ := hw.roused
  have hl := hw.getElem?_notifying hk
  have hi : i < c.holds.length := hc.length ▸ (List.getElem?_eq_some_iff.mp hk).choose
  have hh := List.getElem?_eq_getElem hi
  have hz : (c.holds.zip l)[i]? = some (c.holds[i], .notifying (w :: owed) a) :=
    List.getElem?_zip_eq_some.mpr ⟨hh, hl⟩
  have hk : keeps (c.holds[i], .owing owed a) = keeps (c.holds[i], .notifying (w :: owed) a) := by
    cases c.holds[i]
    case none => rfl
    case some => exact Caller.cargo_owing owed a
  simp only [kept, slots, zip_set_right hh]
  rw [flatMap_set_of_eq hz hk, flatMap_keeps_roused hd]

section Count

variable [DecidableEq α]

theorem count_kept (c : Custody α) (y : α) :
    c.kept.count y = tally (fun s => (keeps s).count y) c.slots :=
  count_flatMap ..

theorem count_kept_setHold_none (hx : c.held? h i = some x) (y : α) :
    (c.setHold i none).kept.count y + [x].count y = c.kept.count y := by
  rw [count_kept, count_kept, slots_setHold hx]
  exact tally_set (f := fun s => (keeps s).count y) (slots_of_held? hx)

theorem count_lock {p : Pool α} (hc : c.Regular) (hp : c.pool.act (.lock i) = some p) (y : α) :
    ({ c with pool := p, discarded := c.discarded ++ c.swept i } : Custody α).resources.count y =
      c.resources.count y := by
  cases Monitor.step hp
  case lock k k' q' hl hk =>
  have ⟨r, hr, hs⟩ := hc.serves _ <| List.mem_of_getElem? hk
  have ⟨ht, _⟩ := Caller.lock?_eq hs hl
  have ⟨h, hh⟩ := hc.exists_hold hk hl
  have hz : c.slots[i]? = some (some h, k) := List.getElem?_zip_eq_some.mpr ⟨hh, hk⟩
  have hkept : tally (fun s => (keeps s).count y) (c.slots.set i (some h, k')) + k.cargo.count y =
      tally (fun s => (keeps s).count y) c.slots + k'.cargo.count y := tally_set hz
  have hcargo := (Caller.takeTurn_cargo hc.unbounded hr ht).count_eq y
  simp only [resources, List.count_append, count_kept, slots, zip_set_right hh, swept_eq hk hs hl,
    Caller.lock?_cargo hs hl] at hkept hcargo ⊢
  omega

-- Nothing is lost or doubled by a move.
theorem Step.count_resources (hs : c.Step mv c') (hc : c.Regular) (y : α) :
    c'.resources.count y = c.resources.count y + mv.brings.count y := by
  cases hs
  case begin hb =>
    rw [resources, kept_call hc, (Move.begins?_eq_some hb).right]
    simp only [call, resources, List.count_append]
    omega
  case back hx hm =>
    have hk := count_kept_setHold_none hx y
    rw [resources, kept_call (hc.setHold hx none), hm.brings, Request.cargo]
    simp only [call, setHold, resources, List.count_append, List.count_nil] at hk ⊢
    omega
  case detach hx =>
    rw [resources, kept_setHold_some hx]
    rfl
  case lock hp => exact count_lock hc hp y
  case notify p hp =>
    have hq : p.queue = c.pool.queue := by
      cases Monitor.step hp
      rfl
    rw [resources, kept_notify hc hp, hq]
    rfl

end Count

theorem Regular.run (as : List (Move α)) (hc : c.Regular) (h : machine.run c as = some c') :
    c'.Regular :=
  (Machine.Reaches.of_run as h).preserves hc fun hc ha => hc.step (Custody.step ha)

theorem resources_perm (as : List (Move α)) (hc : c.Regular) (h : machine.run c as = some c') :
    c'.resources.Perm (c.resources ++ as.flatMap Move.brings) := by
  classical
  induction as generalizing c
  case nil =>
    simp only [Machine.run, Option.some.injEq] at h
    simp [h]
  case cons mv as hi =>
    obtain ⟨d, ha, h, _⟩ := Machine.run_cons_eq_some h
    have hs := step ha
    have hp := hi (hc.step hs) h
    refine List.perm_iff_count.mpr fun y => ?_
    rw [hp.count_eq, List.count_append, hs.count_resources hc, List.flatMap_cons,
      List.count_append, List.count_append]
    omega

-- Where a resource can be.
inductive Spot where
  | pool (n : ℕ)
  | held (h : Hold) (i : ℕ)
  | discarded (n : ℕ)

def at? (c : Custody α) : Spot → Option α
  | .pool n => c.pool.queue.items[n]?
  | .held h i =>
    if c.holds[i]? = some (some h) then c.pool.callers[i]? >>= (·.cargo.head?) else none
  | .discarded n => c.discarded[n]?

theorem at?_held : c.at? (.held h i) = some x ↔
    ∃ k, c.slots[i]? = some (some h, k) ∧ k.cargo = [x] := by
  have hl (k : Caller α) : k.cargo.head? = some x ↔ k.cargo = [x] := by
    have := k.length_cargo_le
    rcases hc : k.cargo with _ | ⟨y, _ | _⟩ <;> simp_all
  simp only [at?, slots, List.getElem?_zip_eq_some]
  by_cases hh : c.holds[i]? = some (some h) <;> simp [hh, hl, Option.bind_eq_some_iff]

theorem mem_kept_iff : x ∈ c.kept ↔ ∃ h i, c.at? (.held h i) = some x := by
  simp only [at?_held, kept, List.mem_flatMap]
  constructor
  case mp =>
    rintro ⟨⟨o, k⟩, hs, hx⟩
    cases o
    case none   => cases hx
    case some h =>
      have ⟨i, hi⟩ := List.mem_iff_getElem?.mp hs
      have hx : x ∈ k.cargo := hx
      have := k.length_cargo_le
      refine ⟨h, i, k, hi, ?_⟩
      rcases hc : k.cargo with _ | ⟨y, _ | _⟩ <;> simp_all
  case mpr =>
    rintro ⟨h, i, k, hi, hx⟩
    have hx : keeps (some h, k) = [x] := hx
    exact ⟨_, List.mem_of_getElem? hi, hx ▸ List.mem_singleton_self x⟩

theorem held_unique {h' : Hold} {j : ℕ} (hn : c.kept.Nodup) (hi : c.at? (.held h i) = some x)
    (hj : c.at? (.held h' j) = some x) : h = h' ∧ i = j := by
  classical
  have ⟨k, hi, hk⟩ := at?_held.mp hi
  have ⟨k', hj, hk'⟩ := at?_held.mp hj
  have hij : i = j := by
    by_contra hij
    have ht : k.cargo.count x + k'.cargo.count x ≤ c.kept.count x :=
      count_kept c x ▸ add_le_tally (f := fun s => (keeps s).count x) hi hj hij
    have hc := List.nodup_iff_count_le_one.mp hn x
    rw [hk, hk', List.count_singleton_self] at ht
    omega
  subst hij
  cases hi.symm.trans hj
  exact ⟨rfl, rfl⟩

-- Where no resource is twice, each one is at a single place.
theorem existsUnique_spot (hn : c.resources.Nodup) (hx : x ∈ c.resources) :
    ∃! s, c.at? s = some x := by
  have ⟨hpk, hd, hpkd⟩ := List.nodup_append.mp hn
  have ⟨hp, hk, hpk⟩ := List.nodup_append.mp hpk
  have hpool {n} (h : c.at? (.pool n) = some x) : x ∈ c.pool.queue.items := List.mem_of_getElem? h
  have hheld {h i} (h : c.at? (.held h i) = some x) : x ∈ c.kept := mem_kept_iff.mpr ⟨_, _, h⟩
  have hdisc {n} (h : c.at? (.discarded n) = some x) : x ∈ c.discarded := List.mem_of_getElem? h
  have hone {s s' : Spot} (hs : c.at? s = some x) (hs' : c.at? s' = some x) : s = s' := by
    rcases s with n | ⟨h, i⟩ | n <;> rcases s' with n' | ⟨h', i'⟩ | n'
    case pool.pool =>
      have hn := (List.getElem?_eq_some_iff.mp hs).choose
      rw [(List.getElem?_inj hn hp).mp (hs.trans hs'.symm)]
    case held.held =>
      obtain ⟨rfl, rfl⟩ := held_unique hk hs hs'
      rfl
    case discarded.discarded =>
      have hn := (List.getElem?_eq_some_iff.mp hs).choose
      rw [(List.getElem?_inj hn hd).mp (hs.trans hs'.symm)]
    case pool.held      => exact absurd rfl (hpk x (hpool hs) x (hheld hs'))
    case held.pool      => exact absurd rfl (hpk x (hpool hs') x (hheld hs))
    case pool.discarded =>
      exact absurd rfl (hpkd x (List.mem_append_left _ (hpool hs)) x (hdisc hs'))
    case discarded.pool =>
      exact absurd rfl (hpkd x (List.mem_append_left _ (hpool hs')) x (hdisc hs))
    case held.discarded =>
      exact absurd rfl (hpkd x (List.mem_append_right _ (hheld hs)) x (hdisc hs'))
    case discarded.held =>
      exact absurd rfl (hpkd x (List.mem_append_right _ (hheld hs')) x (hdisc hs))
  have ⟨s, hs⟩ : ∃ s, c.at? s = some x := by
    rw [resources, List.mem_append, List.mem_append] at hx
    rcases hx with (hx | hx) | hx
    · exact (List.mem_iff_getElem?.mp hx).imp' .pool fun _ h => h
    · have ⟨h, i, hx⟩ := mem_kept_iff.mp hx
      exact ⟨_, hx⟩
    · exact (List.mem_iff_getElem?.mp hx).imp' .discarded fun _ h => h
  exact ⟨s, hs, fun s' hs' => hone hs' hs⟩

end Custody
end Inference
