import Inference.Gate.Schedule
import Inference.Proofs.Gate.Stopping
import Mathlib.Data.Int.CardIntervalMod

/-!
Where a gate leads inputs. The inputs that are made go round the instances, whatever the calls do
meanwhile. A call gets to the instance that its input is made for, or it is told that there is no
lane for it; it is told so at once or never.
-/

namespace Inference

namespace Stage

-- How a call ends, as soon as that is settled.
def due? : Stage → Option Outcome
  | queued _ o | working _ o | returned o => some o
  | _ => none

-- Is not told that there is no lane for its input.
def Spared (s : Stage) : Prop := ∀ j n, s.due? ≠ some (.refused (.invalidBackendIndex j n))

theorem Barred.spared {s : Stage} (h : s.Barred) : s.Spared := by
  intro j n
  cases h
  case pending h => cases h <;> simp [due?]
  all_goals simp [due?]

theorem spared_afterAsk {lane : ℕ} {todo todo' : List Task} {o : Outcome} {c : Caller Ticket}
    (h : (working todo o).Spared) : (afterAsk lane todo' o c).Spared := by
  cases c <;> exact h

end Stage

namespace Gate

-- The backend index of the input that is made after `n` others.
def turn (g : Gate) (n : ℕ) : ℕ := if g.pinned then n % g.size else 0

namespace Action

def isCreate : Action → Bool
  | create => true
  | _ => false

-- The number of inputs that an action makes.
def makes (a : Action) : ℕ := if a.isCreate then 1 else 0

end Action

variable {g g' : Gate} {s s' : Stage} {a : Action} {i : ℕ}

-- After `n` inputs.
structure Turned (n : ℕ) (g : Gate) : Prop where
  cursor : g.cursor = g.turn n
  made   : g.made.reverse = (List.range n).map g.turn

theorem turn_congr (hz : g'.size = g.size) (hp : g'.pinned = g.pinned) : g'.turn = g.turn := by
  funext n
  rw [turn, turn, hz, hp]

theorem turned_loaded (g : Gate) (size : ℕ) : (g.emptied.loaded size).Turned 0 where
  cursor := by
    rw [turn, Nat.zero_mod, ite_self]
    rfl
  made   := rfl

namespace Turned

variable {n : ℕ}

theorem create? (hg : g.Turned n) (hz : 0 < g.size) :
    g.create? = some (g.turn n, { g with
      cursor := g.turn (n + 1)
      made := g.turn n :: g.made }) := by
  have hc := hg.cursor
  cases hp : g.pinned <;> simp_all [Gate.create?, turn, Nat.ne_of_gt hz]

theorem of_eq (hg : g.Turned n) (hz : g'.size = g.size) (hp : g'.pinned = g.pinned)
    (hc : g'.cursor = g.cursor) (hm : g'.made = g.made) : g'.Turned n where
  cursor := by rw [hc, turn_congr hz hp, hg.cursor]
  made   := by rw [hm, turn_congr hz hp, hg.made]

theorem made_next (hg : g.Turned n) {cursor : ℕ} (hc : cursor = g.turn (n + 1)) :
    ({ g with cursor, made := g.turn n :: g.made } : Gate).Turned (n + 1) where
  cursor := hc
  made   := by
    change (g.turn n :: g.made).reverse = (List.range (n + 1)).map g.turn
    rw [List.reverse_cons, hg.made, List.range_succ, List.map_append, List.map_singleton]

-- Calls do not make inputs.
theorem act (hg : g.Turned n) (h : g.act a = some g') : g'.Turned (n + a.makes) := by
  cases a
  case create =>
    simp only [Gate.act, Option.map_eq_some_iff] at h
    obtain ⟨x, hx, hg'⟩ := h
    have hz : 0 < g.size := by
      apply Nat.pos_of_ne_zero
      intro hz
      simp [Gate.create?, hz] at hx
    rw [hg.create? hz, Option.some.injEq] at hx
    rw [← hg', ← hx]
    exact hg.made_next rfl
  all_goals replace h := step_of_act h; cases h
  case step.move hm _ => cases hm <;> exact hg.of_eq rfl rfl rfl rfl
  all_goals exact hg.of_eq rfl rfl rfl rfl

theorem count_made (hg : g.Turned n) (hp : g.pinned) {h : ℕ} (hh : h < g.size) :
    g.made.count h = n / g.size + if h < n % g.size then 1 else 0 := by
  have ht : g.turn = (· % g.size) := by
    funext k
    simp [turn, hp]
  have hc := Nat.count_modEq_card n (Nat.zero_lt_of_lt hh) h
  rw [Nat.mod_eq_of_lt hh] at hc
  rw [← List.count_reverse, hg.made, ht, ← hc, List.count, List.countP_map, Nat.count]
  apply List.countP_congr
  intro k _
  simp [Nat.ModEq, Nat.mod_eq_of_lt hh]

theorem run {as : List Action} (hg : g.Turned n) (h : machine.run g as = some g') :
    g'.Turned (n + as.countP Action.isCreate) := by
  induction as generalizing g n
  case nil =>
    simp only [Machine.run, Option.some.injEq] at h
    simpa [h] using hg
  case cons a as hi =>
    simp only [Machine.run, Option.bind_eq_bind, Option.bind_eq_some_iff] at h
    obtain ⟨g₁, ha, h⟩ := h
    have hn : n + (a :: as).countP Action.isCreate = n + a.makes + as.countP Action.isCreate := by
      rw [List.countP_cons, Action.makes]
      omega
    exact hn ▸ hi (hg.act ha) h

end Turned

-- What no call changes of a gate that was loaded.
structure Laid (pinned : Bool) (size : ℕ) (g : Gate) : Prop where
  lanes  : g.lanes.length = if pinned then size else 1
  size   : g.size = size
  pinned : g.pinned = pinned

theorem laid_loaded (g : Gate) (size : ℕ) : (g.emptied.loaded size).Laid g.pinned size where
  lanes  := List.length_replicate
  size   := rfl
  pinned := rfl

theorem Step.laid {pinned : Bool} {size : ℕ} (h : g.Step a g') (hg : g.Laid pinned size) :
    g'.Laid pinned size where
  lanes  := by
    refine Eq.trans ?_ hg.lanes
    cases h
    case move hm => exact hm.frame.right.right
    all_goals rfl
  size   := h.size.left.trans hg.size
  pinned := h.size.right.trans hg.pinned

theorem outcome?_eq_some {o : Outcome} :
    g.outcome? i = some o ↔ g.calls[i]? = some (.returned o) := by
  rw [outcome?, Option.bind_eq_bind, Option.bind_eq_some_iff]
  constructor
  case mp =>
    intro ⟨s, hi, hs⟩
    cases s
    case returned => exact hi.trans (congrArg _ <| congrArg _ <| Option.some.inj hs)
    all_goals cases hs
  case mpr => exact fun hi => ⟨_, hi, rfl⟩

section Refusal

variable {x : Input} {j n : ℕ}

theorem accept_lane (ho : g.isOpen) (hz : 0 < g.size)
    (hx : g.laneOf x.backendIndex < g.lanes.length) :
    g.accept x = .popping x (.entering .pop) := by
  simp [accept, ho, Nat.ne_of_gt hz, hx]

theorem accept_no_lane (ho : g.isOpen) (hz : 0 < g.size)
    (hx : g.lanes.length ≤ g.laneOf x.backendIndex) :
    g.accept x = .returned
      (.refused (.invalidBackendIndex (g.laneOf x.backendIndex) g.lanes.length)) := by
  simp [accept, ho, Nat.ne_of_gt hz, Nat.not_lt.mpr hx]

theorem Fares.returned {o : Outcome} (h : g.Fares a i (.returned o) s') : s' = .returned o := by
  cases h
  case stays | woken => rfl
  case moves hm      => cases hm
  case tells ht      => cases ht
  case replied hx    => cases hx

theorem returned_of_reaches {o : Outcome} (hr : machine.Reaches g g')
    (hi : g.calls[i]? = some (.returned o)) : g'.calls[i]? = some (.returned o) :=
  hr.preserves (I := fun g => g.calls[i]? = some (.returned o)) hi fun hi ha =>
    have ⟨_, hi', hf⟩ := (step_of_act ha).fares hi
    hf.returned ▸ hi'

-- A call that has found its lane is not told later that there is none.
theorem not_misled_of_pending (hr : machine.Reaches g g') (hi : g.calls[i]? = some s)
    (hs : s.Pending) : g'.calls[i]? ≠ some (.returned (.refused (.invalidBackendIndex j n))) := by
  intro hj
  cases reaches_cases i hr
  case inl hr =>
    have ⟨s', hi', hb⟩ := barred_of_reachesBy hr hi (.pending hs)
    cases hj.symm.trans hi'
    cases hb
    case pending hb => cases hb
  case inr ha =>
    have ⟨s', hi', ha⟩ := ha
    cases hj.symm.trans hi'
    cases ha

-- A call of an open gate is refused for its index at once or never.
theorem refused_iff {g₁ g₂ : Gate} (hi : g.calls[i]? = some (.arriving x)) (ho : g.isOpen)
    (hz : 0 < g.size) (h : g.act (.step i) = some g₁) (hr : machine.Reaches g₁ g₂) :
    g₂.calls[i]? = some (.returned (.refused (.invalidBackendIndex j n))) ↔
      g.lanes.length ≤ g.laneOf x.backendIndex ∧
        j = g.laneOf x.backendIndex ∧ n = g.lanes.length := by
  have hi₁ : g₁.calls[i]? = some (g.accept x) := by
    simp only [act, step, hi, Option.bind_eq_bind, Option.bind_some, Option.pure_def,
      Option.some.injEq] at h
    rw [← h]
    exact List.getElem?_set_self (List.getElem?_eq_some_iff.mp hi).choose
  by_cases hx : g.laneOf x.backendIndex < g.lanes.length
  case pos =>
    rw [accept_lane ho hz hx] at hi₁
    have hn := not_misled_of_pending (j := j) (n := n) hr hi₁ (.popping x _)
    exact ⟨fun h => (hn h).elim, fun h => (Nat.not_lt.mpr h.left hx).elim⟩
  case neg =>
    have hx := Nat.not_lt.mp hx
    rw [accept_no_lane ho hz hx] at hi₁
    rw [returned_of_reaches hr hi₁]
    simp [hx, eq_comm]

end Refusal

section Shared

theorem spared_accept (hp : g.pinned = false) (hn : g.lanes.length = 1) (x : Input) :
    (g.accept x).Spared := by
  intro j n
  have hx : g.laneOf x.backendIndex < g.lanes.length := by simp [laneOf, hp, hn]
  rw [accept]
  split
  · simp [Stage.due?]
  · split
    · simp [Stage.due?]
    · simp [hx, Stage.due?]

theorem Moves.spared (h : g.Moves s g' s') (hp : g.pinned = false) (hn : g.lanes.length = 1)
    (hs : s.Spared) : s'.Spared := by
  cases h
  case accept x => exact spared_accept hp hn x
  case pop      => exact (Stage.barred_afterPop ..).spared
  case refuse   => exact fun _ _ => by simp [giveBack, Stage.due?]
  case ask      => exact Stage.spared_afterAsk hs
  all_goals exact hs

theorem Tells.spared (h : Tells s s') (hs : s.Spared) : s'.Spared := by
  cases h
  case pop => exact (Stage.barred_afterPop ..).spared
  case ask => exact Stage.spared_afterAsk hs

theorem spared_wakeStage (lane : ℕ) (c : Cond) (h : s.Spared) :
    (g.wakeStage lane c s).Spared := by
  cases s <;> exact h

theorem Step.spared {size : ℕ} (h : g.Step a g') (hl : g.Laid false size)
    (hg : ∀ s ∈ g.calls, s.Spared) : ∀ s ∈ g'.calls, s.Spared := by
  have hadd {s : Stage} (hs : s.Spared) : ∀ r ∈ (g.addCall s).calls, r.Spared :=
    List.forall_mem_append.mpr ⟨hg, List.forall_mem_singleton.mpr hs⟩
  cases h
  case process       => exact hadd fun _ _ => by simp [Stage.due?]
  case «open» | shut => exact hadd fun _ _ => by simp [Stage.due?]
  case create        => exact hg
  case move hi hm    =>
    have hs := hm.spared hl.pinned hl.lanes (hg _ <| List.mem_of_getElem? hi)
    exact forall_mem_set _ (hm.calls ▸ hg) hs
  case notify hr hi ht =>
    have hl := hr.forall_mem (P := Stage.Spared) (fun _ => spared_wakeStage _ _) hg
    exact forall_mem_set _ hl <| ht.spared (hl _ <| List.mem_of_getElem? hi)
  case finish        => exact forall_mem_set _ hg fun _ _ => by simp [giveBack, Stage.due?]

end Shared

-- What holds of a loaded gate after a run in which `n` inputs were made.
structure Routed (pinned : Bool) (size n : ℕ) (g : Gate) : Prop where
  regular : g.Regular
  laid    : g.Laid pinned size
  turned  : g.Turned n
  spared  : pinned = false → ∀ s ∈ g.calls, s.Spared

theorem routed_of_run {as : List Action} {size : ℕ}
    (h : machine.run (g.emptied.loaded size) as = some g') :
    g'.Routed g.pinned size (as.countP Action.isCreate) := by
  have ⟨hr, hl, hs⟩ := (Machine.Reaches.of_run as h).preserves
    (I := fun g' => g'.Regular ∧ g'.Laid g.pinned size ∧
      (g.pinned = false → ∀ s ∈ g'.calls, s.Spared))
    ⟨regular_loaded g size, laid_loaded g size, fun _ _ hs => absurd hs List.not_mem_nil⟩
    fun ⟨hr, hl, hs⟩ ha =>
      have ha' := step_of_act ha
      ⟨hr.act ha, ha'.laid hl, fun hp => ha'.spared (hp ▸ hl) (hs hp)⟩
  have ht := (turned_loaded g size).run h
  rw [Nat.zero_add] at ht
  exact ⟨hr, hl, ht, hs⟩

end Gate
end Inference
