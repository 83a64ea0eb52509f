import Inference.Proofs.Runner.Asking
import Inference.Proofs.Runner.Recovery
import Mathlib.Algebra.Order.Floor.Div

/-!
Where a runner leads inputs. If inputs are pinned to instances then they are made for the instances
in turn, and an instance is only asked about inputs that are made for it. If they are not then every
input will do for every instance.
-/

namespace Inference.Runner

variable {σ β : Type} {w : Workshop σ β} {r r' : Runner β} {s s' : σ} {n : ℕ}

-- A runner of pinned inputs, after `n` of them were made.
structure Rotates (w : Workshop σ β) (n : ℕ) (r : Runner β) : Prop where
  next     : ∃ x g, r.createInput = (some x, { r with gate := g }) ∧ r.gate.act .create = some g ∧
    x.backendIndex = n % r.slots.length
  made     : r.gate.made.reverse = (List.range n).map (· % r.slots.length)
  even     : ∀ h < r.slots.length, r.gate.made.count h = n / r.slots.length ∨
    r.gate.made.count h = n ⌈/⌉ r.slots.length
  served   : ∀ i x h, r.gate.use? i = some (x, h) → x.backendIndex = h ∧ h < r.slots.length
  -- Whatever happens from here on, an instance is only asked about inputs that are made for it.
  asked    : ∀ s l q, Asks w (r, s) l q → q.1.slots = r.slots ∧
    ∀ e ∈ l, e.1.backendIndex = e.2 ∧ e.2 < r.slots.length
  -- A reply asks the instance that the call uses, and about the input of the call.
  replies  : ∀ i s, Asks w (r, s) (r.gate.use? i).toList (r.reply w i s)
  -- And so do all calls of a session.
  called   : ∀ (q : Session β) x s, q.runner = r →
    Leads w (r, s) ((q.call w x s).1.2.runner, (q.call w x s).2)
  spawned  : ∀ (q : Session β) name x hold s, q.runner = r →
    Leads w (r, s) ((q.spawn w name x hold s).1.runner, (q.spawn w name x hold s).2)
  released : ∀ (q : Session β) name s, q.runner = r →
    Leads w (r, s) ((q.release w name s).1.runner, (q.release w name s).2)
  refused  : ∀ i x g g', r.gate.isOpen → r.gate.calls[i]? = some (.arriving x) →
    r.gate.act (.step i) = some g → Gate.machine.Reaches g g' →
    ∀ j k, g'.outcome? i = some (.refused (.invalidBackendIndex j k)) ↔
      r.slots.length ≤ x.backendIndex ∧ j = x.backendIndex ∧ k = r.slots.length

-- A runner of inputs that are not pinned.
structure Shares (r : Runner β) : Prop where
  next    : 0 < r.slots.length → ∃ x g, r.createInput = (some x, { r with gate := g }) ∧
    r.gate.act .create = some g ∧ x.backendIndex = 0
  made    : ∀ j ∈ r.gate.made, j = 0
  refused : ∀ i j k,
    r.gate.outcome? i ≠ some (.refused (.invalidBackendIndex j k))

theorem gate_of_load (h : r.load w s = ((.ok (), r'), s')) :
    r'.gate = r.gate.emptied.loaded r'.slots.length := by
  cases hi : w.instancesFor r.plan r.plan.allocation s with
  | mk answer s₁ =>
    simp only [load, bind, StateT.bind, hi] at h
    cases answer
    case error e => cases h
    case ok l =>
      cases h
      simp [Workshop.slots]

theorem createInput_eq (hg : r.gate.Turned n) (hz : r.gate.size = r.slots.length)
    (hk : 0 < r.slots.length) :
    ∃ x g, r.createInput = (some x, { r with gate := g }) ∧ r.gate.act .create = some g ∧
      x.backendIndex = r.gate.turn n := by
  have hc := hg.create? (hz ▸ hk)
  have hi : r.gate.turn n < r.slots.length := by
    rw [Gate.turn, hz]
    split
    · exact Nat.mod_lt _ hk
    · exact hk
  have ha : r.gate.act .create = some { r.gate with
      cursor := r.gate.turn (n + 1)
      made := r.gate.turn n :: r.gate.made } := by
    rw [Gate.act, hc, Option.map_some]
  refine ⟨r.slots[r.gate.turn n].template.withBackendIndex (r.gate.turn n), _, ?_, ha, rfl⟩
  simp [createInput, hc, hi]

theorem div_succ_eq_ceil {k : ℕ} (hk : 0 < k) (hn : 0 < n % k) : n / k + 1 = (n + k - 1) / k := by
  have hd := Nat.div_add_mod n k
  have hm := Nat.mod_lt n hk
  have h₁ : (n / k + 1) * k = k * (n / k) + k := by ring
  have h₂ : (n / k + 1 + 1) * k = k * (n / k) + k + k := by ring
  exact (Nat.div_eq_of_lt_le (by omega) (by omega)).symm

theorem rotates (w : Workshop σ β) (hg : r.gate.Routed true r.slots.length n)
    (hk : 0 < r.slots.length) : r.Rotates w n := by
  have hz := hg.laid.size
  have ht : r.gate.turn = (· % r.slots.length) := by
    funext k
    simp [Gate.turn, hg.laid.pinned, hz]
  constructor
  case next =>
    have h := createInput_eq hg.turned hz hk
    rwa [ht] at h
  case made => exact ht ▸ hg.turned.made
  case even =>
    intro h hh
    have hc := hg.turned.count_made hg.laid.pinned (hz ▸ hh)
    rw [hz] at hc
    rw [hc, Nat.ceilDiv_eq_add_pred_div]
    split
    case isTrue hr => exact .inr (div_succ_eq_ceil hk <| Nat.zero_lt_of_lt hr)
    case isFalse   => exact .inl rfl
  case served => exact fun i x h hi => hg.steady.use? hi
  case asked => exact fun s l q hl => ⟨hl.slots, (hl.routed hg.steady).right⟩
  case replies =>
    intro i s
    cases hu : r.gate.use? i
    case none =>
      rw [reply, hu]
      exact .refl
    case some e => exact asks_reply hu (hg.steady.use? hu).right s
  case called =>
    intro q x s hq
    exact hq ▸ q.leads_call w s x
  case spawned =>
    intro q name x hold s hq
    exact hq ▸ q.leads_spawn w s name x hold
  case released =>
    intro q name s hq
    exact hq ▸ q.leads_release w s name
  case refused =>
    intro i x g g' ho hi ha hr j k
    have h := Gate.refused_iff (j := j) (n := k) hi ho (hz ▸ hk) ha hr
    simpa [Gate.outcome?_eq_some, Gate.laneOf, hg.laid.pinned, hg.laid.lanes] using h

theorem shares (hg : r.gate.Routed false r.slots.length n) : r.Shares := by
  have ht : r.gate.turn = fun _ => 0 := by
    funext k
    simp [Gate.turn, hg.laid.pinned]
  constructor
  case next =>
    intro hk
    have h := createInput_eq hg.turned hg.laid.size hk
    rwa [ht] at h
  case made =>
    intro j hj
    rw [← List.mem_reverse, hg.turned.made, ht, List.mem_map] at hj
    obtain ⟨_, _, hj⟩ := hj
    exact hj.symm
  case refused =>
    intro i j k hi
    have hi := Gate.outcome?_eq_some.mp hi
    exact hg.spared rfl _ (List.mem_of_getElem? hi) j k rfl

-- Whatever inputs are made and whatever the calls do after a loading, in whatever order: inputs
-- that are pinned are made for the instances in turn, and each instance is used for its inputs and
-- asked about its inputs only. A call of an open runner is refused for its index if and only if
-- there is no such instance.
theorem inputs_routed {as : List Gate.Action} {g : Gate}
    (hl : r.load w s = ((.ok (), r'), s')) (hr : Gate.machine.run r'.gate as = some g) :
    (r.gate.pinned → 0 < r'.slots.length →
      { r' with gate := g }.Rotates w (as.countP Gate.Action.isCreate)) ∧
    (r.gate.pinned = false → { r' with gate := g }.Shares) := by
  rw [gate_of_load hl] at hr
  have hg := Gate.routed_of_run hr
  refine ⟨fun hp hk => ?_, fun hp => ?_⟩
  · rw [hp] at hg
    exact rotates w hg hk
  · rw [hp] at hg
    exact shares hg

-- Three inputs are made, and a call has come to the instance of the second one. There is no third
-- instance for the next call.
theorem second_input_served :
    let w := StandIn.workshop ⟨[], none, [], [], true⟩ [.onnx]
    let p := { renewing "" with allocation := [(.cpu, 2)] }
    let anew : List Gate.Action := [.step 0, .notify 0 none, .step 0]
    let issue : List Gate.Action := [.step 0, .step 0, .notify 0 none]
    let calls : List Gate.Action := [.create, .process (.blank 1), .step 1, .create, .step 1,
      .notify 1 none, .step 1, .create, .step 1, .process (.blank 2)]
    let as : List Gate.Action :=
      [.open, .step 0, .step 0] ++ anew ++ anew ++ issue ++ issue ++ [.step 0, .step 0] ++ calls
    ∃ r s g, (Runner.ofPlan p).load w damaged = ((.ok (), r), s) ∧
      Gate.machine.run r.gate as = some g ∧ { r with gate := g }.Rotates w 3 ∧
      Asks w ({ r with gate := g }, s) [(.blank 1, 1)] ({ r with gate := g }.reply w 1 s) ∧
      g.made = [0, 1, 0] ∧ g.use? 1 = some (.blank 1, 1) ∧ g.isOpen ∧
      (g.act (.step 2) >>= (·.outcome? 2)) = some (.refused (.invalidBackendIndex 2 2)) := by
  intro w p anew issue calls as
  have hw : w.Reliable StandIn.housing .onnx [.cpu]
      (artifact "local/m.bin" (Bytes.ofText "weights")) :=
    StandIn.reliable .onnx rfl (by decide) rfl (by decide +kernel)
  have ⟨r, s, hl, hn, _⟩ := load_recovers w StandIn.housing (.ofPlan p) damaged
    (Bytes.ofText "weights") hw (by decide +kernel) restorable_damaged
  have hg : r.gate = (Gate.unloaded true).emptied.loaded 2 := by
    have h := gate_of_load hl
    rwa [hn] at h
  have ha : (Gate.machine.run ((Gate.unloaded true).emptied.loaded 2) as).any fun g =>
      g.made = [0, 1, 0] ∧ g.use? 1 = some (.blank 1, 1) ∧ g.isOpen ∧
        (g.act (.step 2) >>= (·.outcome? 2)) = some (.refused (.invalidBackendIndex 2 2)) := by
    decide +kernel
  have ⟨g, hr, ho⟩ := Option.any_eq_true _ _ |>.mp ha
  rw [← hg] at hr
  have ho := of_decide_eq_true ho
  have hk := (inputs_routed hl hr).left rfl (hn ▸ by decide)
  have ha := hk.replies 1 s
  rw [ho.right.left] at ha
  exact ⟨r, s, g, hl, hr, hk, ha, ho⟩

end Inference.Runner
