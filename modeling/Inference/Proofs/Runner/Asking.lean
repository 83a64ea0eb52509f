import Inference.Proofs.Gate.Routing
import Inference.Runner.Session

/-!
What a runner asks of its instances. An instance is asked about the input of a call that uses it,
and what it replies is the reply of that call. Nothing else that a runner does, and nothing that a
session does with a runner, asks an instance anything.
-/

namespace Inference

namespace Gate

def Action.isReply : Action → Bool
  | finish .. => true
  | _         => false

variable {g g' : Gate} {a : Action} {i : ℕ}

-- A schedule does not reply to calls.
theorem isReply_of_next? (h : g.next? = some a) : a.isReply = false := by
  have ⟨(_, i), _, h⟩ := List.exists_of_findSome?_eq_some h
  simp only [nextOf] at h
  split at h
  case h_1 => exact Option.some.inj h ▸ rfl
  case h_2 =>
    split at h
    case isTrue  => exact Option.some.inj h ▸ rfl
    case isFalse => cases h

theorem reaches_settle (g : Gate) :
    machine.ReachesBy (fun _ a => a.isReply = false) g g.settle :=
  Machine.reachesBy_settle isReply_of_next? _ g

-- What holds of the calls and the lanes also after calls are forgotten.
structure Steady (size : ℕ) (g : Gate) : Prop where
  sound : g.Sound
  live  : g.Live
  laid  : g.Laid true size

theorem Routed.steady {size n : ℕ} (hg : g.Routed true size n) : g.Steady size :=
  ⟨hg.regular.sound, hg.regular.live, hg.laid⟩

theorem Steady.act {size : ℕ} (hg : g.Steady size) (h : g.act a = some g') : g'.Steady size :=
  have hs := step_of_act h
  ⟨hs.sound hg.sound, hs.live hg.sound hg.live, hs.laid hg.laid⟩

theorem Sound.forget {o : Outcome} (hg : g.Sound) (hi : g.calls[i]? = some (.returned o)) :
    ({ g with calls := g.calls.eraseIdx i } : Gate).Sound where
  unbounded := hg.unbounded
  sited     := hg.sited
  alone     := Nat.le_trans (Nat.le.intro <| tally_eraseIdx hi) hg.alone
  fits      := fun s hs => hg.fits s <| List.mem_of_mem_eraseIdx hs
  agenda    := by
    have ha := hg.agenda
    rw [Gate.agenda, ← flatMap_eraseIdx_of_nil hi rfl] at ha
    exact ha

theorem Steady.forget {size : ℕ} {o : Outcome} (hg : g.Steady size)
    (hi : g.calls[i]? = some (.returned o)) :
    ({ g with calls := g.calls.eraseIdx i } : Gate).Steady size where
  sound := hg.sound.forget hi
  live  := ⟨hg.live.lanes, fun s hs => hg.live.calls s <| List.mem_of_mem_eraseIdx hs⟩
  laid  := ⟨hg.laid.lanes, hg.laid.size, hg.laid.pinned⟩

theorem use?_eq_some {x : Input} {h : ℕ} :
    g.use? i = some (x, h) ↔ ∃ t, g.calls[i]? = some (.inside x t) ∧ t.handle = h := by
  constructor
  case mp =>
    intro hi
    simp only [use?] at hi
    split at hi
    case h_1 t hj =>
      cases hi
      exact ⟨t, hj, rfl⟩
    case h_2 => cases hi
  case mpr =>
    intro ⟨t, hj, ht⟩
    rw [use?, hj]
    exact congrArg (fun h => some (x, h)) ht

-- A call that uses an instance can be replied to.
theorem exists_finish {x : Input} {h : ℕ} (hi : g.use? i = some (x, h)) (r : Reply) :
    ∃ g', g.act (.finish i r) = some g' := by
  have ⟨t, hi, _⟩ := use?_eq_some.mp hi
  exact ⟨_, by rw [act, finish, hi]; rfl⟩

-- A call that uses an instance has found it in the lane of its input.
theorem Steady.use? {size h : ℕ} {x : Input} (hg : g.Steady size) (hi : g.use? i = some (x, h)) :
    x.backendIndex = h ∧ h < size := by
  have ⟨t, hj, ht⟩ := use?_eq_some.mp hi
  have hm := List.mem_of_getElem? hj
  have hf : g.laneOf t.handle = g.laneOf x.backendIndex := hg.sound.fits _ hm
  have hl : g.laneOf x.backendIndex < g.lanes.length := hg.live.calls _ hm
  simp only [laneOf, hg.laid.pinned, hg.laid.lanes, if_true] at hf hl
  exact ⟨hf ▸ ht, ht ▸ hf ▸ hl⟩

end Gate

namespace Runner

variable {σ β : Type}

-- From one runner and state to another one, while instances are asked about inputs: these, each
-- with the instance that is asked, in order.
inductive Asks (w : Workshop σ β) (p : Runner β × σ) : List (Input × ℕ) → Runner β × σ → Prop
  | refl : Asks w p [] p
  | act : Asks w p l (r, s) → a.isReply = false → r.gate.act a = some g →
      Asks w p l ({ r with gate := g }, s)
  | ask : Asks w p l (r, s) → r.gate.use? i = some (x, h) → r.slots[h]? = some slot →
      w.adapter.process slot.adapter x s = (answer, s') →
      r.gate.act (.finish i answer) = some g →
      Asks w p (l ++ [(x, h)]) ({ r with gate := g }, s')
  | forget : Asks w p l (r, s) → r.outcome? i = some o → Asks w p l (r.forget i, s)

-- Whatever is asked on the way, it is asked by calls that use the instances.
def Leads (w : Workshop σ β) (p q : Runner β × σ) : Prop := ∃ l, Asks w p l q

variable {w : Workshop σ β} {p q u : Runner β × σ} {r : Runner β} {s : σ} {g : Gate}
variable {l l' : List (Input × ℕ)} {x : Input} {h i : ℕ}

theorem Asks.trans (h₁ : Asks w p l q) (h₂ : Asks w q l' u) : Asks w p (l ++ l') u := by
  induction h₂
  case refl               => exact (List.append_nil l).symm ▸ h₁
  case act ha hg hi       => exact .act hi ha hg
  case ask hu hs hp hg hi => exact List.append_assoc .. ▸ .ask hi hu hs hp hg
  case forget ho hi       => exact .forget hi ho

theorem Leads.trans (h₁ : Leads w p q) (h₂ : Leads w q u) : Leads w p u :=
  have ⟨_, h₁⟩ := h₁
  have ⟨_, h₂⟩ := h₂
  ⟨_, h₁.trans h₂⟩

theorem Asks.of_reachesBy (s : σ)
    (h : Gate.machine.ReachesBy (fun _ a => a.isReply = false) r.gate g) :
    Asks w (r, s) [] ({ r with gate := g }, s) := by
  induction h
  case refl          => exact .refl
  case step ha hg hi => exact (hi.act ha hg :)

theorem asks_settle (w : Workshop σ β) (r : Runner β) (s : σ) :
    Asks w (r, s) [] ({ r with gate := r.gate.settle }, s) :=
  .of_reachesBy s r.gate.reaches_settle

-- The reply to a call is the one of the instance that the call uses, to the input of the call.
theorem asks_reply (hu : r.gate.use? i = some (x, h)) (hk : h < r.slots.length) (s : σ) :
    Asks w (r, s) [(x, h)] (r.reply w i s) := by
  have hs := List.getElem?_eq_getElem hk
  cases hp : w.adapter.process r.slots[h].adapter x s with
  | mk answer s' =>
    have ⟨g, hg⟩ := Gate.exists_finish hu answer
    have hr : r.reply w i s = ({ r with gate := g.settle }, s') := by
      simp only [Runner.reply, hu, hs, bind, StateT.bind, hp, hg, Option.getD_some]
      rfl
    rw [hr]
    exact (Asks.refl.ask hu hs hp hg).trans (asks_settle w { r with gate := g } s')

theorem leads_reply (w : Workshop σ β) (r : Runner β) (i : ℕ) (s : σ) :
    Leads w (r, s) (r.reply w i s) := by
  cases hu : r.gate.use? i
  case none =>
    simp only [Runner.reply, hu]
    exact ⟨_, .refl⟩
  case some e =>
    by_cases hk : e.2 < r.slots.length
    case pos => exact ⟨_, asks_reply hu hk s⟩
    case neg =>
      simp only [Runner.reply, hu, List.getElem?_eq_none (Nat.not_lt.mp hk)]
      exact ⟨_, .refl⟩

theorem leads_settle (w : Workshop σ β) (held : ℕ → Bool) (n : ℕ) (r : Runner β) (s : σ) :
    Leads w (r, s) (settle w held n r s) := by
  induction n generalizing r s
  case zero => exact ⟨_, .refl⟩
  case succ n hi =>
    rw [settle]
    generalize List.find? _ r.gate.calls.zipIdx = e
    cases e
    case none   => exact ⟨_, .refl⟩
    case some e => exact (leads_reply w r e.2 s).trans (hi ..)

theorem leads_call (w : Workshop σ β) (r : Runner β) (x : Input) (s : σ) :
    Leads w (r, s) ((r.call (.process x)).2, s) :=
  have ha : r.gate.act (.process x) = some (r.gate.addCall (.arriving x)) := rfl
  ⟨_, (Asks.refl.act rfl ha).trans <| asks_settle w { r with gate := _ } s⟩

theorem Asks.slots (h : Asks w p l q) : q.1.slots = p.1.slots := by
  induction h
  case refl => rfl
  all_goals assumption

-- An instance is only asked about the inputs that are made for it.
theorem Asks.routed (h : Asks w p l q) (hp : p.1.gate.Steady p.1.slots.length) :
    q.1.gate.Steady p.1.slots.length ∧
      ∀ e ∈ l, e.1.backendIndex = e.2 ∧ e.2 < p.1.slots.length := by
  induction h
  case refl        => exact ⟨hp, fun _ he => absurd he List.not_mem_nil⟩
  case act hg hi   => exact ⟨hi.left.act hg, hi.right⟩
  case ask hu _ _ hg hi =>
    refine ⟨hi.left.act hg, List.forall_mem_append.mpr ⟨hi.right, ?_⟩⟩
    exact List.forall_mem_singleton.mpr <| hi.left.use? hu
  case forget ho hi => exact ⟨hi.left.forget (Gate.outcome?_eq_some.mp ho), hi.right⟩

end Runner

namespace Session

variable {σ β : Type} (w : Workshop σ β) (q : Session β) (s : σ)

theorem leads_settle :
    Runner.Leads w (q.runner, s) ((q.settle w s).1.runner, (q.settle w s).2) :=
  .trans ⟨_, Runner.asks_settle w q.runner s⟩ <|
    Runner.leads_settle w (· ∈ q.held) q.runner.gate.settle.calls.length q.move.runner s

theorem leads_call (x : Input) :
    Runner.Leads w (q.runner, s) ((q.call w x s).1.2.runner, (q.call w x s).2) := by
  have hl := (Runner.leads_call w q.runner x s).trans <|
    leads_settle w { q with runner := (q.runner.call (.process x)).2 } s
  simp only [call, bind, StateT.bind]
  split
  case h_1 q' s' hq =>
    rw [hq] at hl
    cases ho : q'.runner.outcome? (q.runner.call (.process x)).1
    case none => exact hl
    case some =>
      have ⟨_, hl⟩ := hl
      exact ⟨_, hl.forget ho⟩

theorem leads_spawn (name : String) (x : Input) (hold : Bool) : Runner.Leads w (q.runner, s)
    ((q.spawn w name x hold s).1.runner, (q.spawn w name x hold s).2) :=
  (Runner.leads_call w q.runner x s).trans <| leads_settle w
    ⟨(q.runner.call (.process x)).2, (name, (q.runner.call (.process x)).1) :: q.named,
      if hold then (q.runner.call (.process x)).1 :: q.held else q.held⟩ s

theorem leads_release (name : String) : Runner.Leads w (q.runner, s)
    ((q.release w name s).1.runner, (q.release w name s).2) :=
  leads_settle w { q with held := q.held.filter fun i => q.number? name ≠ some i } s

end Session
end Inference
