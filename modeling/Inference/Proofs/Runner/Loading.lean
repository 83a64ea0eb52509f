import Inference.Proofs.Gate.Instances
import Inference.Proofs.Runner.Protocol

/-!
A runner comes to all its instances or to none, whatever it held before and whatever it is told
while it is loaded. For each entry of the allocation one instance is loaded, and the others are
copies of it.
-/

namespace Inference

open Journal (Entry)

namespace Journal.Entry

-- An instance that comes to be loaded.
def loaded? : Entry → Option ℕ
  | load i (.ok _) | loadFile i _ _ (.ok _) => some i
  | _ => none

def isCopy : Entry → Bool
  | copy .. => true
  | _ => false

-- Something was refused, a removal apart.
def isRefused : Entry → Bool
  | make (.error _) | supports _ _ false | provide _ (.error _) | load _ (.error _) => true
  | loadFile _ _ _ (.error _) | download _ _ (.error _) | copy _ _ (.error _) => true
  | _ => false

end Journal.Entry

def Slot.map {β γ : Type} (f : β → γ) (s : Slot β) : Slot γ := { s with adapter := f s.adapter }

def Runner.map {β γ : Type} (f : β → γ) (r : Runner β) : Runner γ :=
  { r with slots := r.slots.map (.map f) }

namespace Workshop

-- The numbers of the copies of an instance for a device, if all of them come to be made.
inductive Copies (d : DeviceId) (i : ℕ) : ℕ → List Entry → Except RunnerError (List ℕ) → Prop
  | copied (ns : List ℕ) : Copies d i ns.length (ns.map fun n => .copy i d (.ok n)) (.ok ns)
  | failed {k es e} : es.any (·.isRefused) → Copies d i k es (.error e)

-- The numbers of the instances for a device. One is loaded, and the others are copies of it.
inductive Stocks (p : Plan) (d : DeviceId) : ℕ → List Entry → Except RunnerError (List ℕ) → Prop
  | none : Stocks p d 0 [] (.ok [])
  | some {i ns made} : readied p d i <:+: made → made.filterMap Entry.loaded? = [i] →
      made.all (!·.isCopy) →
      Stocks p d (ns.length + 1) (made ++ ns.map fun n => .copy i d (.ok n)) (.ok (i :: ns))
  | failed {k es e} : es.any (·.isRefused) → Stocks p d k es (.error e)

-- The numbers of the instances for an allocation, with their devices.
inductive Supplies (p : Plan) :
    Allocation → List Entry → Except RunnerError (List (DeviceId × ℕ)) → Prop
  | nil : Supplies p [] [] (.ok [])
  | cons {d k a es es' ns l} : Stocks p d k es (.ok ns) → Supplies p a es' (.ok l) →
      Supplies p ((d, k) :: a) (es ++ es') (.ok (ns.map (d, ·) ++ l))
  | failed {a es e} : es.any (·.isRefused) → Supplies p a es (.error e)

variable {σ β : Type} {w : Workshop σ β} {p : Plan} {d : DeviceId} {i k n : ℕ}
  {es : List Entry} {e : RunnerError} {r : Except RunnerError ℕ}

namespace Readies

theorem gains (h : Readies p d i es r) : es.filterMap Entry.loaded? = [] := by
  cases h <;> rfl

theorem refused_any (h : Readies p d i es (.error e)) : es.any (·.isRefused) := by
  cases h <;> rfl

end Readies

namespace Loads

theorem gains (h : Loads p i es r) : es.filterMap Entry.loaded? = r.toOption.toList := by
  cases h <;> rfl

theorem refused_any (h : Loads p i es (.error e)) : es.any (·.isRefused) := by
  cases h <;> rfl

end Loads

namespace Renews

theorem gains (h : Renews p d i es r) : es.filterMap Entry.loaded? = r.toOption.toList := by
  cases h
  case refused h   => exact h.gains
  case unfetched e => rfl
  case fetched h   => exact h.gains

end Renews

namespace Recovers

theorem gains (h : Recovers p d n es r) : es.filterMap Entry.loaded? = r.toOption.toList := by
  cases h
  case refused h => exact h.gains
  case loaded h  => exact h.gains
  case renewed es e told es' r h h' =>
    have hl : (readied p d n).filterMap Entry.loaded? = [] := rfl
    have hr : (Entry.remove p.file told).loaded? = none := rfl
    rw [List.filterMap_append, List.filterMap_append, hl, h.gains, List.filterMap_cons_none hr,
      h'.gains]
    cases r <;> rfl

theorem refused_any (h : Recovers p d n es (.error e)) : es.any (·.isRefused) := by
  generalize hr : Except.error e = r at h
  cases h
  case refused h => exact h.refused_any
  case loaded    => cases hr
  case renewed h h' => simp [h.refused_any]

-- An instance that comes to be loaded has been made ready for the device.
theorem readied_infix (h : Recovers p d n es (.ok i)) : readied p d i <:+: es := by
  have hl : i ∈ es.filterMap Entry.loaded? := by
    rw [h.gains]
    exact List.mem_singleton_self i
  obtain ⟨x, hx, hi⟩ := List.mem_filterMap.mp hl
  obtain ⟨k, hk⟩ := List.getElem?_of_mem hx
  have hd := h.timely k x hk
  rw [List.nil_append] at hd
  have ht := (es.take_prefix k).isInfix
  cases x <;> simp only [Entry.loaded?, reduceCtorEq] at hi
  case load told =>
    cases told <;> cases hi
    exact List.IsInfix.trans hd ht
  case loadFile told =>
    cases told <;> cases hi
    exact hd.right.right.trans ht

theorem not_isCopy (h : Recovers p d n es r) : es.all (!·.isCopy) := by
  rw [List.all_eq_true]
  intro x hx
  obtain ⟨k, hk⟩ := List.getElem?_of_mem hx
  have hd := h.timely k x hk
  cases x
  case copy => exact hd.elim
  all_goals rfl

end Recovers

namespace Copies

theorem of_ok {ns : List ℕ} (h : Copies d i k es (.ok ns)) :
    k = ns.length ∧ es = ns.map fun n => .copy i d (.ok n) := by
  cases h
  exact ⟨rfl, rfl⟩

theorem refused_any (h : Copies d i k es (.error e)) : es.any (·.isRefused) := by
  cases h
  assumption

end Copies

theorem Stocks.refused_any (h : Stocks p d k es (.error e)) : es.any (·.isRefused) := by
  cases h
  assumption

theorem Stocks.length {ns : List ℕ} (h : Stocks p d k es (.ok ns)) : ns.length = k := by
  cases h <;> rfl

theorem Supplies.devices {a : Allocation} {l : List (DeviceId × ℕ)} (h : Supplies p a es (.ok l)) :
    l.map (·.1) = a.flatMap fun x => .replicate x.2 x.1 := by
  generalize hr : Except.ok l = r at h
  induction h generalizing l
  case nil    => cases hr; rfl
  case failed => cases hr
  case cons d k a es es' ns l' h _ hi =>
    cases hr
    rw [List.map_append, hi rfl, List.map_map, List.flatMap_cons, ← h.length]
    exact congrArg (· ++ _) List.map_const'

theorem Supplies.refused_any {a : Allocation} (h : Supplies p a es (.error e)) :
    es.any (·.isRefused) := by
  cases h
  assumption

theorem records_copies (b : Numbered β) (k : ℕ) :
    Records n (·.map (·.map (·.value))) (w.journaled.copies p b d k) (w.copies p b.value d k)
      fun es r => Copies d b.number k es (r.map (·.map (·.number))) := by
  induction k generalizing n
  case zero => exact .pure (.copied [])
  case succ k hi =>
    refine (records_copy b).bind ?_
    rintro (e | c) _ ⟨rfl, -⟩
    case error => exact .pure (.failed rfl)
    case ok =>
      refine hi.bind ?_
      rintro (e | cs) es h <;> refine .pure ?_ <;> rw [es.append_nil]
      case error => exact .failed h.refused_any
      case ok =>
        obtain ⟨rfl, rfl⟩ := h.of_ok
        exact .copied (c.number :: cs.map (·.number))

theorem records_instancesOn (k : ℕ) :
    Records n (·.map (·.map (·.value))) (w.journaled.instancesOn p d k) (w.instancesOn p d k)
      fun es r => Stocks p d k es (r.map (·.map (·.number))) := by
  cases k
  case zero => exact .pure .none
  case succ k =>
    refine records_makeInstance.bind ?_
    rintro (e | b) es h
    case error => exact .pure (es.append_nil.symm ▸ .failed h.refused_any)
    case ok =>
      refine (records_copies b k).bind ?_
      rintro (e | bs) es' h' <;> refine .pure ?_ <;> rw [es'.append_nil]
      case error => exact .failed (by rw [List.any_append, h'.refused_any, Bool.or_true])
      case ok =>
        obtain ⟨rfl, rfl⟩ := h'.of_ok
        exact .some h.readied_infix h.gains h.not_isCopy

theorem records_instancesFor (a : Allocation) :
    Records n (·.map (·.map fun x => (x.1, x.2.value))) (w.journaled.instancesFor p a)
      (w.instancesFor p a)
      fun es r => Supplies p a es (r.map (·.map fun x => (x.1, x.2.number))) := by
  induction a generalizing n
  case nil => exact .pure .nil
  case cons x a hi =>
    refine (records_instancesOn x.2).bind ?_
    rintro (e | bs) es h
    case error => exact .pure (es.append_nil.symm ▸ .failed h.refused_any)
    case ok =>
      refine hi.bind ?_
      rintro (e | l) es' h'
      case error =>
        refine .pure (.failed ?_)
        rw [es'.append_nil, List.any_append, h'.refused_any, Bool.or_true]
      case ok =>
        have hl {γ : Type} (f : Numbered β → γ) :
            (bs.map (x.1, ·) ++ l).map (fun x => (x.1, f x.2)) =
              (bs.map f).map (x.1, ·) ++ l.map fun x => (x.1, f x.2) := by simp
        simp only [Except.map, ← hl]
        refine .pure ?_
        simp only [List.append_nil, hl]
        exact .cons h h'

theorem map_slots {γ : Type} (f : DeviceId → β → γ) (l : List (DeviceId × β)) :
    (w.slots l).map (fun s => f s.device s.adapter) = l.map fun x => f x.1 x.2 := by
  rw [slots, List.mapIdx_eq_zipIdx_map, List.map_map]
  change l.zipIdx.map ((fun x => f x.1 x.2) ∘ Prod.fst) = _
  rw [← List.map_map, List.zipIdx_map_fst]

theorem slots_map_value (l : List (DeviceId × Numbered β)) :
    w.slots (l.map fun x => (x.1, x.2.value)) = (w.journaled.slots l).map (.map (·.value)) := by
  simp only [slots, List.mapIdx_eq_zipIdx_map, List.zipIdx_map, List.map_map]
  rfl

end Workshop

namespace Gate

variable {g g' : Gate} {i : ℕ} {x : Input}

-- A call that comes while there are no instances is refused at once.
theorem refused_of_no_instances (hz : g.size = 0) (hr : machine.Reaches g g')
    (hi : g'.calls[i]? = some (.arriving x)) :
    ∃ h, g'.act (.step i) = some h ∧ h.outcome? i = some (.refused .noInstances) := by
  have hz : g'.size = 0 := hr.preserves (I := fun g' => g'.size = 0) hz fun hz ha =>
    (step_of_act ha).size.left.trans hz
  refine ⟨g'.setCall i (.returned (.refused .noInstances)), ?_, ?_⟩
  · simp [act, step, hi, accept, hz]
  · have hi : i < g'.calls.length := (List.getElem?_eq_some_iff.mp hi).choose
    simp [outcome?, setCall, hi, Stage.outcome?]

end Gate

namespace Runner

open Workshop (Supplies)

variable {σ β : Type} {r : Runner β}

-- A runner without instances.
structure Bare (r : Runner β) : Prop where
  slots     : r.slots = []
  lanes     : r.gate.lanes = []
  closed    : r.gate.isOpen = false
  input     : r.createInput = (none, r)
  available : r.gate.available = 0
  refuses   : ∀ g i x, Gate.machine.Reaches r.gate g → g.calls[i]? = some (.arriving x) →
    ∃ h, g.act (.step i) = some h ∧ h.outcome? i = some (.refused .noInstances)

-- A runner with all instances of an allocation, not opened yet.
structure Stocked (w : Workshop σ β) (a : Allocation) (r : Runner β) : Prop where
  instances : r.instances = (a.flatMap fun x => .replicate x.2 x.1).zipIdx
  devices   : r.slots.map (·.device) = a.flatMap fun x => .replicate x.2 x.1
  templates : ∀ i s, r.slots[i]? = some s → s.template = w.adapter.blank s.adapter i
  size      : r.gate.size = r.slots.length
  lanes     : r.gate.lanes.length = if r.gate.pinned then r.slots.length else 1
  closed    : r.gate.isOpen = false
  available : r.gate.available = 0
  cursor    : r.gate.cursor = 0

theorem bare_emptied (r : Runner β) :
    ({ r with slots := [], gate := r.gate.emptied } : Runner β).Bare where
  slots     := rfl
  lanes     := rfl
  closed    := rfl
  input     := rfl
  available := rfl
  refuses   := fun _ _ _ hr hi => Gate.refused_of_no_instances rfl hr hi

theorem stocked_loaded {w : Workshop σ β} {a : Allocation} {l : List (DeviceId × β)}
    (hl : l.map (·.1) = a.flatMap fun x => .replicate x.2 x.1) (r : Runner β) :
    ({ r with slots := w.slots l, gate := r.gate.emptied.loaded l.length } :
      Runner β).Stocked w a :=
  have hd : (w.slots l).map (·.device) = a.flatMap fun x => .replicate x.2 x.1 :=
    (Workshop.map_slots (fun d _ => d) l).trans hl
  { instances := by
      rw [Runner.instances, hd, ← hl, List.zipIdx_eq_zip_range', List.length_map,
        ← List.range_eq_range']
      rfl
    devices   := hd
    templates := by
      intro i s hs
      simp only [Workshop.slots, List.getElem?_mapIdx, Option.map_eq_some_iff] at hs
      obtain ⟨x, _, rfl⟩ := hs
      rfl
    size      := List.length_mapIdx.symm
    lanes     := by
      rw [Workshop.slots, List.length_mapIdx]
      exact List.length_replicate
    closed    := rfl
    available := (Gate.kept_loaded _ _).whole (Gate.sound_loaded _ _) rfl |>.withdrawn rfl
    cursor    := rfl }

section

variable {w : Workshop σ β} {s s' : σ}

theorem load_of_error {e : RunnerError}
    (h : w.instancesFor r.plan r.plan.allocation s = (.error e, s')) :
    r.load w s = ((.error e, { r with slots := [], gate := r.gate.emptied }), s') := by
  simp only [load, bind, StateT.bind, h]
  rfl

theorem load_of_ok {l : List (DeviceId × β)}
    (h : w.instancesFor r.plan r.plan.allocation s = (.ok l, s')) : r.load w s =
      ((.ok (), { r with slots := w.slots l, gate := r.gate.emptied.loaded l.length }), s') := by
  simp only [load, bind, StateT.bind, h]
  rfl

end

-- A runner that is loaded has all instances of its allocation, or else it has none. It has none
-- only if something was refused meanwhile.
theorem load_all_or_nothing (w : Workshop σ β) (r : Runner β) (s : σ) :
    let ((answer, r'), s') := r.load w s
    ∃ r₁ es, (r.map (.mk 0)).load w.journaled (.begun s) = ((answer, r₁), ⟨s', es⟩) ∧
      r' = r₁.map (·.value) ∧ r'.plan = r.plan ∧ r'.gate.pinned = r.gate.pinned ∧
      match answer with
      | .error _ => r'.Bare ∧ es.any (·.isRefused)
      | .ok _    => r'.Stocked w r.plan.allocation ∧ Supplies r.plan r.plan.allocation es
          (.ok (r₁.slots.map fun s => (s.device, s.adapter.number))) := by
  have ⟨answer, s', es, hm, hw, h⟩ :=
    Workshop.records_instancesFor (w := w) (p := r.plan) r.plan.allocation (.begun s) rfl
  cases answer
  case error e =>
    rw [load_of_error (s := s) hw]
    exact ⟨_, es, load_of_error hm, rfl, rfl, rfl, bare_emptied _, h.refused_any⟩
  case ok l =>
    have hd := h.devices
    rw [List.map_map] at hd
    have hs := Workshop.map_slots (w := w.journaled) (fun d (b : Numbered β) => (d, b.number)) l
    have hv := Workshop.slots_map_value (w := w) l
    rw [load_of_ok (s := s) hw]
    refine ⟨_, es, load_of_ok hm, ?_, rfl, rfl, stocked_loaded ?_ _, hs.symm ▸ h⟩
    · rw [Runner.map, ← hv, List.length_map]
      rfl
    · rwa [List.map_map]

end Runner
end Inference
