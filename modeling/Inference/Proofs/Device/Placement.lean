import Inference.Adapter.StandIn
import Inference.Engine
import Mathlib.Data.Nat.Bitwise
import Mathlib.Tactic.Common

/-!
Where the instances of a model go that is put on its best backend. The backend is chosen for one
device, and a number that stands for no device of its own is taken for the preferred one. A number
that asks for all accelerators is given all of them in the end, so the choice was made for one of
them only, and the others need not be able to run it.
-/

namespace Inference

namespace BackendMask

variable {m : BackendMask} {k : Backend}

@[simp]
theorem has_none (m : BackendMask) : m.has .none = false := by
  have h : m.bits &&& Backend.none.bits = 0 := Nat.and_zero _
  rw [has, h]
  rfl

theorem bits_eq_zero : k.bits = 0 ↔ k = .none := by
  cases k <;> decide

-- No two backends share a bit.
theorem and_bits (j k : Backend) : j.bits &&& k.bits = if k = j then k.bits else 0 := by
  cases j <;> cases k <;> rfl

theorem has_add (m : BackendMask) (j k : Backend) :
    (m.add j).has k ↔ m.has k ∨ k = j ∧ k ≠ .none := by
  simp only [has, add, Nat.and_or_distrib_right, and_bits]
  by_cases h : k = j <;> simp [h, Nat.or_eq_zero_iff, bits_eq_zero, imp_iff_not_or]

theorem has_ofList (ks : List Backend) : (ofList ks).has k ↔ k ∈ ks ∧ k ≠ .none := by
  have h (ks : List Backend) (m : BackendMask) :
      (ks.foldl add m).has k ↔ m.has k ∨ k ∈ ks ∧ k ≠ .none := by
    induction ks generalizing m
    case nil       => simp
    case cons j ks hi =>
      rw [List.foldl_cons, hi, has_add, List.mem_cons]
      tauto
  have he : empty.has k = false := by
    cases k <;> rfl
  rw [ofList, h, he]
  simp

theorem mem_toList : k ∈ m.toList ↔ m.has k := by
  cases k <;> simp [toList, Backend.all]

theorem has_filter (m : BackendMask) (keep : Backend → Bool) (k : Backend) :
    (m.filter keep).has k ↔ m.has k ∧ keep k := by
  rw [filter, has_ofList, List.mem_filter, mem_toList]
  cases k <;> simp

theorem inter_comm (m n : BackendMask) : m.inter n = n.inter m :=
  congrArg mk (Nat.and_comm ..)

theorem exists_bits_eq (hk : k ≠ .none) : ∃ i, k.bits = 2 ^ i := by
  cases k
  case none       => exact absurd rfl hk
  case dnn        => exact ⟨0, rfl⟩
  case tensorFlow => exact ⟨1, rfl⟩
  case openVino   => exact ⟨2, rfl⟩
  case coreMl     => exact ⟨3, rfl⟩
  case onnx16     => exact ⟨4, rfl⟩
  case onnx       => exact ⟨5, rfl⟩
  case openVino8  => exact ⟨6, rfl⟩
  case openVino16 => exact ⟨7, rfl⟩
  case tensorRt   => exact ⟨8, rfl⟩

theorem has_iff_testBit {i : ℕ} (hk : k.bits = 2 ^ i) : m.has k ↔ m.bits.testBit i := by
  rw [has, hk, Nat.and_two_pow]
  cases m.bits.testBit i <;> simp

theorem has_inter {n : BackendMask} : (m.inter n).has k ↔ m.has k ∧ n.has k := by
  by_cases hk : k = .none
  case pos => simp [hk]
  case neg =>
    have ⟨i, hi⟩ := exists_bits_eq hk
    simp [has_iff_testBit hi, inter]

theorem ne_none_of_has (h : m.has k) : k ≠ .none := by
  rintro rfl
  simp at h

-- The mask of a single framework.
theorem has_bits (hk : k ≠ .none) : (⟨k.bits⟩ : BackendMask).has k := by
  cases k <;> first | rfl | exact absurd rfl hk

end BackendMask

namespace Catalog

variable {c : Catalog} {id : DeviceId} {k : Backend} {floor : Single}

-- What a number stands for stands for itself.
theorem resolve_resolve (c : Catalog) (id : DeviceId) :
    c.resolve (c.resolve id) = c.resolve id := by
  by_cases h : c.isMeta id
  case pos => by_cases h' : c.isMeta c.preferred <;> simp [resolve, h, h']
  case neg => simp [resolve, h]

theorem runs_resolve (c : Catalog) (floor : Single) (id : DeviceId) (k : Backend) :
    c.runs floor (c.resolve id) k = c.runs floor id k := by
  have h : c.accelerator? (c.resolve id) = c.accelerator? id := by
    rw [accelerator?, accelerator?, resolve_resolve]
  simp only [runs, h]

theorem has_available (hk : k ≠ .none) :
    (c.available ⟨k.bits⟩ id floor).has k ↔ c.runs floor id k := by
  rw [available, BackendMask.has_filter]
  exact and_iff_right (BackendMask.has_bits hk)

-- A backend without accelerators runs anywhere.
theorem runs_of_not_usesAccelerators (h : k.usesAccelerators = false) : c.runs floor id k := by
  cases k <;> first | rfl | simp [Backend.usesAccelerators] at h

-- The chosen backend can run on the device that it is chosen for.
theorem runs_of_chosen {m : Descriptor} {registered : BackendMask}
    (h : c.chosen? m registered id = some k) : k ≠ .none ∧ c.runs coreMlFloor id k := by
  have hm : (c.usable m registered id).has k := List.find?_some h
  exact ⟨BackendMask.ne_none_of_has hm, (BackendMask.has_filter ..).mp hm |>.right⟩

-- The files are those of the backend that is chosen.
theorem files_eq (c : Catalog) (m : Descriptor) (registered : BackendMask) (id : DeviceId) :
    c.files m registered id =
      ((c.chosen? m registered id >>= m.section?).map (·.files)).getD [] := by
  rw [files, BackendMask.inter_comm]
  rfl

-- It is one that the descriptor lists.
theorem has_backends_of_chosen {m : Descriptor} {registered : BackendMask}
    (h : c.chosen? m registered id = some k) : m.backends.has k := by
  have hm : (c.usable m registered id).has k := List.find?_some h
  exact (BackendMask.has_inter.mp <| (BackendMask.has_filter ..).mp hm |>.left).right

-- Whether all accelerators are asked for.
def AsksForAll (c : Catalog) (id : DeviceId) : Prop := 0 < c.count ∧ id = .all c.count

instance : Decidable (c.AsksForAll id) := inferInstanceAs (Decidable (_ ∧ _))

-- One device takes the model, or all accelerators do.
theorem forall_targets {P : DeviceId → Prop} : (∀ d ∈ c.targets id k, P d) ↔
    if k.usesAccelerators then
      if c.AsksForAll id then ∀ i < c.count, P (.gpu i) else P (c.resolve id)
    else P .cpu := by
  rw [targets]
  cases k.usesAccelerators
  case false => simp
  case true  =>
    by_cases ha : c.AsksForAll id
    case pos =>
      have ha' : 0 < c.count ∧ id = .all c.count := ha
      simp [if_pos ha, if_pos ha']
    case neg =>
      have ha' : ¬(0 < c.count ∧ id = .all c.count) := ha
      simp [if_neg ha, if_neg ha']

end Catalog

namespace Engine

variable {e : Engine} {m : Descriptor} {id : DeviceId} {extra : ℕ}

variable {σ β : Type} {w : Workshop σ β} {file : String} {pinned : Bool} {s : σ} {p : Plan}

theorem autoPlan_eq_ok : e.autoPlan w file m id extra pinned s = .ok p ↔
    ∃ k, e.catalog.chosen? m w.registry.mask id = some k ∧
      p = w.plan k file (e.catalog.instances id extra k) m pinned s := by
  rw [autoPlan, choose]
  cases e.catalog.chosen? m w.registry.mask id
  case none   => simp [bind, Except.bind]
  case some k => simp [bind, Except.bind, pure, Except.pure, eq_comm]

-- Every device of the plan can run its backend, unless all accelerators are asked for and one of
-- them cannot.
theorem runs_everywhere_iff (h : e.autoPlan w file m id extra pinned s = .ok p) :
    (∀ q ∈ p.allocation,
      (e.catalog.available ⟨p.backend.bits⟩ q.1 coreMlFloor).has p.backend) ↔
      ¬(e.catalog.AsksForAll id ∧ p.backend.usesAccelerators ∧
        ∃ i < e.catalog.count, ¬e.catalog.runs coreMlFloor (.gpu i) p.backend) := by
  have ⟨k, hc, hp⟩ := autoPlan_eq_ok.mp h
  have ⟨hk, hr⟩ := Catalog.runs_of_chosen hc
  subst hp
  simp only [Workshop.plan, Catalog.instances, List.forall_mem_map, Catalog.has_available hk,
    Catalog.forall_targets]
  by_cases hu : k.usesAccelerators
  case neg =>
    have hu : k.usesAccelerators = false := by simpa using hu
    simp [hu, Catalog.runs_of_not_usesAccelerators hu]
  case pos =>
    by_cases ha : e.catalog.AsksForAll id
    case neg => simp [hu, ha, Catalog.runs_resolve, hr]
    case pos => simp [hu, ha]

-- An engine on a host with two accelerators, the first of them from NVIDIA.
def besideNvidia (name : String) : Engine where
  settings := {}
  catalog :=
    ⟨{}, [.ofMemory 0 "NVIDIA GeForce RTX 3080" (.ofNat 10), .ofMemory 1 name (.ofNat 8)]⟩
  cache := .ofBudget 0

-- A bench with an empty depot.
def emptyBench : Bench where
  depot := ⟨"local", "local", 3, true, none, none, .empty, [], ∅⟩
  counts := StandIn.noCounts
  nextId := 0

def twoBackends : Descriptor :=
  ((Descriptor.named "m").withSection .onnx default).withSection .tensorRt default

theorem two_nvidia_run_everywhere :
    let e := besideNvidia "NVIDIA GeForce RTX 3070"
    let w := StandIn.workshop ⟨[], none, [], [], false⟩ [.onnx, .tensorRt]
    let p := w.plan .tensorRt "m.onnx" [(.gpu 0, 1), (.gpu 1, 1)] twoBackends false emptyBench
    e.autoPlan w "m.onnx" twoBackends (.all 2) 0 false emptyBench = .ok p ∧
      ∀ q ∈ p.allocation,
        (e.catalog.available ⟨p.backend.bits⟩ q.1 coreMlFloor).has p.backend := by
  intro e w p
  have hc : e.catalog.chosen? twoBackends w.registry.mask (.all 2) = some .tensorRt := by
    decide +kernel
  have hl : e.catalog.instances (.all 2) 0 .tensorRt = [(.gpu 0, 1), (.gpu 1, 1)] := by
    decide +kernel
  have h : e.autoPlan w "m.onnx" twoBackends (.all 2) 0 false emptyBench = .ok p :=
    autoPlan_eq_ok.mpr ⟨.tensorRt, hc, hl ▸ rfl⟩
  have hr : ∀ i < 2, e.catalog.runs coreMlFloor (.gpu i) .tensorRt := by decide +kernel
  exact ⟨h, (runs_everywhere_iff h).mpr fun ⟨_, _, i, hi, hn⟩ => hn (hr i hi)⟩

-- TensorRT goes onto an accelerator that cannot run it.
theorem tensorRt_beside_nvidia :
    let e := besideNvidia "AMD Radeon RX 6800"
    let w := StandIn.workshop ⟨[], none, [], [], false⟩ [.onnx, .tensorRt]
    let p := w.plan .tensorRt "m.onnx" [(.gpu 0, 1), (.gpu 1, 1)] twoBackends false emptyBench
    e.autoPlan w "m.onnx" twoBackends (.all 2) 0 false emptyBench = .ok p ∧
      (.gpu 1, 1) ∈ p.allocation ∧
      ¬(e.catalog.available ⟨p.backend.bits⟩ (.gpu 1) coreMlFloor).has p.backend := by
  intro e w p
  have hc : e.catalog.chosen? twoBackends w.registry.mask (.all 2) = some .tensorRt := by
    decide +kernel
  have hl : e.catalog.instances (.all 2) 0 .tensorRt = [(.gpu 0, 1), (.gpu 1, 1)] := by
    decide +kernel
  have hn : ¬(e.catalog.available ⟨Backend.tensorRt.bits⟩ (.gpu 1) coreMlFloor).has .tensorRt := by
    decide +kernel
  exact ⟨autoPlan_eq_ok.mpr ⟨.tensorRt, hc, hl ▸ rfl⟩, .tail _ (.head _), hn⟩

end Engine
end Inference
