import Inference.Proofs.Device.Allocation

/-!
Which backend a model is put on. A backend can be used if there is a constructor for it, the
descriptor lists it, and the device meets what it needs. There is a plan exactly if some backend can
be used; it has one of these, and the files of the model for the device are those of the same one.
-/

namespace Inference

theorem Registry.has_mask {κ : Type} {r : Registry κ} {k : Backend} (hk : k ≠ .none) :
    r.mask.has k ↔ r.has k := by
  have ha : k ∈ Backend.none :: Backend.all := by cases k <;> decide
  rw [mask, BackendMask.has_ofList, kinds, List.mem_filter]
  simp [ha, hk]

namespace Catalog

variable {c : Catalog} {id d : DeviceId} {k : Backend} {a : Accelerator} {m : Descriptor}
  {registered : BackendMask}

-- The accelerator with this number.
def At (c : Catalog) (d : DeviceId) (a : Accelerator) : Prop :=
  0 ≤ d.val ∧ c.accelerators[d.val.toNat]? = some a

-- What a backend needs of the host and the device that run it. Where there is no accelerator the
-- CPU is used.
def Suits (c : Catalog) (d : DeviceId) : Backend → Prop
  | .coreMl                => c.host.isMac ∧ coreMlFloor ≤ c.host.osVersion
  | .tensorRt              => ∃ a, c.At d a ∧ a.isNvidia
  | .openVino | .openVino8 => ∀ a, c.At d a → a.isIntel
  | .openVino16            => (∀ a, c.At d a → a.isIntel) ∧ ∃ a, c.At d a ∧ a.supportsFp16
  | .onnx16                => ∃ a, c.At d a ∧ a.supportsFp16
  | _                      => True

theorem accelerator?_eq_some : c.accelerator? id = some a ↔ c.At (c.resolve id) a := by
  rw [accelerator?, DeviceId.gpuIndex?, At]
  split <;> simp_all

-- There is none exactly at the CPU.
theorem forall_not_at_iff (hc : c.count < 2 ^ 31) (hd : c.Owns d) :
    (∀ a, ¬c.At d a) ↔ d = .cpu := by
  rcases hd with rfl | ⟨i, hi, rfl⟩
  case inl => exact iff_of_true (fun a ⟨h, _⟩ => absurd h (by decide)) rfl
  case inr =>
    have hv : (DeviceId.gpu i).val = i := DeviceId.val_gpu_of_lt (hi.trans hc)
    refine iff_of_false (fun h => h c.accelerators[i] ?_) (DeviceId.gpu_ne_cpu (by omega))
    rw [At, hv]
    exact ⟨Int.natCast_nonneg i, List.getElem?_eq_getElem hi⟩

theorem runs_iff_suits : c.runs coreMlFloor id k ↔ c.Suits (c.resolve id) k := by
  have hany (p : Accelerator → Bool) :
      (c.accelerator? id).any p ↔ ∃ a, c.At (c.resolve id) a ∧ p a := by
    simp [← accelerator?_eq_some, Option.any_eq_true]
  have hall (p : Accelerator → Bool) :
      (c.accelerator? id).all p ↔ ∀ a, c.At (c.resolve id) a → p a := by
    simp [← accelerator?_eq_some, Option.all_eq_true]
  cases k <;> simp only [runs, Suits, Bool.and_eq_true, hany, hall, supportsCoreMl]
  case coreMl => rfl

theorem has_usable : (c.usable m registered id).has k ↔
    registered.has k ∧ m.backends.has k ∧ c.Suits (c.resolve id) k := by
  rw [usable, available, BackendMask.has_filter, BackendMask.has_inter, runs_iff_suits, and_assoc]

-- The frameworks are all tried in the end.
theorem backend?_eq_none {n : BackendMask} : c.backend? id n = none ↔ ∀ k, ¬n.has k := by
  rw [backend?, backendAbove?, List.find?_eq_none]
  refine ⟨fun h k hk => ?_, fun h k _ => h k⟩
  refine h k (List.mem_append_right _ ?_) hk
  have hk := BackendMask.ne_none_of_has hk
  cases k <;> first | exact absurd rfl hk | decide

end Catalog

namespace Engine

variable {σ β : Type}

-- The backend can be used for a model on a device.
structure Usable (e : Engine) (w : Workshop σ β) (m : Descriptor) (id : DeviceId) (k : Backend) :
    Prop where
  registered : w.registry.has k
  listed     : m.backends.has k
  suits      : e.catalog.Suits (e.catalog.resolve id) k

variable {e : Engine} {w : Workshop σ β} {file : String} {m : Descriptor} {id : DeviceId}
  {extra : ℕ} {pinned : Bool} {s : σ} {err : RunnerError} {k : Backend}

theorem usable_iff : e.Usable w m id k ↔ (e.catalog.usable m w.registry.mask id).has k := by
  rw [Catalog.has_usable]
  constructor
  case mp  => exact fun ⟨hr, hl, hs⟩ =>
    ⟨(Registry.has_mask (BackendMask.ne_none_of_has hl)).mpr hr, hl, hs⟩
  case mpr => exact fun ⟨hr, hl, hs⟩ =>
    ⟨(Registry.has_mask (BackendMask.ne_none_of_has hl)).mp hr, hl, hs⟩

theorem usable_of_chosen (h : e.catalog.chosen? m w.registry.mask id = some k) :
    e.Usable w m id k :=
  usable_iff.mpr (List.find?_some h)

theorem chosen?_eq_none :
    e.catalog.chosen? m w.registry.mask id = none ↔ ¬∃ k, e.Usable w m id k := by
  rw [Catalog.chosen?, Catalog.backend?_eq_none, not_exists]
  exact forall_congr' fun _ => usable_iff.not.symm

theorem autoPlan_eq_error : e.autoPlan w file m id extra pinned s = .error err ↔
    e.catalog.chosen? m w.registry.mask id = none ∧
      err = .part (.unsupportedBackend ("no available backend for model " ++ m.name)) := by
  rw [autoPlan, choose]
  cases e.catalog.chosen? m w.registry.mask id
  case none   => simp [bind, Except.bind, eq_comm]
  case some k => simp [bind, Except.bind, pure, Except.pure]

-- There is a plan exactly if a backend can be used, and it has one that can. The files for the
-- device are those of the same backend, and there are none where there is no plan. What `Suits`
-- says of a device without an accelerator it says of the CPU, as long as the accelerators have
-- numbers.
theorem autoPlan_usable (e : Engine) (w : Workshop σ β) (file : String) (m : Descriptor)
    (id : DeviceId) (extra : ℕ) (pinned : Bool) (s : σ) :
    ((∃ err, e.autoPlan w file m id extra pinned s = .error err) ↔ ¬∃ k, e.Usable w m id k) ∧
    (∀ err, e.autoPlan w file m id extra pinned s = .error err →
      err = .part (.unsupportedBackend ("no available backend for model " ++ m.name)) ∧
        e.catalog.files m w.registry.mask id = []) ∧
    (∀ p, e.autoPlan w file m id extra pinned s = .ok p → e.Usable w m id p.backend ∧
      e.catalog.files m w.registry.mask id = ((m.section? p.backend).map (·.files)).getD []) ∧
    (e.catalog.count < 2 ^ 31 →
      ((∀ a, ¬e.catalog.At (e.catalog.resolve id) a) ↔ e.catalog.resolve id = .cpu)) := by
  refine ⟨?_, fun err h => ?_, fun p h => ?_, fun hc => ?_⟩
  case refine_1 => simp [autoPlan_eq_error, chosen?_eq_none]
  case refine_2 =>
    have ⟨hn, he⟩ := autoPlan_eq_error.mp h
    exact ⟨he, by simp [Catalog.files_eq, hn]⟩
  case refine_3 =>
    obtain ⟨k, hk, rfl⟩ := autoPlan_eq_ok.mp h
    exact ⟨usable_of_chosen hk, by simp [Catalog.files_eq, hk, Workshop.plan]⟩
  case refine_4 => exact Catalog.forall_not_at_iff hc (Catalog.owns_resolve hc id)

-- The second accelerator is not from NVIDIA. A model that can also do without TensorRT goes there
-- on ONNX, and one that cannot does not go there.
theorem onnx_beside_nvidia :
    let e := besideNvidia "AMD Radeon RX 6800"
    let w := StandIn.workshop ⟨[], none, [], [], false⟩ [.onnx, .tensorRt]
    let p := w.plan .onnx "m.onnx" [(.gpu 1, 1)] twoBackends false emptyBench
    let m := (Descriptor.named "m").withSection .tensorRt default
    e.autoPlan w "m.onnx" twoBackends (.gpu 1) 0 false emptyBench = .ok p ∧
      e.Usable w twoBackends (.gpu 1) .onnx ∧ ¬(∃ k, e.Usable w m (.gpu 1) k) ∧
      e.autoPlan w "m.onnx" m (.gpu 1) 0 false emptyBench =
        .error (.part (.unsupportedBackend ("no available backend for model " ++ "m"))) ∧
      e.catalog.files m w.registry.mask (.gpu 1) = [] := by
  intro e w p m
  have hc : e.catalog.chosen? twoBackends w.registry.mask (.gpu 1) = some .onnx := by
    decide +kernel
  have hl : e.catalog.instances (.gpu 1) 0 .onnx = [(.gpu 1, 1)] := by decide +kernel
  have hp : e.autoPlan w "m.onnx" twoBackends (.gpu 1) 0 false emptyBench = .ok p :=
    autoPlan_eq_ok.mpr ⟨.onnx, hc, hl ▸ rfl⟩
  have hn : e.catalog.chosen? m w.registry.mask (.gpu 1) = none := by decide +kernel
  have he : e.autoPlan w "m.onnx" m (.gpu 1) 0 false emptyBench = .error _ :=
    autoPlan_eq_error.mpr ⟨hn, rfl⟩
  have ⟨_, _, hok, _⟩ := autoPlan_usable e w "m.onnx" twoBackends (.gpu 1) 0 false emptyBench
  have ⟨hnone, herr, _⟩ := autoPlan_usable e w "m.onnx" m (.gpu 1) 0 false emptyBench
  exact ⟨hp, (hok p hp).left, hnone.mp ⟨_, he⟩, he, (herr _ he).right⟩

end Engine
end Inference
