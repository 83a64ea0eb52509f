import Inference.Proofs.Device.Placement
import Inference.Proofs.Device.Preference
import Mathlib.Data.List.Nodup

/-!
On which devices instances go, and how many. What a number stands for is the CPU or an accelerator
of the host, and each device takes at least one instance, and the extra ones. But the sum of them is
a number of 64 bits, and where it has no room there a device gets too few instances, or none, and a
build with overflow checks breaks off.
-/

namespace Inference

namespace DeviceId

variable {i j : ℕ}

theorem gpu_inj (hi : i < 2 ^ 31) (hj : j < 2 ^ 31) (h : gpu i = gpu j) : i = j := by
  have hv := congrArg val h
  rw [val_gpu_of_lt hi, val_gpu_of_lt hj] at hv
  exact Int.natCast_inj.mp hv

theorem val_all {n : ℕ} (hn : n < 2 ^ 31) : (all n).val = n := by
  rw [show all n = gpu n from rfl, val_gpu_of_lt hn]

theorem eq_iff_val {id id' : DeviceId} : id = id' ↔ id.val = id'.val := by
  rw [← mk.injEq]

end DeviceId

namespace Catalog

variable {c : Catalog} {id d : DeviceId} {k : Backend} {extra : ℕ}

-- The CPU, or an accelerator of the host.
def Owns (c : Catalog) (d : DeviceId) : Prop := d = .cpu ∨ ∃ i < c.count, d = .gpu i

theorem not_isMeta_iff (hc : c.count < 2 ^ 31) : c.isMeta d = false ↔ c.Owns d := by
  have hm : c.isMeta d = false ↔ -1 ≤ d.val ∧ d.val < c.count := by
    simp [isMeta, DeviceId.val_all hc]
  rw [hm]
  constructor
  case mp =>
    intro ⟨hl, hu⟩
    by_cases h : d.val = -1
    case pos => exact .inl <| DeviceId.eq_iff_val.mpr h
    case neg =>
      have hi : d.val.toNat < c.count := by omega
      refine .inr ⟨d.val.toNat, hi, DeviceId.eq_iff_val.mpr ?_⟩
      rw [DeviceId.val_gpu_of_lt (hi.trans hc)]
      omega
  case mpr =>
    rintro (rfl | ⟨i, hi, rfl⟩)
    · have hv : DeviceId.cpu.val = -1 := rfl
      omega
    · rw [DeviceId.val_gpu_of_lt (hi.trans hc)]
      omega

theorem lt_of_preferFrom {h : Host} {as : List Accelerator} {best : Option (ℕ × Accelerator)}
    {i n : ℕ} (hb : ∀ b ∈ best, b.1 < n) (hn : i + as.length = n) :
    ∀ b ∈ preferFrom h best i as, b.1 < n := by
  induction as generalizing best i
  case nil => exact hb
  case cons a as hi =>
    rw [List.length_cons] at hn
    rw [preferFrom]
    split
    · exact hi (fun b hb => by cases hb; omega) (by omega)
    · exact hi hb (by omega)

-- The preferred device is one of the host.
theorem owns_preferred (c : Catalog) : c.Owns c.preferred := by
  rw [preferred]
  split
  case isTrue h =>
    have hn : c.accelerators ≠ [] := of_decide_eq_true (Bool.and_eq_true _ _ ▸ h).right
    exact .inr ⟨0, List.length_pos_iff.mpr hn, rfl⟩
  case isFalse =>
    have hp : ∀ b ∈ preferFrom c.host none 0 c.accelerators, b.1 < c.count :=
      lt_of_preferFrom (by simp) (Nat.zero_add c.count)
    cases hf : preferFrom c.host none 0 c.accelerators
    case none   => exact .inl rfl
    case some b => exact .inr ⟨b.1, hp b hf, rfl⟩

theorem owns_resolve (hc : c.count < 2 ^ 31) (id : DeviceId) : c.Owns (c.resolve id) := by
  rw [resolve]
  split
  case isTrue    => exact c.owns_preferred
  case isFalse h => exact (not_isMeta_iff hc).mp (by simpa using h)

theorem one_le_threads (c : Catalog) (id : DeviceId) : 1 ≤ c.threads id := by
  rw [threads]
  split
  case isTrue => rfl
  case isFalse =>
    split
    case h_1 => split <;> omega
    case h_2 =>
      split
      · omega
      · split <;> omega

-- The devices that a number asks for.
theorem targets_eq (hc : c.count < 2 ^ 31) (id : DeviceId) (k : Backend) :
    c.targets id k = if !k.usesAccelerators then [.cpu]
      else if 0 < c.count ∧ id.val = c.count then (List.range c.count).map .gpu
      else [c.resolve id] := by
  simp only [targets, DeviceId.eq_iff_val, DeviceId.val_all hc]

theorem targets_ne_nil (c : Catalog) (id : DeviceId) (k : Backend) : c.targets id k ≠ [] := by
  rw [targets]
  split
  case isTrue => exact List.cons_ne_nil _ _
  case isFalse =>
    split
    case isTrue h  => simpa using h.left.ne'
    case isFalse   => exact List.cons_ne_nil _ _

theorem nodup_targets (hc : c.count < 2 ^ 31) : (c.targets id k).Nodup := by
  rw [targets]
  split
  case isTrue => exact List.pairwise_singleton ..
  case isFalse =>
    split
    case isTrue =>
      refine List.Nodup.map_on (fun i hi j hj => ?_) List.nodup_range
      rw [List.mem_range] at hi hj
      exact DeviceId.gpu_inj (hi.trans hc) (hj.trans hc)
    case isFalse => exact List.pairwise_singleton ..

theorem owns_target (hc : c.count < 2 ^ 31) : ∀ d ∈ c.targets id k, c.Owns d := by
  refine forall_targets.mpr ?_
  split
  case isTrue =>
    split
    case isTrue  => exact fun i hi => .inr ⟨i, hi, rfl⟩
    case isFalse => exact owns_resolve hc id
  case isFalse => exact .inl rfl

theorem map_fst_instances (c : Catalog) (id : DeviceId) (extra : ℕ) (k : Backend) :
    (c.instances id extra k).map (·.1) = c.targets id k := by
  simp [instances, Function.comp_def]

theorem forall_instances {P : DeviceId × ℕ → Prop} : (∀ q ∈ c.instances id extra k, P q) ↔
    ∀ d ∈ c.targets id k, P (d, (c.threads d + extra) % 2 ^ 64) :=
  List.forall_mem_map

-- A build with overflow checks has the same allocation exactly if there is room for each sum.
theorem instances?_eq_some {l : Allocation} : c.instances? id extra k = some l ↔
    (∀ q ∈ c.instances id extra k, c.threads q.1 + extra < 2 ^ 64) ∧
      l = c.instances id extra k := by
  rw [forall_instances (P := fun q => c.threads q.1 + extra < 2 ^ 64), instances?]
  split
  case isTrue h  => simpa [eq_comm] using fun _ => h
  case isFalse h => exact iff_of_false nofun fun h' => h h'.left

-- Each number stands for a device of the host, and the instances go to that device, to the CPU or
-- to all accelerators. Each device has a share that is not 0, and it takes the extra instances in
-- addition, for all of them exactly unless the sum is too great for one of them. In that case a
-- build with overflow checks breaks off, and only then.
theorem instances_usable (c : Catalog) (hc : c.count < 2 ^ 31) (id : DeviceId) (extra : ℕ)
    (k : Backend) :
    c.isMeta (c.resolve id) = false ∧ c.resolve (c.resolve id) = c.resolve id ∧
    (c.instances id extra k).map (·.1) =
      (if !k.usesAccelerators then [.cpu]
      else if 0 < c.count ∧ id.val = c.count then (List.range c.count).map .gpu
      else [c.resolve id]) ∧
    c.instances id extra k ≠ [] ∧ ((c.instances id extra k).map (·.1)).Nodup ∧
    (∀ q ∈ c.instances id extra k, c.Owns q.1 ∧ 1 ≤ c.threads q.1 ∧
      q.2 = (c.threads q.1 + extra) % 2 ^ 64) ∧
    ((∀ q ∈ c.instances id extra k, q.2 = c.threads q.1 + extra ∧ 1 + extra ≤ q.2) ↔
      ∀ q ∈ c.instances id extra k, c.threads q.1 + extra < 2 ^ 64) ∧
    ∀ l, c.instances? id extra k = some l ↔
      (∀ q ∈ c.instances id extra k, c.threads q.1 + extra < 2 ^ 64) ∧
        l = c.instances id extra k := by
  have hm := map_fst_instances c id extra k
  refine ⟨(not_isMeta_iff hc).mpr (owns_resolve hc id), resolve_resolve c id,
    hm.trans (targets_eq hc id k), ?_, hm ▸ nodup_targets hc, ?_, ?_,
    fun _ => instances?_eq_some⟩
  case refine_1 =>
    intro hn
    rw [hn] at hm
    exact targets_ne_nil c id k hm.symm
  case refine_2 =>
    exact forall_instances.mpr fun d hd => ⟨owns_target hc d hd, c.one_le_threads d, rfl⟩
  case refine_3 =>
    simp only [forall_instances]
    refine forall₂_congr fun d _ => ?_
    have ht := c.one_le_threads d
    constructor
    case mp =>
      intro ⟨he, _⟩
      rw [← he]
      exact Nat.mod_lt _ (by decide)
    case mpr =>
      intro hl
      rw [Nat.mod_eq_of_lt hl]
      omega

-- Number 2 stands for both accelerators of a host, and each takes two extra instances.
theorem two_accelerators_share :
    let c : Catalog := ⟨{ threads := 8 }, [.ofMemory 0 "NVIDIA GeForce RTX 3080" (.ofNat 10),
      .ofMemory 1 "AMD Radeon RX 580" (.ofNat 4)]⟩
    c.count < 2 ^ 31 ∧ c.instances ⟨2⟩ 2 .onnx = [(.gpu 0, 4), (.gpu 1, 3)] ∧
      ((c.instances ⟨2⟩ 2 .onnx).map (·.1)).Nodup ∧
      ∀ q ∈ c.instances ⟨2⟩ 2 .onnx, q.2 = c.threads q.1 + 2 ∧ 1 + 2 ≤ q.2 := by
  intro c
  have hc : c.count < 2 ^ 31 := by decide
  have hi : c.instances ⟨2⟩ 2 .onnx = [(.gpu 0, 4), (.gpu 1, 3)] := by decide +kernel
  have ht : ∀ q ∈ c.instances ⟨2⟩ 2 .onnx, c.threads q.1 + 2 < 2 ^ 64 := by decide +kernel
  have ⟨_, _, _, _, hn, _, hs, _⟩ := instances_usable c hc ⟨2⟩ 2 .onnx
  exact ⟨hc, hi, hn, hs.mpr ht⟩

-- With as many extra instances as a number of 64 bits can say, the CPU gets none at all, or else
-- the build breaks off.
theorem no_room_for_extra :
    let c : Catalog := ⟨{}, []⟩
    let extra := 2 ^ 64 - 1
    c.count < 2 ^ 31 ∧ c.threads .cpu = 1 ∧ c.instances .cpu extra .onnx = [(.cpu, 0)] ∧
      c.instances? .cpu extra .onnx = none ∧
      ¬∀ q ∈ c.instances .cpu extra .onnx, q.2 = c.threads q.1 + extra ∧ 1 + extra ≤ q.2 := by
  intro c extra
  have hi : c.instances .cpu extra .onnx = [(.cpu, 0)] := by decide +kernel
  have hn : c.instances? .cpu extra .onnx = none := by decide +kernel
  refine ⟨by decide, rfl, hi, hn, fun h => ?_⟩
  have ⟨_, hl⟩ := h (.cpu, 0) (hi ▸ List.mem_singleton_self _)
  exact absurd hl (by decide)

end Catalog
end Inference
