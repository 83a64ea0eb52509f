import Inference.Device.Catalog
import Mathlib.Algebra.GroupWithZero.Nat
import Mathlib.Data.Prod.Lex

/-!
Which accelerator is preferred. The accelerators are gone through once, and one takes the place of
the best so far if it has more memory, or as much and half precision in addition, and no lower
compute level. Along the replacements the memory grows and the compute level does not fall, so an
accelerator that was passed over has less memory than the last of them or a lower compute level.
-/

namespace Inference

namespace Binary

variable {p : Precision} {x y : Binary p}

theorem lt_iff_key (hx : x.isNaN = false) (hy : y.isNaN = false) : x < y ↔ x.key < y.key := by
  change x.lt y ↔ _
  simp [lt, hx, hy]

theorem same_iff_key (hx : x.isNaN = false) (hy : y.isNaN = false) : x.same y ↔ x.key = y.key := by
  simp [same, hx, hy]

theorem isNaN_zero : (ofNat 0 : Single).isNaN = false := by decide

theorem key_zero : (ofNat 0 : Single).key = 0 := by decide

end Binary

namespace DeviceId

variable {i : ℕ}

theorem val_gpu (i : ℕ) : (gpu i).val = (i : ℤ).bmod (2 ^ 32) := by
  simp [gpu, wrap]

theorem val_gpu_of_lt (hi : i < 2 ^ 31) : (gpu i).val = i := by
  rw [val_gpu, Int.bmod_eq_of_le] <;> omega

theorem gpuIndex?_gpu (hi : i < 2 ^ 31) : (gpu i).gpuIndex? = some i := by
  simp [gpuIndex?, val_gpu_of_lt hi]

theorem gpu_ne_cpu (hi : i + 1 < 2 ^ 32) : gpu i ≠ cpu := by
  intro he
  have hv : (i : ℤ).bmod (2 ^ 32) = -1 := val_gpu i ▸ congrArg val he
  rw [Int.bmod_def] at hv
  split at hv <;> omega

end DeviceId

namespace Accelerator

variable {a b : Accelerator} {h : Host}

-- The size of the memory is a number.
def Ordinary (a : Accelerator) : Prop := a.totalMemory.isNaN = false

instance : Decidable a.Ordinary := inferInstanceAs (Decidable (_ = _))

-- What may be preferred at all.
structure Usable (h : Host) (a : Accelerator) : Prop where
  vendor : ¬a.isIntel ∨ h.isWindows ∧ h.avx2
  memory : ¬(a.discrete ∧ a.totalMemory ≤ .ofRatio false 3 2)

theorem usable_iff : a.Usable h ↔ Catalog.eligible h a := by
  have hu : a.Usable h ↔ (¬a.isIntel ∨ h.isWindows ∧ h.avx2) ∧
      ¬(a.discrete ∧ a.totalMemory.le (.ofRatio false 3 2)) :=
    ⟨fun ⟨hv, hm⟩ => ⟨hv, hm⟩, fun ⟨hv, hm⟩ => ⟨hv, hm⟩⟩
  simp [hu, Catalog.eligible, imp_iff_not_or]

-- There is more memory in `a` than in `b`, or as much, and half precision in `a` only.
def Outranks (a b : Accelerator) : Prop :=
  b.totalMemory < a.totalMemory ∨
    a.totalMemory.same b.totalMemory ∧ a.supportsFp16 ∧ ¬b.supportsFp16

-- There is some memory, or none and half precision.
def Qualifies (a : Accelerator) : Prop :=
  .ofNat 0 < a.totalMemory ∨ a.totalMemory.same (.ofNat 0) ∧ a.supportsFp16

-- What accelerators are ordered by.
def standing (a : Accelerator) : ℤ ×ₗ Bool := toLex (a.totalMemory.key, a.supportsFp16)

theorem outranks_iff (ha : a.Ordinary) (hb : b.Ordinary) :
    a.Outranks b ↔ b.standing < a.standing := by
  rw [Outranks, Binary.lt_iff_key hb ha, Binary.same_iff_key ha hb, standing, standing,
    Prod.Lex.toLex_lt_toLex, Bool.lt_iff, eq_comm (a := a.totalMemory.key)]
  simp [and_comm]

theorem qualifies_iff (ha : a.Ordinary) : a.Qualifies ↔ toLex (0, false) < a.standing := by
  rw [Qualifies, Binary.lt_iff_key Binary.isNaN_zero ha, Binary.same_iff_key ha Binary.isNaN_zero,
    Binary.key_zero, standing, Prod.Lex.toLex_lt_toLex, Bool.lt_iff,
    eq_comm (a := a.totalMemory.key)]
  simp

end Accelerator

namespace Catalog

open Accelerator

variable {h : Host} {as : List Accelerator} {a b : Accelerator} {best : Option (ℕ × Accelerator)}

-- What an accelerator is tested for against memory `m` and half precision `f` of the best so far.
theorem exceeds_iff {m : Single} {f : Bool} (ha : a.Ordinary) (hm : m.isNaN = false) :
    (!a.totalMemory.lt m && !(a.totalMemory.same m && (!a.supportsFp16 || f))) ↔
      toLex (m.key, f) < a.standing := by
  rw [Ordinary] at ha
  simp only [standing, Prod.Lex.toLex_lt_toLex, Bool.lt_iff, Binary.lt, Binary.same, ha, hm]
  cases a.supportsFp16 <;> cases f <;> simp <;> omega

theorem replaces_none (ha : a.Ordinary) : replaces none a ↔ a.Qualifies := by
  have he := exceeds_iff (f := false) ha Binary.isNaN_zero
  rw [qualifies_iff ha, ← Binary.key_zero, ← he]
  simp [replaces]

theorem replaces_some (ha : a.Ordinary) (hb : b.Ordinary) :
    replaces (some b) a ↔ a.Outranks b ∧ b.computeLevel ≤ a.computeLevel := by
  have he := exceeds_iff (m := b.totalMemory) (f := b.supportsFp16) ha hb
  rw [outranks_iff ha hb, standing, ← he]
  simp [replaces]

-- The accelerator `a` at the place `p`, which is preferred: among the usable ones only those of a
-- lower compute level outrank it, and those before it have such a level or are outranked by it.
structure Leads (h : Host) (as : List Accelerator) (p : ℕ) (a : Accelerator) : Prop where
  found       : as[p]? = some a
  usable      : a.Usable h
  qualifies   : a.Qualifies
  undominated : ∀ d ∈ as, d.Usable h → d.Outranks a → d.computeLevel < a.computeLevel
  first       : ∀ i d, i < p → as[i]? = some d → d.Usable h →
    a.Outranks d ∨ d.computeLevel < a.computeLevel

theorem Leads.mem {p : ℕ} (hl : Leads h as p a) : a ∈ as := List.mem_of_getElem? hl.found

theorem Leads.lt_length {p : ℕ} (hl : Leads h as p a) : p < as.length :=
  List.getElem?_eq_some_iff.mp hl.found |>.choose

-- What is the best of the accelerators.
def Best (h : Host) (as : List Accelerator) : Option (ℕ × Accelerator) → Prop
  | none        => ∀ d ∈ as, d.Usable h → ¬d.Qualifies
  | some (p, a) => Leads h as p a

-- The accelerator after those that were gone through, when it is not taken.
theorem Best.skip (hb : Best h as best) (ho : ∀ d ∈ as ++ [a], d.Ordinary)
    (hs : a.Usable h → ¬replaces (best.map (·.2)) a) : Best h (as ++ [a]) best := by
  have ha : a.Ordinary := ho a (by simp)
  cases best
  case none =>
    refine List.forall_mem_append.mpr ⟨hb, List.forall_mem_singleton.mpr fun hu => ?_⟩
    exact (replaces_none ha).not.mp (hs hu)
  case some best =>
    obtain ⟨p, b⟩ := best
    have hl : Leads h as p b := hb
    have hbo : b.Ordinary := ho b (List.mem_append_left _ hl.mem)
    refine ⟨?found, hl.usable, hl.qualifies, ?undominated, ?first⟩
    case found => rw [List.getElem?_append_left hl.lt_length, hl.found]
    case first =>
      intro i d hi hd
      rw [List.getElem?_append_left (hi.trans hl.lt_length)] at hd
      exact hl.first i d hi hd
    case undominated =>
      refine List.forall_mem_append.mpr ⟨hl.undominated, List.forall_mem_singleton.mpr ?_⟩
      intro hu hr
      have hn := (replaces_some ha hbo).not.mp (hs hu)
      exact Int.not_le.mp fun hle => hn ⟨hr, hle⟩

-- An accelerator that takes the place of the best so far outranks what that did, and what it does
-- not outrank was passed over for a level that is no higher than its own.
theorem Best.outranked (hb : Best h as best) (ho : ∀ d ∈ as ++ [a], d.Ordinary)
    (hr : replaces (best.map (·.2)) a) {d : Accelerator} (hd : d ∈ as) (hu : d.Usable h) :
    a.Outranks d ∨ d.computeLevel < a.computeLevel := by
  have ha : a.Ordinary := ho a (by simp)
  have hdo : d.Ordinary := ho d (List.mem_append_left _ hd)
  cases best
  case none =>
    have hq := (qualifies_iff ha).mp <| (replaces_none ha).mp hr
    have hn := (qualifies_iff hdo).not.mp (hb d hd hu)
    exact .inl <| (outranks_iff ha hdo).mpr <| (not_lt.mp hn).trans_lt hq
  case some best =>
    obtain ⟨p, b⟩ := best
    have hl : Leads h as p b := hb
    have hbo : b.Ordinary := ho b (List.mem_append_left _ hl.mem)
    have ⟨hab, hle⟩ := (replaces_some ha hbo).mp hr
    by_cases hdb : d.Outranks b
    case pos => exact .inr <| (hl.undominated d hd hu hdb).trans_le hle
    case neg =>
      rw [outranks_iff hdo hbo, not_lt] at hdb
      rw [outranks_iff ha hbo] at hab
      exact .inl <| (outranks_iff ha hdo).mpr <| hdb.trans_lt hab

-- When it is taken, it is the best.
theorem Best.take (hb : Best h as best) (ho : ∀ d ∈ as ++ [a], d.Ordinary) (hu : a.Usable h)
    (hr : replaces (best.map (·.2)) a) : Best h (as ++ [a]) (some (as.length, a)) := by
  have ha : a.Ordinary := ho a (by simp)
  refine ⟨?found, hu, ?qualifies, ?undominated, ?first⟩
  case found => simp
  case qualifies =>
    cases best
    case none => exact (replaces_none ha).mp hr
    case some best =>
      have hl : Leads h as best.1 best.2 := hb
      have hbo := ho best.2 (List.mem_append_left _ hl.mem)
      have hab := (outranks_iff ha hbo).mp <| ((replaces_some ha hbo).mp hr).left
      exact (qualifies_iff ha).mpr <| ((qualifies_iff hbo).mp hl.qualifies).trans hab
  case undominated =>
    intro d hd hud hda
    have hdo := ho d hd
    have hda' := (outranks_iff hdo ha).mp hda
    rcases List.mem_append.mp hd with hd | hd
    · refine (hb.outranked ho hr hd hud).resolve_left fun had => ?_
      exact hda'.asymm <| (outranks_iff ha hdo).mp had
    · exact (hda'.ne (congrArg standing (List.mem_singleton.mp hd)).symm).elim
  case first =>
    intro i d hi hd
    rw [List.getElem?_append_left hi] at hd
    exact hb.outranked ho hr (List.mem_of_getElem? hd)

theorem preferFrom_best (hb : Best h as best) {rest : List Accelerator}
    (ho : ∀ d ∈ as ++ rest, d.Ordinary) :
    Best h (as ++ rest) (preferFrom h best as.length rest) := by
  induction rest generalizing as best
  case nil => simpa [preferFrom] using hb
  case cons a rest hi =>
    have hs : as ++ a :: rest = as ++ [a] ++ rest := by simp
    have hl : as.length + 1 = (as ++ [a]).length := by simp
    have ho' : ∀ d ∈ as ++ [a], d.Ordinary := fun d hd => ho d (hs ▸ List.mem_append_left _ hd)
    rw [hs] at ho ⊢
    rw [preferFrom, hl]
    split
    case isTrue hc =>
      have ⟨hu, hr⟩ := (Bool.and_eq_true ..).mp hc
      exact hi (hb.take ho' (usable_iff.mpr hu) hr) ho
    case isFalse hc =>
      refine hi (hb.skip ho' fun hu hr => hc ?_) ho
      exact (Bool.and_eq_true ..).mpr ⟨usable_iff.mp hu, hr⟩

-- The preferred accelerator is the first one of an Apple host. On other hosts it is one that only
-- accelerators of a lower compute level outrank, the first of its kind, and it is the CPU if no
-- usable accelerator has memory or half precision. Its number stands for it as long as there are no
-- more accelerators than numbers.
theorem preferred_undominated (c : Catalog) :
    (c.host.isApple → c.accelerators ≠ [] → c.preferred = .gpu 0) ∧
    (¬c.host.isApple → (∀ a ∈ c.accelerators, a.Ordinary) →
      ∃ best : Option ℕ, c.preferred = best.elim .cpu .gpu ∧
        (best = none ↔ ∀ a ∈ c.accelerators, a.Usable c.host → ¬a.Qualifies) ∧
        (∀ p, best = some p → ∃ a, Leads c.host c.accelerators p a) ∧
        (c.count < 2 ^ 32 →
          (c.preferred = .cpu ↔ ∀ a ∈ c.accelerators, a.Usable c.host → ¬a.Qualifies)) ∧
        (c.count ≤ 2 ^ 31 → c.preferred.gpuIndex? = best)) := by
  refine ⟨fun ha hn => by simp [preferred, ha, hn], fun hn ho => ?_⟩
  have he : Best c.host [] none := List.forall_mem_nil _
  have hb : Best c.host c.accelerators (preferFrom c.host none 0 c.accelerators) :=
    preferFrom_best he ho
  have hp : c.preferred = (preferFrom c.host none 0 c.accelerators).elim .cpu (.gpu ·.1) := by
    simp [preferred, hn]
  cases hf : preferFrom c.host none 0 c.accelerators
  case none =>
    rw [hf] at hb hp
    refine ⟨none, hp, iff_of_true rfl hb, nofun, fun _ => iff_of_true hp hb, fun _ => ?_⟩
    rw [hp]
    rfl
  case some best =>
    obtain ⟨p, a⟩ := best
    rw [hf] at hb hp
    have hl : Leads c.host c.accelerators p a := hb
    have hq : ¬∀ a ∈ c.accelerators, a.Usable c.host → ¬a.Qualifies :=
      fun h => h a hl.mem hl.usable hl.qualifies
    have hc : p < c.count := hl.lt_length
    refine ⟨some p, hp, iff_of_false nofun hq, ?_, fun hc' => iff_of_false ?_ hq, fun hc' => ?_⟩
    case refine_1 => rintro _ ⟨⟩; exact ⟨a, hl⟩
    case refine_2 => exact hp ▸ DeviceId.gpu_ne_cpu (by omega)
    case refine_3 => exact hp ▸ DeviceId.gpuIndex?_gpu (by omega)

-- The second one is not usable on Linux, and the last one has the most memory at a lower level.
def fourAccelerators : List Accelerator :=
  [.ofMemory 0 "AMD Radeon RX 6800" (.ofNat 16),
    .ofMemory 1 "Intel Arc A770" (.ofNat 64),
    { Accelerator.ofMemory 2 "NVIDIA GeForce RTX 3080" (.ofNat 16) with
      discrete := true, computeLevel := 806, dataType := .fp16 },
    { Accelerator.ofMemory 3 "NVIDIA Quadro RTX 6000" (.ofNat 24) with
      discrete := true, computeLevel := 705, dataType := .fp16 }]

theorem half_precision_preferred :
    let c : Catalog := ⟨{}, fourAccelerators⟩
    let d : Catalog := ⟨{ cpuName := "Apple M1" }, fourAccelerators⟩
    (¬c.host.isApple ∧ (∀ a ∈ c.accelerators, a.Ordinary) ∧ c.preferred = .gpu 2 ∧
      ∃ a, Leads c.host c.accelerators 2 a) ∧
      d.host.isApple ∧ d.accelerators ≠ [] ∧ d.preferred = .gpu 0 := by
  intro c d
  have ho : ∀ a ∈ c.accelerators, a.Ordinary := by decide +kernel
  have hp : c.preferred = .gpu 2 := by decide +kernel
  have hn : ¬c.host.isApple := by decide +kernel
  have hd : d.host.isApple := by decide +kernel
  have ⟨best, _, _, hl, _, hi⟩ := (preferred_undominated c).right hn ho
  have hb : best = some 2 := (hp ▸ hi (by decide)).symm.trans (by decide +kernel)
  have hf : d.accelerators ≠ [] := nofun
  exact ⟨⟨hn, ho, hp, hl 2 hb⟩, hd, hf, (preferred_undominated d).left hd hf⟩

end Catalog
end Inference
