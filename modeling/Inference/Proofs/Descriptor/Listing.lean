import Inference.Proofs.Descriptor
import Inference.Proofs.Device.Placement

/-!
Which frameworks a descriptor lists. The mask of a descriptor has every framework whose key stands
among its sections in any case, but a section is only found under the key as it is written by the
library. So a framework that stands there only in another case is in the mask and can be chosen, but
its section is not found, and an empty one is used for it.
-/

namespace Inference

namespace Backend

variable {k : Backend} {s : String}

theorem map_toLower_key (k : Backend) : k.key.map Char.toLower = k.key := by
  apply String.toList_inj.mp
  rw [String.toList_map]
  cases k <;> decide

theorem ofKey?_eq_some : ofKey? s = some k ↔ s.map Char.toLower = k.key := by
  constructor
  case mp =>
    intro h
    simpa [eq_comm] using List.find?_some h
  case mpr =>
    intro h
    rw [ofKey?, h]
    cases k <;> decide

end Backend

namespace Descriptor

variable {m : Descriptor} {k : Backend} {s : Section}

-- A section of the framework, under its key in any case.
def Mentions (m : Descriptor) (k : Backend) (s : Section) : Prop :=
  ∃ key, (key, s) ∈ m.sections.entries ∧ key.map Char.toLower = k.key

-- There are sections of the framework, but none under the key as it is.
def Miscased (m : Descriptor) (k : Backend) : Prop :=
  (∃ s, m.Mentions k s) ∧ ∀ s, (k.key, s) ∉ m.sections.entries

-- The mask and the two ways of looking a framework up say the same.
structure Agrees (m : Descriptor) (k : Backend) : Prop where
  supported : m.backends.has k ↔ m.supports k
  found     : m.supports k ↔ ∃ s, m.section? k = some s

theorem section?_eq_some : m.section? k = some s ↔ (k.key, s) ∈ m.sections.entries :=
  Dict.get?_eq_some

theorem supports_iff : m.supports k ↔ ∃ s, m.section? k = some s :=
  Option.isSome_iff_exists

theorem mentions_of_section? (h : m.section? k = some s) : m.Mentions k s :=
  ⟨k.key, section?_eq_some.mp h, k.map_toLower_key⟩

theorem has_backends_iff (hk : k ≠ .none) : m.backends.has k ↔ ∃ s, m.Mentions k s := by
  simp only [backends, BackendMask.has_ofList, List.mem_filterMap, Backend.ofKey?_eq_some,
    Dict.keys, List.mem_map, Mentions]
  constructor
  case mp  => rintro ⟨⟨_, ⟨e, he, rfl⟩, hl⟩, _⟩; exact ⟨e.2, e.1, he, hl⟩
  case mpr => rintro ⟨s, key, hs, hl⟩; exact ⟨⟨key, ⟨(key, s), hs, rfl⟩, hl⟩, hk⟩

theorem Miscased.section?_eq_none (h : m.Miscased k) : m.section? k = none :=
  Option.eq_none_iff_forall_ne_some.mpr fun s hs => h.right s (section?_eq_some.mp hs)

theorem exists_section? (h : ∃ s, m.Mentions k s) (hn : ¬m.Miscased k) :
    ∃ s, m.section? k = some s := by
  by_contra hs
  exact hn ⟨h, fun s he => hs ⟨s, section?_eq_some.mpr he⟩⟩

theorem agrees_iff (hk : k ≠ .none) : m.Agrees k ↔ ¬m.Miscased k := by
  have hm := has_backends_iff (m := m) hk
  constructor
  case mp =>
    intro ha hc
    have ⟨s, hs⟩ := supports_iff.mp <| ha.supported.mp <| hm.mpr hc.left
    exact hc.right s (section?_eq_some.mp hs)
  case mpr =>
    intro hc
    refine ⟨⟨fun h => supports_iff.mpr (exists_section? (hm.mp h) hc), fun h => ?_⟩, supports_iff⟩
    have ⟨s, hs⟩ := supports_iff.mp h
    exact hm.mpr ⟨s, mentions_of_section? hs⟩

-- The mask of a descriptor and its sections disagree about a framework exactly if it stands there
-- only under a key in another case. If it is chosen nevertheless, then the runner gets an empty
-- section and there are no files, while any other framework that is chosen comes with a section
-- that put it in the mask.
theorem mask_agrees_iff (m : Descriptor) (hk : k ≠ .none) :
    (m.Agrees k ↔ ¬m.Miscased k) ∧
    (∀ (σ β : Type) (e : Engine) (w : Workshop σ β) (file : String) (id : DeviceId) (extra : ℕ)
      (pinned : Bool) (t : σ) (p : Plan), e.autoPlan w file m id extra pinned t = .ok p →
      p.backend = k →
        (¬m.Miscased k → m.Mentions k p.chosenSection) ∧
        (m.Miscased k → p.chosenSection = default)) ∧
    ∀ (c : Catalog) (registered : BackendMask) (id : DeviceId),
      c.chosen? m registered id = some k →
        (¬m.Miscased k → ∃ s, m.Mentions k s ∧ c.files m registered id = s.files) ∧
        (m.Miscased k → c.files m registered id = []) := by
  have hs {c : Catalog} {registered : BackendMask} {id : DeviceId}
      (hc : c.chosen? m registered id = some k) (hn : ¬m.Miscased k) :
      ∃ s, m.section? k = some s :=
    exists_section? ((has_backends_iff hk).mp <| Catalog.has_backends_of_chosen hc) hn
  refine ⟨agrees_iff hk, ?plan, ?files⟩
  case plan =>
    intro σ β e w file id extra pinned t p hp hb
    obtain ⟨k, hc, rfl⟩ := Engine.autoPlan_eq_ok.mp hp
    obtain rfl : k = _ := hb
    constructor
    case left =>
      intro hn
      obtain ⟨s, hs⟩ := hs hc hn
      simpa [Plan.chosenSection, Workshop.plan, hs] using mentions_of_section? hs
    case right =>
      intro hm
      simp [Plan.chosenSection, Workshop.plan, hm.section?_eq_none]
  case files =>
    intro c registered id hc
    constructor
    case left =>
      intro hn
      obtain ⟨s, hs⟩ := hs hc hn
      exact ⟨s, mentions_of_section? hs, by simp [Catalog.files_eq, hc, hs]⟩
    case right =>
      intro hm
      simp [Catalog.files_eq, hc, hm.section?_eq_none]

-- A section of ONNX under its key in capitals, with an alias and a file.
def capitalEntry : String × Section :=
  ("ONNX", { inputs := ⟨[("image", "input_1")], List.pairwise_singleton ..⟩
             files := ["up.onnx"]
             extra := ∅ })

def upscaler (sections : Dict Section) : Descriptor := ⟨"up", none, sections, ∅⟩

-- With a section under each spelling, the one under the key is used.
theorem both_spellings_agree :
    let s : Section := { inputs := ∅, files := ["up16.onnx"], extra := ∅ }
    let m := upscaler (.ofList [capitalEntry, ("onnx", s)])
    let c : Catalog := ⟨{}, []⟩
    Backend.onnx ≠ .none ∧ m.Agrees .onnx ∧
      c.chosen? m (.ofList [.onnx]) .cpu = some .onnx ∧
      ∃ s, m.Mentions .onnx s ∧ c.files m (.ofList [.onnx]) .cpu = s.files := by
  intro s m c
  have hk : Backend.onnx ≠ .none := by decide
  have hn : ¬m.Miscased .onnx := fun h => h.right s (by decide)
  have hc : c.chosen? m (.ofList [.onnx]) .cpu = some .onnx := by decide +kernel
  have ⟨ha, _, hf⟩ := mask_agrees_iff m hk
  exact ⟨hk, ha.mpr hn, hc, (hf c _ _ hc).left hn⟩

-- With the section in capitals alone the runner that is made has no alias, and no file is named.
theorem capital_key_overlooked :
    let m := upscaler ⟨[capitalEntry], List.pairwise_singleton ..⟩
    let e : Engine := ⟨{}, ⟨{}, []⟩, .ofBudget 0⟩
    let w := StandIn.workshop ⟨[], none, [], [], false⟩ [.onnx]
    let p := w.plan .onnx "up.onnx" [(.cpu, 1)] m false Engine.emptyBench
    (∃ text, parse? text = some m) ∧ m.backends.has .onnx ∧ ¬m.supports .onnx ∧ ¬m.Agrees .onnx ∧
      e.autoPlan w "up.onnx" m .cpu 0 false Engine.emptyBench = .ok p ∧
      m.Mentions .onnx capitalEntry.2 ∧ p.chosenSection ≠ capitalEntry.2 ∧
      e.catalog.files m w.registry.mask .cpu ≠ capitalEntry.2.files := by
  intro m e w p
  have he {p : String × Json → Prop} : ∀ e ∈ (∅ : Dict Json).entries, p e := List.forall_mem_nil p
  have hp : m.Portable := ⟨he, List.forall_mem_singleton.mpr he, by decide⟩
  have hf : m.Floatless := ⟨he, List.forall_mem_singleton.mpr he⟩
  have hl : capitalEntry.1.map Char.toLower = Backend.onnx.key := by
    apply String.toList_inj.mp
    rw [String.toList_map]
    decide
  have hm : m.Mentions .onnx capitalEntry.2 := ⟨capitalEntry.1, .head _, hl⟩
  have hk : ∀ s, (Backend.onnx.key, s) ∉ m.sections.entries := by
    simp [m, upscaler, capitalEntry, Backend.key]
  have hc : m.Miscased .onnx := ⟨⟨_, hm⟩, hk⟩
  have ho : Backend.onnx ≠ .none := by decide
  have ha : ¬m.Agrees .onnx := fun h => (agrees_iff ho).mp h hc
  have hch : e.catalog.chosen? m w.registry.mask .cpu = some .onnx := by decide +kernel
  have hi : e.catalog.instances .cpu 0 .onnx = [(.cpu, 1)] := by decide +kernel
  have hs : m.section? .onnx = none := hc.section?_eq_none
  refine ⟨⟨_, (hp.survives hf).left⟩, (has_backends_iff ho).mpr ⟨_, hm⟩, ?_, ha,
    Engine.autoPlan_eq_ok.mpr ⟨.onnx, hch, hi ▸ rfl⟩, hm, ?_, ?_⟩
  case refine_1 => simp [supports_iff, hs]
  case refine_2 => decide
  case refine_3 => decide +kernel

end Descriptor
end Inference
