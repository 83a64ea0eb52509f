import Inference.Adapter.StandIn
import Inference.Proofs.Depot.Restoring
import Inference.Runner.Basic
import Mathlib.Algebra.GroupWithZero.Nat

/-!
A runner recovers an artifact that is missing or damaged. The instances for several devices are
loaded one after the other from one depot. As long as none of them fails the files are left as they
are, and the first one that fails has the artifact restored for itself and for all that follow.
-/

namespace Inference

open Depot (Restorable Restored)

variable {σ β : Type} {w : Workshop σ β} {h : Housing σ} {p : Plan} {bytes : Bytes}
  {devices : List DeviceId} {d : Depot} {device : DeviceId} {b : β} {s : σ}

-- The instance has come out of a load.
def Adapter.Loaded (a : Adapter σ β) (b : β) : Prop :=
  ∃ b₀ buffers s, (a.load b₀ buffers s).1 = .ok b

-- The instances of a framework leave the depot alone. On certain devices they can be made, loaded
-- from certain buffers and copied.
structure Workshop.Reliable (w : Workshop σ β) (h : Housing σ) (k : Backend)
    (devices : List DeviceId) (buffers : Buffers) : Prop where
  resolver  : w.resolver = h.resolver
  depot     : ∀ s d, h.depot (h.withDepot s d) = d
  make      : ∀ s, ∃ b s', w.registry.make k s = (.ok b, s') ∧ h.depot s' = h.depot s
  supports  : ∀ b s, ∀ device ∈ devices,
    ∃ s', w.adapter.supports b device s = (true, s') ∧ h.depot s' = h.depot s
  configure : ∀ b x s, h.depot (w.adapter.configure b x s).2 = h.depot s
  moveTo    : ∀ b device s, h.depot (w.adapter.moveTo b device s).2 = h.depot s
  load      : ∀ b x s, h.depot (w.adapter.load b x s).2 = h.depot s
  accepts   : ∀ b s, ∃ b', (w.adapter.load b buffers s).1 = .ok b'
  -- A file with a key is loaded as one without.
  loadFile  : ∀ b path key s, ∃ s', h.depot s' = h.depot s ∧ w.adapter.loadFile b path key s =
    Adapter.loadPlain (fun s => (h.depot s).files) w.adapter.load b path s'
  copy      : ∀ b device s, w.adapter.Loaded b →
    ∃ c s', w.adapter.copy b device s = (.ok c, s') ∧ h.depot s' = h.depot s

-- What an instance is loaded from.
def Plan.given (p : Plan) (d : Depot) : Except RunnerError Buffers × Depot :=
  if p.descriptor.key = "" then (Depot.load p.file).alone d
  else ((readArtifact d.files p.path).mapError .part, d)

-- Nothing was fetched yet, or the artifact has been restored.
def Plan.Steady (p : Plan) (bytes : Bytes) (d₀ d : Depot) : Prop :=
  d.uncached = d₀.uncached ∨ Restored p.file p.path bytes d

namespace Plan

theorem given_uncached (p : Plan) (d : Depot) : (p.given d).2.uncached = d.uncached := by
  rw [given]
  split
  case isTrue  => exact Depot.uncached_alone_load p.file d
  case isFalse => rfl

theorem given_restored (hd : Restored p.file p.path bytes d) (hb : bytes ≠ []) :
    (p.given d).1 = .ok (artifact p.path bytes) ∧ Restored p.file p.path bytes (p.given d).2 := by
  rw [given]
  split
  case isTrue => exact hd.load hb
  case isFalse =>
    refine ⟨?_, hd⟩
    rw [readArtifact_eq_ok.mpr ⟨bytes, hd.file, hb, rfl⟩]
    rfl

end Plan

namespace Workshop.Reliable

variable {buffers : Buffers}

theorem construct (hw : w.Reliable h p.backend devices buffers) (hd : device ∈ devices) (s : σ) :
    ∃ b s', w.construct p device s = (.ok b, s') ∧ h.depot s' = h.depot s := by
  have ⟨b, s₁, hm, h₁⟩ := hw.make s
  have ⟨s₂, hs, h₂⟩ := hw.supports b s₁ device hd
  let c := w.adapter.configure b p.chosenSection s₂
  let m := w.adapter.moveTo c.1 device c.2
  refine ⟨m.1, m.2, ?_, ?_⟩
  · simp only [Workshop.construct, bind, StateT.bind, hm, hs]
    rfl
  · rw [hw.moveTo, hw.configure, h₂, h₁]

theorem loadInto (hw : w.Reliable h p.backend devices buffers) (b : β) (s : σ) :
    ∃ s', h.depot s' = (p.given (h.depot s)).2 ∧ w.loadInto p b s =
      match (p.given (h.depot s)).1 with
      | .error e => (.error e, s')
      | .ok x    => ((w.adapter.load b x s').1.mapError .part, (w.adapter.load b x s').2) := by
  rw [Workshop.loadInto, Plan.given]
  split
  case isTrue =>
    refine ⟨h.withDepot s ((Depot.load p.file).alone (h.depot s)).2, hw.depot .., ?_⟩
    rw [hw.resolver]
    simp only [bind, StateT.bind, Housing.resolver, Housing.run]
    cases ((Depot.load p.file).alone (h.depot s)).1 <;> rfl
  case isFalse =>
    obtain ⟨s', hs, hl⟩ := hw.loadFile b p.path p.descriptor.key s
    refine ⟨s', hs, ?_⟩
    simp only [bind, StateT.bind, hl, Adapter.loadPlain, get, getThe, MonadStateOf.get, StateT.get,
      pure, hs]
    cases readArtifact (h.depot s).files p.path <;> rfl

theorem loadInto_uncached (hw : w.Reliable h p.backend devices buffers) (b : β) (s : σ) :
    (h.depot (w.loadInto p b s).2).uncached = (h.depot s).uncached := by
  have ⟨s', hs, hl⟩ := hw.loadInto b s
  rw [hl, ← p.given_uncached (h.depot s), ← hs]
  split
  case h_1 => rfl
  case h_2 => rw [hw.load]

theorem loaded_of_loadInto {b' : β} (hw : w.Reliable h p.backend devices buffers)
    (hb : (w.loadInto p b s).1 = .ok b') : w.adapter.Loaded b' := by
  have ⟨s', _, hl⟩ := hw.loadInto b s
  rw [hl] at hb
  split at hb
  case h_1 => cases hb
  case h_2 x _ =>
    cases ha : (w.adapter.load b x s').1
    case error => simp [ha, Except.mapError] at hb
    case ok    =>
      simp [ha, Except.mapError] at hb
      exact ⟨b, x, s', hb ▸ ha⟩

theorem loadInto_restored (hw : w.Reliable h p.backend devices (artifact p.path bytes))
    (hb : bytes ≠ []) (hd : Restored p.file p.path bytes (h.depot s)) (b : β) :
    ∃ b' s', w.loadInto p b s = (.ok b', s') ∧ Restored p.file p.path bytes (h.depot s') := by
  have ⟨hg, hr⟩ := Plan.given_restored hd hb
  have ⟨s', hs, hl⟩ := hw.loadInto b s
  have ⟨b', ha⟩ := hw.accepts b s'
  refine ⟨b', (w.adapter.load b (artifact p.path bytes) s').2, ?_, ?_⟩
  · simp only [hl, hg, ha]
    rfl
  · rw [hw.load, hs]
    exact hr

theorem remove (hw : w.Reliable h p.backend devices buffers) (f : String) (s : σ) :
    h.depot (w.resolver.remove f s).2 = ((Depot.remove f).alone (h.depot s)).2 := by
  rw [hw.resolver]
  exact hw.depot ..

theorem download {f : String} {r : Except RunnerError Unit}
    (hw : w.Reliable h p.backend devices buffers) (m : Descriptor)
    (hr : ((Depot.download f).alone (h.depot s)).1 = r) :
    ∃ s', w.resolver.download m f s = (r, s') ∧
      h.depot s' = ((Depot.download f).alone (h.depot s)).2 := by
  rw [hw.resolver]
  exact ⟨_, Prod.ext hr rfl, hw.depot ..⟩

-- The file has been removed before.
theorem reconstruct (hw : w.Reliable h p.backend devices (artifact p.path bytes))
    (hp : p.path = d.path p.file) (hd : Restorable p.file bytes d) (hm : device ∈ devices)
    (hs : h.depot s = ((Depot.remove p.file).alone d).2) :
    ∃ b s', w.reconstruct p device s = (.ok b, s') ∧ w.adapter.Loaded b ∧
      Restored p.file p.path bytes (h.depot s') := by
  have ⟨hok, hr⟩ := hd.restored
  have ⟨b, s₁, hc, h₁⟩ := hw.construct (p := p) hm s
  rw [← hs, ← h₁] at hok hr
  have ⟨s₂, hl, h₂⟩ := hw.download p.descriptor hok
  rw [← h₂, ← hp] at hr
  have ⟨b', s₃, hl', h₃⟩ := hw.loadInto_restored hd.bytes hr b
  have hb := hw.loaded_of_loadInto (congrArg Prod.fst hl')
  refine ⟨b', s₃, ?_, hb, h₃⟩
  simp only [Workshop.reconstruct, bind, StateT.bind, hc, hl]
  exact hl'

variable {d₀ : Depot}

-- The artifact is fetched for an instance that cannot be loaded, and for no other one.
theorem makeInstance (hw : w.Reliable h p.backend devices (artifact p.path bytes))
    (hp : p.path = d₀.path p.file) (h₀ : Restorable p.file bytes d₀) (hm : device ∈ devices)
    (hs : p.Steady bytes d₀ (h.depot s)) :
    ∃ b s', w.makeInstance p device s = (.ok b, s') ∧ w.adapter.Loaded b ∧
      p.Steady bytes d₀ (h.depot s') := by
  have ⟨b, s₁, hc, h₁⟩ := hw.construct (p := p) hm s
  rw [← h₁] at hs
  rcases hs with hs | hs
  case inl =>
    have hu := (hw.loadInto_uncached b s₁).trans hs
    rcases hl : w.loadInto p b s₁ with ⟨_ | b', s₂⟩
    all_goals rw [hl] at hu
    case ok =>
      have hb := hw.loaded_of_loadInto (congrArg Prod.fst hl)
      refine ⟨b', s₂, ?_, hb, .inl hu⟩
      simp only [Workshop.makeInstance, bind, StateT.bind, hc, hl]
      rfl
    case error =>
      have hp : p.path = (h.depot s₂).path p.file :=
        hp.trans (congrArg (·.path p.file) hu).symm
      have h₂ := hw.remove p.file s₂
      rcases hr : w.resolver.remove p.file s₂ with ⟨_, s₃⟩
      rw [hr] at h₂
      have ⟨b', s₄, hl', hb, h₄⟩ := hw.reconstruct hp (h₀.of_uncached_eq hu) hm h₂
      refine ⟨b', s₄, ?_, hb, .inr h₄⟩
      simp only [Workshop.makeInstance, bind, StateT.bind, hc, hl, hr, hl']
      rfl
  case inr =>
    have ⟨b', s₂, hl, h₂⟩ := hw.loadInto_restored h₀.bytes hs b
    have hb := hw.loaded_of_loadInto (congrArg Prod.fst hl)
    refine ⟨b', s₂, ?_, hb, .inr h₂⟩
    simp only [Workshop.makeInstance, bind, StateT.bind, hc, hl]
    rfl

theorem copies (hw : w.Reliable h p.backend devices buffers) (hb : w.adapter.Loaded b)
    (device : DeviceId) (n : ℕ) (s : σ) :
    ∃ l s', w.copies p b device n s = (.ok l, s') ∧ l.length = n ∧ h.depot s' = h.depot s := by
  induction n generalizing s
  case zero => exact ⟨[], s, rfl, rfl, rfl⟩
  case succ n hi =>
    have ⟨c, s₁, hc, h₁⟩ := hw.copy b device s hb
    have ⟨l, s₂, hl, hn, h₂⟩ := hi s₁
    refine ⟨c :: l, s₂, ?_, congrArg (· + 1) hn, h₂.trans h₁⟩
    simp only [Workshop.copies, bind, StateT.bind, hc, hl]
    rfl

theorem instancesOn (hw : w.Reliable h p.backend devices (artifact p.path bytes))
    (hp : p.path = d₀.path p.file) (h₀ : Restorable p.file bytes d₀) (hm : device ∈ devices)
    (n : ℕ) (hs : p.Steady bytes d₀ (h.depot s)) :
    ∃ l s', w.instancesOn p device n s = (.ok l, s') ∧ l.length = n ∧
      p.Steady bytes d₀ (h.depot s') := by
  cases n
  case zero => exact ⟨[], s, rfl, rfl, hs⟩
  case succ n =>
    have ⟨b, s₁, hb, hl, h₁⟩ := hw.makeInstance hp h₀ hm hs
    have ⟨l, s₂, hc, hn, h₂⟩ := hw.copies hl device n s₁
    refine ⟨b :: l, s₂, ?_, congrArg (· + 1) hn, h₂ ▸ h₁⟩
    simp only [Workshop.instancesOn, bind, StateT.bind, hb, hc]
    rfl

theorem instancesFor {a : Allocation} (hw : w.Reliable h p.backend devices (artifact p.path bytes))
    (hp : p.path = d₀.path p.file) (h₀ : Restorable p.file bytes d₀)
    (ha : ∀ x ∈ a, x.1 ∈ devices) (hs : p.Steady bytes d₀ (h.depot s)) :
    ∃ l s', w.instancesFor p a s = (.ok l, s') ∧ l.length = (a.map (·.2)).sum ∧
      p.Steady bytes d₀ (h.depot s') := by
  induction a generalizing s
  case nil => exact ⟨[], s, rfl, rfl, hs⟩
  case cons x a hi =>
    rw [List.forall_mem_cons] at ha
    have ⟨l, s₁, hl, hn, h₁⟩ := hw.instancesOn hp h₀ ha.left x.2 hs
    have ⟨m, s₂, hm, hn', h₂⟩ := hi ha.right h₁
    refine ⟨l.map (x.1, ·) ++ m, s₂, ?_, by simp [hn, hn'], h₂⟩
    simp only [Workshop.instancesFor, bind, StateT.bind, hl, hm]
    rfl

end Workshop.Reliable

namespace Runner

-- A runner comes to all its instances, whatever is in the file of its model, in the part of the
-- file or in the cache. If the source was asked at all, the file has what the source supplies in
-- the end, its part is gone, and nothing else is remembered of it.
theorem load_recovers (w : Workshop σ β) (h : Housing σ) (r : Runner β) (s : σ) (bytes : Bytes)
    (hw : w.Reliable h r.plan.backend (r.plan.allocation.map (·.1)) (artifact r.plan.path bytes))
    (hp : r.plan.path = (h.depot s).path r.plan.file)
    (hd : Restorable r.plan.file bytes (h.depot s)) :
    ∃ r' s', r.load w s = ((.ok (), r'), s') ∧
      r'.slots.length = (r.plan.allocation.map (·.2)).sum ∧
      ((h.depot s').asked ≠ (h.depot s).asked →
        Restored r.plan.file r.plan.path bytes (h.depot s')) := by
  have ⟨l, s', hl, hn, hs⟩ := hw.instancesFor hp hd
    (fun x hx => List.mem_map_of_mem hx) (.inl rfl)
  let r' : Runner β := { r with slots := w.slots l, gate := r.gate.emptied.loaded l.length }
  refine ⟨r', s', ?_, ?_, fun ha => hs.resolve_left fun hu => ha ?_⟩
  · simp only [load, bind, StateT.bind, hl]
    rfl
  · simpa [r', Workshop.slots] using hn
  · exact congrArg (·.asked) hu

end Runner

namespace StandIn

variable {r : StandInRules} {buffers : Buffers} {k : Backend}

theorem make_ok (hm : r.failingMakes = []) (s : Bench) :
    make r s = (.ok ⟨s.nextId, .cpu, false⟩, { s with
      counts := { s.counts with made := s.counts.made + 1 }
      nextId := s.nextId + 1 }) := by
  simp [make, hm]
  rfl

theorem load_ok (hb : ∀ e ∈ buffers.entries, ¬damage.isPrefixOf e.2) (b : StandIn) (s : Bench) :
    (load b buffers s).1 = .ok { b with isLoaded := true } := by
  have hb : (buffers.entries.any fun e => damage.isPrefixOf e.2) = false := by
    simpa using hb
  simp [load, hb]
  rfl

theorem load_depot (b : StandIn) (buffers : Buffers) (s : Bench) :
    (load b buffers s).2.depot = s.depot := by
  rw [load]
  cases buffers.entries.any fun e => damage.isPrefixOf e.2 <;> rfl

theorem copy_ok (hc : r.copyLimit = none) (b : StandIn) (device : DeviceId) (s : Bench) :
    copy r b device s = (.ok { b with id := s.nextId, device := device }, { s with
      counts := { s.counts with copied := s.counts.copied + 1 }
      nextId := s.nextId + 1 }) := by
  simp [copy, hc]
  rfl

-- The framework is reliable where it was not told to fail, for buffers that are not damaged.
theorem reliable (k : Backend) (hm : r.failingMakes = [])
    (hs : ∀ device ∈ devices, device ∉ r.unsupported)
    (hc : r.copyLimit = none) (hb : ∀ e ∈ buffers.entries, ¬damage.isPrefixOf e.2) :
    (workshop r [k]).Reliable housing k devices buffers where
  resolver                := rfl
  depot _ _               := rfl
  make s                  := by
    have hk : (workshop r [k]).registry.make k s = make r s := by
      simp [workshop, Registry.make, Registry.register]
    exact ⟨_, _, hk.trans (make_ok hm s), rfl⟩
  supports b s device hd  := by
    have h : (workshop r [k]).adapter.supports b device s = (true, s) := by
      simp [workshop, adapter, hs device hd]
      rfl
    exact ⟨s, h, rfl⟩
  configure _ _ _         := rfl
  moveTo _ _ _            := rfl
  load                    := load_depot
  accepts b s             := ⟨_, load_ok hb b s⟩
  loadFile b path key s   :=
    ⟨{ s with counts := { s.counts with keys := s.counts.keys ++ [key] } }, rfl, rfl⟩
  copy b device s _       := ⟨_, _, copy_ok hc b device s, rfl⟩

end StandIn

namespace Runner

-- Bytes that no instance is loaded from are in the file and, others, in the cache. The part of an
-- earlier download is still there.
def damaged : Bench :=
  let stored (name : String) : Node := .file (Bytes.ofText name)
  let cached : Buffers := .ofList [("m.bin", Bytes.ofText "corrupt copy")]
  let depot := {
    Depot.renewable with
    attempts := 3
    source := some (.series [.refuse, .nothing, .write (Bytes.ofText "weights")])
    cache := some ((Cache.ofBudget 1000).add "m.bin" cached).2
    files := ⟨.ofList [("local", .dir), ("local/m.bin", stored "corrupt file"),
      ("local/m.bin.part", stored "half")]⟩ }
  ⟨depot, StandIn.noCounts, 0⟩

def renewing (key : String) : Plan where
  backend := .onnx
  file := "m.bin"
  path := "local/m.bin"
  allocation := [(.cpu, 2), (.gpu 0, 0), (.gpu 1, 3)]
  descriptor := { Descriptor.named "m" with password := some key }
  pinned := true

theorem restorable_damaged : Restorable "m.bin" (Bytes.ofText "weights") damaged.depot where
  allowed := rfl
  source  := ⟨_, rfl, .later (by decide +kernel) <| .later (by decide +kernel) <|
    .now (by decide +kernel)⟩
  bytes   := by decide +kernel
  file    := ⟨"local/m.bin", by decide +kernel⟩
  part    := ⟨"local/m.bin.part", by decide +kernel⟩

theorem damaged_recovers :
    let w := StandIn.workshop ⟨[.gpu 2], none, [], [], true⟩ [.onnx]
    ∀ key ∈ ["", "secret"], ∃ r s,
      (Runner.ofPlan (renewing key)).load w damaged = ((.ok (), r), s) ∧ r.slots.length = 5 ∧
      s.depot.asked = ["m.bin", "m.bin", "m.bin"] ∧
      Restored "m.bin" "local/m.bin" (Bytes.ofText "weights") s.depot := by
  intro w key hk
  have hw : w.Reliable StandIn.housing .onnx [.cpu, .gpu 0, .gpu 1]
      (artifact "local/m.bin" (Bytes.ofText "weights")) :=
    StandIn.reliable .onnx rfl (by decide) rfl (by decide +kernel)
  have hp : "local/m.bin" = damaged.depot.path "m.bin" := by decide +kernel
  have ⟨r, s, hl, hn, hr⟩ := load_recovers w StandIn.housing (.ofPlan (renewing key)) damaged
    (Bytes.ofText "weights") hw hp restorable_damaged
  have ha : ∀ key ∈ ["", "secret"], ((Runner.ofPlan (renewing key)).load w damaged).2.depot.asked =
      ["m.bin", "m.bin", "m.bin"] := by decide +kernel
  have ha := ha key hk
  rw [hl] at ha
  exact ⟨r, s, hl, hn, ha, hr (by rw [StandIn.housing, ha]; decide)⟩

end Runner

end Inference
