import Inference.Adapter.Basic
import Inference.Adapter.Registry
import Inference.Device.Placement

/-!
How a loaded instance is made. If the artifact cannot be loaded it is taken for missing or damaged:
the local copy is removed, the artifact is fetched again, and a new instance is loaded from it.
-/

namespace Inference

-- Where artifacts come from.
structure Resolver (σ : Type) where
  path : σ → String → String
  load : String → StateM σ (Except RunnerError Buffers)
  remove : String → StateM σ (Except RunnerError Unit)
  download : Descriptor → String → StateM σ (Except RunnerError Unit)

structure Workshop (σ β : Type) where
  registry : Registry (StateM σ (Except Error β))
  adapter : Adapter σ β
  resolver : Resolver σ

-- What a runner is to run, and on which devices.
structure Plan where
  backend : Backend
  file : String
  path : String
  allocation : Allocation
  descriptor : Descriptor
  -- Whether inputs are pinned to instances.
  pinned : Bool

namespace Plan

def chosenSection (p : Plan) : Section := (p.descriptor.section? p.backend).getD default

def loadError (p : Plan) : RunnerError := .modelLoad p.backend p.file

end Plan

namespace Workshop

variable {σ β : Type} (w : Workshop σ β) (p : Plan)

def plan (backend : Backend) (file : String) (allocation : Allocation) (m : Descriptor)
    (pinned : Bool) (s : σ) : Plan :=
  ⟨backend, file, w.resolver.path s file, allocation, m, pinned⟩

-- An instance for a device, not loaded.
def construct (d : DeviceId) : StateM σ (Except RunnerError β) := do
  match ← w.registry.make p.backend with
  | .error e => return .error (.part e)
  | .ok b =>
    if ← w.adapter.supports b d then
      let b ← w.adapter.configure b p.chosenSection
      return .ok (← w.adapter.moveTo b d)
    else return .error (.part (.unsupportedDevice p.backend d))

-- An artifact without a key comes through the resolver; one with a key is left to the instance.
def loadInto (b : β) : StateM σ (Except RunnerError β) := do
  if p.descriptor.key = "" then
    match ← w.resolver.load p.file with
    | .error e => return .error e
    | .ok buffers => return (← w.adapter.load b buffers).mapError .part
  else return (← w.adapter.loadFile b p.path p.descriptor.key).mapError .part

-- A new instance from the artifact as it is fetched again.
def reconstruct (d : DeviceId) : StateM σ (Except RunnerError β) := do
  match ← w.construct p d with
  | .error e => return .error e
  | .ok b =>
    match ← w.resolver.download p.descriptor p.file with
    | .error e => return .error e
    | .ok _ => w.loadInto p b

-- The error of the first construction is its own; any later failure is one to load the model.
def makeInstance (d : DeviceId) : StateM σ (Except RunnerError β) := do
  match ← w.construct p d with
  | .error e => return .error e
  | .ok b =>
    match ← w.loadInto p b with
    | .ok b => return .ok b
    | .error _ =>
      let _ ← w.resolver.remove p.file
      return (← w.reconstruct p d).mapError fun _ => p.loadError

end Workshop
end Inference
